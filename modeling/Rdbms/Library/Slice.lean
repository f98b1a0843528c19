import Mathlib.Data.List.Basic
import Mathlib.Data.UInt
import Mathlib.Tactic.Common

/-!
# Reading and overwriting a window of a list

`slice xs off len` is the window of length `len` at the offset `off`, and
`splice xs off ys` is `xs` with the window at `off` overwritten by `ys`. Both are
read position by position: `getElem?_slice` and `getElem?_splice` say what stands
at each index, and every other law of the two is an instance of these.

`writeAt xs off ys` overwrites a growable list: a gap between the end of `xs` and
the offset is filled first, and an empty `ys` changes nothing.
-/

namespace Library

section Slice

variable {α : Type*}

/-- The window of length `len` at the offset `off`. -/
def slice (xs : List α) (off len : Nat) : List α := (xs.drop off).take len

/-- The list with the window at `off` overwritten by `ys`. -/
def splice (xs : List α) (off : Nat) (ys : List α) : List α :=
  xs.take off ++ (ys ++ xs.drop (off + ys.length))

theorem getElem?_slice (xs : List α) (off len i : Nat) :
    (slice xs off len)[i]? = if i < len then xs[off + i]? else none := by
  unfold slice
  rw [List.getElem?_take]
  split
  · rw [List.getElem?_drop]
  · rfl

theorem length_slice {xs : List α} {off len : Nat} (h : off + len ≤ xs.length) :
    (slice xs off len).length = len := by
  simp only [slice, List.length_take, List.length_drop]
  omega

theorem getElem?_splice {xs ys : List α} {off : Nat} (h : off ≤ xs.length) (i : Nat) :
    (splice xs off ys)[i]? =
      if i < off then xs[i]? else if i < off + ys.length then ys[i - off]? else xs[i]? := by
  have hlen : (xs.take off).length = off := by simp [h]
  unfold splice
  by_cases hi : i < off
  · rw [if_pos hi, List.getElem?_append_left (by omega), List.getElem?_take, if_pos hi]
  · rw [if_neg hi, List.getElem?_append_right (by omega), hlen]
    by_cases hj : i < off + ys.length
    · rw [if_pos hj, List.getElem?_append_left (by omega)]
    · rw [if_neg hj, List.getElem?_append_right (by omega), List.getElem?_drop]
      congr 1
      omega

@[simp] theorem length_splice {xs ys : List α} {off : Nat}
    (h : off + ys.length ≤ xs.length) : (splice xs off ys).length = xs.length := by
  simp only [splice, List.length_append, List.length_take, List.length_drop]
  omega

/-- The window just written reads back what was written. -/
theorem slice_splice_self {xs ys : List α} {off : Nat} (h : off ≤ xs.length) :
    slice (splice xs off ys) off ys.length = ys := by
  apply List.ext_getElem?
  intro i
  rw [getElem?_slice, getElem?_splice h]
  by_cases hi : i < ys.length
  · simp [hi, show ¬ off + i < off by omega]
  · simp only [hi, if_false]
    rw [List.getElem?_eq_none (by omega)]

/-- A window before the overwritten one is unchanged. -/
theorem slice_splice_of_le {xs ys : List α} {off i n : Nat} (h : off ≤ xs.length)
    (hi : i + n ≤ off) : slice (splice xs off ys) i n = slice xs i n := by
  apply List.ext_getElem?
  intro j
  rw [getElem?_slice, getElem?_slice, getElem?_splice h]
  by_cases hj : j < n
  · simp [hj, show i + j < off by omega]
  · simp [hj]

/-- A window after the overwritten one is unchanged. -/
theorem slice_splice_of_ge {xs ys : List α} {off i n : Nat} (h : off ≤ xs.length)
    (hi : off + ys.length ≤ i) : slice (splice xs off ys) i n = slice xs i n := by
  apply List.ext_getElem?
  intro j
  rw [getElem?_slice, getElem?_slice, getElem?_splice h]
  simp [show ¬ i + j < off by omega, show ¬ i + j < off + ys.length by omega]

/-- The second of two writes of one window wins. -/
theorem splice_splice_same {xs ys zs : List α} {off : Nat} (h : off + ys.length ≤ xs.length)
    (hlen : ys.length = zs.length) : splice (splice xs off ys) off zs = splice xs off zs := by
  apply List.ext_getElem?
  intro i
  have hl : off ≤ (splice xs off ys).length := by rw [length_splice h]; omega
  rw [getElem?_splice hl, getElem?_splice (by omega), getElem?_splice (by omega), hlen]
  split
  · rfl
  · split <;> rfl

theorem slice_append_left {xs ys : List α} {i n : Nat} (h : i + n ≤ xs.length) :
    slice (xs ++ ys) i n = slice xs i n := by
  apply List.ext_getElem?
  intro j
  rw [getElem?_slice, getElem?_slice]
  by_cases hj : j < n
  · rw [if_pos hj, if_pos hj, List.getElem?_append_left (by omega)]
  · rw [if_neg hj, if_neg hj]

/-- The window that starts where the first part ends is a window of the second. -/
theorem slice_append_right (xs ys : List α) (i n : Nat) :
    slice (xs ++ ys) (xs.length + i) n = slice ys i n := by
  rw [slice, slice, List.drop_length_add_append]

/-- A window of a window. -/
theorem slice_slice {xs : List α} {off n i k : Nat} (h : i + k ≤ n) :
    slice (slice xs off n) i k = slice xs (off + i) k := by
  apply List.ext_getElem?
  intro j
  rw [getElem?_slice, getElem?_slice, getElem?_slice]
  by_cases hj : j < k
  · rw [if_pos hj, if_pos hj, if_pos (by omega), Nat.add_assoc]
  · rw [if_neg hj, if_neg hj]

/-- The middle one of three parts is the window it takes. -/
theorem slice_middle (xs ys zs : List α) {i n : Nat} (hi : xs.length = i) (hn : ys.length = n) :
    slice (xs ++ (ys ++ zs)) i n = ys := by
  subst hi hn
  simp [slice]

theorem slice_zero_length (xs : List α) : slice xs 0 xs.length = xs := by
  simp [slice]

end Slice

section Growable

variable {α : Type*} [Zero α]

/-- The list filled up with zeros to the length `n`. -/
def padTo (n : Nat) (xs : List α) : List α := xs ++ List.replicate (n - xs.length) 0

@[simp] theorem length_padTo (n : Nat) (xs : List α) :
    (padTo n xs).length = max n xs.length := by
  simp only [padTo, List.length_append, List.length_replicate]
  omega

/-- Overwrite a growable list; the gap before `off` is filled with zeros. -/
def writeAt (xs : List α) (off : Nat) (ys : List α) : List α :=
  if ys = [] then xs else padTo off (xs.take off) ++ (ys ++ xs.drop (off + ys.length))

/-- The list is filled up first and overwritten then. -/
theorem writeAt_eq_splice {xs ys : List α} {off : Nat} (h : ys ≠ []) :
    writeAt xs off ys = splice (padTo (off + ys.length) xs) off ys := by
  have hfront : (padTo (off + ys.length) xs).take off = padTo off (xs.take off) := by
    rw [padTo, padTo, List.take_append, List.take_replicate, List.length_take]
    congr 2
    omega
  have hrest : (padTo (off + ys.length) xs).drop (off + ys.length) = xs.drop (off + ys.length) := by
    rw [padTo, List.drop_append, List.drop_replicate, Nat.sub_self, List.replicate_zero,
      List.append_nil]
  rw [writeAt, if_neg h, splice, hfront, hrest]

theorem length_writeAt {xs ys : List α} {off : Nat} (h : ys ≠ []) :
    (writeAt xs off ys).length = max (off + ys.length) xs.length := by
  rw [writeAt_eq_splice h, length_splice (by rw [length_padTo]; omega), length_padTo]

/-- A write past the end appends the gap and the data. -/
theorem writeAt_of_ge {xs ys : List α} {off : Nat} (hys : ys ≠ []) (h : xs.length ≤ off) :
    writeAt xs off ys = xs ++ (List.replicate (off - xs.length) 0 ++ ys) := by
  rw [writeAt, if_neg hys, padTo, List.take_of_length_le h, List.drop_of_length_le (by omega),
    List.append_nil, List.append_assoc]

theorem writeAt_append (xs ys : List α) : writeAt xs xs.length ys = xs ++ ys := by
  by_cases h : ys = []
  · simp [writeAt, h]
  · rw [writeAt_of_ge h (Nat.le_refl _), Nat.sub_self, List.replicate_zero, List.nil_append]

end Growable

end Library
