import Rdbms.Library.Slice
import Rdbms.Library.LittleEndian
import Mathlib.Tactic.Abel

/-!
# Additive checksums

The sum of all bytes but those of the field that holds it. A change of one byte changes
either the sum or the field, and never both: the sum is over a group, in which two bytes
stand for two different elements.
-/

namespace Library

/-- The sum of the bytes modulo `2 ^ 32`. -/
def byteSum (bytes : List UInt8) : UInt32 :=
  bytes.foldl (fun acc byte => acc + byte.toUInt32) 0

theorem foldl_byteSum (bytes : List UInt8) (acc : UInt32) :
    bytes.foldl (fun acc byte => acc + byte.toUInt32) acc = acc + byteSum bytes := by
  induction bytes generalizing acc with
  | nil => exact (add_zero acc).symm
  | cons byte bytes ih =>
      have hcons : byteSum (byte :: bytes) = 0 + byte.toUInt32 + byteSum bytes := ih _
      rw [List.foldl_cons, ih, hcons, zero_add, add_assoc]

theorem byteSum_append (xs ys : List UInt8) : byteSum (xs ++ ys) = byteSum xs + byteSum ys := by
  rw [byteSum, List.foldl_append, foldl_byteSum]
  rfl

theorem byteSum_cons (x : UInt8) (xs : List UInt8) : byteSum (x :: xs) = x.toUInt32 + byteSum xs := by
  rw [byteSum, List.foldl_cons, foldl_byteSum, zero_add]

/-- The sum of the bytes outside the four-byte field at `off`. -/
def outerSum (off : Nat) (bytes : List UInt8) : UInt32 :=
  byteSum (bytes.take off) + byteSum (bytes.drop (off + 4))

theorem byteSum_eq (off : Nat) (bytes : List UInt8) :
    byteSum bytes = outerSum off bytes + byteSum (slice bytes off 4) := by
  have hsplit : bytes = bytes.take off ++ (slice bytes off 4 ++ bytes.drop (off + 4)) := by
    rw [slice, ← List.drop_drop, List.take_append_drop, List.take_append_drop]
  conv_lhs => rw [hsplit]
  rw [byteSum_append, byteSum_append, outerSum]
  abel

/-- The two lists are equally long and differ at one position. -/
def DifferOnce (xs ys : List UInt8) : Prop :=
  xs.length = ys.length ∧ ∃ i : Nat, xs[i]? ≠ ys[i]? ∧ ∀ j, j ≠ i → xs[j]? = ys[j]?

theorem differOnce_middle (front back : List UInt8) {x y : UInt8} (h : x ≠ y) :
    DifferOnce (front ++ x :: back) (front ++ y :: back) := by
  refine ⟨by simp, front.length, by simpa using h, ?_⟩
  intro j hj
  rcases Nat.lt_or_ge j front.length with hlt | hge
  · rw [List.getElem?_append_left hlt, List.getElem?_append_left hlt]
  · obtain ⟨k, hk⟩ : ∃ k, j - front.length = k + 1 := ⟨j - front.length - 1, by omega⟩
    rw [List.getElem?_append_right hge, List.getElem?_append_right hge, hk]
    rfl

/-- Overwriting one byte with another one. -/
theorem differOnce_splice {xs : List UInt8} {off : Nat} {x y : UInt8} (hx : xs[off]? = some x)
    (h : x ≠ y) : DifferOnce xs (splice xs off [y]) := by
  obtain ⟨hoff, rfl⟩ := List.getElem?_eq_some_iff.1 hx
  have hsplit : xs = xs.take off ++ xs[off] :: xs.drop (off + 1) := by simp
  have hmiddle := differOnce_middle (xs.take off) (xs.drop (off + 1)) h
  rw [← hsplit] at hmiddle
  rwa [splice]

theorem byteSum_ne {xs ys : List UInt8} (h : DifferOnce xs ys) : byteSum xs ≠ byteSum ys := by
  obtain ⟨hlen, i, hne, hsame⟩ := h
  have hi : i < xs.length := by
    by_contra hi
    rw [List.getElem?_eq_none (not_lt.1 hi), List.getElem?_eq_none (hlen ▸ not_lt.1 hi)] at hne
    exact hne rfl
  have hi' : i < ys.length := hlen ▸ hi
  have hfront : xs.take i = ys.take i := by
    apply List.ext_getElem?
    intro j
    rw [List.getElem?_take, List.getElem?_take]
    split
    · exact hsame j (by omega)
    · rfl
  have hback : xs.drop (i + 1) = ys.drop (i + 1) := by
    apply List.ext_getElem?
    intro j
    rw [List.getElem?_drop, List.getElem?_drop]
    exact hsame _ (by omega)
  have hxs : xs = xs.take i ++ xs[i] :: xs.drop (i + 1) := by simp
  have hys : ys = ys.take i ++ ys[i] :: ys.drop (i + 1) := by simp
  intro hsum
  rw [hxs, hys, byteSum_append, byteSum_append, byteSum_cons, byteSum_cons, hfront, hback,
    add_left_cancel_iff, add_right_cancel_iff] at hsum
  apply hne
  rw [List.getElem?_eq_getElem hi, List.getElem?_eq_getElem hi']
  congr 1
  apply UInt8.toNat_inj.1
  have hnat := congrArg UInt32.toNat hsum
  rwa [UInt8.toNat_toUInt32, UInt8.toNat_toUInt32] at hnat

/-- If the field at `off` holds the sum of the other bytes, it does not any more after a
change of one byte. -/
theorem checksum_detects {xs ys : List UInt8} {off : Nat} (hoff : off + 4 ≤ xs.length)
    (h : DifferOnce xs ys) (hx : u32LE (slice xs off 4) = outerSum off xs) :
    u32LE (slice ys off 4) ≠ outerSum off ys := by
  have hne := byteSum_ne h
  obtain ⟨hlen, i, hi, hsame⟩ := h
  intro hy
  by_cases hfield : off ≤ i ∧ i < off + 4
  · -- the sum is the same, and the field is not
    have hfront : xs.take off = ys.take off := by
      apply List.ext_getElem?
      intro j
      rw [List.getElem?_take, List.getElem?_take]
      split
      · exact hsame j (by omega)
      · rfl
    have hback : xs.drop (off + 4) = ys.drop (off + 4) := by
      apply List.ext_getElem?
      intro j
      rw [List.getElem?_drop, List.getElem?_drop]
      exact hsame _ (by omega)
    have hsum : outerSum off xs = outerSum off ys := by rw [outerSum, outerSum, hfront, hback]
    have hwords : u32LE (slice xs off 4) = u32LE (slice ys off 4) := by rw [hx, hy, hsum]
    have hslices := congrArg le32 hwords
    rw [le32_u32LE (length_slice hoff), le32_u32LE (length_slice (hlen ▸ hoff))] at hslices
    apply hi
    have hat := congrArg (fun bytes : List UInt8 => bytes[i - off]?) hslices
    simp only [getElem?_slice] at hat
    rwa [if_pos (by omega), if_pos (by omega), Nat.add_sub_cancel' hfield.1] at hat
  · -- the field is the same, and the sum is not
    have hslices : slice xs off 4 = slice ys off 4 := by
      apply List.ext_getElem?
      intro j
      rw [getElem?_slice, getElem?_slice]
      split
      · exact hsame _ (by omega)
      · rfl
    apply hne
    rw [byteSum_eq off xs, byteSum_eq off ys, ← hx, ← hy, hslices]

end Library
