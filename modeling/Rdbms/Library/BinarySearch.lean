import Mathlib.Data.List.Sort
import Mathlib.Tactic.Common

/-!
# Binary search by halving

`binarySearchBy f xs` looks for an element on which `f` is `eq`, where `f` tells on
which side of the wanted place an element lies. It gives the index of such an
element, or the place where one would be inserted. For a list that `f` finds
sorted, `searchPosition_spec` says what the place separates, and
`insertSorted_sorted` that inserting at it keeps the list sorted.
-/

namespace Library

variable {α : Type*}

/-- Halve the window of `size` elements at `base` until one element is left. -/
def searchBase (f : α → Ordering) (xs : List α) (base size : Nat) : Nat :=
  if 1 < size then
    let half := size / 2
    let mid := base + half
    let base := if (xs[mid]?.map f) = some .gt then base else mid
    searchBase f xs base (size - half)
  else base
termination_by size

/-- The index of a match, or where a match would be inserted. -/
def binarySearchBy (f : α → Ordering) (xs : List α) : Except Nat Nat :=
  if xs.length = 0 then .error 0
  else
    let base := searchBase f xs 0 xs.length
    match xs[base]?.map f with
    | some .eq => .ok base
    | some .lt => .error (base + 1)
    | _ => .error base

/-- The index of a match or the place for it. -/
def searchPosition (f : α → Ordering) (xs : List α) : Nat :=
  match binarySearchBy f xs with
  | .ok i => i
  | .error i => i

/-- The number of leading elements with the property, for a list that starts with
all of them. -/
def partitionPoint (p : α → Bool) (xs : List α) : Nat :=
  searchPosition (fun x => if p x then .lt else .gt) xs

/-- `f` finds the list sorted: once it says `gt` it goes on to, and once it has
said something else than `lt` it does not come back to it. -/
def SortedBy (f : α → Ordering) (xs : List α) : Prop :=
  xs.Pairwise fun a b => (f a = .gt → f b = .gt) ∧ (f b = .lt → f a = .lt)

section Spec

variable {f : α → Ordering} {xs : List α}

theorem SortedBy.getElem? {i j : Nat} {a b : α} (h : SortedBy f xs) (hij : i < j)
    (ha : xs[i]? = some a) (hb : xs[j]? = some b) :
    (f a = .gt → f b = .gt) ∧ (f b = .lt → f a = .lt) := by
  obtain ⟨hi, rfl⟩ := List.getElem?_eq_some_iff.1 ha
  obtain ⟨hj, rfl⟩ := List.getElem?_eq_some_iff.1 hb
  exact List.pairwise_iff_getElem.1 h i j hi hj hij

/-- The window of the search never loses the last element that is not `gt`:
everything behind it is `gt`, and its base is not `gt` unless it is the first. -/
theorem searchBase_spec (base size : Nat) (h : SortedBy f xs) (hpos : 0 < size)
    (hlen : base + size ≤ xs.length)
    (hhi : ∀ j x, base + size ≤ j → xs[j]? = some x → f x = .gt)
    (hlo : base = 0 ∨ ∀ x, xs[base]? = some x → f x ≠ .gt) :
    searchBase f xs base size < xs.length ∧
      (∀ j x, searchBase f xs base size < j → xs[j]? = some x → f x = .gt) ∧
      (searchBase f xs base size = 0 ∨
        ∀ x, xs[searchBase f xs base size]? = some x → f x ≠ .gt) := by
  induction size using Nat.strong_induction_on generalizing base with
  | _ size ih =>
      rw [searchBase]
      by_cases hsize : 1 < size
      · rw [if_pos hsize]
        obtain ⟨m, hm⟩ : ∃ m, xs[base + size / 2]? = some m :=
          ⟨_, List.getElem?_eq_getElem (by omega)⟩
        simp only [hm, Option.map_some, Option.some.injEq]
        by_cases hgt : f m = .gt
        · rw [if_pos hgt]
          refine ih (size - size / 2) (by omega) base (by omega) (by omega) ?_ hlo
          intro j x hj hx
          rcases Nat.lt_or_ge (base + size / 2) j with hlt | hge
          · exact (h.getElem? hlt hm hx).1 hgt
          · have hjm : j = base + size / 2 := by omega
            rw [hjm, hm] at hx
            cases hx
            exact hgt
        · rw [if_neg hgt]
          refine ih (size - size / 2) (by omega) (base + size / 2) (by omega) (by omega) ?_ ?_
          · intro j x hj hx
            exact hhi j x (by omega) hx
          · refine Or.inr ?_
            intro x hx
            rw [hm] at hx
            cases hx
            exact hgt
      · rw [if_neg hsize]
        refine ⟨by omega, ?_, hlo⟩
        intro j x hj hx
        exact hhi j x (by omega) hx

/-- Before the place nothing is `gt`, from the place on nothing is `lt`. -/
theorem searchPosition_spec (h : SortedBy f xs) :
    searchPosition f xs ≤ xs.length ∧
      (∀ j x, j < searchPosition f xs → xs[j]? = some x → f x ≠ .gt) ∧
      (∀ j x, searchPosition f xs ≤ j → xs[j]? = some x → f x ≠ .lt) := by
  by_cases hempty : xs.length = 0
  · have hzero : searchPosition f xs = 0 := by
      rw [searchPosition, binarySearchBy, if_pos hempty]
    have hnone : xs = [] := List.eq_nil_of_length_eq_zero hempty
    rw [hzero]
    refine ⟨by omega, fun j x hj => absurd hj (by omega), fun j x _ hx => ?_⟩
    rw [hnone] at hx
    cases hx
  · obtain ⟨hlt, hhi, hlo⟩ := searchBase_spec 0 xs.length h (by omega) (by omega)
      (fun j x hj hx => absurd (List.getElem?_eq_some_iff.1 hx).1 (by omega)) (Or.inl rfl)
    obtain ⟨b, hb⟩ : ∃ b, xs[searchBase f xs 0 xs.length]? = some b :=
      ⟨_, List.getElem?_eq_getElem hlt⟩
    have hposition : searchPosition f xs = if f b = .lt then searchBase f xs 0 xs.length + 1
        else searchBase f xs 0 xs.length := by
      rw [searchPosition, binarySearchBy, if_neg hempty]
      simp only [hb, Option.map_some]
      cases f b <;> rfl
    rw [hposition]
    generalize searchBase f xs 0 xs.length = base at hlt hhi hlo hb
    have hbelow : f b ≠ .gt → ∀ j x, j < base → xs[j]? = some x → f x ≠ .gt := by
      intro hne j x hj hx hgt
      exact hne ((h.getElem? hj hx hb).1 hgt)
    have habove : ∀ j x, base < j → xs[j]? = some x → f x ≠ .lt := by
      intro j x hj hx
      rw [hhi j x hj hx]
      decide
    by_cases hcase : f b = .lt
    · have hne : f b ≠ .gt := by
        rw [hcase]
        decide
      rw [if_pos hcase]
      refine ⟨hlt, ?_, fun j x hj hx => habove j x hj hx⟩
      intro j x hj hx
      rcases Nat.lt_or_ge j base with hjb | hjb
      · exact hbelow hne j x hjb hx
      · have hjbase : j = base := by omega
        rw [hjbase, hb] at hx
        cases hx
        exact hne
    · rw [if_neg hcase]
      refine ⟨hlt.le, ?_, ?_⟩
      · intro j x hj hx
        rcases hlo with hzero | hne
        · exact absurd hj (by omega)
        · exact hbelow (hne b hb) j x hj hx
      · intro j x hj hx
        rcases Nat.lt_or_ge base j with hjb | hjb
        · exact habove j x hjb hx
        · have hjbase : j = base := by omega
          rw [hjbase, hb] at hx
          cases hx
          exact hcase

end Spec

theorem partitionPoint_spec {p : α → Bool} {xs : List α}
    (h : xs.Pairwise fun a b => p b = true → p a = true) :
    partitionPoint p xs ≤ xs.length ∧ (∀ x ∈ xs.take (partitionPoint p xs), p x = true) ∧
      (∀ x ∈ xs.drop (partitionPoint p xs), p x = false) := by
  have hsorted : SortedBy (fun x => if p x then Ordering.lt else Ordering.gt) xs := by
    refine h.imp ?_
    intro a b hab
    cases ha : p a with
    | true => simp [ha]
    | false =>
        cases hb : p b with
        | true => simp [ha, hb] at hab
        | false => simp [ha, hb]
  obtain ⟨hle, hlo, hhi⟩ := searchPosition_spec hsorted
  refine ⟨hle, ?_, ?_⟩
  · intro x hx
    obtain ⟨j, hj⟩ := List.mem_iff_getElem?.1 hx
    rw [List.getElem?_take] at hj
    split at hj
    · rename_i hlt
      by_contra hp
      exact hlo j x hlt hj (if_neg hp)
    · cases hj
  · intro x hx
    obtain ⟨j, hj⟩ := List.mem_iff_getElem?.1 hx
    rw [List.getElem?_drop] at hj
    by_contra hp
    exact hhi _ x (Nat.le_add_right _ j) hj (if_pos (by simpa using hp))

/-- The list with `a` at the place found by a comparison with it. -/
def insertSorted (cmp : α → α → Ordering) (a : α) (xs : List α) : List α :=
  let i := searchPosition (fun x => cmp x a) xs
  xs.take i ++ a :: xs.drop i

theorem insertSorted_perm (cmp : α → α → Ordering) (a : α) (xs : List α) :
    (insertSorted cmp a xs).Perm (a :: xs) := by
  refine List.perm_middle.trans ?_
  rw [List.take_append_drop]

/-- Inserting at the place found by a comparison with the new element keeps a
sorted list sorted. -/
theorem insertSorted_sorted [LinearOrder α] {xs : List α} (h : xs.Pairwise (· ≤ ·)) (a : α) :
    (insertSorted compare a xs).Pairwise (· ≤ ·) := by
  have hsorted : SortedBy (fun x => compare x a) xs := by
    refine h.imp ?_
    intro x y hxy
    simp only [compare_gt_iff_gt, compare_lt_iff_lt]
    exact ⟨fun hx => lt_of_lt_of_le hx hxy, fun hy => lt_of_le_of_lt hxy hy⟩
  obtain ⟨-, hlo, hhi⟩ := searchPosition_spec hsorted
  rw [insertSorted]
  set i := searchPosition (fun x => compare x a) xs
  have hbefore : ∀ x ∈ xs.take i, x ≤ a := by
    intro x hx
    obtain ⟨j, hj⟩ := List.mem_iff_getElem?.1 hx
    rw [List.getElem?_take] at hj
    split at hj
    · rename_i hlt
      have hne := hlo j x hlt hj
      rwa [ne_eq, compare_gt_iff_gt, not_lt] at hne
    · cases hj
  have hafter : ∀ x ∈ xs.drop i, a ≤ x := by
    intro x hx
    obtain ⟨j, hj⟩ := List.mem_iff_getElem?.1 hx
    rw [List.getElem?_drop] at hj
    have hne := hhi _ x (Nat.le_add_right _ j) hj
    rwa [ne_eq, compare_lt_iff_lt, not_lt] at hne
  have hparts := h
  rw [← List.take_append_drop i xs, List.pairwise_append] at hparts
  rw [List.pairwise_append]
  refine ⟨hparts.1, List.pairwise_cons.2 ⟨hafter, hparts.2.1⟩, ?_⟩
  intro x hx y hy
  rcases List.mem_cons.1 hy with rfl | hy
  · exact hbefore x hx
  · exact hparts.2.2 x hx y hy

end Library
