import Mathlib.Order.WithBot
import Mathlib.Data.List.Sort
import Mathlib.Data.List.Perm.Basic
import Mathlib.Tactic.Common

/-!
# B+ trees stored under identifiers

A store of nodes is a partial function from identifiers to nodes: a leaf holds
entries and the identifier of the next leaf, an inner node holds separators and
one more child than separators. `Subtree` says that the nodes below an identifier
form a tree of a given height whose entries lie between two bounds; it also lists
the leaves from left to right and the identifiers in use.

Separators are weak: an entry whose key equals a separator may stand on either
side of it. A descent for a key takes the child behind the last separator that is
smaller than the key, so that all leaves to the left of the one it reaches hold
smaller keys only, and the entries with that key are found by following the chain
of leaves from there.

The results are about single nodes being replaced, one for each way an insert
changes a tree, so that a program that stores its nodes in any way can be verified
step by step.
-/

namespace Library

namespace BPlusTree

/-- A node of the tree: a leaf with the identifier of the next leaf, or an inner
node. -/
inductive Node (K E ι : Type) where
  | leaf (nextLeaf : Option ι) (entries : List E)
  | internal (keys : List K) (children : List ι)
  deriving DecidableEq

/-- A leaf as the chain of leaves sees it. -/
structure Leaf (E ι : Type) where
  id : ι
  next : Option ι
  entries : List E

variable {K E ι : Type}

/-- A key or one of the two ends of the order. -/
abbrev Bound (K : Type) := WithBot (WithTop K)

/-- A key as a bound. -/
def bound (k : K) : Bound K := ((k : WithTop K) : WithBot (WithTop K))

@[simp] theorem bound_le_bound [LinearOrder K] {k l : K} : bound k ≤ bound l ↔ k ≤ l := by
  rw [bound, bound, WithBot.coe_le_coe, WithTop.coe_le_coe]

@[simp] theorem bound_lt_bound [LinearOrder K] {k l : K} : bound k < bound l ↔ k < l := by
  rw [bound, bound, WithBot.coe_lt_coe, WithTop.coe_lt_coe]

/-! ## The chain of leaves -/

/-- All entries of the leaves, from left to right. -/
def entriesOf (leaves : List (Leaf E ι)) : List E := leaves.flatMap Leaf.entries

/-- The identifier of the first leaf, or what comes behind when there is none. -/
def headId : List (Leaf E ι) → Option ι → Option ι
  | [], after => after
  | leaf :: _, _ => some leaf.id

/-- Every leaf points to the next one, the last one to `after`. -/
def Chained : List (Leaf E ι) → Option ι → Prop
  | [], _ => True
  | leaf :: rest, after => leaf.next = headId rest after ∧ Chained rest after

theorem entriesOf_append (xs ys : List (Leaf E ι)) :
    entriesOf (xs ++ ys) = entriesOf xs ++ entriesOf ys := List.flatMap_append

theorem headId_append (xs ys : List (Leaf E ι)) (after : Option ι) :
    headId (xs ++ ys) after = headId xs (headId ys after) := by
  cases xs <;> rfl

theorem chained_append {xs ys : List (Leaf E ι)} {after : Option ι} :
    Chained (xs ++ ys) after ↔ Chained xs (headId ys after) ∧ Chained ys after := by
  induction xs with
  | nil => simp [Chained]
  | cons x xs ih => rw [List.cons_append, Chained, Chained, ih, headId_append, and_assoc]

/-- `new` is `old` with the entry `e` added, and takes its place in a chain. -/
structure Grown (e : E) (old new : List (Leaf E ι)) : Prop where
  perm : (entriesOf new).Perm (e :: entriesOf old)
  head : ∀ after, headId new after = headId old after
  chained : ∀ after, Chained old after → Chained new after

/-- What happens to a part of the leaves happens to the whole. -/
theorem Grown.within {e : E} {old new : List (Leaf E ι)} (h : Grown e old new)
    (front back : List (Leaf E ι)) : Grown e (front ++ (old ++ back)) (front ++ (new ++ back)) where
  perm := by
    simp only [entriesOf_append]
    refine List.Perm.trans ?_ List.perm_middle
    exact ((h.perm.append_right _).append_left _)
  head := by
    intro after
    rw [headId_append, headId_append, headId_append, headId_append, h.head]
  chained := by
    intro after
    simp only [chained_append, headId_append, h.head]
    rintro ⟨hfront, hold, hback⟩
    exact ⟨hfront, h.chained _ hold, hback⟩

/-! ## Rows of subtrees -/

/-- The upper bound of a row that starts at `lo`. -/
def lastBound : Bound K → List (ι × Bound K) → Bound K
  | lo, [] => lo
  | _, (_, hi) :: rest => lastBound hi rest

section Row

variable [LinearOrder K] {P Q : Bound K → Bound K → ι → List (Leaf E ι) → List ι → Prop}

/-- Consecutive subtrees with the upper bound of each; the upper bound of one is
the lower bound of the next. -/
def Row (P : Bound K → Bound K → ι → List (Leaf E ι) → List ι → Prop) :
    Bound K → List (ι × Bound K) → List (Leaf E ι) → List ι → Prop
  | _, [], leaves, ids => leaves = [] ∧ ids = []
  | lo, (child, hi) :: rest, leaves, ids =>
      lo ≤ hi ∧ ∃ leaves₁ leaves₂ ids₁ ids₂, P lo hi child leaves₁ ids₁ ∧
        Row P hi rest leaves₂ ids₂ ∧ leaves = leaves₁ ++ leaves₂ ∧ ids = ids₁ ++ ids₂

theorem row_append {lo : Bound K} {xs ys : List (ι × Bound K)} {leaves : List (Leaf E ι)}
    {ids : List ι} :
    Row P lo (xs ++ ys) leaves ids ↔
      ∃ leaves₁ leaves₂ ids₁ ids₂, Row P lo xs leaves₁ ids₁ ∧
        Row P (lastBound lo xs) ys leaves₂ ids₂ ∧ leaves = leaves₁ ++ leaves₂ ∧
        ids = ids₁ ++ ids₂ := by
  induction xs generalizing lo leaves ids with
  | nil =>
      constructor
      · intro h
        exact ⟨[], leaves, [], ids, ⟨rfl, rfl⟩, h, rfl, rfl⟩
      · rintro ⟨_, _, _, _, ⟨rfl, rfl⟩, h, rfl, rfl⟩
        exact h
  | cons x xs ih =>
      constructor
      · rintro ⟨hle, l₁, l₂, i₁, i₂, hx, hrest, rfl, rfl⟩
        obtain ⟨l₃, l₄, i₃, i₄, hxs, hys, rfl, rfl⟩ := ih.1 hrest
        exact ⟨l₁ ++ l₃, l₄, i₁ ++ i₃, i₄, ⟨hle, l₁, l₃, i₁, i₃, hx, hxs, rfl, rfl⟩, hys,
          (List.append_assoc ..).symm, (List.append_assoc ..).symm⟩
      · rintro ⟨_, l₄, _, i₄, ⟨hle, l₁, l₃, i₁, i₃, hx, hxs, rfl, rfl⟩, hys, rfl, rfl⟩
        exact ⟨hle, l₁, l₃ ++ l₄, i₁, i₃ ++ i₄, hx, ih.2 ⟨l₃, l₄, i₃, i₄, hxs, hys, rfl, rfl⟩,
          List.append_assoc .., List.append_assoc ..⟩

theorem row_singleton {lo hi : Bound K} {child : ι} {leaves : List (Leaf E ι)} {ids : List ι} :
    Row P lo [(child, hi)] leaves ids ↔ lo ≤ hi ∧ P lo hi child leaves ids := by
  constructor
  · rintro ⟨hle, l₁, _, i₁, _, h, ⟨rfl, rfl⟩, rfl, rfl⟩
    rw [List.append_nil, List.append_nil]
    exact ⟨hle, h⟩
  · rintro ⟨hle, h⟩
    exact ⟨hle, leaves, [], ids, [], h, ⟨rfl, rfl⟩, (List.append_nil _).symm,
      (List.append_nil _).symm⟩

/-- A row survives a change that each of its subtrees survives. -/
theorem Row.imp {lo : Bound K} {row : List (ι × Bound K)} {leaves : List (Leaf E ι)}
    {ids : List ι} (h : Row P lo row leaves ids)
    (hPQ : ∀ lo hi child leaves₁ ids₁, (∀ i ∈ ids₁, i ∈ ids) → P lo hi child leaves₁ ids₁ →
      Q lo hi child leaves₁ ids₁) : Row Q lo row leaves ids := by
  induction row generalizing lo leaves ids with
  | nil => exact h
  | cons x row ih =>
      obtain ⟨hle, l₁, l₂, i₁, i₂, hx, hrest, rfl, rfl⟩ := h
      refine ⟨hle, l₁, l₂, i₁, i₂, hPQ _ _ _ _ _ (fun i hi => List.mem_append_left _ hi) hx, ?_,
        rfl, rfl⟩
      exact ih hrest fun lo hi child leaves₁ ids₁ hsub =>
        hPQ lo hi child leaves₁ ids₁ fun i hi => List.mem_append_right _ (hsub i hi)

theorem Row.le_lastBound {lo : Bound K} {row : List (ι × Bound K)} {leaves : List (Leaf E ι)}
    {ids : List ι} (h : Row P lo row leaves ids) : lo ≤ lastBound lo row := by
  induction row generalizing lo leaves ids with
  | nil => exact le_rfl
  | cons x row ih =>
      obtain ⟨hle, _, _, _, _, _, hrest, -, -⟩ := h
      exact hle.trans (ih hrest)

theorem Row.forall_leaves {p : Leaf E ι → Prop} {lo : Bound K} {row : List (ι × Bound K)}
    {leaves : List (Leaf E ι)} {ids : List ι} (h : Row P lo row leaves ids)
    (hP : ∀ {lo hi child leaves ids}, P lo hi child leaves ids → ∀ leaf ∈ leaves, p leaf) :
    ∀ leaf ∈ leaves, p leaf := by
  induction row generalizing lo leaves ids with
  | nil =>
      obtain ⟨rfl, -⟩ := h
      exact fun leaf hleaf => absurd hleaf List.not_mem_nil
  | cons x row ih =>
      obtain ⟨-, l₁, l₂, i₁, i₂, hx, hrest, rfl, rfl⟩ := h
      intro leaf hleaf
      rcases List.mem_append.1 hleaf with hleaf | hleaf
      · exact hP hx leaf hleaf
      · exact ih hrest leaf hleaf

/-- The entries of a row lie between its bounds if those of each subtree do. -/
theorem Row.entries_within {key : E → K} {lo : Bound K}
    {leaves : List (Leaf E ι)} {ids : List ι} {row : List (ι × Bound K)} (h : Row P lo row leaves ids)
    (hP : ∀ {lo hi child leaves ids}, P lo hi child leaves ids →
      ∀ e ∈ entriesOf leaves, lo ≤ bound (key e) ∧ bound (key e) ≤ hi) :
    ∀ e ∈ entriesOf leaves, lo ≤ bound (key e) ∧ bound (key e) ≤ lastBound lo row := by
  induction row generalizing lo leaves ids with
  | nil =>
      obtain ⟨rfl, -⟩ := h
      intro e he
      exact absurd he List.not_mem_nil
  | cons x row ih =>
      obtain ⟨hle, l₁, l₂, i₁, i₂, hx, hrest, rfl, rfl⟩ := h
      intro e he
      rw [entriesOf_append, List.mem_append] at he
      rcases he with he | he
      · exact ⟨(hP hx e he).1, (hP hx e he).2.trans hrest.le_lastBound⟩
      · exact ⟨hle.trans (ih hrest e he).1, (ih hrest e he).2⟩

/-- From left to right the keys do not decrease. -/
theorem Row.entries_sorted {key : E → K} {lo : Bound K}
    {leaves : List (Leaf E ι)} {ids : List ι} {row : List (ι × Bound K)} (h : Row P lo row leaves ids)
    (hP : ∀ {lo hi child leaves ids}, P lo hi child leaves ids →
      ∀ e ∈ entriesOf leaves, lo ≤ bound (key e) ∧ bound (key e) ≤ hi)
    (hsorted : ∀ {lo hi child leaves ids}, P lo hi child leaves ids →
      (entriesOf leaves).Pairwise fun a b => key a ≤ key b) :
    (entriesOf leaves).Pairwise fun a b => key a ≤ key b := by
  induction row generalizing lo leaves ids with
  | nil =>
      obtain ⟨rfl, -⟩ := h
      exact List.Pairwise.nil
  | cons x row ih =>
      obtain ⟨hle, l₁, l₂, i₁, i₂, hx, hrest, rfl, rfl⟩ := h
      rw [entriesOf_append, List.pairwise_append]
      refine ⟨hsorted hx, ih hrest, ?_⟩
      intro a ha b hb
      have hab := (hP hx a ha).2.trans (hrest.entries_within hP b hb).1
      rwa [bound_le_bound] at hab

end Row

/-! ## Trees -/

/-- How many entries or separators a node below the root has. -/
structure Fanout where
  least : Nat
  most : Nat
  balanced : 2 * least ≤ most

/-- The children of an inner node with the upper bound of each. -/
def childRow (keys : List K) (children : List ι) (hi : Bound K) : List (ι × Bound K) :=
  children.zip (keys.map bound ++ [hi])

theorem lastBound_childRow {keys : List K} {children : List ι} (lo hi : Bound K)
    (hlen : children.length = keys.length + 1) : lastBound lo (childRow keys children hi) = hi := by
  induction keys generalizing children lo with
  | nil =>
      obtain ⟨c, rfl⟩ := List.length_eq_one_iff.1 hlen
      rfl
  | cons k keys ih =>
      cases children with
      | nil => simp at hlen
      | cons c children => exact ih (bound k) (by simpa using hlen)

theorem map_fst_childRow {keys : List K} {children : List ι} (hi : Bound K)
    (hlen : children.length = keys.length + 1) : (childRow keys children hi).map Prod.fst = children := by
  refine List.map_fst_zip ?_
  rw [List.length_append, List.length_map, List.length_singleton, hlen]

/-- The leaf behind a leaf of a chain belongs to the chain. -/
theorem Chained.next_mem {leaves : List (Leaf E ι)} (h : Chained leaves none) {leaf : Leaf E ι}
    (hleaf : leaf ∈ leaves) {j : ι} (hj : leaf.next = some j) : ∃ l ∈ leaves, l.id = j := by
  induction leaves with
  | nil => cases hleaf
  | cons first rest ih =>
      rcases List.mem_cons.1 hleaf with rfl | hleaf
      · cases rest with
        | nil => cases h.1.symm.trans hj
        | cons second rest =>
            refine ⟨second, List.mem_cons_of_mem _ List.mem_cons_self, ?_⟩
            exact Option.some.inj (h.1.symm.trans hj)
      · obtain ⟨l, hl, hid⟩ := ih h.2 hleaf
        exact ⟨l, List.mem_cons_of_mem _ hl, hid⟩

/-! ## Following pointers -/

/-- The children of a node. -/
def Node.children : Node K E ι → List ι
  | leaf _ _ => []
  | internal _ children => children

/-- The nodes that a node points to: its children, or the next leaf. -/
def Node.links : Node K E ι → List ι
  | leaf nextLeaf _ => nextLeaf.toList
  | internal _ children => children

/-- The nodes that are reached from a root by following pointers. -/
inductive Linked (view : ι → Option (Node K E ι)) (root : ι) : ι → Prop
  | root : Linked view root root
  | link {i j : ι} {node : Node K E ι} (h : Linked view root i) (hview : view i = some node)
      (hj : j ∈ node.links) : Linked view root j

theorem Linked.trans {i j : ι} (h : Linked view i j) {root : ι} (hi : Linked view root i) :
    Linked view root j := by
  induction h with
  | root => exact hi
  | link h hview hj ih => exact Linked.link ih hview hj

/-- The children of the node under an identifier. -/
def childrenAt (view : ι → Option (Node K E ι)) (i : ι) : List ι :=
  ((view i).map Node.children).getD []

section Row

variable [LinearOrder K] {P : Bound K → Bound K → ι → List (Leaf E ι) → List ι → Prop} {lo : Bound K}
  {row : List (ι × Bound K)} {leaves : List (Leaf E ι)} {ids : List ι}

theorem Row.length_leaves_le (h : Row P lo row leaves ids)
    (hP : ∀ {lo hi child leaves ids}, P lo hi child leaves ids → leaves.length ≤ ids.length) :
    leaves.length ≤ ids.length := by
  induction row generalizing lo leaves ids with
  | nil =>
      obtain ⟨rfl, rfl⟩ := h
      exact Nat.le_refl _
  | cons x row ih =>
      obtain ⟨-, l₁, l₂, i₁, i₂, hx, hrest, rfl, rfl⟩ := h
      rw [List.length_append, List.length_append]
      exact Nat.add_le_add (hP hx) (ih hrest)

theorem Row.mem_ids (h : Row P lo row leaves ids) {i : ι} (hi : i ∈ ids) :
    ∃ lo' hi' child leaves' ids', child ∈ row.map Prod.fst ∧ P lo' hi' child leaves' ids' ∧ i ∈ ids' ∧
      (∀ j ∈ ids', j ∈ ids) ∧ ∀ leaf ∈ leaves', leaf ∈ leaves := by
  induction row generalizing lo leaves ids with
  | nil =>
      obtain ⟨-, rfl⟩ := h
      cases hi
  | cons x row ih =>
      obtain ⟨-, l₁, l₂, i₁, i₂, hx, hrest, rfl, rfl⟩ := h
      rcases List.mem_append.1 hi with hi | hi
      · exact ⟨_, _, x.1, l₁, i₁, List.mem_cons_self, hx, hi,
          fun j hj => List.mem_append_left _ hj, fun leaf hleaf => List.mem_append_left _ hleaf⟩
      · obtain ⟨lo', hi', child, leaves', ids', hchild, hP, hmem, hids, hleaves⟩ := ih hrest hi
        exact ⟨lo', hi', child, leaves', ids', List.mem_cons_of_mem _ hchild, hP, hmem,
          fun j hj => List.mem_append_right _ (hids j hj),
          fun leaf hleaf => List.mem_append_right _ (hleaves leaf hleaf)⟩

theorem Row.child_mem (h : Row P lo row leaves ids)
    (hP : ∀ {lo hi child leaves ids}, P lo hi child leaves ids → child ∈ ids) {child : ι} (hchild : child ∈ row.map Prod.fst) : child ∈ ids := by
  induction row generalizing lo leaves ids with
  | nil => cases hchild
  | cons x row ih =>
      obtain ⟨-, l₁, l₂, i₁, i₂, hx, hrest, rfl, rfl⟩ := h
      rcases List.mem_cons.1 hchild with rfl | hchild
      · exact List.mem_append_left _ (hP hx)
      · exact List.mem_append_right _ (ih hrest hchild)

theorem Row.leaf_mem (h : Row P lo row leaves ids)
    (hP : ∀ {lo hi child leaves ids}, P lo hi child leaves ids → ∀ leaf ∈ leaves, leaf.id ∈ ids) :
    ∀ leaf ∈ leaves, leaf.id ∈ ids := by
  induction row generalizing lo leaves ids with
  | nil =>
      obtain ⟨rfl, -⟩ := h
      exact fun leaf hleaf => absurd hleaf List.not_mem_nil
  | cons x row ih =>
      obtain ⟨-, l₁, l₂, i₁, i₂, hx, hrest, rfl, rfl⟩ := h
      intro leaf hleaf
      rcases List.mem_append.1 hleaf with hleaf | hleaf
      · exact List.mem_append_left _ (hP hx leaf hleaf)
      · exact List.mem_append_right _ (ih hrest leaf hleaf)

theorem Row.forall_child {q : ι → Prop} (h : Row P lo row leaves ids)
    (hP : ∀ {lo hi child leaves ids}, P lo hi child leaves ids → q child) :
    ∀ child ∈ row.map Prod.fst, q child := by
  induction row generalizing lo leaves ids with
  | nil => exact fun child hchild => absurd hchild List.not_mem_nil
  | cons x row ih =>
      obtain ⟨-, l₁, l₂, i₁, i₂, hx, hrest, rfl, rfl⟩ := h
      exact List.forall_mem_cons.2 ⟨hP hx, ih hrest⟩

theorem Row.flatMap_eq {γ : Type*} {below : ι → List γ} {part : Leaf E ι → List γ}
    (h : Row P lo row leaves ids)
    (hP : ∀ {lo hi child leaves ids}, P lo hi child leaves ids →
      below child = leaves.flatMap part) :
    (row.map Prod.fst).flatMap below = leaves.flatMap part := by
  induction row generalizing lo leaves ids with
  | nil =>
      obtain ⟨rfl, -⟩ := h
      rfl
  | cons x row ih =>
      obtain ⟨-, l₁, l₂, i₁, i₂, hx, hrest, rfl, rfl⟩ := h
      rw [List.map_cons, List.flatMap_cons, hP hx, ih hrest, List.flatMap_append]

theorem Row.parents_perm {view : ι → Option (Node K E ι)} (h : Row P lo row leaves ids)
    (hP : ∀ {lo hi child leaves ids}, P lo hi child leaves ids →
      (child :: ids.flatMap (childrenAt view)).Perm ids) :
    (row.map Prod.fst ++ ids.flatMap (childrenAt view)).Perm ids := by
  induction row generalizing lo leaves ids with
  | nil =>
      obtain ⟨-, rfl⟩ := h
      exact List.Perm.refl _
  | cons x row ih =>
      obtain ⟨-, l₁, l₂, i₁, i₂, hx, hrest, rfl, rfl⟩ := h
      rw [List.map_cons, List.cons_append, List.flatMap_append]
      refine List.Perm.trans ?_ ((hP hx).append (ih hrest))
      rw [List.cons_append]
      exact (List.perm_append_comm_assoc _ _ _).cons _

/-- A separator stands between the subtrees on its two sides. -/
theorem Row.separated {key : E → K} {keys : List K} {children : List ι} {hi : Bound K}
    {below : ι → List E} (h : Row P lo (childRow keys children hi) leaves ids)
    (hlen : children.length = keys.length + 1)
    (hP : ∀ {lo hi child leaves ids}, P lo hi child leaves ids →
      ∀ e ∈ below child, lo ≤ bound (key e) ∧ bound (key e) ≤ hi) :
    ∀ i sep left right, keys[i]? = some sep → children[i]? = some left →
      children[i + 1]? = some right →
      (∀ e ∈ below left, key e ≤ sep) ∧ ∀ e ∈ below right, sep ≤ key e := by
  induction keys generalizing children lo leaves ids with
  | nil => exact fun i sep left right hsep => by cases hsep
  | cons first keys ih =>
      cases children with
      | nil => simp at hlen
      | cons c children =>
          have hlen' : children.length = keys.length + 1 := by simpa using hlen
          obtain ⟨-, l₁, l₂, i₁, i₂, hx, hrest, -, -⟩ := h
          intro i sep left right hsep hleft hright
          cases i with
          | succ i => exact ih hrest hlen' i sep left right hsep hleft hright
          | zero =>
              cases hsep
              cases hleft
              refine ⟨fun e he => bound_le_bound.1 (hP hx e he).2, fun e he => ?_⟩
              cases children with
              | nil => cases hright
              | cons c' children =>
                  cases hright
                  cases keys with
                  | nil =>
                      obtain ⟨-, _, _, _, _, hx', -, -, -⟩ := hrest
                      exact bound_le_bound.1 (hP hx' e he).1
                  | cons k keys =>
                      obtain ⟨-, _, _, _, _, hx', -, -, -⟩ := hrest
                      exact bound_le_bound.1 (hP hx' e he).1

end Row

section Subtree

variable [LinearOrder K] [LinearOrder E] (key : E → K) (fanout : Fanout)

/-- The nodes below `id` form a tree of height `height` with entries between `lo`
and `hi`. `least` bounds the size of the node at `id` itself from below. -/
def Subtree (view : ι → Option (Node K E ι)) (least : Nat) :
    Nat → Bound K → Bound K → ι → List (Leaf E ι) → List ι → Prop
  | 0, lo, hi, id, leaves, ids =>
      ∃ next entries, view id = some (.leaf next entries) ∧ entries.Pairwise (· ≤ ·) ∧
        (∀ e ∈ entries, lo ≤ bound (key e) ∧ bound (key e) ≤ hi) ∧
        least ≤ entries.length ∧ entries.length ≤ fanout.most ∧
        leaves = [⟨id, next, entries⟩] ∧ ids = [id]
  | height + 1, lo, hi, id, leaves, ids =>
      ∃ keys children ids', view id = some (.internal keys children) ∧
        children.length = keys.length + 1 ∧ least ≤ keys.length ∧ keys.length ≤ fanout.most ∧
        Row (Subtree view fanout.least height) lo (childRow keys children hi) leaves ids' ∧
        ids = id :: ids'

variable {key fanout}
variable {view view' : ι → Option (Node K E ι)} {least height : Nat} {lo hi : Bound K} {id : ι}
  {leaves : List (Leaf E ι)} {ids : List ι}

/-- A tree depends on the nodes it lists only. -/
theorem Subtree.mono (h : Subtree key fanout view least height lo hi id leaves ids)
    (hview : ∀ i ∈ ids, ∀ node, view i = some node → view' i = some node) :
    Subtree key fanout view' least height lo hi id leaves ids := by
  induction height generalizing least lo hi id leaves ids with
  | zero =>
      obtain ⟨next, entries, hid, hsorted, hbounds, hleast, hmost, rfl, rfl⟩ := h
      exact ⟨next, entries, hview id (List.mem_singleton_self id) _ hid, hsorted, hbounds,
        hleast, hmost, rfl, rfl⟩
  | succ height ih =>
      obtain ⟨keys, children, ids', hid, hlen, hleast, hmost, hrow, rfl⟩ := h
      refine ⟨keys, children, ids', hview id List.mem_cons_self _ hid, hlen, hleast, hmost,
        ?_, rfl⟩
      refine hrow.imp ?_
      intro lo hi child leaves₁ ids₁ hsub hchild
      exact ih hchild fun i hi => hview i (List.mem_cons_of_mem _ (hsub i hi))

theorem Subtree.mem_ids (h : Subtree key fanout view least height lo hi id leaves ids) :
    id ∈ ids := by
  cases height with
  | zero =>
      obtain ⟨_, _, _, _, _, _, _, _, rfl⟩ := h
      exact List.mem_singleton_self id
  | succ height =>
      obtain ⟨_, _, _, _, _, _, _, _, rfl⟩ := h
      exact List.mem_cons_self

/-- Every leaf has an identifier of its own. -/
theorem Subtree.length_leaves_le (h : Subtree key fanout view least height lo hi id leaves ids) :
    leaves.length ≤ ids.length := by
  induction height generalizing least lo hi id leaves ids with
  | zero =>
      obtain ⟨_, _, -, -, -, -, -, rfl, rfl⟩ := h
      exact Nat.le_refl _
  | succ height ih =>
      obtain ⟨_, _, ids', -, -, -, -, hrow, rfl⟩ := h
      exact Nat.le_succ_of_le (hrow.length_leaves_le fun hchild => ih hchild)

/-- A path from the root to a leaf passes different identifiers. -/
theorem Subtree.height_lt (h : Subtree key fanout view least height lo hi id leaves ids) :
    height < ids.length := by
  induction height generalizing least lo hi id leaves ids with
  | zero =>
      obtain ⟨_, _, -, -, -, -, -, -, rfl⟩ := h
      exact Nat.zero_lt_one
  | succ height ih =>
      obtain ⟨keys, children, ids', -, hlen, -, -, hrow, rfl⟩ := h
      cases hchild : childRow keys children hi with
      | nil =>
          have hempty := congrArg List.length hchild
          rw [childRow, List.length_zip, List.length_append, List.length_map, hlen] at hempty
          simp at hempty
      | cons x row =>
          rw [hchild] at hrow
          obtain ⟨-, _, _, i₁, i₂, hx, -, -, rfl⟩ := hrow
          have hlt := ih hx
          rw [List.length_cons, List.length_append]
          omega

/-- Every node of a tree is reached from its root. -/
theorem Subtree.linked (h : Subtree key fanout view least height lo hi id leaves ids) :
    ∀ i ∈ ids, Linked view id i := by
  induction height generalizing least lo hi id leaves ids with
  | zero =>
      obtain ⟨_, _, -, -, -, -, -, -, rfl⟩ := h
      intro i hi
      rw [List.mem_singleton.1 hi]
      exact Linked.root
  | succ height ih =>
      obtain ⟨keys, children, ids', hview, hlen, -, -, hrow, rfl⟩ := h
      intro i hi
      rcases List.mem_cons.1 hi with rfl | hi
      · exact Linked.root
      · obtain ⟨_, _, child, _, _, hchild, hsub, hmem, -, -⟩ := hrow.mem_ids hi
        rw [map_fst_childRow _ hlen] at hchild
        exact (ih hsub i hmem).trans (Linked.link Linked.root hview hchild)

/-- The node under an identifier of the tree is one of its leaves, or its children belong
to the tree as well. -/
theorem Subtree.node (h : Subtree key fanout view least height lo hi id leaves ids) :
    ∀ i ∈ ids, (∃ leaf ∈ leaves, leaf.id = i ∧ view i = some (.leaf leaf.next leaf.entries)) ∨
      ∃ keys children, view i = some (.internal keys children) ∧ ∀ j ∈ children, j ∈ ids := by
  induction height generalizing least lo hi id leaves ids with
  | zero =>
      obtain ⟨next, entries, hview, -, -, -, -, rfl, rfl⟩ := h
      intro i hi
      rw [List.mem_singleton.1 hi]
      exact Or.inl ⟨⟨id, next, entries⟩, List.mem_singleton_self _, rfl, hview⟩
  | succ height ih =>
      obtain ⟨keys, children, ids', hview, hlen, -, -, hrow, rfl⟩ := h
      intro i hi
      rcases List.mem_cons.1 hi with rfl | hi
      · refine Or.inr ⟨keys, children, hview, fun j hj => List.mem_cons_of_mem _ ?_⟩
        rw [← map_fst_childRow _ hlen] at hj
        exact hrow.child_mem (fun hchild => Subtree.mem_ids hchild) hj
      · obtain ⟨_, _, child, _, _, -, hsub, hmem, hids, hleaves⟩ := hrow.mem_ids hi
        rcases ih hsub i hmem with ⟨leaf, hleaf, hid, hnode⟩ | ⟨keys', children', hnode, hchildren⟩
        · exact Or.inl ⟨leaf, hleaves leaf hleaf, hid, hnode⟩
        · exact Or.inr ⟨keys', children', hnode,
            fun j hj => List.mem_cons_of_mem _ (hids j (hchildren j hj))⟩

/-- No node is larger than the fanout allows, and an inner node has one child more than
separators. -/
theorem Subtree.size (h : Subtree key fanout view least height lo hi id leaves ids) :
    ∀ i ∈ ids, (∃ next entries, view i = some (.leaf next entries) ∧
        entries.length ≤ fanout.most) ∨
      ∃ keys children, view i = some (.internal keys children) ∧
        children.length = keys.length + 1 ∧ keys.length ≤ fanout.most := by
  induction height generalizing least lo hi id leaves ids with
  | zero =>
      obtain ⟨next, entries, hview, -, -, -, hmost, -, rfl⟩ := h
      intro i hi
      rw [List.mem_singleton.1 hi]
      exact Or.inl ⟨next, entries, hview, hmost⟩
  | succ height ih =>
      obtain ⟨keys, children, ids', hview, hlen, -, hmost, hrow, rfl⟩ := h
      intro i hi
      rcases List.mem_cons.1 hi with rfl | hi
      · exact Or.inr ⟨keys, children, hview, hlen, hmost⟩
      · obtain ⟨_, _, child, _, _, -, hsub, hmem, -, -⟩ := hrow.mem_ids hi
        exact ih hsub i hmem

/-- Every node of a tree but its root is the child of one node, and of that node once. -/
theorem Subtree.parents_perm (h : Subtree key fanout view least height lo hi id leaves ids) :
    (id :: ids.flatMap (childrenAt view)).Perm ids := by
  induction height generalizing least lo hi id leaves ids with
  | zero =>
      obtain ⟨_, _, hview, -, -, -, -, -, rfl⟩ := h
      rw [List.flatMap_cons, childrenAt, hview]
      exact List.Perm.refl _
  | succ height ih =>
      obtain ⟨keys, children, ids', hview, hlen, -, -, hrow, rfl⟩ := h
      have hchildren : childrenAt view id = children := by
        rw [childrenAt, hview]
        rfl
      have hperm := hrow.parents_perm fun hchild => ih hchild
      rw [map_fst_childRow _ hlen] at hperm
      rw [List.flatMap_cons, hchildren]
      exact hperm.cons id

/-- The entries in the leaves below a node, from left to right, no further down than
`depth` nodes. -/
def entriesBelow (view : ι → Option (Node K E ι)) : Nat → ι → List E
  | 0, _ => []
  | depth + 1, id =>
      match view id with
      | none => []
      | some (.leaf _ entries) => entries
      | some (.internal _ children) => children.flatMap (entriesBelow view depth)

/-- The leaves below a node, from left to right, no further down than `depth` nodes. -/
def leavesBelow (view : ι → Option (Node K E ι)) : Nat → ι → List ι
  | 0, _ => []
  | depth + 1, id =>
      match view id with
      | none => []
      | some (.leaf _ _) => [id]
      | some (.internal _ children) => children.flatMap (leavesBelow view depth)

/-- The entries below the root of a tree are those of its leaves. -/
theorem Subtree.entriesBelow_eq (h : Subtree key fanout view least height lo hi id leaves ids)
    {depth : Nat} (hdepth : height < depth) : entriesBelow view depth id = entriesOf leaves := by
  induction height generalizing least lo hi id leaves ids depth with
  | zero =>
      obtain ⟨depth, rfl⟩ := Nat.exists_eq_add_of_lt hdepth
      obtain ⟨next, entries, hview, -, -, -, -, rfl, -⟩ := h
      rw [Nat.zero_add, entriesBelow, hview]
      exact (List.append_nil _).symm
  | succ height ih =>
      obtain ⟨depth, rfl⟩ := Nat.exists_eq_add_of_lt hdepth
      obtain ⟨keys, children, ids', hview, hlen, -, -, hrow, rfl⟩ := h
      have hbelow : (children.flatMap fun child => entriesBelow view (height + 1 + depth) child) =
          entriesOf leaves := by
        rw [← map_fst_childRow hi hlen]
        exact hrow.flatMap_eq fun hchild => ih hchild (by omega)
      rw [entriesBelow, hview]
      exact hbelow

/-- The leaves of a tree are those that are listed. -/
theorem Subtree.leavesBelow_eq (h : Subtree key fanout view least height lo hi id leaves ids)
    {depth : Nat} (hdepth : height < depth) :
    leavesBelow view depth id = leaves.flatMap fun leaf => [leaf.id] := by
  induction height generalizing least lo hi id leaves ids depth with
  | zero =>
      obtain ⟨depth, rfl⟩ := Nat.exists_eq_add_of_lt hdepth
      obtain ⟨next, entries, hview, -, -, -, -, rfl, -⟩ := h
      rw [Nat.zero_add, leavesBelow, hview]
      rfl
  | succ height ih =>
      obtain ⟨depth, rfl⟩ := Nat.exists_eq_add_of_lt hdepth
      obtain ⟨keys, children, ids', hview, hlen, -, -, hrow, rfl⟩ := h
      have hbelow : (children.flatMap fun child => leavesBelow view (height + 1 + depth) child) =
          leaves.flatMap fun leaf => [leaf.id] := by
        rw [← map_fst_childRow hi hlen]
        exact hrow.flatMap_eq fun hchild => ih hchild (by omega)
      rw [leavesBelow, hview]
      exact hbelow

theorem Subtree.leaf_mem (h : Subtree key fanout view least height lo hi id leaves ids) :
    ∀ leaf ∈ leaves, leaf.id ∈ ids := by
  induction height generalizing least lo hi id leaves ids with
  | zero =>
      obtain ⟨_, _, -, -, -, -, -, rfl, rfl⟩ := h
      intro leaf hleaf
      rw [List.mem_singleton.1 hleaf]
      exact List.mem_singleton_self _
  | succ height ih =>
      obtain ⟨_, _, ids', -, -, -, -, hrow, rfl⟩ := h
      intro leaf hleaf
      exact List.mem_cons_of_mem _ (hrow.leaf_mem (fun hchild => ih hchild) leaf hleaf)

/-- The nodes of a chained tree are those that are reached from its root. -/
theorem Subtree.linked_iff (h : Subtree key fanout view least height lo hi id leaves ids)
    (hchain : Chained leaves none) {i : ι} : Linked view id i ↔ i ∈ ids := by
  refine ⟨fun hlinked => ?_, h.linked i⟩
  induction hlinked with
  | root => exact h.mem_ids
  | link _ hview hj ih =>
      rcases h.node _ ih with ⟨leaf, hleaf, -, hnode⟩ | ⟨keys, children, hnode, hchildren⟩
      · rw [hview] at hnode
        cases hnode
        obtain ⟨l, hl, rfl⟩ := hchain.next_mem hleaf (Option.mem_toList.1 hj)
        exact h.leaf_mem l hl
      · rw [hview] at hnode
        cases hnode
        exact hchildren _ hj

/-- The leaves listed are the ones stored. -/
theorem Subtree.view_leaf (h : Subtree key fanout view least height lo hi id leaves ids) :
    ∀ leaf ∈ leaves, view leaf.id = some (.leaf leaf.next leaf.entries) := by
  induction height generalizing least lo hi id leaves ids with
  | zero =>
      obtain ⟨next, entries, hid, -, -, -, -, rfl, -⟩ := h
      intro leaf hleaf
      rw [List.mem_singleton.1 hleaf]
      exact hid
  | succ height ih =>
      obtain ⟨keys, children, ids', -, -, -, -, hrow, -⟩ := h
      exact hrow.forall_leaves fun hchild => ih hchild

theorem Subtree.leaf_sorted (h : Subtree key fanout view least height lo hi id leaves ids) :
    ∀ leaf ∈ leaves, leaf.entries.Pairwise (· ≤ ·) := by
  induction height generalizing least lo hi id leaves ids with
  | zero =>
      obtain ⟨next, entries, -, hsorted, -, -, -, rfl, -⟩ := h
      intro leaf hleaf
      rw [List.mem_singleton.1 hleaf]
      exact hsorted
  | succ height ih =>
      obtain ⟨keys, children, ids', -, -, -, -, hrow, -⟩ := h
      exact hrow.forall_leaves fun hchild => ih hchild

theorem Subtree.entries_within (h : Subtree key fanout view least height lo hi id leaves ids) :
    ∀ e ∈ entriesOf leaves, lo ≤ bound (key e) ∧ bound (key e) ≤ hi := by
  induction height generalizing least lo hi id leaves ids with
  | zero =>
      obtain ⟨next, entries, -, -, hbounds, -, -, rfl, -⟩ := h
      intro e he
      exact hbounds e (by simpa [entriesOf] using he)
  | succ height ih =>
      obtain ⟨keys, children, ids', -, hlen, -, -, hrow, -⟩ := h
      have hwithin := hrow.entries_within (fun hchild => ih hchild)
      rwa [lastBound_childRow lo hi hlen] at hwithin

theorem Subtree.entries_sorted (hkey : Monotone key)
    (h : Subtree key fanout view least height lo hi id leaves ids) :
    (entriesOf leaves).Pairwise fun a b => key a ≤ key b := by
  induction height generalizing least lo hi id leaves ids with
  | zero =>
      obtain ⟨next, entries, -, hsorted, -, -, -, rfl, -⟩ := h
      simp only [entriesOf, List.flatMap_cons, List.flatMap_nil, List.append_nil]
      exact hsorted.imp fun hab => hkey hab
  | succ height ih =>
      obtain ⟨keys, children, ids', -, hlen, -, -, hrow, -⟩ := h
      exact hrow.entries_sorted (fun hchild => hchild.entries_within) (fun hchild => ih hchild)

end Subtree

/-! ## The child a descent takes -/

section Descent

variable [LinearOrder K]

/-- The child behind the separators smaller than `k` is the one whose lower bound is
smaller than `k`, and whose upper bound is not, unless `k` is too large for the node. -/
theorem childRow_child {keys : List K} {children : List ι} {lo hi : Bound K} {k : K} {i : Nat}
    (hlen : children.length = keys.length + 1) (hi_le : i ≤ keys.length)
    (hbefore : ∀ x ∈ keys.take i, x < k) (hafter : ∀ x ∈ keys.drop i, k ≤ x)
    (hlo : lo < bound k) :
    ∃ front child upper back, childRow keys children hi = front ++ (child, upper) :: back ∧
      front.length = i ∧ children[i]? = some child ∧ lastBound lo front < bound k ∧
      (bound k ≤ hi → bound k ≤ upper) := by
  induction keys generalizing children lo i with
  | nil =>
      obtain ⟨c, rfl⟩ := List.length_eq_one_iff.1 hlen
      obtain rfl : i = 0 := by simpa using hi_le
      exact ⟨[], c, hi, [], rfl, rfl, rfl, hlo, fun h => h⟩
  | cons sep keys ih =>
      cases children with
      | nil => simp at hlen
      | cons c children =>
          cases i with
          | zero =>
              have hsep : k ≤ sep := hafter sep List.mem_cons_self
              exact ⟨[], c, bound sep, childRow keys children hi, rfl, rfl, rfl, hlo,
                fun _ => bound_le_bound.2 hsep⟩
          | succ i =>
              have hsep : sep < k := hbefore sep List.mem_cons_self
              have hlen' : children.length = keys.length + 1 := by simpa using hlen
              have hi_le' : i ≤ keys.length := by simpa using hi_le
              obtain ⟨front, child, upper, back, hrow, hfront, hchild, hlower, hupper⟩ :=
                ih hlen' hi_le' (fun x hx => hbefore x (List.mem_cons_of_mem _ hx)) hafter
                  (bound_lt_bound.2 hsep)
              refine ⟨(c, bound sep) :: front, child, upper, back, ?_, by simp [hfront], hchild,
                hlower, hupper⟩
              rw [List.cons_append, ← hrow]
              rfl

/-- The child behind the separators smaller than `k` is the one whose bounds
enclose `k`, the lower one strictly. -/
theorem childRow_focus {keys : List K} {children : List ι} {lo hi : Bound K} {k : K} {i : Nat}
    (hlen : children.length = keys.length + 1) (hi_le : i ≤ keys.length)
    (hbefore : ∀ x ∈ keys.take i, x < k) (hafter : ∀ x ∈ keys.drop i, k ≤ x)
    (hlo : lo < bound k) (hhi : bound k ≤ hi) :
    ∃ front child upper back, childRow keys children hi = front ++ (child, upper) :: back ∧
      front.length = i ∧ children[i]? = some child ∧ lastBound lo front < bound k ∧
      bound k ≤ upper := by
  obtain ⟨front, child, upper, back, hrow, hfront, hchild, hlower, hupper⟩ :=
    @childRow_child _ _ _ _ _ _ hi _ _ hlen hi_le hbefore hafter hlo
  exact ⟨front, child, upper, back, hrow, hfront, hchild, hlower, hupper hhi⟩

/-- The separators of a row do not decrease. -/
theorem Row.keys_sorted {P : Bound K → Bound K → ι → List (Leaf E ι) → List ι → Prop}
    {keys : List K} {children : List ι} {lo hi : Bound K} {leaves : List (Leaf E ι)}
    {ids : List ι} (h : Row P lo (childRow keys children hi) leaves ids)
    (hlen : children.length = keys.length + 1) :
    keys.Pairwise (· ≤ ·) ∧ ∀ k ∈ keys, lo ≤ bound k := by
  induction keys generalizing children lo leaves ids with
  | nil => exact ⟨List.Pairwise.nil, fun k hk => absurd hk List.not_mem_nil⟩
  | cons sep keys ih =>
      cases children with
      | nil => simp at hlen
      | cons c children =>
          obtain ⟨hle, _, _, _, _, _, hrest, -, -⟩ := h
          have hlen' : children.length = keys.length + 1 := by simpa using hlen
          obtain ⟨hsorted, hlower⟩ := ih hrest hlen'
          refine ⟨List.pairwise_cons.2 ⟨fun k hk => bound_le_bound.1 (hlower k hk), hsorted⟩, ?_⟩
          intro k hk
          rcases List.mem_cons.1 hk with rfl | hk
          · exact hle
          · exact hle.trans (hlower k hk)

/-- A row seen from one of its children: what stands before and behind it, and
what the row becomes when other subtrees take the child's place. -/
theorem Row.focus {P : Bound K → Bound K → ι → List (Leaf E ι) → List ι → Prop} {lo upper : Bound K}
    {front back : List (ι × Bound K)} {child : ι} {leaves : List (Leaf E ι)} {ids : List ι}
    (h : Row P lo (front ++ (child, upper) :: back) leaves ids) :
    ∃ leaves₁ leaves₂ leaves₃ ids₁ ids₂ ids₃, leaves = leaves₁ ++ (leaves₂ ++ leaves₃) ∧
      ids = ids₁ ++ (ids₂ ++ ids₃) ∧ Row P lo front leaves₁ ids₁ ∧
      lastBound lo front ≤ upper ∧ P (lastBound lo front) upper child leaves₂ ids₂ ∧
      Row P upper back leaves₃ ids₃ := by
  obtain ⟨l₁, _, i₁, _, hfront, ⟨hle, l₂, l₃, i₂, i₃, hchild, hback, rfl, rfl⟩, rfl, rfl⟩ :=
    row_append.1 h
  exact ⟨l₁, l₂, l₃, i₁, i₂, i₃, rfl, rfl, hfront, hle, hchild, hback⟩

/-- Other subtrees with the same bounds in the place of a child. -/
theorem Row.replace {P : Bound K → Bound K → ι → List (Leaf E ι) → List ι → Prop}
    {lo upper : Bound K} {front middle back : List (ι × Bound K)}
    {leaves₁ leaves₂ leaves₃ : List (Leaf E ι)} {ids₁ ids₂ ids₃ : List ι}
    (hfront : Row P lo front leaves₁ ids₁) (hmiddle : Row P (lastBound lo front) middle leaves₂ ids₂)
    (hlast : lastBound (lastBound lo front) middle = upper) (hback : Row P upper back leaves₃ ids₃) :
    Row P lo (front ++ (middle ++ back)) (leaves₁ ++ (leaves₂ ++ leaves₃))
      (ids₁ ++ (ids₂ ++ ids₃)) := by
  subst hlast
  exact row_append.2 ⟨leaves₁, _, ids₁, _, hfront,
    row_append.2 ⟨leaves₂, leaves₃, ids₂, ids₃, hmiddle, hback, rfl, rfl⟩, rfl, rfl⟩

end Descent

/-! ## Changing one node -/

/-- A new child and separator behind the child at `i`. -/
theorem childRow_insert {keys : List K} {children : List ι} {hi upper : Bound K}
    {front back : List (ι × Bound K)} {child : ι} (sep : K) (right : ι)
    (hlen : children.length = keys.length + 1)
    (hrow : childRow keys children hi = front ++ (child, upper) :: back) :
    childRow (keys.insertIdx front.length sep) (children.insertIdx (front.length + 1) right) hi =
      front ++ ([(child, bound sep), (right, upper)] ++ back) := by
  induction front generalizing keys children with
  | nil =>
      cases children with
      | nil => simp at hlen
      | cons c children =>
          cases keys with
          | nil =>
              obtain rfl : children = [] := by simpa using hlen
              cases hrow
              rfl
          | cons k keys =>
              cases hrow
              rfl
  | cons x front ih =>
      cases children with
      | nil => simp at hlen
      | cons c children =>
          cases keys with
          | nil =>
              obtain rfl : children = [] := by simpa using hlen
              simp [childRow] at hrow
          | cons k keys =>
              have hlen' : children.length = keys.length + 1 := by simpa using hlen
              obtain ⟨rfl, hrow'⟩ := List.cons.inj hrow
              have hrest := ih hlen' hrow'
              rw [List.length_cons, List.insertIdx_succ_cons, List.insertIdx_succ_cons,
                List.cons_append, ← hrest]
              rfl

/-- Cutting an inner node at the separator at `p`, which goes to neither side. -/
theorem childRow_split {keys : List K} {children : List ι} {hi : Bound K} {p : Nat} {sep : K}
    (hlen : children.length = keys.length + 1) (hsep : keys[p]? = some sep) :
    childRow keys children hi =
      childRow (keys.take p) (children.take (p + 1)) (bound sep) ++
        childRow (keys.drop (p + 1)) (children.drop (p + 1)) hi := by
  induction keys generalizing children p with
  | nil => simp at hsep
  | cons k keys ih =>
      cases children with
      | nil => simp at hlen
      | cons c children =>
          cases p with
          | zero =>
              cases hsep
              rfl
          | succ p =>
              have hlen' : children.length = keys.length + 1 := by simpa using hlen
              have hrest := ih hlen' (show keys[p]? = some sep from hsep)
              exact congrArg ((c, bound k) :: ·) hrest

section Leaves

variable {id right : ι} {next : Option ι} {old new : List E} {e : E}

theorem grown_leaf (h : new.Perm (e :: old)) :
    Grown e [⟨id, next, old⟩] [⟨id, next, new⟩] where
  perm := by simpa [entriesOf] using h
  head := fun _ => rfl
  chained := fun _ h => h

theorem grown_split {left back : List E} (h : (left ++ back).Perm (e :: old)) :
    Grown e [⟨id, next, old⟩] [⟨id, some right, left⟩, ⟨right, next, back⟩] where
  perm := by simpa [entriesOf] using h
  head := fun _ => rfl
  chained := fun _ h => ⟨rfl, h⟩

end Leaves

end BPlusTree

end Library
