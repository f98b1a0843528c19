import Rdbms.Index.Lookup

/-!
# Trees whose inner nodes lag behind

A descent that ends too far to the left is put right by the chain of leaves. So a lookup
needs less than a tree: `Loose` asks of the nodes below a page that a descent for any key
ends at a leaf with nothing but smaller keys to the left of it, while further leaves to
the right may be on the chain only. Trees are of this kind, and so are trees in which a
node has been split and the node above it does not know of the new half yet.
-/

namespace Rdbms

open Library BPlusTree

section Loose

variable {view view' : PageId → Option BTreeNode} {key : IndexKey} {height : Nat}
  {lo mid hi : Bound IndexKey} {id leafId : PageId} {leaves : List (Leaf IndexEntry PageId)}
  {ids : List PageId}

/-- The descent for the key goes through `height` inner nodes to a leaf. -/
def Lands (view : PageId → Option BTreeNode) (key : IndexKey) : Nat → PageId → PageId → Prop
  | 0, id, leafId => id = leafId ∧ ∃ next entries, view id = some (.leaf next entries)
  | height + 1, id, leafId =>
      ∃ keys children child, view id = some (.internal keys children) ∧
        children.length = keys.length + 1 ∧
        children[childIndexForKey keys key]? = some child ∧ Lands view key height child leafId

/-- A leaf among the leaves, with nothing but smaller keys to the left of it. -/
def NotPast (key : IndexKey) (leaves : List (Leaf IndexEntry PageId)) (leafId : PageId) : Prop :=
  ∃ before leaf after, leaves = before ++ leaf :: after ∧ leaf.id = leafId ∧
    ∀ e ∈ entriesOf before, e.key < key

theorem NotPast.append (h : NotPast key leaves leafId) (more : List (Leaf IndexEntry PageId)) :
    NotPast key (leaves ++ more) leafId := by
  obtain ⟨before, leaf, after, rfl, hid, hsmall⟩ := h
  exact ⟨before, leaf, after ++ more, by rw [List.append_assoc, List.cons_append], hid, hsmall⟩

theorem NotPast.behind {front : List (Leaf IndexEntry PageId)} (h : NotPast key leaves leafId)
    (hfront : ∀ e ∈ entriesOf front, e.key < key) : NotPast key (front ++ leaves) leafId := by
  obtain ⟨before, leaf, after, rfl, hid, hsmall⟩ := h
  refine ⟨front ++ before, leaf, after, by rw [List.append_assoc], hid, ?_⟩
  rw [entriesOf_append]
  exact List.forall_mem_append.2 ⟨hfront, hsmall⟩

/-- The leaves from `id` on, as far as a lookup can see: they are stored, their keys are
in order and between the bounds, and no descent ends behind its key. -/
structure Loose (view : PageId → Option BTreeNode) (height : Nat) (lo hi : Bound IndexKey)
    (id : PageId) (leaves : List (Leaf IndexEntry PageId)) : Prop where
  stored : ∀ leaf ∈ leaves, view leaf.id = some (.leaf leaf.next leaf.entries)
  within : ∀ e ∈ entriesOf leaves, lo ≤ bound e.key ∧ bound e.key ≤ hi
  sorted : (entriesOf leaves).Pairwise fun a b => a.key ≤ b.key
  lands : ∀ key, lo < bound key → ∃ leafId, Lands view key height id leafId ∧
    NotPast key leaves leafId

/-- Leaves on the right that only the chain leads to. -/
theorem Loose.extend {more : List (Leaf IndexEntry PageId)} (h : Loose view height lo mid id leaves)
    (hmid : lo ≤ mid) (hhi : mid ≤ hi)
    (hstored : ∀ leaf ∈ more, view leaf.id = some (.leaf leaf.next leaf.entries))
    (hwithin : ∀ e ∈ entriesOf more, mid ≤ bound e.key ∧ bound e.key ≤ hi)
    (hsorted : (entriesOf more).Pairwise fun a b => a.key ≤ b.key) :
    Loose view height lo hi id (leaves ++ more) where
  stored := List.forall_mem_append.2 ⟨h.stored, hstored⟩
  within := by
    rw [entriesOf_append]
    refine List.forall_mem_append.2 ⟨fun e he => ?_, fun e he => ?_⟩
    · exact ⟨(h.within e he).1, (h.within e he).2.trans hhi⟩
    · exact ⟨hmid.trans (hwithin e he).1, (hwithin e he).2⟩
  sorted := by
    rw [entriesOf_append, List.pairwise_append]
    refine ⟨h.sorted, hsorted, fun a ha b hb => ?_⟩
    exact bound_le_bound.1 ((h.within a ha).2.trans (hwithin b hb).1)
  lands := by
    intro key hkey
    obtain ⟨leafId, hlands, hpast⟩ := h.lands key hkey
    exact ⟨leafId, hlands, hpast.append more⟩

/-- An inner node above loose subtrees. -/
theorem Loose.node {keys : List IndexKey} {children : List PageId}
    (hview : view id = some (.internal keys children)) (hlen : children.length = keys.length + 1)
    (hrow : Row (fun lo hi child leaves _ => Loose view height lo hi child leaves) lo
      (childRow keys children hi) leaves ids) : Loose view (height + 1) lo hi id leaves where
  stored := hrow.forall_leaves fun hchild => hchild.stored
  within := by
    have hwithin := hrow.entries_within fun hchild => hchild.within
    rwa [lastBound_childRow lo hi hlen] at hwithin
  sorted := hrow.entries_sorted (fun hchild => hchild.within) fun hchild => hchild.sorted
  lands := by
    intro key hkey
    obtain ⟨hle, hbefore, hafter⟩ := childIndexForKey_spec (hrow.keys_sorted hlen).1 key
    obtain ⟨front, child, upper, back, hrowEq, -, hchild, hlower, -⟩ :=
      @childRow_child _ _ _ _ _ _ hi _ _ hlen hle hbefore hafter hkey
    rw [hrowEq] at hrow
    obtain ⟨leaves₁, leaves₂, leaves₃, ids₁, ids₂, ids₃, rfl, -, hfront, -, hsub, -⟩ := hrow.focus
    obtain ⟨leafId, hlands, hpast⟩ := hsub.lands key hlower
    refine ⟨leafId, ⟨keys, children, child, hview, hlen, hchild, hlands⟩, ?_⟩
    refine (hpast.append leaves₃).behind fun e he => ?_
    have hbelow := (hfront.entries_within (fun h => h.within) e he).2
    exact bound_lt_bound.1 (lt_of_le_of_lt hbelow hlower)

theorem loose_of_subtree {least : Nat}
    (h : Subtree IndexEntry.key indexFanout view least height lo hi id leaves ids) :
    Loose view height lo hi id leaves := by
  induction height generalizing least lo hi id leaves ids with
  | zero =>
      refine ⟨Subtree.view_leaf h, Subtree.entries_within h,
        Subtree.entries_sorted key_monotone h, fun key _ => ?_⟩
      obtain ⟨next, entries, hview, -, -, -, -, rfl, -⟩ := h
      exact ⟨id, ⟨rfl, next, entries, hview⟩, [], ⟨id, next, entries⟩, [], rfl, rfl,
        fun e he => absurd he List.not_mem_nil⟩
  | succ height ih =>
      obtain ⟨keys, children, ids', hview, hlen, -, -, hrow, -⟩ := h
      refine Loose.node hview hlen (hrow.imp ?_)
      intro lo hi child leaves ids _ hchild
      exact ih hchild

/-- The descent ends at one leaf. -/
theorem Lands.unique {leafId' : PageId} (h : Lands view key height id leafId)
    (h' : Lands view key height id leafId') : leafId = leafId' := by
  induction height generalizing id with
  | zero => exact h.1.symm.trans h'.1
  | succ height ih =>
      obtain ⟨keys, children, child, hview, -, hchild, hlands⟩ := h
      obtain ⟨keys', children', child', hview', -, hchild', hlands'⟩ := h'
      rw [hview] at hview'
      cases hview'
      rw [hchild] at hchild'
      cases hchild'
      exact ih hlands hlands'

/-- A descent depends on the inner nodes, and on the leaf only that it is one. -/
theorem Lands.mono (h : Lands view key height id leafId)
    (hinner : ∀ i keys children, view i = some (.internal keys children) →
      view' i = some (.internal keys children))
    (hleaf : ∀ next entries, view leafId = some (.leaf next entries) →
      ∃ next entries, view' leafId = some (.leaf next entries)) :
    Lands view' key height id leafId := by
  induction height generalizing id with
  | zero =>
      obtain ⟨rfl, next, entries, hview⟩ := h
      exact ⟨rfl, hleaf next entries hview⟩
  | succ height ih =>
      obtain ⟨keys, children, child, hview, hlen, hchild, hlands⟩ := h
      exact ⟨keys, children, child, hinner id keys children hview, hlen, hchild, ih hlands⟩

end Loose

section Lookup

variable {S : Type} [BPlusTreePageStore S] {model : LawfulPageStore S} {key : IndexKey}

theorem findLeaf_of_lands : ∀ {height fuel : Nat} {s : S} {id leafId : PageId}, model.Good s →
    Lands (model.view s) key height id leafId → height < fuel →
    ∃ t, findLeaf fuel id key s = (.ok leafId, t) ∧ model.Keeps (fun _ => False) s t := by
  intro height
  induction height with
  | zero =>
      intro fuel s id leafId hs h hfuel
      obtain ⟨fuel, rfl⟩ := Nat.exists_eq_succ_of_ne_zero (Nat.ne_of_gt (Nat.zero_lt_of_lt hfuel))
      obtain ⟨rfl, next, entries, hview⟩ := h
      obtain ⟨t, hload, hkeeps⟩ := LawfulPageStore.loadNode_of_view hs hview
      refine ⟨t, ?_, hkeeps⟩
      rw [findLeaf, Exec.bind_of_ok hload]
      rfl
  | succ height ih =>
      intro fuel s id leafId hs h hfuel
      obtain ⟨fuel, rfl⟩ := Nat.exists_eq_succ_of_ne_zero (Nat.ne_of_gt (Nat.zero_lt_of_lt hfuel))
      obtain ⟨keys, children, child, hview, hlen, hchild, hlands⟩ := h
      obtain ⟨u, hload, hkeeps⟩ := LawfulPageStore.loadNode_of_view hs hview
      have hlands' : Lands (model.view u) key height child leafId :=
        hlands.mono (fun i keys children hnode => hkeeps.view not_false hnode)
          fun next entries hleaf => ⟨next, entries, hkeeps.view not_false hleaf⟩
      obtain ⟨t, hrun, hkeeps'⟩ := ih hkeeps.good hlands' (Nat.lt_of_succ_lt_succ hfuel)
      refine ⟨t, ?_, hkeeps.nothing hkeeps' hs⟩
      rw [findLeaf, Exec.bind_of_ok hload]
      simp only [validateInternalShape_of_length hlen, DbResult.index_of_getElem? hchild,
        Exec.bind_apply, Exec.liftM_apply, hrun]

theorem bot_lt_bound (key : IndexKey) : (⊥ : Bound IndexKey) < bound key := WithBot.bot_lt_coe _

/-- With one step more than there are levels, and than there are leaves, a lookup gives
the rows of the entries with the key. -/
theorem lookup_of_loose {height fuel : Nat} {s : S} {root : PageId} {hi : Bound IndexKey}
    {leaves : List (Leaf IndexEntry PageId)} (h : Loose (model.view s) height ⊥ hi root leaves)
    (hchain : Chained leaves none) (hs : model.Good s) (key : IndexKey) (hheight : height < fuel)
    (hleaves : leaves.length < fuel) :
    ∃ t, lookup fuel root key s = (.ok (rowsWith key (entriesOf leaves)), t) ∧
      model.Keeps (fun _ => False) s t := by
  obtain ⟨leafId, hlands, before, leaf, after, rfl, rfl, hsmall⟩ := h.lands key (bot_lt_bound key)
  obtain ⟨u, hfind, hkeeps⟩ := findLeaf_of_lands hs hlands hheight
  have hsorted := h.sorted
  rw [entriesOf_append] at hsorted
  have hview : ∀ l ∈ leaf :: after, model.view u l.id = some (.leaf l.next l.entries) := by
    intro l hl
    exact hkeeps.view not_false (h.stored l (List.mem_append_right _ hl))
  have hroom : after.length < fuel := by
    rw [List.length_append, List.length_cons] at hleaves
    omega
  obtain ⟨t, hscan, hkeeps'⟩ := scanLeaves_spec hkeeps.good hview (chained_append.1 hchain).2
    (List.pairwise_append.1 hsorted).2.1 hroom
  have hrows : rowsWith key (entriesOf (before ++ leaf :: after)) =
      rowsWith key (entriesOf (leaf :: after)) := by
    rw [entriesOf_append, rowsWith_append, rowsWith_eq_nil fun e he => (hsmall e he).ne,
      List.nil_append]
  refine ⟨t, ?_, hkeeps.nothing hkeeps' hs⟩
  rw [hrows, lookup, Exec.bind_of_ok hfind, hscan]

end Lookup

end Rdbms
