import Rdbms.Index.Tree

/-!
# The shape of the tree

What the index promises of its pages, said without the bookkeeping of the proofs: the
leaves are all on one level, the nodes below the root hold two to four entries or
separators, entries and separators are in order, a separator stands between the keys
on its two sides, and the chain of leaves runs through the leaves from left to right.
Inserts keep this, and the root moves to another page exactly when the tree gets one
level higher.
-/

namespace Rdbms

open Library BPlusTree

/-- The nodes below a page, with all leaves `height` levels down. `least` bounds the size
of the node itself from below; other nodes hold at least two entries or separators. -/
def Shaped (view : PageId → Option BTreeNode) : Nat → Nat → PageId → Prop
  | least, 0, id =>
      ∃ next entries, view id = some (.leaf next entries) ∧ least ≤ entries.length ∧
        entries.length ≤ 4 ∧ entries.Pairwise (· ≤ ·)
  | least, height + 1, id =>
      ∃ keys children, view id = some (.internal keys children) ∧ least ≤ keys.length ∧
        keys.length ≤ 4 ∧ children.length = keys.length + 1 ∧ keys.Pairwise (· ≤ ·) ∧
        (∀ i sep left right, keys[i]? = some sep → children[i]? = some left →
          children[i + 1]? = some right →
          (∀ e ∈ entriesBelow view (height + 1) left, e.key ≤ sep) ∧
            ∀ e ∈ entriesBelow view (height + 1) right, sep ≤ e.key) ∧
        ∀ child ∈ children, Shaped view 2 height child

/-- Following the chain from the first page meets the pages in order and ends there. -/
def ChainThrough (view : PageId → Option BTreeNode) : List PageId → Prop
  | [] => True
  | id :: rest => (∃ entries, view id = some (.leaf rest.head? entries)) ∧ ChainThrough view rest

/-- The tree below the root. A root that is a leaf may be empty, and one that is an inner
node may have a single separator. -/
structure WellShaped (view : PageId → Option BTreeNode) (root : PageId) (height : Nat) : Prop where
  shaped : Shaped view (min height 1) height root
  chain : ChainThrough view (leavesBelow view (height + 1) root)

section Shape

variable {view : PageId → Option BTreeNode} {least height : Nat} {lo hi : Bound IndexKey}
  {id : PageId} {leaves : List (Leaf IndexEntry PageId)} {ids : List PageId}

theorem shaped_of_subtree
    (h : Subtree IndexEntry.key indexFanout view least height lo hi id leaves ids) :
    Shaped view least height id := by
  induction height generalizing least lo hi id leaves ids with
  | zero =>
      obtain ⟨next, entries, hview, hsorted, -, hleast, hmost, -, -⟩ := h
      exact ⟨next, entries, hview, hleast, hmost, hsorted⟩
  | succ height ih =>
      obtain ⟨keys, children, ids', hview, hlen, hleast, hmost, hrow, -⟩ := h
      refine ⟨keys, children, hview, hleast, hmost, hlen, (hrow.keys_sorted hlen).1, ?_, ?_⟩
      · refine hrow.separated hlen ?_
        intro lo hi child leaves ids hchild e he
        rw [Subtree.entriesBelow_eq hchild (Nat.lt_succ_self height)] at he
        exact Subtree.entries_within hchild e he
      · rw [← map_fst_childRow hi hlen]
        exact hrow.forall_child fun hchild => ih hchild

theorem chainThrough_of_chained (hview : ∀ leaf ∈ leaves,
    view leaf.id = some (.leaf leaf.next leaf.entries)) (hchain : Chained leaves none) :
    ChainThrough view (leaves.flatMap fun leaf => [leaf.id]) := by
  induction leaves with
  | nil => trivial
  | cons leaf leaves ih =>
      rw [List.forall_mem_cons] at hview
      rw [List.flatMap_cons, List.singleton_append]
      refine ⟨⟨leaf.entries, ?_⟩, ih hview.2 hchain.2⟩
      rw [hview.1, hchain.1]
      cases leaves <;> rfl

theorem wellShaped_of_subtree
    (h : Subtree IndexEntry.key indexFanout view (min height 1) height lo hi id leaves ids)
    (hchain : Chained leaves none) : WellShaped view id height where
  shaped := shaped_of_subtree h
  chain := by
    rw [Subtree.leavesBelow_eq h (Nat.lt_succ_self height)]
    exact chainThrough_of_chained (Subtree.view_leaf h) hchain

/-- A tree has one height. -/
theorem Shaped.height_unique : ∀ {height height' least least' : Nat} {id : PageId},
    Shaped view least height id → Shaped view least' height' id → height = height' := by
  intro height
  induction height with
  | zero =>
      intro height' least least' id h h'
      obtain ⟨next, entries, hview, -⟩ := h
      cases height' with
      | zero => rfl
      | succ height' =>
          obtain ⟨keys, children, hview', -⟩ := h'
          rw [hview] at hview'
          cases hview'
  | succ height ih =>
      intro height' least least' id h h'
      obtain ⟨keys, children, hview, -, -, hlen, -, -, hchildren⟩ := h
      cases height' with
      | zero =>
          obtain ⟨next, entries, hview', -⟩ := h'
          rw [hview] at hview'
          cases hview'
      | succ height' =>
          obtain ⟨keys', children', hview', -, -, -, -, -, hchildren'⟩ := h'
          rw [hview] at hview'
          cases hview'
          cases children with
          | nil => simp at hlen
          | cons child children =>
              rw [ih (hchildren child List.mem_cons_self) (hchildren' child List.mem_cons_self)]

end Shape

section Run

variable {S : Type} [BPlusTreePageStore S]

/-- After any sequence of inserts that returned, starting from an empty root, the pages
form a tree of the wanted shape, of one height; one more insert that returns keeps the
shape, and it gives another root exactly when the tree gets one level higher. -/
theorem inserts_keep_shape (model : LawfulPageStore S) {fuel : Nat} {s t u : S}
    {root newRoot : PageId} {pairs : List IndexEntry} (hs : model.Good s)
    (hroot : model.Storable s root) (hinit : initializeRoot root s = (.ok (), t))
    (hrun : insertAll fuel root pairs t = (.ok newRoot, u)) :
    ∃ height, WellShaped (model.view u) newRoot height ∧
      (∀ height', WellShaped (model.view u) newRoot height' → height' = height) ∧
      ∀ fuel key rowId next v, insert fuel newRoot key rowId u = (.ok next, v) →
        ∃ height', WellShaped (model.view v) next height' ∧
          (next = newRoot ∧ height' = height ∨ next ≠ newRoot ∧ height' = height + 1) := by
  obtain ⟨htree, hkeeps⟩ := initializeRoot_tree hs hroot hinit
  obtain ⟨entries, ids, htree', hgood, -⟩ := insertAll_tree pairs htree hkeeps.good hrun
  obtain ⟨height, leaves, hsub, hchain, -⟩ := htree'.tree
  have hshape := wellShaped_of_subtree hsub hchain
  refine ⟨height, hshape, fun height' h => h.shaped.height_unique hshape.shaped, ?_⟩
  intro fuel key rowId next v hinsert
  obtain ⟨height', leaves', ids', hsub', hroot', -, hgrown, -⟩ :=
    insert_height hsub htree'.nodup htree'.used hgood hinsert
  exact ⟨height', wellShaped_of_subtree hsub' (hgrown.chained none hchain), hroot'⟩

/-- The tree in memory whose root has been split. -/
theorem five_inserts_keep_shape :
    ∃ t u, initializeRoot ⟨1⟩ MemoryStore.empty = (.ok (), t) ∧
      insertAll 1 ⟨1⟩ fivePairs t = (.ok ⟨3⟩, u) ∧
      ∃ height, WellShaped (MemoryStore.lawful.view u) ⟨3⟩ height := by
  obtain ⟨t, u, hinit, hrun⟩ := insert_fivePairs 0
  obtain ⟨height, hshape, -⟩ := inserts_keep_shape MemoryStore.lawful MemoryStore.empty_good
    MemoryStore.empty_storable hinit hrun
  exact ⟨t, u, hinit, hrun, height, hshape⟩

end Run

end Rdbms
