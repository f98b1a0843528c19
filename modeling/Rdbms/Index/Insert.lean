import Rdbms.Index.Store

/-!
# Inserting into a tree

Every insert that returns keeps the nodes below the root a B+ tree whose entries
are the old ones and the new one. The proof follows the recursion: `storeLeaf` and
`storeInternal` say what happens at one node, with or without a split, and
`insertRecursive_stored` puts them together by induction on the height.
-/

namespace Rdbms

open Library BPlusTree

/-- Two to four entries or separators in every node below the root. -/
def indexFanout : Fanout where
  least := 2
  most := maxKeys
  balanced := by decide

instance : LinearOrder IndexEntry :=
  LinearOrder.lift' (fun entry => toLex (entry.key, entry.rowId)) (by
    rintro ⟨k, r⟩ ⟨l, q⟩ h
    obtain ⟨rfl, rfl⟩ := Prod.mk.inj (toLex.injective h)
    rfl)

theorem indexEntry_le_iff {a b : IndexEntry} :
    a ≤ b ↔ a.key < b.key ∨ a.key = b.key ∧ a.rowId ≤ b.rowId := Prod.Lex.toLex_le_toLex

theorem indexEntry_lt_iff {a b : IndexEntry} :
    a < b ↔ a.key < b.key ∨ a.key = b.key ∧ a.rowId < b.rowId := Prod.Lex.toLex_lt_toLex

theorem key_monotone : Monotone IndexEntry.key := by
  intro a b h
  rcases indexEntry_le_iff.1 h with hlt | ⟨heq, -⟩
  · exact hlt.le
  · exact heq.le

theorem compareEntry_eq (a b : IndexEntry) : compareEntry a b = compare a b := by
  rw [compareEntry]
  rcases lt_trichotomy a.key b.key with hlt | heq | hgt
  · rw [compare_lt_iff_lt.2 hlt, compare_lt_iff_lt.2 (indexEntry_lt_iff.2 (Or.inl hlt))]
    rfl
  · rw [compare_eq_iff_eq.2 heq]
    rcases lt_trichotomy a.rowId b.rowId with hr | hr | hr
    · rw [compare_lt_iff_lt.2 hr, compare_lt_iff_lt.2 (indexEntry_lt_iff.2 (Or.inr ⟨heq, hr⟩))]
      rfl
    · have hab : a = b := by
        cases a
        cases b
        cases heq
        cases hr
        rfl
      rw [compare_eq_iff_eq.2 hr, compare_eq_iff_eq.2 hab]
      rfl
    · rw [compare_gt_iff_gt.2 hr,
        compare_gt_iff_gt.2 (indexEntry_lt_iff.2 (Or.inr ⟨heq.symm, hr⟩))]
      rfl
  · rw [compare_gt_iff_gt.2 hgt, compare_gt_iff_gt.2 (indexEntry_lt_iff.2 (Or.inl hgt))]
    rfl

theorem insertLeafEntry_perm (entries : List IndexEntry) (key : IndexKey) (rowId : RowId) :
    (insertLeafEntry entries key rowId).Perm (⟨key, rowId⟩ :: entries) :=
  insertSorted_perm compareEntry ⟨key, rowId⟩ entries

theorem insertLeafEntry_sorted {entries : List IndexEntry} (h : entries.Pairwise (· ≤ ·))
    (key : IndexKey) (rowId : RowId) :
    (insertLeafEntry entries key rowId).Pairwise (· ≤ ·) := by
  have hcmp : compareEntry = compare := by
    funext a b
    exact compareEntry_eq a b
  rw [insertLeafEntry, hcmp]
  exact insertSorted_sorted h _

/-- The child a descent takes lies between the separators that enclose the key. -/
theorem childIndexForKey_spec {keys : List IndexKey} (h : keys.Pairwise (· ≤ ·)) (key : IndexKey) :
    childIndexForKey keys key ≤ keys.length ∧
      (∀ x ∈ keys.take (childIndexForKey keys key), x < key) ∧
      (∀ x ∈ keys.drop (childIndexForKey keys key), key ≤ x) := by
  have hsorted : keys.Pairwise fun a b => decide (key > b) = true → decide (key > a) = true := by
    refine h.imp ?_
    intro a b hab hb
    rw [decide_eq_true_eq] at hb ⊢
    exact lt_of_le_of_lt hab hb
  obtain ⟨hle, hbefore, hafter⟩ := partitionPoint_spec hsorted
  refine ⟨hle, ?_, ?_⟩
  · intro x hx
    exact of_decide_eq_true (hbefore x hx)
  · intro x hx
    exact not_lt.1 (of_decide_eq_false (hafter x hx))

/-- All keys that a node holds have the property. -/
def AllKeys (Q : IndexKey → Prop) : BTreeNode → Prop
  | .leaf _ entries => ∀ e ∈ entries, Q e.key
  | .internal keys _ => ∀ k ∈ keys, Q k

section Stored

variable {S : Type} [BPlusTreePageStore S] (model : LawfulPageStore S)

/-- All keys in the nodes of the pages have the property. -/
def Labelled (Q : IndexKey → Prop) (s : S) (ids : List PageId) : Prop :=
  ∀ i ∈ ids, ∃ node, model.view s i = some node ∧ AllKeys Q node

/-- The nodes below a page id form a tree, as far as they are stored. -/
def TreeAt (s : S) (least height : Nat) (lo hi : Bound IndexKey) (id : PageId)
    (leaves : List (Leaf IndexEntry PageId)) (ids : List PageId) : Prop :=
  Subtree IndexEntry.key indexFanout (model.view s) least height lo hi id leaves ids

/-- What stands in the place of a node after an insert: the node itself, or the
two halves of it. -/
def Placed (t : S) (least height : Nat) (lo hi : Bound IndexKey) (id : PageId)
    (leaves : List (Leaf IndexEntry PageId)) (ids : List PageId) : Option SplitResult → Prop
  | none => TreeAt model t least height lo hi id leaves ids
  | some split =>
      Row (TreeAt model t indexFanout.least height) lo
        [(id, bound split.separator), (split.rightPageId, hi)] leaves ids

/-- The pages of a part of the tree have been replaced by those listed in `new`. -/
structure Replaced (s t : S) (old new : List PageId) : Prop where
  keeps : model.Keeps (fun i => i ∈ old) s t
  nodup : new.Nodup
  fresh : ∀ i ∈ new, i ∈ old ∨ ¬ model.used s i
  used : ∀ i ∈ new, model.used t i

variable {model} {s t : S} {least height : Nat} {lo hi : Bound IndexKey} {id : PageId}

theorem Labelled.append {Q : IndexKey → Prop} {ids₁ ids₂ : List PageId} :
    Labelled model Q s (ids₁ ++ ids₂) ↔ Labelled model Q s ids₁ ∧ Labelled model Q s ids₂ :=
  List.forall_mem_append

theorem Labelled.keeps {Q : IndexKey → Prop} {ids : List PageId} {touched : PageId → Prop}
    (h : Labelled model Q s ids) (hkeeps : model.Keeps touched s t)
    (hids : ∀ i ∈ ids, ¬ touched i) : Labelled model Q t ids := by
  intro i hi
  obtain ⟨node, hview, hall⟩ := h i hi
  exact ⟨node, hkeeps.view (hids i hi) hview, hall⟩

theorem Labelled.node {Q : IndexKey → Prop} {ids : List PageId} {node : BTreeNode}
    (h : Labelled model Q s ids) (hid : id ∈ ids) (hview : model.view s id = some node) :
    AllKeys Q node := by
  obtain ⟨node', hview', hall⟩ := h id hid
  rw [hview] at hview'
  cases hview'
  exact hall

theorem Replaced.trans {u : S} {old mid new : List PageId} (h : Replaced model s t old mid)
    (h' : Replaced model t u mid new) (hs : model.Good s) : Replaced model s u old new where
  keeps := h.keeps.trans h'.keeps (fun i hi => h.fresh i hi) hs
  nodup := h'.nodup
  fresh := by
    intro i hi
    rcases h'.fresh i hi with hmid | hunused
    · exact h.fresh i hmid
    · exact Or.inr fun hused => hunused (h.keeps.used i hused)
  used := h'.used

/-- A step that touches nothing. -/
theorem replaced_of_keeps {ids : List PageId} (h : model.Keeps (fun _ => False) s t)
    (hids : ids.Nodup) (hused : ∀ i ∈ ids, model.used s i) : Replaced model s t ids ids where
  keeps := h.mono fun _ hi => hi.elim
  nodup := hids
  fresh := fun _ hi => Or.inl hi
  used := fun i hi => h.used i (hused i hi)

/-- What happens to a part of the pages happens to the whole. -/
theorem Replaced.within {old new : List PageId} (h : Replaced model s t old new)
    (front back : List PageId) (hids : (front ++ (old ++ back)).Nodup)
    (hused : ∀ i ∈ front ++ (old ++ back), model.used s i) :
    Replaced model s t (front ++ (old ++ back)) (front ++ (new ++ back)) where
  keeps := h.keeps.mono fun i hi => List.mem_append_right _ (List.mem_append_left _ hi)
  nodup := by
    obtain ⟨hfront, hrest, hdisjoint⟩ := List.nodup_append.1 hids
    obtain ⟨-, hback, hdisjoint'⟩ := List.nodup_append.1 hrest
    refine List.nodup_append.2 ⟨hfront, List.nodup_append.2 ⟨h.nodup, hback, ?_⟩, ?_⟩
    · rintro i hi _ hj rfl
      rcases h.fresh i hi with hold | hunused
      · exact hdisjoint' i hold i hj rfl
      · exact hunused (hused i (List.mem_append_right _ (List.mem_append_right _ hj)))
    · rintro i hi j hj rfl
      rcases List.mem_append.1 hj with hj | hj
      · rcases h.fresh i hj with hold | hunused
        · exact hdisjoint i hi i (List.mem_append_left _ hold) rfl
        · exact hunused (hused i (List.mem_append_left _ hi))
      · exact hdisjoint i hi i (List.mem_append_right _ hj) rfl
  fresh := by
    intro i hi
    rcases List.mem_append.1 hi with hi | hi
    · exact Or.inl (List.mem_append_left _ hi)
    · rcases List.mem_append.1 hi with hi | hi
      · rcases h.fresh i hi with hold | hunused
        · exact Or.inl (List.mem_append_right _ (List.mem_append_left _ hold))
        · exact Or.inr hunused
      · exact Or.inl (List.mem_append_right _ (List.mem_append_right _ hi))
  used := by
    intro i hi
    rcases List.mem_append.1 hi with hi | hi
    · exact h.keeps.used i (hused i (List.mem_append_left _ hi))
    · rcases List.mem_append.1 hi with hi | hi
      · exact h.used i hi
      · exact h.keeps.used i (hused i (List.mem_append_right _ (List.mem_append_right _ hi)))

/-- The children that stand in the place of a node after an insert. -/
def splitRow (id : PageId) (hi : Bound IndexKey) :
    Option SplitResult → List (PageId × Bound IndexKey)
  | none => [(id, hi)]
  | some split => [(id, bound split.separator), (split.rightPageId, hi)]

theorem lastBound_splitRow (lo hi : Bound IndexKey) (id : PageId) (split : Option SplitResult) :
    lastBound lo (splitRow id hi split) = hi := by
  cases split <;> rfl

theorem Placed.row {leaves : List (Leaf IndexEntry PageId)} {ids : List PageId}
    {split : Option SplitResult} (hle : lo ≤ hi)
    (h : Placed model t indexFanout.least height lo hi id leaves ids split) :
    Row (TreeAt model t indexFanout.least height) lo (splitRow id hi split) leaves ids := by
  cases split with
  | none => exact row_singleton.2 ⟨hle, h⟩
  | some split => exact h

/-- Two pages written in the place of one, the second of them fresh. -/
theorem replaced_of_split {right : PageId} {nodeLeft nodeRight : BTreeNode} {u v : S}
    (hs : model.Good s) (hid : model.used s id)
    (halloc : BPlusTreePageStore.allocatePage s = (.ok right, u))
    (hleft : storeNode id nodeLeft u = (.ok (), v))
    (hright : storeNode right nodeRight v = (.ok (), t)) :
    id ≠ right ∧ ¬ model.used s right ∧ model.used t right ∧ model.used t id ∧
      model.Keeps (fun i => i = id) s t ∧ model.view t id = some nodeLeft ∧
      model.view t right = some nodeRight := by
  obtain ⟨hkeeps₁, hfresh, hnow⟩ := LawfulPageStore.allocate_eq_ok hs halloc
  obtain ⟨hkeeps₂, hviewLeft, husedLeft⟩ := LawfulPageStore.storeNode_eq_ok hkeeps₁.good
    (model.storable_of_used hkeeps₁.good (hkeeps₁.used id hid)) hleft
  obtain ⟨hkeeps₃, hviewRight, husedRight⟩ := LawfulPageStore.storeNode_eq_ok hkeeps₂.good
    (model.storable_of_used hkeeps₂.good (hkeeps₂.used right hnow)) hright
  have hne : id ≠ right := by
    rintro rfl
    exact hfresh hid
  have hkeeps : model.Keeps (fun i => i = id) s v :=
    (hkeeps₁.mono fun i hi => hi.elim).trans hkeeps₂ (fun i hi => Or.inl hi) hs
  refine ⟨hne, hfresh, husedRight, hkeeps₃.used id husedLeft, ?_, ?_, hviewRight⟩
  · refine hkeeps.trans hkeeps₃ ?_ hs
    rintro i rfl
    exact Or.inr hfresh
  · exact hkeeps₃.view hne hviewLeft

theorem replaced_pair {right : PageId} (ids₁ ids₂ : List PageId) (hne : id ≠ right)
    (hfresh : ¬ model.used s right) (hright : model.used t right) (hid : model.used t id)
    (hkeeps : model.Keeps (fun i => i = id) s t) (hids : (id :: (ids₁ ++ ids₂)).Nodup)
    (hused : ∀ i ∈ ids₁ ++ ids₂, model.used s i) :
    Replaced model s t (id :: (ids₁ ++ ids₂)) ((id :: ids₁) ++ (right :: ids₂)) where
  keeps := hkeeps.mono fun i hi => hi ▸ List.mem_cons_self
  nodup := by
    have hright' : right ∉ ids₁ ++ ids₂ := fun h => hfresh (hused right h)
    rw [List.nodup_append_comm, List.cons_append, List.nodup_cons]
    rw [List.mem_append, List.mem_cons]
    rw [List.mem_append] at hright'
    refine ⟨by tauto, ?_⟩
    rw [List.nodup_append_comm]
    exact hids
  fresh := by
    intro i hi
    rcases List.mem_append.1 hi with hi | hi
    · rcases List.mem_cons.1 hi with rfl | hi
      · exact Or.inl List.mem_cons_self
      · exact Or.inl (List.mem_cons_of_mem _ (List.mem_append_left _ hi))
    · rcases List.mem_cons.1 hi with rfl | hi
      · exact Or.inr hfresh
      · exact Or.inl (List.mem_cons_of_mem _ (List.mem_append_right _ hi))
  used := by
    intro i hi
    rcases List.mem_append.1 hi with hi | hi
    · rcases List.mem_cons.1 hi with rfl | hi
      · exact hid
      · exact hkeeps.used i (hused i (List.mem_append_left _ hi))
    · rcases List.mem_cons.1 hi with rfl | hi
      · exact hright
      · exact hkeeps.used i (hused i (List.mem_append_right _ hi))

/-- One page written in the place of itself. -/
theorem replaced_self {node : BTreeNode} {ids : List PageId} (hs : model.Good s)
    (hid : model.used s id) (hstore : storeNode id node s = (.ok (), t)) (hids : (id :: ids).Nodup)
    (hused : ∀ i ∈ ids, model.used s i) :
    Replaced model s t (id :: ids) (id :: ids) ∧ model.Keeps (fun i => i = id) s t ∧
      model.view t id = some node := by
  obtain ⟨hkeeps, hview, hid'⟩ :=
    LawfulPageStore.storeNode_eq_ok hs (model.storable_of_used hs hid) hstore
  refine ⟨⟨hkeeps.mono fun i hi => hi ▸ List.mem_cons_self, hids, fun i hi => Or.inl hi, ?_⟩,
    hkeeps, hview⟩
  intro i hi
  rcases List.mem_cons.1 hi with rfl | hi
  · exact hid'
  · exact hkeeps.used i (hused i hi)

theorem storeLeaf_placed {nextLeaf : Option PageId} {entries : List IndexEntry}
    {split : Option SplitResult} (hs : model.Good s) (hid : model.used s id)
    (hsorted : entries.Pairwise (· ≤ ·))
    (hbounds : ∀ e ∈ entries, lo ≤ bound e.key ∧ bound e.key ≤ hi)
    (hleast : least ≤ entries.length) (hmost : entries.length ≤ maxKeys + 1)
    (hrun : storeLeaf id nextLeaf entries s = (.ok split, t)) :
    ∃ leaves ids, Replaced model s t [id] ids ∧ Placed model t least 0 lo hi id leaves ids split ∧
      (∀ (e : IndexEntry) (old : List IndexEntry), entries.Perm (e :: old) →
        Grown e [⟨id, nextLeaf, old⟩] leaves) ∧
      ∀ Q : IndexKey → Prop, (∀ e ∈ entries, Q e.key) →
        Labelled model Q t ids ∧ ∀ sp ∈ split, Q sp.separator := by
  rw [storeLeaf] at hrun
  split at hrun
  · rename_i hfits
    obtain ⟨⟨⟩, u, hstore, hret⟩ := Exec.bind_eq_ok.1 hrun
    cases hret
    obtain ⟨hreplaced, -, hview⟩ := replaced_self hs hid hstore (List.nodup_singleton id)
      (fun i hi => absurd hi List.not_mem_nil)
    refine ⟨[⟨id, nextLeaf, entries⟩], [id], hreplaced, ?_, ?_, ?_⟩
    · exact ⟨nextLeaf, entries, hview, hsorted, hbounds, hleast, hfits, rfl, rfl⟩
    · exact fun e old hperm => grown_leaf hperm
    · intro Q hall
      refine ⟨fun i hi => ?_, nofun⟩
      rw [List.mem_singleton.1 hi]
      exact ⟨_, hview, hall⟩
  · rename_i hlong
    obtain ⟨right, u₁, halloc, hrun⟩ := Exec.bind_eq_ok.1 hrun
    obtain ⟨first, u₂, hlift, hrun⟩ := Exec.bind_eq_ok.1 hrun
    obtain ⟨hfirst, rfl⟩ := Exec.liftM_eq_ok.1 hlift
    obtain ⟨⟨⟩, u₃, hleft, hrun⟩ := Exec.bind_eq_ok.1 hrun
    obtain ⟨⟨⟩, u₄, hright, hret⟩ := Exec.bind_eq_ok.1 hrun
    cases hret
    obtain ⟨hne, hfresh, husedRight, husedLeft, hkeeps, hviewLeft, hviewRight⟩ :=
      replaced_of_split hs hid halloc hleft hright
    simp only [maxKeys] at hlong hmost
    have hfive : entries.length = 5 := by omega
    rw [hfive] at hfirst hviewLeft hviewRight
    obtain ⟨rest, hdrop⟩ : ∃ rest, entries.drop (5 / 2) = first :: rest := by
      have hget := DbResult.index_eq_ok hfirst
      cases hcase : entries.drop (5 / 2) with
      | nil =>
          rw [hcase] at hget
          cases hget
      | cons x rest =>
          rw [hcase] at hget
          cases hget
          exact ⟨rest, rfl⟩
    have hparts := hsorted
    rw [← List.take_append_drop (5 / 2) entries, List.pairwise_append] at hparts
    have hmem : first ∈ entries := List.mem_of_mem_drop (by rw [hdrop]; exact List.mem_cons_self)
    refine ⟨[⟨id, some right, entries.take (5 / 2)⟩, ⟨right, nextLeaf, entries.drop (5 / 2)⟩],
      [id, right], replaced_pair [] [] hne hfresh husedRight husedLeft hkeeps (by simp) (by simp),
      ?_, ?_, ?_⟩
    · refine ⟨(hbounds first hmem).1, [⟨id, some right, entries.take (5 / 2)⟩], _, [id], _, ?_,
        ⟨(hbounds first hmem).2, [⟨right, nextLeaf, entries.drop (5 / 2)⟩], [], [right], [], ?_,
          ⟨rfl, rfl⟩, rfl, rfl⟩, rfl, rfl⟩
      · refine ⟨some right, entries.take (5 / 2), hviewLeft, hparts.1, ?_, ?_, ?_, rfl, rfl⟩
        · intro e he
          refine ⟨(hbounds e (List.mem_of_mem_take he)).1, bound_le_bound.2 (key_monotone ?_)⟩
          exact hparts.2.2 e he first (by rw [hdrop]; exact List.mem_cons_self)
        · rw [List.length_take, hfive]
          decide
        · rw [List.length_take, hfive]
          decide
      · refine ⟨nextLeaf, entries.drop (5 / 2), hviewRight, hparts.2.1, ?_, ?_, ?_, rfl, rfl⟩
        · intro e he
          refine ⟨bound_le_bound.2 (key_monotone ?_), (hbounds e (List.mem_of_mem_drop he)).2⟩
          have htail := hparts.2.1
          rw [hdrop] at he htail
          rcases List.mem_cons.1 he with rfl | he
          · exact le_rfl
          · exact (List.pairwise_cons.1 htail).1 e he
        · rw [List.length_drop, hfive]
          decide
        · rw [List.length_drop, hfive]
          decide
    · intro e old hperm
      refine grown_split ?_
      rw [List.take_append_drop]
      exact hperm
    · intro Q hall
      refine ⟨?_, ?_⟩
      · rw [Labelled, List.forall_mem_cons, List.forall_mem_singleton]
        exact ⟨⟨_, hviewLeft, fun e he => hall e (List.mem_of_mem_take he)⟩,
          ⟨_, hviewRight, fun e he => hall e (List.mem_of_mem_drop he)⟩⟩
      · rintro sp ⟨⟩
        exact hall first hmem

theorem row_childRow_ids {keys : List IndexKey} {children : List PageId}
    {leaves : List (Leaf IndexEntry PageId)} {ids : List PageId} {u : S}
    (hrow : Row (TreeAt model s indexFanout.least height) lo (childRow keys children hi) leaves ids)
    (hkeeps : model.Keeps (fun i => i = id) s u) (hid : id ∉ ids) :
    Row (TreeAt model u indexFanout.least height) lo (childRow keys children hi) leaves ids := by
  refine hrow.imp ?_
  intro lo hi child leaves₁ ids₁ hsub hchild
  refine Subtree.mono hchild ?_
  intro i hi node hnode
  refine hkeeps.view ?_ hnode
  rintro rfl
  exact hid (hsub i hi)

theorem storeInternal_placed {keys : List IndexKey} {children : List PageId}
    {leaves : List (Leaf IndexEntry PageId)} {ids : List PageId} {split : Option SplitResult}
    (hs : model.Good s) (hid : model.used s id) (hids : (id :: ids).Nodup)
    (hused : ∀ i ∈ ids, model.used s i) (hlen : children.length = keys.length + 1)
    (hleast : least ≤ keys.length) (hmost : keys.length ≤ maxKeys + 1)
    (hrow : Row (TreeAt model s indexFanout.least height) lo (childRow keys children hi) leaves ids)
    (hrun : storeInternal id keys children s = (.ok split, t)) :
    ∃ ids', Replaced model s t (id :: ids) ids' ∧
      Placed model t least (height + 1) lo hi id leaves ids' split ∧
      ∀ Q : IndexKey → Prop, (∀ k ∈ keys, Q k) → Labelled model Q s ids →
        Labelled model Q t ids' ∧ ∀ sp ∈ split, Q sp.separator := by
  have hnot : id ∉ ids := (List.nodup_cons.1 hids).1
  rw [storeInternal] at hrun
  split at hrun
  · rename_i hfits
    obtain ⟨⟨⟩, u, hstore, hret⟩ := Exec.bind_eq_ok.1 hrun
    cases hret
    obtain ⟨hreplaced, hkeeps, hview⟩ := replaced_self hs hid hstore hids hused
    refine ⟨id :: ids, hreplaced, ⟨keys, children, ids, hview, hlen, hleast, hfits,
      row_childRow_ids hrow hkeeps hnot, rfl⟩, ?_⟩
    intro Q hkeys hall
    refine ⟨List.forall_mem_cons.2 ⟨⟨_, hview, hkeys⟩, hall.keeps hkeeps ?_⟩, nofun⟩
    rintro i hi rfl
    exact hnot hi
  · rename_i hlong
    obtain ⟨separator, u₁, hlift, hrun⟩ := Exec.bind_eq_ok.1 hrun
    obtain ⟨hseparator, rfl⟩ := Exec.liftM_eq_ok.1 hlift
    obtain ⟨right, u₂, halloc, hrun⟩ := Exec.bind_eq_ok.1 hrun
    obtain ⟨⟨⟩, u₃, hleft, hrun⟩ := Exec.bind_eq_ok.1 hrun
    obtain ⟨⟨⟩, u₄, hright, hret⟩ := Exec.bind_eq_ok.1 hrun
    cases hret
    obtain ⟨hne, hfresh, husedRight, husedLeft, hkeeps, hviewLeft, hviewRight⟩ :=
      replaced_of_split hs hid halloc hleft hright
    simp only [maxKeys] at hlong hmost
    have hfive : keys.length = 5 := by omega
    rw [hfive] at hseparator hviewLeft hviewRight
    have hsplit : childRow keys children hi = _ :=
      childRow_split hlen (DbResult.index_eq_ok hseparator)
    have hrow' := row_childRow_ids hrow hkeeps hnot
    rw [hsplit] at hrow'
    obtain ⟨leaves₁, leaves₂, ids₁, ids₂, hrow₁, hrow₂, rfl, rfl⟩ := row_append.1 hrow'
    have hlenLeft : (children.take (5 / 2 + 1)).length = (keys.take (5 / 2)).length + 1 := by
      rw [List.length_take, List.length_take, hlen, hfive]
      decide
    have hlenRight : (children.drop (5 / 2 + 1)).length = (keys.drop (5 / 2 + 1)).length + 1 := by
      rw [List.length_drop, List.length_drop, hlen, hfive]
    have hlast : lastBound lo (childRow (keys.take (5 / 2)) (children.take (5 / 2 + 1))
        (bound separator)) = bound separator := lastBound_childRow lo (bound separator) hlenLeft
    have hlower := hrow₁.le_lastBound
    rw [hlast] at hlower hrow₂
    have hupper := hrow₂.le_lastBound
    rw [lastBound_childRow (bound separator) hi hlenRight] at hupper
    refine ⟨(id :: ids₁) ++ (right :: ids₂),
      replaced_pair ids₁ ids₂ hne hfresh husedRight husedLeft hkeeps hids hused, ?_, ?_⟩
    swap
    · intro Q hkeys hall
      have hkept := hall.keeps hkeeps (by rintro i hi rfl; exact hnot hi)
      rw [Labelled.append] at hkept
      refine ⟨Labelled.append.2 ⟨List.forall_mem_cons.2 ⟨⟨_, hviewLeft, ?_⟩, hkept.1⟩,
        List.forall_mem_cons.2 ⟨⟨_, hviewRight, ?_⟩, hkept.2⟩⟩, ?_⟩
      · exact fun k hk => hkeys k (List.mem_of_mem_take hk)
      · exact fun k hk => hkeys k (List.mem_of_mem_drop hk)
      · rintro sp ⟨⟩
        exact hkeys separator (List.mem_of_getElem? (DbResult.index_eq_ok hseparator))
    refine ⟨hlower, leaves₁, leaves₂, id :: ids₁, right :: ids₂, ?_, ?_, rfl, rfl⟩
    · refine ⟨keys.take (5 / 2), children.take (5 / 2 + 1), ids₁, hviewLeft, hlenLeft, ?_, ?_,
        hrow₁, rfl⟩
      · rw [List.length_take, hfive]
        decide
      · rw [List.length_take, hfive]
        decide
    · refine row_singleton.2 ⟨hupper, keys.drop (5 / 2 + 1), children.drop (5 / 2 + 1), ids₂,
        hviewRight, hlenRight, ?_, ?_, hrow₂, rfl⟩
      · rw [List.length_drop, hfive]
        decide
      · rw [List.length_drop, hfive]
        decide

/-- A row of subtrees none of whose pages has been touched. -/
theorem row_of_keeps {row : List (PageId × Bound IndexKey)}
    {leaves : List (Leaf IndexEntry PageId)} {ids old : List PageId}
    (hrow : Row (TreeAt model s indexFanout.least height) lo row leaves ids)
    (hkeeps : model.Keeps (fun i => i ∈ old) s t) (hdisjoint : ∀ i ∈ ids, i ∉ old) :
    Row (TreeAt model t indexFanout.least height) lo row leaves ids := by
  refine hrow.imp ?_
  intro lo hi child leaves₁ ids₁ hsub hchild
  exact Subtree.mono hchild fun i hi node hnode => hkeeps.view (hdisjoint i (hsub i hi)) hnode

/-- An insert below a node keeps it a tree, possibly in two halves, with one more
entry. The keys in its nodes are old ones or the new one. -/
theorem insertRecursive_placed {key : IndexKey} {rowId : RowId} :
    ∀ {height : Nat} {fuel : Nat} {s t : S} {least : Nat} {lo hi : Bound IndexKey} {id : PageId}
      {leaves : List (Leaf IndexEntry PageId)} {ids : List PageId} {split : Option SplitResult},
    TreeAt model s least height lo hi id leaves ids → model.Good s → ids.Nodup →
    (∀ i ∈ ids, model.used s i) → lo < bound key → bound key ≤ hi →
    insertRecursive fuel id key rowId s = (.ok split, t) →
    ∃ leaves' ids', Replaced model s t ids ids' ∧
      Placed model t least height lo hi id leaves' ids' split ∧
      Grown ⟨key, rowId⟩ leaves leaves' ∧
      ∀ Q : IndexKey → Prop, Q key → Labelled model Q s ids →
        Labelled model Q t ids' ∧ ∀ sp ∈ split, Q sp.separator := by
  intro height
  induction height with
  | zero =>
      intro fuel s t least lo hi id leaves ids split htree hs hids hused hlo hhi hrun
      obtain ⟨next, entries, hview, hsorted, hbounds, hleast, hmost, rfl, rfl⟩ := htree
      cases fuel with
      | zero => cases hrun
      | succ fuel =>
          obtain ⟨node, u, hload, hrun⟩ := Exec.bind_eq_ok.1 hrun
          obtain ⟨u', hload', hkeeps⟩ := LawfulPageStore.loadNode_of_view hs hview
          rw [hload'] at hload
          cases hload
          have hperm := insertLeafEntry_perm entries key rowId
          have hlen := hperm.length_eq
          rw [List.length_cons] at hlen
          have hbounds' : ∀ e ∈ insertLeafEntry entries key rowId,
              lo ≤ bound e.key ∧ bound e.key ≤ hi := by
            intro e he
            rcases List.mem_cons.1 (hperm.mem_iff.1 he) with rfl | he
            · exact ⟨hlo.le, hhi⟩
            · exact hbounds e he
          have hmost' : (insertLeafEntry entries key rowId).length ≤ maxKeys + 1 := by
            rw [hlen]
            exact Nat.succ_le_succ hmost
          have hleast' : least ≤ (insertLeafEntry entries key rowId).length := by omega
          obtain ⟨leaves', ids', hreplaced, hplaced, hgrown, hlabels⟩ := storeLeaf_placed
            hkeeps.good (hkeeps.used id (hused id (List.mem_singleton_self id)))
            (insertLeafEntry_sorted hsorted key rowId) hbounds' hleast' hmost' hrun
          refine ⟨leaves', ids', (replaced_of_keeps hkeeps hids hused).trans hreplaced hs, hplaced,
            hgrown _ _ hperm, fun Q hkey hall => hlabels Q fun e he => ?_⟩
          rcases List.mem_cons.1 (hperm.mem_iff.1 he) with rfl | he
          · exact hkey
          · exact hall.node (List.mem_singleton_self id) hview e he
  | succ height ih =>
      intro fuel s t least lo hi id leaves ids split htree hs hids hused hlo hhi hrun
      obtain ⟨keys, children, ids₀, hview, hlen, hleast, hmost, hrow, rfl⟩ := htree
      cases fuel with
      | zero => cases hrun
      | succ fuel =>
          obtain ⟨node, u, hload, hrun⟩ := Exec.bind_eq_ok.1 hrun
          obtain ⟨u', hload', hkeeps⟩ := LawfulPageStore.loadNode_of_view hs hview
          rw [hload'] at hload
          cases hload
          obtain ⟨⟨⟩, u₁, hlift, hrun⟩ := Exec.bind_eq_ok.1 hrun
          obtain ⟨-, rfl⟩ := Exec.liftM_eq_ok.1 hlift
          obtain ⟨childId, u₂, hlift', hrun⟩ := Exec.bind_eq_ok.1 hrun
          obtain ⟨hindex, rfl⟩ := Exec.liftM_eq_ok.1 hlift'
          obtain ⟨childSplit, v, hchildRun, hrun⟩ := Exec.bind_eq_ok.1 hrun
          obtain ⟨hle, hbefore, hafter⟩ := childIndexForKey_spec (hrow.keys_sorted hlen).1 key
          obtain ⟨front, child, upper, back, hrowEq, hfront, hchild, hlower, hupper⟩ :=
            childRow_focus hlen hle hbefore hafter hlo hhi
          obtain rfl : childId = child :=
            Option.some.inj ((DbResult.index_eq_ok hindex).symm.trans hchild)
          -- the tree as it is after the load, seen from the child
          have hload := replaced_of_keeps hkeeps hids hused
          have hused' : ∀ i ∈ id :: ids₀, model.used u i := hload.used
          have hview' := hkeeps.view not_false hview
          have hkeeps' : model.Keeps (fun i => i ∈ []) s u := hkeeps.mono fun i hi => hi.elim
          have hrow' := row_of_keeps hrow hkeeps' (fun i _ => List.not_mem_nil)
          rw [hrowEq] at hrow'
          obtain ⟨leaves₁, leaves₂, leaves₃, ids₁, ids₂, ids₃, rfl, rfl, hrowFront, hle', htree,
            hrowBack⟩ := hrow'.focus
          rw [List.nodup_cons] at hids
          obtain ⟨hnot, hids⟩ := hids
          obtain ⟨-, hidsRest, hdisjoint⟩ := List.nodup_append.1 hids
          obtain ⟨hidsChild, -, hdisjoint'⟩ := List.nodup_append.1 hidsRest
          obtain ⟨leaves₂', ids₂', hreplaced, hplaced, hgrown, hlabels⟩ := ih htree hkeeps.good hidsChild
            (fun i hi => hused' i (List.mem_cons_of_mem _
              (List.mem_append_right _ (List.mem_append_left _ hi)))) hlower hupper hchildRun
          have hwhole : Replaced model u v (id :: (ids₁ ++ (ids₂ ++ ids₃)))
              (id :: (ids₁ ++ (ids₂' ++ ids₃))) :=
            hreplaced.within (id :: ids₁) ids₃ (List.nodup_cons.2 ⟨hnot, hids⟩) hused'
          have hrowNew : Row (TreeAt model v indexFanout.least height) lo
              (front ++ (splitRow childId upper childSplit ++ back))
              (leaves₁ ++ (leaves₂' ++ leaves₃)) (ids₁ ++ (ids₂' ++ ids₃)) := by
            refine Row.replace (row_of_keeps hrowFront hreplaced.keeps ?_) (hplaced.row hle')
              (lastBound_splitRow _ _ _ _) (row_of_keeps hrowBack hreplaced.keeps ?_)
            · exact fun i hi hi' => hdisjoint i hi i (List.mem_append_left _ hi') rfl
            · exact fun i hi hi' => hdisjoint' i hi' i hi rfl
          -- the keys of this node, and those of the nodes below it after the call
          have hbelow : ∀ Q : IndexKey → Prop, Q key →
              Labelled model Q s (id :: (ids₁ ++ (ids₂ ++ ids₃))) → (∀ k ∈ keys, Q k) ∧
                Labelled model Q v (ids₁ ++ (ids₂' ++ ids₃)) ∧ ∀ sp ∈ childSplit, Q sp.separator := by
            intro Q hkey hall
            have hkeys := hall.node List.mem_cons_self hview
            have hloaded := (List.forall_mem_cons.1 (hall.keeps hkeeps fun _ _ => not_false)).2
            obtain ⟨hall₁, hall'⟩ := Labelled.append.1 hloaded
            obtain ⟨hall₂, hall₃⟩ := Labelled.append.1 hall'
            obtain ⟨hchild, hsep⟩ := hlabels Q hkey hall₂
            refine ⟨hkeys, Labelled.append.2 ⟨hall₁.keeps hreplaced.keeps ?_,
              Labelled.append.2 ⟨hchild, hall₃.keeps hreplaced.keeps ?_⟩⟩, hsep⟩
            · exact fun i hi hi' => hdisjoint i hi i (List.mem_append_left _ hi') rfl
            · exact fun i hi hi' => hdisjoint' i hi' i hi rfl
          refine ⟨leaves₁ ++ (leaves₂' ++ leaves₃), ?_⟩
          cases childSplit with
          | none =>
              cases hrun
              have hviewEnd : model.view t id = some (.internal keys children) := by
                refine hreplaced.keeps.view ?_ hview'
                intro hmem
                exact hnot (List.mem_append_right _ (List.mem_append_left _ hmem))
              rw [splitRow, List.singleton_append, ← hrowEq] at hrowNew
              refine ⟨id :: (ids₁ ++ (ids₂' ++ ids₃)), hload.trans hwhole hs,
                ⟨keys, children, _, hviewEnd, hlen, hleast, hmost, hrowNew, rfl⟩,
                hgrown.within leaves₁ leaves₃, fun Q hkey hall => ⟨?_, nofun⟩⟩
              obtain ⟨hkeys, hrest, -⟩ := hbelow Q hkey hall
              exact List.forall_mem_cons.2 ⟨⟨_, hviewEnd, hkeys⟩, hrest⟩
          | some childSplit =>
              have hinsert := childRow_insert childSplit.separator childSplit.rightPageId hlen hrowEq
              rw [hfront] at hinsert
              rw [splitRow, ← hinsert] at hrowNew
              have hlenKeys : (keys.insertIdx (childIndexForKey keys key)
                  childSplit.separator).length = keys.length + 1 := by
                rw [List.length_insertIdx, if_pos hle]
              have hlenChildren : (children.insertIdx (childIndexForKey keys key + 1)
                  childSplit.rightPageId).length = children.length + 1 := by
                rw [List.length_insertIdx, if_pos (by omega)]
              have hleast' : least ≤ (keys.insertIdx (childIndexForKey keys key)
                  childSplit.separator).length := by omega
              obtain ⟨ids', hreplaced', hplaced', hlabels'⟩ := storeInternal_placed
                hwhole.keeps.good (hwhole.used id List.mem_cons_self) hwhole.nodup
                (fun i hi => hwhole.used i (List.mem_cons_of_mem _ hi))
                (by rw [hlenChildren, hlenKeys, hlen]) hleast'
                (by rw [hlenKeys]; exact Nat.succ_le_succ hmost) hrowNew hrun
              refine ⟨ids', (hload.trans hwhole hs).trans hreplaced' hs, hplaced',
                hgrown.within leaves₁ leaves₃, fun Q hkey hall => ?_⟩
              obtain ⟨hkeys, hrest, hsep⟩ := hbelow Q hkey hall
              refine hlabels' Q (fun k hk => ?_) hrest
              rcases (List.mem_insertIdx hle).1 hk with rfl | hk
              · exact hsep childSplit rfl
              · exact hkeys k hk

end Stored

end Rdbms
