import Rdbms.Index.Tree
import Rdbms.Library.Hoare

/-!
# How an insert fails

With as many steps as the tree is high, an insert ends. It fails only as the page store
fails, or because a node is too large for a page. `Fitting` collects what is known of
the nodes that an insert stores, so that the second case can be ruled out by a bound on
the keys; without one it is a user error.
-/

namespace Rdbms

open Library BPlusTree

/-- A node has at most as many entries or separators as the fanout allows. -/
def NodeSize : BTreeNode → Prop
  | .leaf _ entries => entries.length ≤ maxKeys
  | .internal keys _ => keys.length ≤ maxKeys

/-- What is known of a node that an insert stores. -/
structure Fitting (Q : IndexKey → Prop) (node : BTreeNode) : Prop where
  shape : NodeShape node
  size : NodeSize node
  keys : AllKeys Q node

section Bounded

variable {S : Type} [BPlusTreePageStore S]

/-- A page store whose calls fail with user errors only. -/
structure LawfulPageStore.FailsUser (model : LawfulPageStore S) : Prop where
  store : ∀ {s page header}, model.Good s → page.header = .ok header →
    Exec.Ensures (BPlusTreePageStore.storePage page) s Stop.IsUser fun _ _ => True
  allocate : ∀ {s}, model.Good s →
    Exec.Ensures (BPlusTreePageStore.allocatePage (S := S)) s Stop.IsUser fun _ _ => True

/-- The store may fail with the exit when it stores or allocates a page. -/
def LawfulPageStore.StoreFails (model : LawfulPageStore S) (stop : Stop) : Prop :=
  (∃ s page header t, model.Good s ∧ page.header = .ok header ∧
    BPlusTreePageStore.storePage page s = (.error stop, t)) ∨
  ∃ s t, model.Good s ∧ BPlusTreePageStore.allocatePage (S := S) s = (.error stop, t)

/-- The exits in `E` are all there are for a store and for the nodes put into its pages. -/
structure LawfulPageStore.FailsIn (model : LawfulPageStore S) (E : Stop → Prop)
    (Q : IndexKey → Prop) : Prop where
  store : ∀ {s page header}, model.Good s → page.header = .ok header →
    Exec.Ensures (BPlusTreePageStore.storePage page) s E fun _ _ => True
  allocate : ∀ {s}, model.Good s →
    Exec.Ensures (BPlusTreePageStore.allocatePage (S := S)) s E fun _ _ => True
  node : ∀ {id node stop}, Fitting Q node → nodeToPage id node = .error stop → E stop

variable {model : LawfulPageStore S} {s : S} {E : Stop → Prop} {Q : IndexKey → Prop}

theorem LawfulPageStore.FailsUser.failsIn (h : model.FailsUser) :
    model.FailsIn Stop.IsUser fun _ => True where
  store := h.store
  allocate := h.allocate
  node := fun hnode => nodeToPage_onlyUser _ hnode.shape _

theorem allKeys_true (node : BTreeNode) : AllKeys (fun _ => True) node := by
  cases node with
  | leaf nextLeaf entries => exact fun _ _ => trivial
  | internal keys children => exact fun _ _ => trivial

theorem labelled_true {least height : Nat} {lo hi : Bound IndexKey} {id : PageId}
    {leaves : List (Leaf IndexEntry PageId)} {ids : List PageId}
    (h : TreeAt model s least height lo hi id leaves ids) :
    Labelled model (fun _ => True) s ids := by
  intro i hi
  rcases Subtree.node h i hi with ⟨leaf, -, -, hnode⟩ | ⟨keys, children, hnode, -⟩
  · exact ⟨_, hnode, allKeys_true _⟩
  · exact ⟨_, hnode, allKeys_true _⟩

theorem storeNode_ensures (hmodel : model.FailsIn E Q) (hs : model.Good s) {id : PageId}
    {node : BTreeNode} (hid : model.used s id) (hnode : Fitting Q node) :
    Exec.Ensures (storeNode id node) s E fun _ t =>
      model.Good t ∧ ∀ i, model.used s i → model.used t i := by
  rcases hrun : storeNode id node s with ⟨stop | ⟨⟩, t⟩
  · refine Exec.Ensures.of_error hrun ?_
    have hfails : Exec.Ensures (storeNode id node) s E fun _ _ => True := by
      refine Exec.Ensures.bind (Exec.Ensures.liftM ?_ fun stop => hmodel.node hnode)
      intro page hpage
      obtain ⟨⟨header, hvalid, -, -⟩, -⟩ := nodeToPage_eq_ok hpage
      exact hmodel.store hs ((Page.header_eq_ok_iff page header).2 hvalid.toShape)
    exact hfails.error hrun
  · obtain ⟨hkeeps, -, -⟩ :=
      LawfulPageStore.storeNode_eq_ok hs (model.storable_of_used hs hid) hrun
    exact Exec.Ensures.of_ok hrun ⟨hkeeps.good, hkeeps.used⟩

theorem allocate_ensures (hmodel : model.FailsIn E Q) (hs : model.Good s) :
    Exec.Ensures (BPlusTreePageStore.allocatePage (S := S)) s E fun id t =>
      model.Good t ∧ model.used t id ∧ ∀ i, model.used s i → model.used t i := by
  rcases hrun : BPlusTreePageStore.allocatePage s with ⟨stop | id, t⟩
  · exact Exec.Ensures.of_error hrun ((hmodel.allocate hs).error hrun)
  · obtain ⟨hkeeps, -, hnow⟩ := LawfulPageStore.allocate_eq_ok hs hrun
    exact Exec.Ensures.of_ok hrun ⟨hkeeps.good, hnow, hkeeps.used⟩

/-- Storing the two halves of a node that has been split. -/
theorem storeHalves_ensures (hmodel : model.FailsIn E Q) (hs : model.Good s) {id right : PageId}
    {nodeLeft nodeRight : BTreeNode} {split : SplitResult} (hid : model.used s id)
    (hright : model.used s right) (hleft : Fitting Q nodeLeft) (hnodeRight : Fitting Q nodeRight) :
    Exec.Ensures (do
      storeNode id nodeLeft
      storeNode right nodeRight
      return some split : Db S (Option SplitResult)) s E fun _ _ => True := by
  refine Exec.Ensures.bind ((storeNode_ensures hmodel hs hid hleft).imp ?_)
  rintro ⟨⟩ t ⟨ht, hused⟩
  refine Exec.Ensures.bind ((storeNode_ensures hmodel ht (hused right hright) hnodeRight).imp ?_)
  exact fun _ _ _ => Exec.Ensures.pure trivial

theorem storeLeaf_ensures (hmodel : model.FailsIn E Q) (hs : model.Good s) {id : PageId}
    (hid : model.used s id) (nextLeaf : Option PageId) {entries : List IndexEntry}
    (hkeys : ∀ e ∈ entries, Q e.key) (hmost : entries.length ≤ maxKeys + 1) :
    Exec.Ensures (storeLeaf id nextLeaf entries) s E fun _ _ => True := by
  rw [storeLeaf]
  split
  · rename_i hfits
    refine Exec.Ensures.bind ((storeNode_ensures hmodel hs hid
      ⟨nodeShape_leaf _ _, hfits, hkeys⟩).imp ?_)
    exact fun _ _ _ => Exec.Ensures.pure trivial
  · rename_i hlong
    simp only [maxKeys] at hlong hmost
    refine Exec.Ensures.bind ((allocate_ensures hmodel hs).imp ?_)
    rintro right t ⟨ht, hright, hused⟩
    refine Exec.Ensures.bind (Exec.Ensures.liftM ?_ ?_)
    · refine fun _ _ => storeHalves_ensures hmodel ht (hused id hid) hright
        ⟨nodeShape_leaf _ _, ?_, fun e he => hkeys e (List.mem_of_mem_take he)⟩
        ⟨nodeShape_leaf _ _, ?_, fun e he => hkeys e (List.mem_of_mem_drop he)⟩
      · rw [NodeSize, List.length_take, maxKeys]
        omega
      · rw [NodeSize, List.length_drop, maxKeys]
        omega
    · -- The right half is not empty.
      intro stop hstop
      have hpos : 0 < (entries.drop (entries.length / 2)).length := by
        rw [List.length_drop]
        omega
      rw [DbResult.index_of_getElem? (List.getElem?_eq_getElem hpos)] at hstop
      cases hstop

theorem storeInternal_ensures (hmodel : model.FailsIn E Q) (hs : model.Good s) {id : PageId}
    (hid : model.used s id) {keys : List IndexKey} {children : List PageId}
    (hlen : children.length = keys.length + 1) (hkeys : ∀ k ∈ keys, Q k)
    (hmost : keys.length ≤ maxKeys + 1) :
    Exec.Ensures (storeInternal id keys children) s E fun _ _ => True := by
  rw [storeInternal]
  split
  · rename_i hfits
    refine Exec.Ensures.bind ((storeNode_ensures hmodel hs hid
      ⟨nodeShape_internal hlen, hfits, hkeys⟩).imp ?_)
    exact fun _ _ _ => Exec.Ensures.pure trivial
  · rename_i hlong
    simp only [maxKeys] at hlong hmost
    refine Exec.Ensures.bind (Exec.Ensures.liftM ?_ ?_)
    · intro separator _
      refine Exec.Ensures.bind ((allocate_ensures hmodel hs).imp ?_)
      rintro right t ⟨ht, hright, hused⟩
      refine storeHalves_ensures hmodel ht (hused id hid) hright
        ⟨nodeShape_internal ?_, ?_, fun k hk => hkeys k (List.mem_of_mem_take hk)⟩
        ⟨nodeShape_internal ?_, ?_, fun k hk => hkeys k (List.mem_of_mem_drop hk)⟩
      · rw [List.length_take, List.length_take]
        omega
      · rw [NodeSize, List.length_take, maxKeys]
        omega
      · rw [List.length_drop, List.length_drop]
        omega
      · rw [NodeSize, List.length_drop, maxKeys]
        omega
    · intro stop hstop
      have hmid : keys.length / 2 < keys.length := by omega
      rw [DbResult.index_of_getElem? (List.getElem?_eq_getElem hmid)] at hstop
      cases hstop

/-- An insert with enough steps ends, or fails as the store does. -/
theorem insertRecursive_ensures (hmodel : model.FailsIn E Q) {key : IndexKey} {rowId : RowId}
    (hkey : Q key) :
    ∀ {height fuel : Nat} {s : S} {least : Nat} {lo hi : Bound IndexKey} {id : PageId}
      {leaves : List (Leaf IndexEntry PageId)} {ids : List PageId},
    TreeAt model s least height lo hi id leaves ids → Labelled model Q s ids → model.Good s →
    ids.Nodup → (∀ i ∈ ids, model.used s i) → lo < bound key → bound key ≤ hi → height < fuel →
    Exec.Ensures (insertRecursive fuel id key rowId) s E fun _ _ => True := by
  intro height
  induction height with
  | zero =>
      intro fuel s least lo hi id leaves ids htree hall hs hids hused hlo hhi hfuel
      obtain ⟨next, entries, hview, -, -, -, hmost, -, rfl⟩ := htree
      obtain ⟨fuel, rfl⟩ := Nat.exists_eq_succ_of_ne_zero (Nat.ne_of_gt (Nat.zero_lt_of_lt hfuel))
      obtain ⟨t, hload, hkeeps⟩ := LawfulPageStore.loadNode_of_view hs hview
      have hperm := insertLeafEntry_perm entries key rowId
      refine Exec.Ensures.bind (Exec.Ensures.of_ok hload ?_)
      refine storeLeaf_ensures hmodel hkeeps.good
        (hkeeps.used id (hused id (List.mem_singleton_self id))) _ ?_ ?_
      · intro e he
        rcases List.mem_cons.1 (hperm.mem_iff.1 he) with rfl | he
        · exact hkey
        · exact hall.node (List.mem_singleton_self id) hview e he
      · rw [hperm.length_eq, List.length_cons]
        exact Nat.succ_le_succ hmost
  | succ height ih =>
      intro fuel s least lo hi id leaves ids htree hall hs hids hused hlo hhi hfuel
      obtain ⟨keys, children, ids₀, hview, hlen, hleast, hmost, hrow, rfl⟩ := htree
      obtain ⟨fuel, rfl⟩ := Nat.exists_eq_succ_of_ne_zero (Nat.ne_of_gt (Nat.zero_lt_of_lt hfuel))
      obtain ⟨u, hload, hkeeps⟩ := LawfulPageStore.loadNode_of_view hs hview
      obtain ⟨hle, hbefore, hafter⟩ := childIndexForKey_spec (hrow.keys_sorted hlen).1 key
      obtain ⟨front, child, upper, back, hrowEq, -, hchild, hlower, hupper⟩ :=
        childRow_focus hlen hle hbefore hafter hlo hhi
      have hkeeps' : model.Keeps (fun i => i ∈ []) s u := hkeeps.mono fun i hi => hi.elim
      have hrow' := row_of_keeps hrow hkeeps' (fun i _ => List.not_mem_nil)
      rw [hrowEq] at hrow'
      obtain ⟨leaves₁, leaves₂, leaves₃, ids₁, ids₂, ids₃, rfl, rfl, -, -, htree, -⟩ := hrow'.focus
      have hidsChild : ids₂.Nodup :=
        (List.nodup_append.1 (List.nodup_append.1 (List.nodup_cons.1 hids).2).2.1).1
      have hsub : ∀ i ∈ ids₂, i ∈ id :: (ids₁ ++ (ids₂ ++ ids₃)) := fun i hi =>
        List.mem_cons_of_mem _ (List.mem_append_right _ (List.mem_append_left _ hi))
      have husedChild : ∀ i ∈ ids₂, model.used u i := fun i hi =>
        hkeeps.used i (hused i (hsub i hi))
      have hallChild : Labelled model Q u ids₂ := fun i hi =>
        hall.keeps hkeeps (fun _ _ => not_false) i (hsub i hi)
      refine Exec.Ensures.bind (Exec.Ensures.of_ok hload ?_)
      refine Exec.Ensures.bind (Exec.Ensures.of_ok (t := u) (a := ()) ?_ ?_)
      · rw [validateInternalShape_of_length hlen]
        rfl
      refine Exec.Ensures.bind (Exec.Ensures.of_ok (t := u) (a := child) ?_ ?_)
      · rw [DbResult.index_of_getElem? hchild]
        rfl
      have hfails := ih htree hallChild hkeeps.good hidsChild husedChild hlower hupper
        (Nat.lt_of_succ_lt_succ hfuel)
      rcases hrun : insertRecursive fuel child key rowId u with ⟨stop | split, v⟩
      · exact Exec.Ensures.bind (Exec.Ensures.of_error hrun (hfails.error hrun))
      refine Exec.Ensures.bind (Exec.Ensures.of_ok hrun ?_)
      obtain ⟨_, _, hreplaced, -, -, hlabels⟩ := insertRecursive_placed htree hkeeps.good hidsChild
        husedChild hlower hupper hrun
      cases split with
      | none => exact Exec.Ensures.pure trivial
      | some split =>
          refine storeInternal_ensures hmodel hreplaced.keeps.good
            (hreplaced.keeps.used id (hkeeps.used id (hused id List.mem_cons_self))) ?_ ?_ ?_
          · rw [List.length_insertIdx, if_pos (by omega), List.length_insertIdx, if_pos hle, hlen]
          · intro k hk
            rcases (List.mem_insertIdx hle).1 hk with rfl | hk
            · exact (hlabels Q hkey hallChild).2 split rfl
            · exact hall.node List.mem_cons_self hview k hk
          · rw [List.length_insertIdx, if_pos hle]
            exact Nat.succ_le_succ hmost

/-- The same for a whole insert. -/
theorem insert_ensures_height (hmodel : model.FailsIn E Q) {root : PageId} {height fuel : Nat}
    {leaves : List (Leaf IndexEntry PageId)} {ids : List PageId}
    (htree : TreeAt model s (min height 1) height ⊥ ⊤ root leaves ids)
    (hall : Labelled model Q s ids) (hids : ids.Nodup) (hused : ∀ i ∈ ids, model.used s i)
    (hs : model.Good s) (hfuel : height < fuel) {key : IndexKey} (hkey : Q key) (rowId : RowId) :
    Exec.Ensures (insert fuel root key rowId) s E fun _ _ => True := by
  have hrec : Exec.Ensures (insertRecursive fuel root key rowId) s E fun _ _ => True :=
    insertRecursive_ensures hmodel hkey htree hall hs hids hused (bot_lt_bound key)
      (bound_le_top key) hfuel
  rcases hrun : insertRecursive fuel root key rowId s with ⟨stop | split, t⟩
  · exact Exec.Ensures.bind (Exec.Ensures.of_error hrun (hrec.error hrun))
  refine Exec.Ensures.bind (Exec.Ensures.of_ok hrun ?_)
  obtain ⟨_, _, hreplaced, -, -, hlabels⟩ := insertRecursive_placed htree hs hids hused
    (bot_lt_bound key) (bound_le_top key) hrun
  cases split with
  | none => exact Exec.Ensures.pure trivial
  | some split =>
      refine Exec.Ensures.bind ((allocate_ensures hmodel hreplaced.keeps.good).imp ?_)
      rintro newRoot u ⟨hu, hnew, -⟩
      have hnode : Fitting Q (.internal [split.separator] [root, split.rightPageId]) :=
        ⟨nodeShape_internal rfl, by simp [NodeSize, maxKeys],
          List.forall_mem_singleton.2 ((hlabels Q hkey hall).2 split rfl)⟩
      refine Exec.Ensures.bind ((storeNode_ensures hmodel hu hnew hnode).imp ?_)
      exact fun _ _ _ => Exec.Ensures.pure trivial

/-- An insert into a tree adds its entry or fails with a user error. -/
theorem insert_ensures (hmodel : model.FailsUser) {root : PageId} {entries : List IndexEntry}
    {ids : List PageId} {fuel : Nat} (h : IndexTree model s root entries ids) (hs : model.Good s)
    (hfuel : ids.length ≤ fuel) (key : IndexKey) (rowId : RowId) :
    Exec.Ensures (insert fuel root key rowId) s Stop.IsUser fun newRoot t => ∃ entries' ids',
      IndexTree model t newRoot entries' ids' ∧ entries'.Perm (⟨key, rowId⟩ :: entries) ∧
        Replaced model s t ids ids' := by
  have hfails : Exec.Ensures (insert fuel root key rowId) s Stop.IsUser fun _ _ => True := by
    obtain ⟨height, leaves, htree, -, -⟩ := h.tree
    exact insert_ensures_height hmodel.failsIn htree (labelled_true htree) h.nodup h.used hs
      ((Subtree.height_lt htree).trans_le hfuel) trivial rowId
  rcases hrun : insert fuel root key rowId s with ⟨stop | newRoot, t⟩
  · exact Exec.Ensures.of_error hrun (hfails.error hrun)
  · exact Exec.Ensures.of_ok hrun (insert_tree h hs hrun)

end Bounded

end Rdbms
