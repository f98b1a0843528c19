import Rdbms.Index.Bounded
import Rdbms.Index.Loose

/-!
# What a failed insert leaves behind

The nodes are stored one by one on the way up, and any of them may turn out to be too
large for a page. If it is the first one, nothing has changed. If it is the right half of
a leaf, the entries that were to go there are in no page any more. If it is a later one,
the leaves are complete and the new entry is among them, although a node above does not
know of the new half yet.
-/

namespace Rdbms

open Library BPlusTree

/-- The leaf with these entries goes into a page; which leaf is the next one does not
matter. -/
def LeafFits (entries : List IndexEntry) : Prop :=
  ∃ bs, encodeNode (.leaf none entries) = .ok bs ∧ bs.length ≤ Page.maxRecord

/-- The leaf has to be split for the new entry, and its left half goes into a page. -/
def SplitsLeaf (entries : List IndexEntry) (key : IndexKey) (rowId : RowId) : Prop :=
  maxKeys < (insertLeafEntry entries key rowId).length ∧
    LeafFits ((insertLeafEntry entries key rowId).take
      ((insertLeafEntry entries key rowId).length / 2))

theorem leafFits_iff {id : PageId} {next : Option PageId} {entries : List IndexEntry} :
    (∃ page, nodeToPage id (.leaf next entries) = .ok page) ↔ LeafFits entries := by
  rw [nodeToPage_isOk, LeafFits]
  simp only [encodeNode, except_bind_eq_ok, except_pure_eq, Except.ok.injEq]
  constructor
  · rintro ⟨_, ⟨count, hcount, parts, hparts, rfl⟩, hlen⟩
    refine ⟨_, ⟨count, hcount, parts, hparts, rfl⟩, ?_⟩
    simpa only [List.length_append, length_encodeNextLeaf] using hlen
  · rintro ⟨_, ⟨count, hcount, parts, hparts, rfl⟩, hlen⟩
    refine ⟨_, ⟨count, hcount, parts, hparts, rfl⟩, ?_⟩
    simpa only [List.length_append, length_encodeNextLeaf] using hlen

section Failed

variable {S : Type} [BPlusTreePageStore S]

/-- A store that holds the pages that were stored and no others, and where no node is
found in a page that was not stored. -/
structure LawfulPageStore.Exact (model : LawfulPageStore S) : Prop where
  load : ∀ {s t id page i}, model.Good s → BPlusTreePageStore.loadPage id s = (.ok page, t) →
    model.pages s i = none → model.pages t i = none
  store : ∀ {s t page header i}, model.Good s → page.header = .ok header →
    BPlusTreePageStore.storePage page s = (.ok (), t) → i ≠ header.pageId →
    model.pages s i = none → model.pages t i = none
  allocate : ∀ {s t id i}, model.Good s → BPlusTreePageStore.allocatePage s = (.ok id, t) →
    model.pages s i = none → model.pages t i = none
  blank : ∀ {s t id page node}, model.Good s → model.pages s id = none →
    BPlusTreePageStore.loadPage id s = (.ok page, t) → nodeFromPage page ≠ .ok node

variable {model : LawfulPageStore S} {s t u : S} {stop : Stop}

/-! ## One node -/

theorem storeNode_error (hs : model.Good s) (hstop : ¬ model.StoreFails stop) {id : PageId}
    {node : BTreeNode} (h : storeNode id node s = (.error stop, u)) :
    u = s ∧ ¬ ∃ page, nodeToPage id node = .ok page := by
  rcases Exec.bind_eq_error.1 h with hnode | ⟨page, v, hlift, hstore⟩
  · obtain ⟨hnode, rfl⟩ := Exec.liftM_eq_error.1 hnode
    refine ⟨rfl, ?_⟩
    rintro ⟨page, hpage⟩
    rw [hpage] at hnode
    cases hnode
  · obtain ⟨hpage, rfl⟩ := Exec.liftM_eq_ok.1 hlift
    obtain ⟨⟨header, hvalid, -, -⟩, -⟩ := nodeToPage_eq_ok hpage
    exact absurd (Or.inl ⟨s, page, header, u, hs,
      (Page.header_eq_ok_iff page header).2 hvalid.toShape, hstore⟩) hstop

theorem allocate_error (hs : model.Good s) (hstop : ¬ model.StoreFails stop)
    (h : BPlusTreePageStore.allocatePage s = ((.error stop : DbResult PageId), u)) : False :=
  hstop (Or.inr ⟨s, u, hs, h⟩)

theorem storeNode_isOk {id : PageId} {node : BTreeNode} {x : Unit}
    (h : storeNode id node s = (.ok x, u)) : ∃ page, nodeToPage id node = .ok page := by
  obtain ⟨page, v, hlift, -⟩ := Exec.bind_eq_ok.1 h
  exact ⟨page, (Exec.liftM_eq_ok.1 hlift).1⟩

/-- A page that was not stored, after another one has been. -/
theorem LawfulPageStore.Exact.storeNode (hmodel : model.Exact) (hs : model.Good s)
    {id i : PageId} {node : BTreeNode} {x : Unit} (h : storeNode id node s = (.ok x, u))
    (hne : i ≠ id) (hnone : model.pages s i = none) : model.pages u i = none := by
  obtain ⟨page, v, hlift, hstore⟩ := Exec.bind_eq_ok.1 h
  obtain ⟨hpage, rfl⟩ := Exec.liftM_eq_ok.1 hlift
  obtain ⟨⟨header, hvalid, rfl, -⟩, -⟩ := nodeToPage_eq_ok hpage
  exact hmodel.store hs ((Page.header_eq_ok_iff page header).2 hvalid.toShape) hstore hne hnone

/-- What is known after a leaf could not be stored, or not completely. -/
theorem storeLeaf_error (hmodel : model.Exact) (hs : model.Good s)
    (hstop : ¬ model.StoreFails stop) {id : PageId} {next : Option PageId}
    {entries : List IndexEntry} (hid : model.used s id)
    (h : storeLeaf id next entries s = (.error stop, u)) :
    (model.Keeps (fun _ => False) s u ∧
      ¬ (maxKeys < entries.length ∧ LeafFits (entries.take (entries.length / 2)))) ∨
    ∃ right, maxKeys < entries.length ∧ LeafFits (entries.take (entries.length / 2)) ∧
      model.Keeps (fun i => i = id) s u ∧
      model.view u id = some (.leaf (some right) (entries.take (entries.length / 2))) ∧
      model.pages u right = none := by
  rw [storeLeaf] at h
  split at h
  · rename_i hfits
    rcases Exec.bind_eq_error.1 h with hstore | ⟨_, _, _, hret⟩
    · obtain ⟨rfl, -⟩ := storeNode_error hs hstop hstore
      exact Or.inl ⟨⟨hs, fun _ hi => hi, fun _ _ _ hp => hp⟩,
        fun hlong => absurd hlong.1 (not_lt.2 hfits)⟩
    · cases hret
  · rename_i hlong
    have hhalf : 0 < (entries.drop (entries.length / 2)).length := by
      simp only [maxKeys] at hlong
      rw [List.length_drop]
      omega
    rcases Exec.bind_eq_error.1 h with halloc | ⟨right, v, halloc, h⟩
    · exact (allocate_error hs hstop halloc).elim
    obtain ⟨hkeeps, hfresh, hnow⟩ := LawfulPageStore.allocate_eq_ok hs halloc
    have hnone : model.pages v right = none := by
      refine hmodel.allocate hs halloc (Option.eq_none_iff_forall_ne_some.2 fun page hpage => ?_)
      exact hfresh (model.used_of_stored hs hpage)
    have hne : right ≠ id := by
      rintro rfl
      exact hfresh hid
    rcases Exec.bind_eq_error.1 h with hfirst | ⟨first, _, hfirst, h⟩
    · rw [DbResult.index_of_getElem? (List.getElem?_eq_getElem hhalf)] at hfirst
      cases hfirst
    obtain ⟨-, rfl⟩ := Exec.liftM_eq_ok.1 hfirst
    rcases Exec.bind_eq_error.1 h with hleft | ⟨⟨⟩, w, hleft, h⟩
    · obtain ⟨rfl, hnot⟩ := storeNode_error hkeeps.good hstop hleft
      exact Or.inl ⟨hkeeps, fun hsplit => hnot (leafFits_iff.2 hsplit.2)⟩
    obtain ⟨hkeeps', hview, -⟩ := LawfulPageStore.storeNode_eq_ok hkeeps.good
      (model.storable_of_used hkeeps.good (hkeeps.used id hid)) hleft
    rcases Exec.bind_eq_error.1 h with hright | ⟨_, _, _, hret⟩
    · obtain ⟨rfl, -⟩ := storeNode_error hkeeps'.good hstop hright
      refine Or.inr ⟨right, not_le.1 hlong, leafFits_iff.1 (storeNode_isOk hleft), ?_, hview,
        hmodel.storeNode hkeeps.good hleft hne hnone⟩
      exact (hkeeps.mono fun i hi => hi.elim).trans hkeeps' (fun i hi => Or.inl hi) hs
    · cases hret

/-- A row of subtrees behind a separator, as leaves on the chain. -/
theorem loose_extend_row {least height width : Nat} {lo mid hi : Bound IndexKey} {id : PageId}
    {left right : List (Leaf IndexEntry PageId)} {idsRight : List PageId}
    {row : List (PageId × Bound IndexKey)}
    (hleft : Loose (model.view s) height lo mid id left) (hmid : lo ≤ mid)
    (hrow : Row (TreeAt model s least width) mid row right idsRight)
    (hlast : lastBound mid row = hi) : Loose (model.view s) height lo hi id (left ++ right) := by
  refine hleft.extend hmid (hlast ▸ hrow.le_lastBound)
    (hrow.forall_leaves fun hchild => Subtree.view_leaf hchild) ?_
    (hrow.entries_sorted (fun hchild => Subtree.entries_within hchild)
      fun hchild => Subtree.entries_sorted key_monotone hchild)
  rw [← hlast]
  exact hrow.entries_within fun hchild => Subtree.entries_within hchild

/-- What is known after an inner node could not be stored, or not completely. The left
half of a node is enough to find the leaves of the right one. -/
theorem storeInternal_error {height : Nat} {lo hi : Bound IndexKey} {id : PageId}
    {keys : List IndexKey} {children : List PageId} {leaves : List (Leaf IndexEntry PageId)}
    {ids : List PageId} (hs : model.Good s) (hstop : ¬ model.StoreFails stop)
    (hid : model.used s id) (hids : (id :: ids).Nodup)
    (hlen : children.length = keys.length + 1) (hmost : keys.length ≤ maxKeys + 1)
    (hrow : Row (TreeAt model s indexFanout.least height) lo (childRow keys children hi) leaves ids)
    (h : storeInternal id keys children s = (.error stop, u)) :
    model.Keeps (fun _ => False) s u ∨
      Loose (model.view u) (height + 1) lo hi id leaves ∧ model.Keeps (fun i => i = id) s u := by
  have hnot : id ∉ ids := (List.nodup_cons.1 hids).1
  rw [storeInternal] at h
  split at h
  · rcases Exec.bind_eq_error.1 h with hstore | ⟨_, _, _, hret⟩
    · obtain ⟨rfl, -⟩ := storeNode_error hs hstop hstore
      exact Or.inl ⟨hs, fun _ hi => hi, fun _ _ _ hp => hp⟩
    · cases hret
  · rename_i hlong
    simp only [maxKeys] at hlong hmost
    have hfive : keys.length = 5 := by omega
    rw [hfive] at h
    rcases Exec.bind_eq_error.1 h with hmiddle | ⟨separator, _, hmiddle, h⟩
    · rw [DbResult.index_of_getElem? (List.getElem?_eq_getElem (by omega : 5 / 2 < keys.length))]
        at hmiddle
      cases hmiddle
    obtain ⟨hseparator, rfl⟩ := Exec.liftM_eq_ok.1 hmiddle
    rcases Exec.bind_eq_error.1 h with halloc | ⟨right, v, halloc, h⟩
    · exact (allocate_error hs hstop halloc).elim
    obtain ⟨hkeeps, hfresh, hnow⟩ := LawfulPageStore.allocate_eq_ok hs halloc
    rcases Exec.bind_eq_error.1 h with hleft | ⟨⟨⟩, w, hleft, h⟩
    · obtain ⟨rfl, -⟩ := storeNode_error hkeeps.good hstop hleft
      exact Or.inl hkeeps
    obtain ⟨hkeeps', hview, -⟩ := LawfulPageStore.storeNode_eq_ok hkeeps.good
      (model.storable_of_used hkeeps.good (hkeeps.used id hid)) hleft
    rcases Exec.bind_eq_error.1 h with hright | ⟨_, _, _, hret⟩
    · obtain ⟨rfl, -⟩ := storeNode_error hkeeps'.good hstop hright
      have hboth : model.Keeps (fun i => i = id) s u :=
        (hkeeps.mono fun i hi => hi.elim).trans hkeeps' (fun i hi => Or.inl hi) hs
      refine Or.inr ⟨?_, hboth⟩
      have hsplit : childRow keys children hi = _ :=
        childRow_split hlen (DbResult.index_eq_ok hseparator)
      have hrow' := row_childRow_ids hrow hboth hnot
      rw [hsplit] at hrow'
      obtain ⟨leaves₁, leaves₂, ids₁, ids₂, hrow₁, hrow₂, rfl, rfl⟩ := row_append.1 hrow'
      have hlenLeft : (children.take (5 / 2 + 1)).length = (keys.take (5 / 2)).length + 1 := by
        rw [List.length_take, List.length_take, hlen, hfive]
        decide
      have hlenRight : (children.drop (5 / 2 + 1)).length = (keys.drop (5 / 2 + 1)).length + 1 := by
        rw [List.length_drop, List.length_drop, hlen, hfive]
      have hlower := hrow₁.le_lastBound
      rw [lastBound_childRow lo (bound separator) hlenLeft] at hrow₂ hlower
      refine loose_extend_row (Loose.node hview hlenLeft (hrow₁.imp ?_)) hlower hrow₂
        (lastBound_childRow _ _ hlenRight)
      intro lo hi child leaves ids _ hchild
      exact loose_of_subtree hchild
    · cases hret

/-! ## The recursion -/

/-- A split of the leaf is what makes a call report a split. -/
theorem insertRecursive_split {key : IndexKey} {rowId : RowId} {leaf : Leaf IndexEntry PageId} :
    ∀ {height fuel : Nat} {s t : S} {id : PageId} {split : SplitResult}, model.Good s →
    Lands (model.view s) key height id leaf.id →
    model.view s leaf.id = some (.leaf leaf.next leaf.entries) →
    insertRecursive fuel id key rowId s = (.ok (some split), t) →
    SplitsLeaf leaf.entries key rowId := by
  intro height
  induction height with
  | zero =>
      intro fuel s t id split hs hlands hleaf hrun
      obtain ⟨rfl, -⟩ := hlands
      cases fuel with
      | zero => cases hrun
      | succ fuel =>
          obtain ⟨u, hload, hkeeps⟩ := LawfulPageStore.loadNode_of_view hs hleaf
          obtain ⟨_, _, hload', hrun⟩ := Exec.bind_eq_ok.1 hrun
          rw [hload] at hload'
          cases hload'
          simp only [storeLeaf] at hrun
          split at hrun
          · obtain ⟨_, _, _, hret⟩ := Exec.bind_eq_ok.1 hrun
            cases hret
          · rename_i hlong
            obtain ⟨right, _, _, hrun⟩ := Exec.bind_eq_ok.1 hrun
            obtain ⟨first, _, _, hrun⟩ := Exec.bind_eq_ok.1 hrun
            obtain ⟨⟨⟩, _, hleft, _⟩ := Exec.bind_eq_ok.1 hrun
            exact ⟨not_le.1 hlong, leafFits_iff.1 (storeNode_isOk hleft)⟩
  | succ height ih =>
      intro fuel s t id split hs hlands hleaf hrun
      obtain ⟨keys, children, child, hview, hlen, hchild, hlands⟩ := hlands
      cases fuel with
      | zero => cases hrun
      | succ fuel =>
          obtain ⟨u, hload, hkeeps⟩ := LawfulPageStore.loadNode_of_view hs hview
          obtain ⟨_, _, hload', hrun⟩ := Exec.bind_eq_ok.1 hrun
          rw [hload] at hload'
          cases hload'
          obtain ⟨⟨⟩, _, hlift, hrun⟩ := Exec.bind_eq_ok.1 hrun
          obtain ⟨-, rfl⟩ := Exec.liftM_eq_ok.1 hlift
          obtain ⟨childId, _, hlift', hrun⟩ := Exec.bind_eq_ok.1 hrun
          obtain ⟨hindex, rfl⟩ := Exec.liftM_eq_ok.1 hlift'
          obtain rfl : childId = child :=
            Option.some.inj ((DbResult.index_eq_ok hindex).symm.trans hchild)
          obtain ⟨childSplit, v, hrec, hrun⟩ := Exec.bind_eq_ok.1 hrun
          cases childSplit with
          | none => cases hrun
          | some childSplit =>
              refine ih hkeeps.good (hlands.mono ?_ ?_) (hkeeps.view not_false hleaf) hrec
              · exact fun i keys children hnode => hkeeps.view not_false hnode
              · exact fun next entries hnode => ⟨next, entries, hkeeps.view not_false hnode⟩

/-- What a failed insert has made of the leaves below a page, where `leaf` is the leaf that
the entry belongs to. -/
inductive Failed (model : LawfulPageStore S) (s u : S) (height : Nat) (lo hi : Bound IndexKey)
    (id : PageId) (leaves : List (Leaf IndexEntry PageId)) (ids : List PageId)
    (leaf : Leaf IndexEntry PageId) (key : IndexKey) (rowId : RowId) : Prop
  | untouched (hsplits : ¬ SplitsLeaf leaf.entries key rowId)
      (hkeeps : model.Keeps (fun _ => False) s u)
  | cut (right : PageId) (hsplits : SplitsLeaf leaf.entries key rowId)
      (hkeeps : model.Keeps (fun i => i = leaf.id) s u)
      (hview : model.view u leaf.id = some (.leaf (some right)
        ((insertLeafEntry leaf.entries key rowId).take
          ((insertLeafEntry leaf.entries key rowId).length / 2))))
      (hright : model.pages u right = none)
  | grown (leaves' : List (Leaf IndexEntry PageId)) (hsplits : SplitsLeaf leaf.entries key rowId)
      (hkeeps : model.Keeps (fun i => i ∈ ids) s u)
      (hloose : Loose (model.view u) height lo hi id leaves')
      (hgrown : Grown ⟨key, rowId⟩ leaves leaves')

/-- Loose leaves in the place of one child, between the subtrees of the other children. -/
theorem loose_of_child {height : Nat} {lo hi upper : Bound IndexKey} {id child : PageId}
    {keys : List IndexKey} {children : List PageId} {front back : List (PageId × Bound IndexKey)}
    {leaves₁ leaves₂ leaves₃ : List (Leaf IndexEntry PageId)} {ids₁ ids₃ : List PageId}
    (hview : model.view u id = some (.internal keys children))
    (hlen : children.length = keys.length + 1)
    (hrow : childRow keys children hi = front ++ (child, upper) :: back)
    (hfront : Row (TreeAt model u indexFanout.least height) lo front leaves₁ ids₁)
    (hle : lastBound lo front ≤ upper)
    (hchild : Loose (model.view u) height (lastBound lo front) upper child leaves₂)
    (hback : Row (TreeAt model u indexFanout.least height) upper back leaves₃ ids₃) :
    Loose (model.view u) (height + 1) lo hi id (leaves₁ ++ (leaves₂ ++ leaves₃)) := by
  have hloose : ∀ {lo row leaves ids},
      Row (TreeAt model u indexFanout.least height) lo row leaves ids →
      Row (fun lo hi child leaves _ => Loose (model.view u) height lo hi child leaves) lo row
        leaves ids := by
    intro lo row leaves ids h
    refine h.imp ?_
    intro lo hi child leaves ids _ hsub
    exact loose_of_subtree hsub
  refine @Loose.node _ _ _ _ _ _ (ids₁ ++ ([] ++ ids₃)) _ _ hview hlen ?_
  rw [hrow]
  exact Row.replace (hloose hfront) (row_singleton.2 ⟨hle, hchild⟩) rfl (hloose hback)

/-- An insert below a node that fails, not because of the store. -/
theorem insertRecursive_error (hmodel : model.Exact) (hstop : ¬ model.StoreFails stop)
    (hfuel : stop ≠ .outOfFuel) {key : IndexKey} {rowId : RowId} {leaf : Leaf IndexEntry PageId} :
    ∀ {height fuel : Nat} {s u : S} {least : Nat} {lo hi : Bound IndexKey} {id : PageId}
      {leaves : List (Leaf IndexEntry PageId)} {ids : List PageId},
    TreeAt model s least height lo hi id leaves ids → model.Good s → ids.Nodup →
    (∀ i ∈ ids, model.used s i) → lo < bound key → bound key ≤ hi →
    Lands (model.view s) key height id leaf.id →
    model.view s leaf.id = some (.leaf leaf.next leaf.entries) →
    insertRecursive fuel id key rowId s = (.error stop, u) →
    Failed model s u height lo hi id leaves ids leaf key rowId := by
  intro height
  induction height with
  | zero =>
      intro fuel s u least lo hi id leaves ids htree hs hids hused hlo hhi hlands hleaf hrun
      obtain ⟨next, entries, hview, -, -, -, -, rfl, rfl⟩ := htree
      obtain ⟨rfl, -⟩ := hlands
      cases fuel with
      | zero =>
          cases hrun
          exact absurd rfl hfuel
      | succ fuel =>
          obtain ⟨v, hload, hkeeps⟩ := LawfulPageStore.loadNode_of_view hs hleaf
          rcases Exec.bind_eq_error.1 hrun with hfail | ⟨_, _, hload', hrun⟩
          · rw [hload] at hfail
            cases hfail
          rw [hload] at hload'
          cases hload'
          rcases storeLeaf_error hmodel hkeeps.good hstop
            (hkeeps.used _ (hused _ (List.mem_singleton_self _))) hrun with
            ⟨hkeeps', hsplits⟩ | ⟨right, hlong, hfits, hkeeps', hview', hnone⟩
          · exact .untouched hsplits (hkeeps.nothing hkeeps' hs)
          · refine .cut right ⟨hlong, hfits⟩ ?_ hview' hnone
            exact (hkeeps.mono fun i hi => hi.elim).trans hkeeps' (fun i hi => Or.inl hi) hs
  | succ height ih =>
      intro fuel s w least lo hi id leaves ids htree hs hids hused hlo hhi hlands hleaf hrun
      obtain ⟨keys, children, ids₀, hview, hlen, -, hmost, hrow, rfl⟩ := htree
      obtain ⟨keys', children', child, hview', -, hchild, hlands⟩ := hlands
      rw [hview] at hview'
      cases hview'
      cases fuel with
      | zero =>
          cases hrun
          exact absurd rfl hfuel
      | succ fuel =>
          obtain ⟨u, hload, hkeeps⟩ := LawfulPageStore.loadNode_of_view hs hview
          rcases Exec.bind_eq_error.1 hrun with hfail | ⟨_, _, hload', hrun⟩
          · rw [hload] at hfail
            cases hfail
          rw [hload] at hload'
          cases hload'
          rcases Exec.bind_eq_error.1 hrun with hfail | ⟨_, _, hlift, hrun⟩
          · rw [validateInternalShape_of_length hlen] at hfail
            cases hfail
          obtain ⟨-, rfl⟩ := Exec.liftM_eq_ok.1 hlift
          rcases Exec.bind_eq_error.1 hrun with hfail | ⟨childId, _, hlift, hrun⟩
          · rw [DbResult.index_of_getElem? hchild] at hfail
            cases hfail
          obtain ⟨hindex, rfl⟩ := Exec.liftM_eq_ok.1 hlift
          obtain rfl : childId = child :=
            Option.some.inj ((DbResult.index_eq_ok hindex).symm.trans hchild)
          obtain ⟨hle, hbefore, hafter⟩ := childIndexForKey_spec (hrow.keys_sorted hlen).1 key
          obtain ⟨front, child, upper, back, hrowEq, hfront, hchild', hlower, hupper⟩ :=
            childRow_focus hlen hle hbefore hafter hlo hhi
          obtain rfl : childId = child := Option.some.inj (hchild.symm.trans hchild')
          -- the tree as it is after the load, seen from the child
          have hloaded := replaced_of_keeps hkeeps hids hused
          have hused' : ∀ i ∈ id :: ids₀, model.used u i := hloaded.used
          have hview' := hkeeps.view not_false hview
          have hkeeps' : model.Keeps (fun i => i ∈ []) s u := hkeeps.mono fun i hi => hi.elim
          have hrow' := row_of_keeps hrow hkeeps' (fun i _ => List.not_mem_nil)
          rw [hrowEq] at hrow'
          obtain ⟨leaves₁, leaves₂, leaves₃, ids₁, ids₂, ids₃, rfl, rfl, hrowFront, hle', htree,
            hrowBack⟩ := hrow'.focus
          have hnot := (List.nodup_cons.1 hids).1
          obtain ⟨-, hidsRest, hdisjoint⟩ := List.nodup_append.1 (List.nodup_cons.1 hids).2
          obtain ⟨hidsChild, -, hdisjoint'⟩ := List.nodup_append.1 hidsRest
          have hlands' := hlands.mono (fun i keys children hnode => hkeeps.view not_false hnode)
            fun next entries hnode => ⟨next, entries, hkeeps.view not_false hnode⟩
          have hleaf' := hkeeps.view not_false hleaf
          have husedChild : ∀ i ∈ ids₂, model.used u i := fun i hi => hused' i
            (List.mem_cons_of_mem _ (List.mem_append_right _ (List.mem_append_left _ hi)))
          have hdisjointFront : ∀ i ∈ ids₁, i ∉ ids₂ := fun i hi hi' =>
            hdisjoint i hi i (List.mem_append_left _ hi') rfl
          have hdisjointBack : ∀ i ∈ ids₃, i ∉ ids₂ := fun i hi hi' => hdisjoint' i hi' i hi rfl
          have hnotChild : id ∉ ids₂ := fun hmem =>
            hnot (List.mem_append_right _ (List.mem_append_left _ hmem))
          rcases Exec.bind_eq_error.1 hrun with hfail | ⟨childSplit, v, hrec, hrun⟩
          · cases ih htree hkeeps.good hidsChild husedChild hlower hupper hlands' hleaf' hfail with
            | untouched hsplits hbelow => exact .untouched hsplits (hkeeps.nothing hbelow hs)
            | cut right hsplits hbelow hcut hnone =>
                exact .cut right hsplits
                  ((hkeeps.mono fun i hi => hi.elim).trans hbelow (fun i hi => Or.inl hi) hs) hcut hnone
            | grown leaves₂' hsplits hbelow hloose hgrown =>
                refine .grown (leaves₁ ++ (leaves₂' ++ leaves₃)) hsplits ?_ ?_
                  (hgrown.within leaves₁ leaves₃)
                · refine (hkeeps.mono fun i hi => hi.elim).trans hbelow (fun i hi => Or.inl ?_) hs
                  exact List.mem_cons_of_mem _ (List.mem_append_right _ (List.mem_append_left _ hi))
                · exact loose_of_child (hbelow.view hnotChild hview') hlen hrowEq
                    (row_of_keeps hrowFront hbelow hdisjointFront) hle' hloose
                    (row_of_keeps hrowBack hbelow hdisjointBack)
          · cases childSplit with
            | none => cases hrun
            | some split =>
                have hsplits := insertRecursive_split hkeeps.good hlands' hleaf' hrec
                obtain ⟨leaves₂', ids₂', hreplaced, hplaced, hgrown, -⟩ := insertRecursive_placed
                  htree hkeeps.good hidsChild husedChild hlower hupper hrec
                have hwhole := hreplaced.within (id :: ids₁) ids₃ hids hused'
                have hfrontNew := row_of_keeps hrowFront hreplaced.keeps hdisjointFront
                have hbackNew := row_of_keeps hrowBack hreplaced.keeps hdisjointBack
                have hrowNew := Row.replace hfrontNew hplaced rfl hbackNew
                have hinsert := childRow_insert split.separator split.rightPageId hlen hrowEq
                rw [hfront] at hinsert
                rw [← hinsert] at hrowNew
                have hlen' : (children.insertIdx (childIndexForKey keys key + 1)
                    split.rightPageId).length = (keys.insertIdx (childIndexForKey keys key)
                      split.separator).length + 1 := by
                  rw [List.length_insertIdx, if_pos (by omega), List.length_insertIdx, if_pos hle,
                    hlen]
                have hmost' : (keys.insertIdx (childIndexForKey keys key) split.separator).length ≤
                    maxKeys + 1 := by
                  rw [List.length_insertIdx, if_pos hle]
                  exact Nat.succ_le_succ hmost
                have hbelow := (hloaded.trans hwhole hs).keeps
                rcases storeInternal_error hwhole.keeps.good hstop
                  (hwhole.used id List.mem_cons_self) hwhole.nodup hlen' hmost' hrowNew hrun with
                  hnothing | ⟨hloose, hself⟩
                · -- the node is still the old one, without the new half of the child
                  have hnothing' : model.Keeps (fun i => i ∈ []) v w :=
                    hnothing.mono fun i hi => hi.elim
                  obtain ⟨hsep, l₁, l₂, i₁, i₂, hleft, hright, rfl, rfl⟩ :=
                    row_of_keeps hplaced hnothing' fun i _ => List.not_mem_nil
                  refine .grown (leaves₁ ++ ((l₁ ++ l₂) ++ leaves₃)) hsplits
                    (hbelow.trans hnothing (fun i hi => hi.elim) hs) ?_
                    (hgrown.within leaves₁ leaves₃)
                  refine loose_of_child
                    (hnothing.view not_false (hreplaced.keeps.view hnotChild hview')) hlen hrowEq
                    (row_of_keeps hfrontNew hnothing' fun i _ => List.not_mem_nil) hle' ?_
                    (row_of_keeps hbackNew hnothing' fun i _ => List.not_mem_nil)
                  exact loose_extend_row (loose_of_subtree hleft) hsep hright rfl
                · refine .grown (leaves₁ ++ (leaves₂' ++ leaves₃)) hsplits
                    (hbelow.trans hself ?_ hs) hloose (hgrown.within leaves₁ leaves₃)
                  rintro i rfl
                  exact Or.inl List.mem_cons_self

end Failed

end Rdbms
