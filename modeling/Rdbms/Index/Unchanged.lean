import Rdbms.Index.Failed

/-!
# When a failed insert changes nothing

A failed insert leaves all lookups as they were exactly when the first of its writes is the
one that fails: the write of the leaf, or of the left half of it. Once that half is stored,
the entries of the right half are reached through a page that is stored next, or never.
-/

namespace Rdbms

open Library BPlusTree

section Unchanged

variable {S : Type} [BPlusTreePageStore S] {model : LawfulPageStore S} {s t u v : S} {stop : Stop}

/-- An insert into a whole tree that fails, not because of the store. -/
theorem insert_error (hmodel : model.Exact) (hstop : ¬ model.StoreFails stop)
    (hfuel : stop ≠ .outOfFuel) {key : IndexKey} {rowId : RowId} {leaf : Leaf IndexEntry PageId}
    {height fuel : Nat} {root : PageId} {leaves : List (Leaf IndexEntry PageId)} {ids : List PageId}
    (htree : TreeAt model s (min height 1) height ⊥ ⊤ root leaves ids) (hs : model.Good s)
    (hids : ids.Nodup) (hused : ∀ i ∈ ids, model.used s i)
    (hlands : Lands (model.view s) key height root leaf.id)
    (hleaf : model.view s leaf.id = some (.leaf leaf.next leaf.entries))
    (hrun : insert fuel root key rowId s = (.error stop, u)) :
    Failed model s u height ⊥ ⊤ root leaves ids leaf key rowId := by
  rcases Exec.bind_eq_error.1 hrun with hfail | ⟨split, v, hrec, hrun⟩
  · exact insertRecursive_error hmodel hstop hfuel htree hs hids hused (bot_lt_bound key)
      (bound_le_top key) hlands hleaf hfail
  · cases split with
    | none => cases hrun
    | some split =>
        have hsplits := insertRecursive_split hs hlands hleaf hrec
        obtain ⟨leaves', ids', hreplaced, hplaced, hgrown, -⟩ := insertRecursive_placed htree hs
          hids hused (bot_lt_bound key) (bound_le_top key) hrec
        rcases Exec.bind_eq_error.1 hrun with halloc | ⟨newRoot, w, halloc, hrun⟩
        · exact (allocate_error hreplaced.keeps.good hstop halloc).elim
        obtain ⟨hkeeps, -, -⟩ := LawfulPageStore.allocate_eq_ok hreplaced.keeps.good halloc
        rcases Exec.bind_eq_error.1 hrun with hstore | ⟨_, _, _, hret⟩
        · obtain ⟨rfl, -⟩ := storeNode_error hkeeps.good hstop hstore
          have hkeeps' : model.Keeps (fun i => i ∈ []) v u := hkeeps.mono fun i hi => hi.elim
          obtain ⟨hsep, l₁, l₂, i₁, i₂, hleft, hright, rfl, rfl⟩ : Row _ _ _ _ _ :=
            Row.imp hplaced fun {lo hi child leaves ids} _ hsub =>
              Subtree.mono hsub fun i _ node hnode => hkeeps.view not_false hnode
          exact .grown (l₁ ++ l₂) hsplits
            (hreplaced.keeps.trans hkeeps (fun i hi => hi.elim) hs)
            (loose_extend_row (loose_of_subtree hleft) hsep hright rfl) hgrown
        · cases hret

/-! ## A leaf without its right half -/

theorem loadNode_none (hmodel : model.Exact) (hs : model.Good s) {id : PageId} {node : BTreeNode}
    (hnone : model.pages s id = none) : loadNode id s ≠ (.ok node, t) := by
  intro h
  obtain ⟨page, w, hload, hnode⟩ := Exec.bind_eq_ok.1 h
  exact hmodel.blank hs hnone hload (Exec.liftM_eq_ok.1 hnode).1

theorem LawfulPageStore.Exact.loadNode (hmodel : model.Exact) (hs : model.Good s) {id i : PageId}
    {node : BTreeNode} (h : loadNode id s = (.ok node, t)) (hnone : model.pages s i = none) :
    model.pages t i = none := by
  obtain ⟨page, w, hload, hnode⟩ := Exec.bind_eq_ok.1 h
  obtain ⟨-, rfl⟩ := Exec.liftM_eq_ok.1 hnode
  exact hmodel.load hs hload hnone

/-- A scan that comes to a leaf before a page that was never stored does not return, unless
a larger key ends it. -/
theorem scanLeaves_cut (hmodel : model.Exact) {key : IndexKey} {cut right : PageId}
    {left : List IndexEntry} (hleft : ∀ e ∈ left, e.key ≤ key) :
    ∀ {before : List (Leaf IndexEntry PageId)} {first : PageId} {fuel : Nat} {s t : S}
      {rows : List RowId}, model.Good s → headId before (some cut) = some first →
    (∀ l ∈ before, model.view s l.id = some (.leaf l.next l.entries)) →
    Chained before (some cut) → (∀ e ∈ entriesOf before, e.key ≤ key) →
    model.view s cut = some (.leaf (some right) left) → model.pages s right = none →
    scanLeaves fuel first key s ≠ (.ok rows, t) := by
  intro before
  induction before with
  | nil =>
      intro first fuel s t rows hs hfirst _ _ _ hcut hnone hrun
      cases hfirst
      cases fuel with
      | zero => cases hrun
      | succ fuel =>
          obtain ⟨u, hload, hkeeps⟩ := LawfulPageStore.loadNode_of_view hs hcut
          rw [scanLeaves, Exec.bind_of_ok hload] at hrun
          cases hflag : (collectRows key left).2 with
          | true =>
              obtain ⟨e, he, hlarge⟩ := collectRows_passed hflag
              exact absurd (hleft e he) (not_le.2 hlarge)
          | false =>
              simp only [hflag, Bool.false_eq_true, if_false] at hrun
              obtain ⟨_, _, hscan, -⟩ := Exec.bind_eq_ok.1 hrun
              cases fuel with
              | zero => cases hscan
              | succ fuel =>
                  obtain ⟨node, _, hload', -⟩ := Exec.bind_eq_ok.1 hscan
                  exact loadNode_none hmodel hkeeps.good (hmodel.loadNode hs hload hnone) hload'
  | cons leaf before ih =>
      intro first fuel s t rows hs hfirst hview hchain hsmall hcut hnone hrun
      cases hfirst
      rw [List.forall_mem_cons] at hview
      have hsmall' : ∀ e ∈ leaf.entries ++ entriesOf before, e.key ≤ key := hsmall
      rw [List.forall_mem_append] at hsmall'
      cases fuel with
      | zero => cases hrun
      | succ fuel =>
          obtain ⟨u, hload, hkeeps⟩ := LawfulPageStore.loadNode_of_view hs hview.1
          rw [scanLeaves, Exec.bind_of_ok hload] at hrun
          cases hflag : (collectRows key leaf.entries).2 with
          | true =>
              obtain ⟨e, he, hlarge⟩ := collectRows_passed hflag
              exact absurd (hsmall'.1 e he) (not_le.2 hlarge)
          | false =>
              obtain ⟨next, hnext⟩ : ∃ next, headId before (some cut) = some next := by
                cases before with
                | nil => exact ⟨cut, rfl⟩
                | cons l before => exact ⟨l.id, rfl⟩
              simp only [hflag, Bool.false_eq_true, if_false, hchain.1, hnext] at hrun
              obtain ⟨_, _, hscan, -⟩ := Exec.bind_eq_ok.1 hrun
              exact ih hkeeps.good hnext (fun l hl => hkeeps.view not_false (hview.2 l hl)) hchain.2
                hsmall'.2 (hkeeps.view not_false hcut) (hmodel.loadNode hs hload hnone) hscan

theorem exists_mem_of_subperm {α : Type} {x y a : α} {xs ys : List α}
    (h : (x :: y :: xs).Subperm (a :: ys)) : ∃ z, (z = x ∨ z = y) ∧ z ∈ ys := by
  rcases List.mem_cons.1 (h.subset List.mem_cons_self) with rfl | hx
  · have hrest := List.subperm_cons x |>.1 h
    exact ⟨y, Or.inr rfl, hrest.subset List.mem_cons_self⟩
  · exact ⟨x, Or.inl rfl, hx⟩

/-- An entry of the leaf that was to go to the right. -/
theorem exists_right {entries : List IndexEntry} {key : IndexKey} {rowId : RowId}
    (hsorted : entries.Pairwise (· ≤ ·))
    (hlong : maxKeys < (insertLeafEntry entries key rowId).length) :
    ∃ e ∈ entries, ∀ x ∈ (insertLeafEntry entries key rowId).take
      ((insertLeafEntry entries key rowId).length / 2), x.key ≤ e.key := by
  generalize hnew : insertLeafEntry entries key rowId = new at hlong
  have hperm : new.Perm (⟨key, rowId⟩ :: entries) := hnew ▸ insertLeafEntry_perm entries key rowId
  have hordered : new.Pairwise (· ≤ ·) := hnew ▸ insertLeafEntry_sorted hsorted key rowId
  rw [← List.take_append_drop (new.length / 2) new, List.pairwise_append] at hordered
  have hlen : 2 ≤ (new.drop (new.length / 2)).length := by
    simp only [maxKeys] at hlong
    rw [List.length_drop]
    omega
  have hsub : (new.drop (new.length / 2)).Subperm (⟨key, rowId⟩ :: entries) :=
    (List.drop_sublist _ _).subperm.trans hperm.subperm
  rcases hdrop : new.drop (new.length / 2) with _ | ⟨x, _ | ⟨y, rest⟩⟩
  · simp [hdrop] at hlen
  · simp [hdrop] at hlen
  · rw [hdrop] at hsub hordered
    obtain ⟨e, he, hmem⟩ := exists_mem_of_subperm hsub
    refine ⟨e, hmem, fun l hl => key_monotone (hordered.2.2 l hl e ?_)⟩
    rcases he with rfl | rfl
    · exact List.mem_cons_self
    · exact List.mem_cons_of_mem _ List.mem_cons_self

theorem findLeaf_exact (hmodel : model.Exact) {key : IndexKey} : ∀ {height fuel : Nat} {s t : S}
    {id leafId found : PageId}, model.Good s → Lands (model.view s) key height id leafId →
    findLeaf fuel id key s = (.ok found, t) → ∀ i, model.pages s i = none →
    model.pages t i = none := by
  intro height
  induction height with
  | zero =>
      intro fuel s t id leafId found hs hlands hrun i hnone
      obtain ⟨rfl, next, entries, hview⟩ := hlands
      cases fuel with
      | zero => cases hrun
      | succ fuel =>
          obtain ⟨u, hload, -⟩ := LawfulPageStore.loadNode_of_view hs hview
          rw [findLeaf, Exec.bind_of_ok hload] at hrun
          cases hrun
          exact hmodel.loadNode hs hload hnone
  | succ height ih =>
      intro fuel s t id leafId found hs hlands hrun i hnone
      obtain ⟨keys, children, child, hview, hlen, hchild, hlands⟩ := hlands
      cases fuel with
      | zero => cases hrun
      | succ fuel =>
          obtain ⟨u, hload, hkeeps⟩ := LawfulPageStore.loadNode_of_view hs hview
          rw [findLeaf, Exec.bind_of_ok hload] at hrun
          simp only [validateInternalShape_of_length hlen, DbResult.index_of_getElem? hchild,
            Exec.bind_apply, Exec.liftM_apply] at hrun
          refine ih hkeeps.good (hlands.mono ?_ ?_) hrun i (hmodel.loadNode hs hload hnone)
          · exact fun i keys children hnode => hkeeps.view not_false hnode
          · exact fun next entries hnode => ⟨next, entries, hkeeps.view not_false hnode⟩

/-- When the right half of a leaf is not stored, the lookup of an entry that was in the leaf
does not return. -/
theorem lookup_cut (hmodel : model.Exact) {height : Nat} {root right : PageId}
    {leaves : List (Leaf IndexEntry PageId)} {leaf : Leaf IndexEntry PageId}
    {left : List IndexEntry} {e : IndexEntry}
    (hloose : Loose (model.view u) height ⊥ ⊤ root leaves) (hchain : Chained leaves none)
    (hmem : leaf ∈ leaves) (hkeeps : model.Keeps (fun i => i = leaf.id) u v)
    (hcut : model.view v leaf.id = some (.leaf (some right) left))
    (hnone : model.pages v right = none) (he : e ∈ leaf.entries)
    (hleft : ∀ x ∈ left, x.key ≤ e.key) (rows : List RowId) (w : S) :
    ¬ Exec.Settles (fun fuel => lookup fuel root e.key) v (.ok rows, w) := by
  obtain ⟨leafId, hlands, before, first, after, hleaves, rfl, hsmall⟩ :=
    hloose.lands e.key (bot_lt_bound e.key)
  have hnot : leaf ∉ before := fun hbefore =>
    absurd (hsmall e (List.mem_flatMap.2 ⟨leaf, hbefore, he⟩)) (lt_irrefl e.key)
  have hbehind : leaf ∈ first :: after := by
    rw [hleaves] at hmem
    exact (List.mem_append.1 hmem).resolve_left hnot
  obtain ⟨between, rest, hsplit, hfresh⟩ := List.eq_append_cons_of_mem hbehind
  have hfirst : headId between (some leaf.id) = some first.id := by
    cases between with
    | nil =>
        cases hsplit
        rfl
    | cons l between =>
        cases hsplit
        rfl
  rw [hleaves, hsplit] at hchain
  have hchain' : Chained between (some leaf.id) :=
    (chained_append.1 (chained_append.1 hchain).2).1
  have hsorted := hloose.sorted
  rw [hleaves, hsplit, entriesOf_append, entriesOf_append, List.pairwise_append,
    List.pairwise_append] at hsorted
  have hbetween : ∀ x ∈ entriesOf between, x.key ≤ e.key := fun x hx =>
    hsorted.2.1.2.2 x hx e (List.mem_flatMap.2 ⟨leaf, List.mem_cons_self, he⟩)
  have hstored : ∀ l ∈ between, model.view v l.id = some (.leaf l.next l.entries) := by
    intro l hl
    have hview := hloose.stored l (by
      rw [hleaves, hsplit]
      exact List.mem_append_right _ (List.mem_append_left _ hl))
    refine hkeeps.view ?_ hview
    intro hid
    have hleaf := hloose.stored leaf hmem
    rw [← hid, hview] at hleaf
    cases l
    cases leaf
    cases hid
    cases hleaf
    exact hfresh hl
  have hlands' : Lands (model.view v) e.key height root first.id := by
    refine hlands.mono (fun i keys children hnode => hkeeps.view ?_ hnode) ?_
    · rintro rfl
      rw [hloose.stored leaf hmem] at hnode
      cases hnode
    · intro next entries hnode
      by_cases hid : first.id = leaf.id
      · exact ⟨_, _, by rw [hid]; exact hcut⟩
      · exact ⟨next, entries, hkeeps.view hid hnode⟩
  rintro ⟨fuel, hsettles⟩
  obtain ⟨x, hfind, hkeeps'⟩ := findLeaf_of_lands hkeeps.good hlands'
    (Nat.lt_of_lt_of_le (Nat.lt_succ_self height) (Nat.le_max_right fuel (height + 1)))
  have hlookup : lookup (max fuel (height + 1)) root e.key v = (.ok rows, w) :=
    hsettles _ (Nat.le_max_left fuel (height + 1))
  rw [lookup, Exec.bind_of_ok hfind] at hlookup
  exact scanLeaves_cut hmodel hleft hkeeps'.good hfirst
    (fun l hl => hkeeps'.view not_false (hstored l hl)) hchain' hbetween
    (hkeeps'.view not_false hcut) (findLeaf_exact hmodel hkeeps.good hlands' hfind right hnone)
    hlookup

/-- After a sequence of inserts into an empty root and one more insert that fails, not
because of the store, all lookups are as they were before it if and only if the leaf that
the entry belongs to had room for it, or the left half of the leaf does not fit into a
page. -/
theorem failed_insert_unchanged_iff (hmodel : model.Exact) {fuel fuel' : Nat}
    {root newRoot : PageId} {pairs : List IndexEntry} {key : IndexKey} {rowId : RowId}
    (hs : model.Good s) (hroot : model.Storable s root)
    (hinit : initializeRoot root s = (.ok (), t))
    (hrun : insertAll fuel root pairs t = (.ok newRoot, u))
    (hfail : insert fuel' newRoot key rowId u = (.error stop, v))
    (hstop : ¬ model.StoreFails stop) (hfuel : stop ≠ .outOfFuel) :
    (∀ k rows, (∃ w, Exec.Settles (fun fuel => lookup fuel newRoot k) u (.ok rows, w)) →
      ∃ w, Exec.Settles (fun fuel => lookup fuel newRoot k) v (.ok rows, w)) ↔
    ∃ leafId w next entries,
      Exec.Settles (fun fuel => findLeaf fuel newRoot key) u (.ok leafId, w) ∧
        model.view u leafId = some (.leaf next entries) ∧ ¬ SplitsLeaf entries key rowId := by
  obtain ⟨htree, hkeeps⟩ := initializeRoot_tree hs hroot hinit
  obtain ⟨entries, ids, htree', hgood, -⟩ := insertAll_tree pairs htree hkeeps.good hrun
  obtain ⟨height, leaves, hsub, hchain, rfl⟩ := htree'.tree
  have hloose := loose_of_subtree hsub
  obtain ⟨_, hlands, before, leaf, after, hleaves, rfl, -⟩ := hloose.lands key (bot_lt_bound key)
  have hmem : leaf ∈ leaves := by
    rw [hleaves]
    exact List.mem_append_right _ List.mem_cons_self
  have hleaf := hloose.stored leaf hmem
  obtain ⟨w, hfind, -⟩ := findLeaf_of_lands hgood hlands (Nat.lt_succ_self height)
  have hfind' : Exec.Settles (fun fuel => findLeaf fuel newRoot key) u (.ok leaf.id, w) :=
    Exec.Settles.of_refines (fun n => findLeaf_refines n newRoot key) hfind nofun
  have hiff : (∃ leafId w next entries,
      Exec.Settles (fun fuel => findLeaf fuel newRoot key) u (.ok leafId, w) ∧
        model.view u leafId = some (.leaf next entries) ∧ ¬ SplitsLeaf entries key rowId) ↔
      ¬ SplitsLeaf leaf.entries key rowId := by
    constructor
    · rintro ⟨leafId, w', next, entries, hsettles, hview, hnot⟩
      cases hsettles.unique hfind'
      rw [hleaf] at hview
      cases hview
      exact hnot
    · exact fun hnot => ⟨leaf.id, w, leaf.next, leaf.entries, hfind', hleaf, hnot⟩
  rw [hiff]
  cases insert_error hmodel hstop hfuel hsub hgood htree'.nodup htree'.used hlands hleaf hfail with
  | untouched hsplits hnothing =>
      refine iff_of_true ?_ hsplits
      rintro k rows ⟨x, hx⟩
      obtain ⟨y, hy, -⟩ := lookup_tree htree' hgood k
      obtain ⟨z, hz, -⟩ := lookup_tree (htree'.keeps hnothing fun _ _ => not_false)
        hnothing.good k
      cases hx.unique hy
      exact ⟨z, hz⟩
  | cut right hsplits hcut hview hnone =>
      refine iff_of_false (fun hsame => ?_) (not_not.2 hsplits)
      obtain ⟨e, he, hleft⟩ := exists_right (Subtree.leaf_sorted hsub leaf hmem) hsplits.1
      obtain ⟨y, hy, -⟩ := lookup_tree htree' hgood e.key
      obtain ⟨z, hz⟩ := hsame e.key _ ⟨y, hy⟩
      exact lookup_cut hmodel hloose hchain hmem hcut hview hnone he hleft _ z hz
  | grown leaves' hsplits hbelow hloose' hgrown =>
      refine iff_of_false (fun hsame => ?_) (not_not.2 hsplits)
      obtain ⟨y, hy, -⟩ := lookup_tree htree' hgood key
      obtain ⟨z, hz⟩ := hsame key _ ⟨y, hy⟩
      obtain ⟨x, hx, -⟩ := lookup_of_loose hloose' (hgrown.chained none hchain) hbelow.good key
        (Nat.lt_of_lt_of_le (Nat.lt_succ_self height) (Nat.le_max_left _ (leaves'.length + 1)))
        (Nat.lt_of_lt_of_le (Nat.lt_succ_self leaves'.length) (Nat.le_max_right (height + 1) _))
      have hx' : Exec.Settles (fun fuel => lookup fuel newRoot key) v _ :=
        Exec.Settles.of_refines (fun n => lookup_refines n newRoot key) hx nofun
      have hrows : rowsWith key (entriesOf leaves) = rowsWith key (entriesOf leaves') :=
        Except.ok.inj (Prod.mk.inj (hz.unique hx')).1
      have hlen := (rowsWith_perm key hgrown.perm).length_eq
      rw [← hrows, rowsWith, rowsWith, List.filter_cons_of_pos (by simp)] at hlen
      simp at hlen

end Unchanged

/-! ## An insert that loses entries -/

namespace MemoryStore

theorem exact : lawful.Exact where
  load := by
    intro s t id page i _ h hnone
    simp only [BPlusTreePageStore.loadPage, loadPage, Exec.bind_apply, Exec.get_apply,
      Exec.liftM_apply] at h
    obtain rfl : s = t := (Prod.mk.inj h).2
    exact hnone
  store := by
    intro s t page header i _ hheader h hne hnone
    simp only [BPlusTreePageStore.storePage, storePage, Exec.bind_apply, Exec.liftM_apply, hheader,
      Exec.modify_apply] at h
    cases h
    exact (Function.update_of_ne hne ..).trans hnone
  allocate := by
    intro s t id i _ h hnone
    change t.pages i = none
    rw [(allocatePage_eq_ok h).2.1]
    exact hnone
  blank := by
    intro s t id page node _ hnone h
    have hnone' : s.pages id = none := hnone
    simp only [BPlusTreePageStore.loadPage, loadPage, Exec.bind_apply, Exec.get_apply, hnone',
      Exec.liftM_apply, DbResult.okOr] at h
    cases h

/-- This store stops for want of page ids only. -/
theorem storeFails_panicked {stop : Stop} (h : lawful.StoreFails stop) : stop = .panicked := by
  rcases h with ⟨s, page, header, t, -, hheader, h⟩ | ⟨s, t, -, h⟩
  · simp only [BPlusTreePageStore.storePage, storePage, Exec.bind_apply, Exec.liftM_apply, hheader,
      Exec.modify_apply] at h
    cases h
  · by_cases hfull : s.nextPageId.toNat + 1 ≥ 2 ^ 64
    · simp only [BPlusTreePageStore.allocatePage, allocatePage, Exec.bind_apply, Exec.get_apply,
        Exec.liftM_apply, failIf_of hfull] at h
      cases h
      rfl
    · simp only [BPlusTreePageStore.allocatePage, allocatePage, Exec.bind_apply, Exec.get_apply,
        Exec.liftM_apply, failIf_of_not hfull] at h
      cases h

end MemoryStore

/-- A text that does not fit into a page. -/
def longText : String := String.ofList (List.replicate 5000 'z')

theorem integer_lt_text (value : Int64) (text : String) :
    IndexKey.integer value < IndexKey.text text := Sum.Lex.inl_lt_inr _ _

theorem fourPairs_sorted : fourPairs.Pairwise (· ≤ ·) := by decide

theorem fourPairs_integer : ∀ e ∈ fourPairs, ∃ value, e.key = .integer value := by
  simp [fourPairs]

/-- The leaf with the four entries and one with a text behind them. -/
def leafWith (text : String) : List IndexEntry := fourPairs ++ [⟨.text text, ⟨⟨3⟩, ⟨4⟩⟩⟩]

theorem insertLeafEntry_text (text : String) :
    insertLeafEntry fourPairs (.text text) ⟨⟨3⟩, ⟨4⟩⟩ = leafWith text := by
  have hperm := (insertLeafEntry_perm fourPairs (.text text) ⟨⟨3⟩, ⟨4⟩⟩).trans
    (List.perm_append_singleton _ _).symm
  refine hperm.eq_of_pairwise' (insertLeafEntry_sorted fourPairs_sorted _ _) ?_
  refine List.pairwise_append.2 ⟨fourPairs_sorted, List.pairwise_singleton _ _, ?_⟩
  intro a ha b hb
  obtain ⟨value, hvalue⟩ := fourPairs_integer a ha
  rw [List.mem_singleton.1 hb]
  refine indexEntry_le_iff.2 (Or.inl ?_)
  rw [hvalue]
  exact integer_lt_text value text

set_option maxRecDepth 100000 in
theorem encodeNode_long : (encodeNode (.leaf none ((leafWith longText).drop 2))).toOption.all
    (fun bs => decide (Page.maxRecord < bs.length)) = true := by
  decide +kernel

theorem not_leafFits_long : ¬ LeafFits ((leafWith longText).drop 2) := by
  rintro ⟨bs, hbs, hlen⟩
  have hlong := encodeNode_long
  rw [toOption_eq_some.2 hbs] at hlong
  exact absurd hlen (not_le.2 (of_decide_eq_true hlong))

/-- The left half of the leaf is stored, the right one does not fit into its page. -/
theorem insert_text {s : MemoryStore} {text : String} (hs : MemoryStore.lawful.Good s)
    (hnext : s.nextPageId = 2)
    (hview : MemoryStore.lawful.view s ⟨1⟩ = some (.leaf none fourPairs))
    (hlong : ¬ LeafFits ((leafWith text).drop 2)) :
    ∃ message t, insert 1 ⟨1⟩ (.text text) ⟨⟨3⟩, ⟨4⟩⟩ s = (.error (.error (.user message)), t) ∧
      MemoryStore.lawful.Good t ∧
      MemoryStore.lawful.view t ⟨1⟩ = some (.leaf (some ⟨2⟩) (fourPairs.take 2)) ∧
      MemoryStore.lawful.pages t ⟨2⟩ = none := by
  have hnone : s.pages ⟨2⟩ = none := by
    refine Option.eq_none_iff_forall_ne_some.2 fun page hpage => ?_
    have hlt := hs ⟨2⟩ page hpage
    rw [hnext] at hlt
    exact lt_irrefl _ hlt
  have halloc : BPlusTreePageStore.allocatePage s =
      ((.ok ⟨2⟩ : DbResult PageId), { s with nextPageId := s.nextPageId + 1 }) := by
    rw [MemoryStore.allocatePage_of_room (by rw [hnext]; decide), hnext]
  obtain ⟨hkeeps, -, hused⟩ := @LawfulPageStore.allocate_eq_ok _ _ MemoryStore.lawful _ _ hs _ halloc
  obtain ⟨t, hleft, -⟩ := MemoryStore.storeNode_of_fits { s with nextPageId := s.nextPageId + 1 } ⟨1⟩
    (.leaf (some ⟨2⟩) (fourPairs.take 2)) rfl (by decide)
  have hroot : MemoryStore.lawful.used s ⟨1⟩ := MemoryStore.lawful.used_of_stored hs
    (Option.bind_eq_some_iff.1 hview).choose_spec.1
  obtain ⟨hkeeps', hview', -⟩ := LawfulPageStore.storeNode_eq_ok hkeeps.good
    (hkeeps.used ⟨1⟩ hroot) hleft
  have hright : ∃ message, nodeToPage ⟨2⟩ (.leaf none ((leafWith text).drop 2)) =
      .error (.error (.user message)) := by
    cases hnode : nodeToPage ⟨2⟩ (.leaf none ((leafWith text).drop 2)) with
    | ok page => exact absurd (leafFits_iff.1 ⟨page, hnode⟩) hlong
    | error stop =>
        obtain ⟨message, rfl⟩ := nodeToPage_onlyUser _ (nodeShape_leaf _ _) _ hnode
        exact ⟨message, rfl⟩
  obtain ⟨message, hright⟩ := hright
  have hstore : storeNode ⟨2⟩ (.leaf none ((leafWith text).drop 2)) t =
      (.error (.error (.user message)), t) := by
    rw [storeNode, Exec.bind_apply, Exec.liftM_apply, hright]
  refine ⟨message, t, ?_, hkeeps'.good, hview', ?_⟩
  · have hfive : (leafWith text).length = 5 := rfl
    have htake : (leafWith text).take 2 = fourPairs.take 2 :=
      List.take_append_of_le_length (by decide)
    have hfirst : DbResult.index ((leafWith text).drop 2) 0 = .ok ⟨.integer 3, ⟨⟨3⟩, ⟨2⟩⟩⟩ := by
      refine DbResult.index_of_getElem? ?_
      rw [List.getElem?_drop, leafWith, List.getElem?_append_left (by decide)]
      rfl
    simp only [insert, insertRecursive, Exec.bind_apply, MemoryStore.loadNode_of_view hview,
      insertLeafEntry_text, storeLeaf, hfive, Nat.reduceDiv]
    rw [if_neg (by decide)]
    simp only [Exec.bind_apply, halloc, hfirst, Exec.liftM_apply, htake, hleft, hstore]
  · exact MemoryStore.exact.storeNode hkeeps.good hleft (by decide)
      (MemoryStore.exact.allocate hs halloc hnone)

/-- The four entries are in the tree, and after an insert that failed for a key that is too
long the lookup of the third one does not return any more. -/
theorem failed_insert_loses_rows :
    ∃ t u stop v, initializeRoot ⟨1⟩ MemoryStore.empty = (.ok (), t) ∧
      insertAll 1 ⟨1⟩ fourPairs t = (.ok ⟨1⟩, u) ∧
      insert 1 ⟨1⟩ (.text longText) ⟨⟨3⟩, ⟨4⟩⟩ u = (.error stop, v) ∧
      (∃ w, Exec.Settles (fun fuel => lookup fuel ⟨1⟩ (.integer 3)) u (.ok [⟨⟨3⟩, ⟨2⟩⟩], w)) ∧
      ∀ rows w, ¬ Exec.Settles (fun fuel => lookup fuel ⟨1⟩ (.integer 3)) v (.ok rows, w) := by
  obtain ⟨t, u, hinit, hrun, hgood, hnext, hview⟩ := insert_fourPairs 0
  obtain ⟨message, v, hfail, hgood', hcut, hnone⟩ :=
    insert_text hgood hnext hview not_leafFits_long
  have htree : TreeAt MemoryStore.lawful u 0 0 ⊥ ⊤ ⟨1⟩ [⟨⟨1⟩, none, fourPairs⟩] [⟨1⟩] :=
    ⟨none, fourPairs, hview, fourPairs_sorted, fun e _ => ⟨bot_le, le_top⟩, Nat.zero_le _,
      by decide, rfl, rfl⟩
  have hchain : Chained [(⟨⟨1⟩, none, fourPairs⟩ : Leaf IndexEntry PageId)] none := ⟨rfl, trivial⟩
  refine ⟨t, u, _, v, hinit, hrun, hfail, ?_, fun rows w => ?_⟩
  · obtain ⟨w, hw, -⟩ := lookup_of_loose (loose_of_subtree htree) hchain hgood (.integer 3)
      (by decide : 0 < 2) (by decide)
    exact ⟨w, Exec.Settles.of_refines (fun n => lookup_refines n ⟨1⟩ (.integer 3)) hw fun h => by cases h⟩
  · rintro ⟨fuel, hsettles⟩
    have hlookup : lookup (fuel + 2) ⟨1⟩ (.integer 3) v = (.ok rows, w) :=
      hsettles _ (Nat.le_add_right fuel 2)
    have hlands : Lands (MemoryStore.lawful.view v) (.integer 3) 0 ⟨1⟩ ⟨1⟩ :=
      ⟨rfl, some ⟨2⟩, fourPairs.take 2, hcut⟩
    obtain ⟨x, hfind, hkeeps⟩ := findLeaf_of_lands hgood' hlands (Nat.succ_pos (fuel + 1))
    rw [lookup, Exec.bind_of_ok hfind] at hlookup
    have hsmall : ∀ e ∈ fourPairs.take 2, e.key ≤ .integer 3 := by decide
    exact @scanLeaves_cut _ _ _ MemoryStore.exact _ _ _ _ hsmall [] _ _ _ _ _ hkeeps.good rfl
      (fun leaf h => by cases h) trivial (fun e h => by cases h) (hkeeps.view not_false hcut)
      (findLeaf_exact MemoryStore.exact hgood' hlands hfind ⟨2⟩ hnone) hlookup

/-- The same insert, judged by the leaf it goes to. -/
theorem failed_insert_of_long_text :
    ∃ t u stop v, initializeRoot ⟨1⟩ MemoryStore.empty = (.ok (), t) ∧
      insertAll 1 ⟨1⟩ fourPairs t = (.ok ⟨1⟩, u) ∧
      insert 1 ⟨1⟩ (.text longText) ⟨⟨3⟩, ⟨4⟩⟩ u = (.error stop, v) ∧
      ((∀ k rows, (∃ w, Exec.Settles (fun fuel => lookup fuel ⟨1⟩ k) u (.ok rows, w)) →
        ∃ w, Exec.Settles (fun fuel => lookup fuel ⟨1⟩ k) v (.ok rows, w)) ↔
      ∃ leafId w next entries,
        Exec.Settles (fun fuel => findLeaf fuel ⟨1⟩ (.text longText)) u (.ok leafId, w) ∧
          MemoryStore.lawful.view u leafId = some (.leaf next entries) ∧
          ¬ SplitsLeaf entries (.text longText) ⟨⟨3⟩, ⟨4⟩⟩) := by
  obtain ⟨t, u, hinit, hrun, hgood, hnext, hview⟩ := insert_fourPairs 0
  obtain ⟨message, v, hfail, -⟩ := insert_text hgood hnext hview not_leafFits_long
  refine ⟨t, u, _, v, hinit, hrun, hfail, ?_⟩
  exact failed_insert_unchanged_iff MemoryStore.exact MemoryStore.empty_good
    MemoryStore.empty_storable hinit hrun hfail
    (fun h => by cases MemoryStore.storeFails_panicked h) nofun

end Rdbms
