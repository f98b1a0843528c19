import Rdbms.Index.Loose

/-!
# The whole tree

`IndexTree` is what holds between two calls: the pages below the root form a B+
tree with a chain of all its leaves. It holds after `initializeRoot`, every insert
keeps it and adds its entry, and under it a lookup is exact.
-/

namespace Rdbms

open Library BPlusTree

section Tree

variable {S : Type} [BPlusTreePageStore S] (model : LawfulPageStore S)

/-- The tree below `root` holds `entries`, from left to right, in the pages `ids`. -/
structure IndexTree (s : S) (root : PageId) (entries : List IndexEntry) (ids : List PageId) :
    Prop where
  tree : ∃ height leaves, TreeAt model s (min height 1) height ⊥ ⊤ root leaves ids ∧
    Chained leaves none ∧ entriesOf leaves = entries
  nodup : ids.Nodup
  used : ∀ i ∈ ids, model.used s i

variable {model} {s t : S} {root : PageId} {entries : List IndexEntry} {ids : List PageId}

theorem bound_le_top (key : IndexKey) : bound key ≤ (⊤ : Bound IndexKey) := le_top

/-- A tree whose pages are not touched stays. -/
theorem IndexTree.keeps {touched : PageId → Prop} (h : IndexTree model s root entries ids)
    (hkeeps : model.Keeps touched s t) (hids : ∀ i ∈ ids, ¬ touched i) :
    IndexTree model t root entries ids := by
  obtain ⟨height, leaves, htree, hchain, hentries⟩ := h.tree
  refine ⟨⟨height, leaves, ?_, hchain, hentries⟩, h.nodup, fun i hi => hkeeps.used i (h.used i hi)⟩
  exact Subtree.mono htree fun i hi node hnode => hkeeps.view (hids i hi) hnode

theorem initializeRoot_tree (hs : model.Good s) (hroot : model.Storable s root)
    (hrun : initializeRoot root s = (.ok (), t)) :
    IndexTree model t root [] [root] ∧ model.Keeps (fun i => i = root) s t := by
  obtain ⟨hkeeps, hview, hused⟩ := LawfulPageStore.storeNode_eq_ok hs hroot hrun
  refine ⟨⟨⟨0, [⟨root, none, []⟩], ?_, ⟨rfl, trivial⟩, rfl⟩, List.nodup_singleton root, ?_⟩, hkeeps⟩
  · exact ⟨none, [], hview, List.Pairwise.nil, fun e he => absurd he List.not_mem_nil,
      Nat.le_refl _, Nat.zero_le _, rfl, rfl⟩
  · intro i hi
    rw [List.mem_singleton.1 hi]
    exact hused

/-- Storing a new root above the two halves of the old one. -/
theorem newRoot_tree {height : Nat} {newRoot : PageId} {split : SplitResult} {u : S}
    {leaves : List (Leaf IndexEntry PageId)} (hs : model.Good s)
    (hplaced : Placed model s (min height 1) height ⊥ ⊤ root leaves ids (some split))
    (hids : ids.Nodup) (hused : ∀ i ∈ ids, model.used s i)
    (halloc : BPlusTreePageStore.allocatePage s = (.ok newRoot, u))
    (hstore : storeNode newRoot (.internal [split.separator] [root, split.rightPageId]) u =
      (.ok (), t)) :
    TreeAt model t (min (height + 1) 1) (height + 1) ⊥ ⊤ newRoot leaves (newRoot :: ids) ∧
      Replaced model s t ids (newRoot :: ids) := by
  obtain ⟨hkeeps, hfresh, hnow⟩ := LawfulPageStore.allocate_eq_ok hs halloc
  obtain ⟨hkeeps', hview, husedRoot⟩ := LawfulPageStore.storeNode_eq_ok hkeeps.good
    (model.storable_of_used hkeeps.good hnow) hstore
  have hnot : newRoot ∉ ids := fun hmem => hfresh (hused newRoot hmem)
  have hboth : model.Keeps (fun i => i ∈ ids) s t := by
    refine (hkeeps.mono fun i hi => hi.elim).trans hkeeps' ?_ hs
    rintro i rfl
    exact Or.inr hfresh
  have hkept : ∀ i ∈ ids, ∀ node, model.view s i = some node → model.view t i = some node := by
    intro i hi node hnode
    refine hkeeps'.view ?_ (hkeeps.view not_false hnode)
    rintro rfl
    exact hnot hi
  constructor
  · refine ⟨[split.separator], [root, split.rightPageId], ids, hview, rfl, by simp,
      by simp [indexFanout, maxKeys], ?_, rfl⟩
    refine Row.imp hplaced ?_
    intro lo hi child leaves₁ ids₁ hsub hchild
    exact Subtree.mono hchild fun i hi => hkept i (hsub i hi)
  · refine ⟨hboth, List.nodup_cons.2 ⟨hnot, hids⟩, ?_, ?_⟩
    · intro i hi
      rcases List.mem_cons.1 hi with rfl | hi
      · exact Or.inr hfresh
      · exact Or.inl hi
    · intro i hi
      rcases List.mem_cons.1 hi with rfl | hi
      · exact husedRoot
      · exact hboth.used i (hused i hi)

/-- An insert that returns leaves a tree with one more entry, in place or under a new
root one level higher. The keys in its nodes are old ones or the new one. -/
theorem insert_height {fuel : Nat} {key : IndexKey} {rowId : RowId} {newRoot : PageId}
    {height : Nat} {leaves : List (Leaf IndexEntry PageId)}
    (htree : TreeAt model s (min height 1) height ⊥ ⊤ root leaves ids) (hids : ids.Nodup)
    (hused : ∀ i ∈ ids, model.used s i) (hs : model.Good s)
    (hrun : insert fuel root key rowId s = (.ok newRoot, t)) :
    ∃ height' leaves' ids', TreeAt model t (min height' 1) height' ⊥ ⊤ newRoot leaves' ids' ∧
      (newRoot = root ∧ height' = height ∨ newRoot ≠ root ∧ height' = height + 1) ∧
      Replaced model s t ids ids' ∧ Grown ⟨key, rowId⟩ leaves leaves' ∧
      ∀ Q : IndexKey → Prop, Q key → Labelled model Q s ids → Labelled model Q t ids' := by
  obtain ⟨split, u, hrec, hrun⟩ := Exec.bind_eq_ok.1 hrun
  obtain ⟨leaves', ids', hreplaced, hplaced, hgrown, hlabels⟩ := insertRecursive_placed htree hs
    hids hused (bot_lt_bound key) (bound_le_top key) hrec
  cases split with
  | none =>
      cases hrun
      exact ⟨height, leaves', ids', hplaced, Or.inl ⟨rfl, rfl⟩, hreplaced, hgrown,
        fun Q hkey hall => (hlabels Q hkey hall).1⟩
  | some split =>
      obtain ⟨newRoot', v, halloc, hrun⟩ := Exec.bind_eq_ok.1 hrun
      obtain ⟨⟨⟩, w, hstore, hret⟩ := Exec.bind_eq_ok.1 hrun
      cases hret
      obtain ⟨htree', hreplaced'⟩ := newRoot_tree hreplaced.keeps.good hplaced hreplaced.nodup
        hreplaced.used halloc hstore
      refine ⟨height + 1, leaves', newRoot :: ids', htree', Or.inr ⟨?_, rfl⟩,
        hreplaced.trans hreplaced' hs, hgrown, fun Q hkey hall => ?_⟩
      · rintro rfl
        have hfresh := (LawfulPageStore.allocate_eq_ok hreplaced.keeps.good halloc).2.1
        exact hfresh (hreplaced.keeps.used _ (hused _ htree.mem_ids))
      · obtain ⟨hkept, hsep⟩ := hlabels Q hkey hall
        obtain ⟨hkeeps, hfresh, hnow⟩ :=
          LawfulPageStore.allocate_eq_ok hreplaced.keeps.good halloc
        obtain ⟨hkeeps', hview, -⟩ := LawfulPageStore.storeNode_eq_ok hkeeps.good
          (model.storable_of_used hkeeps.good hnow) hstore
        refine List.forall_mem_cons.2 ⟨⟨_, hview, List.forall_mem_singleton.2 (hsep split rfl)⟩, ?_⟩
        refine (hkept.keeps hkeeps fun _ _ => not_false).keeps hkeeps' ?_
        rintro i hi rfl
        exact hfresh (hreplaced.used i hi)

/-- An insert that returns leaves a tree with one more entry. -/
theorem insert_tree {fuel : Nat} {key : IndexKey} {rowId : RowId} {newRoot : PageId}
    (h : IndexTree model s root entries ids) (hs : model.Good s)
    (hrun : insert fuel root key rowId s = (.ok newRoot, t)) :
    ∃ entries' ids', IndexTree model t newRoot entries' ids' ∧
      entries'.Perm (⟨key, rowId⟩ :: entries) ∧ Replaced model s t ids ids' := by
  obtain ⟨height, leaves, htree, hchain, rfl⟩ := h.tree
  obtain ⟨height', leaves', ids', htree', -, hreplaced, hgrown, -⟩ :=
    insert_height htree h.nodup h.used hs hrun
  exact ⟨entriesOf leaves', ids', ⟨⟨height', leaves', htree', hgrown.chained none hchain, rfl⟩,
    hreplaced.nodup, hreplaced.used⟩, hgrown.perm, hreplaced⟩

/-- With one step more than the tree has pages, a lookup gives the rows of the entries
with the key. -/
theorem lookup_of_fuel (h : IndexTree model s root entries ids) (hs : model.Good s)
    (key : IndexKey) {fuel : Nat} (hfuel : ids.length < fuel) :
    ∃ t, lookup fuel root key s = (.ok (rowsWith key entries), t) ∧
      model.Keeps (fun _ => False) s t := by
  obtain ⟨height, leaves, htree, hchain, rfl⟩ := h.tree
  exact lookup_of_loose (loose_of_subtree htree) hchain hs key
    ((Subtree.height_lt htree).trans hfuel) ((Subtree.length_leaves_le htree).trans_lt hfuel)

/-- A lookup ends and gives the rows of the entries with the key. -/
theorem lookup_tree (h : IndexTree model s root entries ids) (hs : model.Good s) (key : IndexKey) :
    ∃ t, Exec.Settles (fun fuel => lookup fuel root key) s (.ok (rowsWith key entries), t) ∧
      model.Keeps (fun _ => False) s t := by
  obtain ⟨t, hlookup, hkeeps⟩ := lookup_of_fuel h hs key (Nat.lt_succ_self ids.length)
  exact ⟨t, Exec.Settles.of_refines (fun n => lookup_refines n root key) hlookup nofun, hkeeps⟩

end Tree

/-! ## Sequences of inserts -/

section Run

variable {S : Type} [BPlusTreePageStore S]

/-- Insert the pairs one after the other, passing on the root that each insert
returns. -/
def insertAll (fuel : Nat) : PageId → List IndexEntry → Db S PageId
  | root, [] => pure root
  | root, entry :: entries => do
      let root ← insert fuel root entry.key entry.rowId
      insertAll fuel root entries

theorem insertAll_append (fuel : Nat) (root : PageId) (xs ys : List IndexEntry) :
    insertAll fuel root (xs ++ ys) = (do
      let root ← insertAll fuel root xs
      insertAll fuel root ys : Db S PageId) := by
  induction xs generalizing root with
  | nil => rfl
  | cons x xs ih => simp only [List.cons_append, insertAll, ih, Exec.bind_assoc]

theorem insertAll_tree {model : LawfulPageStore S} {fuel : Nat} (pairs : List IndexEntry) :
    ∀ {s t : S} {root newRoot : PageId} {entries : List IndexEntry} {ids : List PageId},
    IndexTree model s root entries ids → model.Good s →
    insertAll fuel root pairs s = (.ok newRoot, t) →
    ∃ entries' ids', IndexTree model t newRoot entries' ids' ∧ model.Good t ∧
      entries'.Perm (pairs ++ entries) := by
  induction pairs with
  | nil =>
      intro s t root newRoot entries ids htree hs hrun
      cases hrun
      exact ⟨entries, ids, htree, hs, List.Perm.refl _⟩
  | cons pair pairs ih =>
      intro s t root newRoot entries ids htree hs hrun
      obtain ⟨root', u, hinsert, hrun⟩ := Exec.bind_eq_ok.1 hrun
      obtain ⟨entries₁, ids₁, htree₁, hperm₁, hreplaced⟩ := insert_tree htree hs hinsert
      obtain ⟨entries₂, ids₂, htree₂, hgood, hperm₂⟩ := ih htree₁ hreplaced.keeps.good hrun
      refine ⟨entries₂, ids₂, htree₂, hgood, hperm₂.trans ?_⟩
      exact (hperm₁.append_left pairs).trans List.perm_middle

/-- After any sequence of inserts that returned, starting from an empty root, a
lookup of any key ends with the rows inserted under it, each as often as it was
inserted. -/
theorem lookup_after_inserts_exact (model : LawfulPageStore S) {fuel : Nat} {s t u : S}
    {root newRoot : PageId} {pairs : List IndexEntry} (hs : model.Good s)
    (hroot : model.Storable s root) (hinit : initializeRoot root s = (.ok (), t))
    (hrun : insertAll fuel root pairs t = (.ok newRoot, u)) (key : IndexKey) :
    ∃ rows v, Exec.Settles (fun fuel => lookup fuel newRoot key) u (.ok rows, v) ∧
      rows.Perm (rowsWith key pairs) := by
  obtain ⟨htree, hkeeps⟩ := initializeRoot_tree hs hroot hinit
  obtain ⟨entries, ids, htree', hgood, hperm⟩ := insertAll_tree pairs htree hkeeps.good hrun
  rw [List.append_nil] at hperm
  obtain ⟨v, hlookup, -⟩ := lookup_tree htree' hgood key
  exact ⟨rowsWith key entries, v, hlookup, rowsWith_perm key hperm⟩

end Run

/-! ## Pages in memory -/

/-- A store that keeps its pages in memory and allocates page ids upwards. -/
structure MemoryStore where
  pages : PageId → Option Page
  nextPageId : UInt64

namespace MemoryStore

def loadPage (pageId : PageId) : Db MemoryStore Page := do
  let store ← Exec.get
  DbResult.okOr (store.pages pageId) (DbResult.internalInvariant "missing memory page")

def storePage (page : Page) : Db MemoryStore Unit := do
  let header ← page.header
  Exec.modify fun store =>
    { store with pages := Function.update store.pages header.pageId (some page) }

def allocatePage : Db MemoryStore PageId := do
  let store ← Exec.get
  failIf (store.nextPageId.toNat + 1 ≥ 2 ^ 64) DbResult.panicked
  Exec.modify fun store => { store with nextPageId := store.nextPageId + 1 }
  return ⟨store.nextPageId⟩

instance : BPlusTreePageStore MemoryStore := ⟨loadPage, storePage, allocatePage⟩

theorem allocatePage_eq_ok {s t : MemoryStore} {id : PageId} (h : allocatePage s = (.ok id, t)) :
    id = ⟨s.nextPageId⟩ ∧ t.pages = s.pages ∧ t.nextPageId.toNat = s.nextPageId.toNat + 1 := by
  by_cases hfull : s.nextPageId.toNat + 1 ≥ 2 ^ 64
  · simp only [allocatePage, Exec.bind_apply, Exec.get_apply, Exec.liftM_apply,
      failIf_of hfull] at h
    cases h
  · simp only [allocatePage, Exec.bind_apply, Exec.get_apply, Exec.liftM_apply,
      failIf_of_not hfull, Exec.modify_apply, Exec.pure_apply] at h
    cases h
    refine ⟨rfl, rfl, ?_⟩
    rw [UInt64.toNat_add, UInt64.toNat_one]
    omega

/-- The pages below the next id to be allocated are in use, and no others are
stored. -/
def lawful : LawfulPageStore MemoryStore where
  Good s := ∀ id page, s.pages id = some page → id.val.toNat < s.nextPageId.toNat
  pages s := s.pages
  used s id := id.val.toNat < s.nextPageId.toNat
  Storable s id := id.val.toNat < s.nextPageId.toNat
  storable_of_used := fun _ h => h
  used_of_stored := fun hs h => hs _ _ h
  load := by
    intro s id page hs h
    refine ⟨s, ?_, hs, fun _ hi => hi, fun _ _ hp => hp⟩
    simp only [BPlusTreePageStore.loadPage, loadPage, Exec.bind_apply, Exec.get_apply, h,
      Exec.liftM_apply, DbResult.okOr]
  store := by
    intro s t page header hs hheader hid h
    simp only [BPlusTreePageStore.storePage, storePage, Exec.bind_apply, Exec.liftM_apply, hheader,
      Exec.modify_apply] at h
    cases h
    refine ⟨?_, Function.update_self .., fun _ hi => hi, ?_⟩
    · intro i p hi
      by_cases hcase : i = header.pageId
      · rw [hcase]
        exact hid
      · exact hs i p ((Function.update_of_ne hcase ..).symm.trans hi)
    · intro i p hne hi
      exact (Function.update_of_ne hne ..).trans hi
  allocate := by
    intro s t id hs h
    obtain ⟨rfl, hpages, hnext⟩ := allocatePage_eq_ok h
    rw [hpages]
    refine ⟨?_, Nat.lt_irrefl _, by rw [hnext]; exact Nat.lt_succ_self _, ?_, fun _ _ hp => hp⟩
    · intro i p hi
      rw [hnext]
      exact Nat.lt_succ_of_lt (hs i p hi)
    · intro i hi
      rw [hnext]
      exact Nat.lt_succ_of_lt hi

/-- An empty store whose first page id is taken. -/
def empty : MemoryStore := ⟨fun _ => none, 2⟩

theorem storeNode_of_fits (s : MemoryStore) (id : PageId) (node : BTreeNode) {bs : List UInt8}
    (h : encodeNode node = .ok bs) (hfit : bs.length ≤ Page.maxRecord) :
    ∃ t, storeNode id node s = (.ok (), t) ∧ t.nextPageId = s.nextPageId := by
  obtain ⟨page, hpage⟩ := nodeToPage_of_fits id h hfit
  obtain ⟨⟨header, hvalid, -, -⟩, -⟩ := nodeToPage_eq_ok hpage
  have hheader := (Page.header_eq_ok_iff page header).2 hvalid.toShape
  refine ⟨{ s with pages := Function.update s.pages header.pageId (some page) }, ?_, rfl⟩
  simp only [storeNode, Exec.bind_apply, Exec.liftM_apply, hpage, BPlusTreePageStore.storePage,
    storePage, hheader, Exec.modify_apply]

end MemoryStore

theorem MemoryStore.empty_good : MemoryStore.lawful.Good MemoryStore.empty := by
  intro id page h
  cases h

theorem MemoryStore.empty_storable : MemoryStore.lawful.Storable MemoryStore.empty ⟨1⟩ := by
  change (1 : UInt64).toNat < (2 : UInt64).toNat
  decide

theorem MemoryStore.loadNode_of_view {s : MemoryStore} {id : PageId} {node : BTreeNode}
    (h : MemoryStore.lawful.view s id = some node) : loadNode id s = (.ok node, s) := by
  obtain ⟨page, hpage, hnode⟩ := Option.bind_eq_some_iff.1 h
  have hpage' : s.pages id = some page := hpage
  simp only [loadNode, BPlusTreePageStore.loadPage, MemoryStore.loadPage, Exec.bind_apply,
    Exec.get_apply, Exec.liftM_apply, hpage', DbResult.okOr, toOption_eq_some.1 hnode]

theorem MemoryStore.allocatePage_of_room {s : MemoryStore} (h : s.nextPageId.toNat + 1 < 2 ^ 64) :
    BPlusTreePageStore.allocatePage s =
      ((.ok ⟨s.nextPageId⟩ : DbResult PageId), { s with nextPageId := s.nextPageId + 1 }) := by
  simp only [BPlusTreePageStore.allocatePage, MemoryStore.allocatePage, Exec.bind_apply,
    Exec.get_apply, Exec.liftM_apply, failIf_of_not (not_le.2 h), Exec.modify_apply, Exec.pure_apply]

/-- A root leaf in memory that takes one more entry. -/
theorem MemoryStore.insert_leaf {fuel : Nat} {s : MemoryStore} {entries new : List IndexEntry}
    {entry : IndexEntry} {bs : List UInt8} (hs : MemoryStore.lawful.Good s)
    (hnext : s.nextPageId = 2) (hview : MemoryStore.lawful.view s ⟨1⟩ = some (.leaf none entries))
    (hnew : insertLeafEntry entries entry.key entry.rowId = new) (hmost : new.length ≤ maxKeys)
    (hbs : encodeNode (.leaf none new) = .ok bs) (hfit : bs.length ≤ Page.maxRecord) :
    ∃ t, insert (fuel + 1) ⟨1⟩ entry.key entry.rowId s = (.ok ⟨1⟩, t) ∧ MemoryStore.lawful.Good t ∧
      t.nextPageId = 2 ∧ MemoryStore.lawful.view t ⟨1⟩ = some (.leaf none new) := by
  obtain ⟨t, hstore, ht⟩ := MemoryStore.storeNode_of_fits s ⟨1⟩ (.leaf none new) hbs hfit
  have hroot : MemoryStore.lawful.Storable s ⟨1⟩ := by
    change (1 : UInt64).toNat < s.nextPageId.toNat
    rw [hnext]
    decide
  obtain ⟨hkeeps, hview', -⟩ := LawfulPageStore.storeNode_eq_ok hs hroot hstore
  refine ⟨t, ?_, hkeeps.good, ht.trans hnext, hview'⟩
  simp only [insert, insertRecursive, Exec.bind_apply, MemoryStore.loadNode_of_view hview, hnew,
    storeLeaf]
  rw [if_pos hmost]
  simp only [Exec.bind_apply, hstore, Exec.pure_apply]

/-- A root leaf in memory that is split. -/
theorem MemoryStore.insert_split {fuel : Nat} {s : MemoryStore} {entries new : List IndexEntry}
    {entry first : IndexEntry} {left right top : List UInt8} (hnext : s.nextPageId = 2)
    (hview : MemoryStore.lawful.view s ⟨1⟩ = some (.leaf none entries))
    (hnew : insertLeafEntry entries entry.key entry.rowId = new) (hmost : ¬ new.length ≤ maxKeys)
    (hfirst : DbResult.index (new.drop (new.length / 2)) 0 = .ok first)
    (hleft : encodeNode (.leaf (some ⟨2⟩) (new.take (new.length / 2))) = .ok left)
    (hright : encodeNode (.leaf none (new.drop (new.length / 2))) = .ok right)
    (htop : encodeNode (.internal [first.key] [⟨1⟩, ⟨2⟩]) = .ok top)
    (hfits : ∀ bs ∈ [left, right, top], bs.length ≤ Page.maxRecord) :
    ∃ t, insert (fuel + 1) ⟨1⟩ entry.key entry.rowId s = (.ok ⟨3⟩, t) := by
  rw [List.forall_mem_cons, List.forall_mem_cons, List.forall_mem_singleton] at hfits
  obtain ⟨hfitl, hfitr, hfitt⟩ := hfits
  obtain ⟨t₁, hstore₁, hnext₁⟩ :=
    MemoryStore.storeNode_of_fits { s with nextPageId := s.nextPageId + 1 } ⟨1⟩ _ hleft hfitl
  obtain ⟨t₂, hstore₂, hnext₂⟩ := MemoryStore.storeNode_of_fits t₁ ⟨2⟩ _ hright hfitr
  obtain ⟨t₃, hstore₃, -⟩ :=
    MemoryStore.storeNode_of_fits { t₂ with nextPageId := t₂.nextPageId + 1 } ⟨3⟩ _ htop hfitt
  have halloc : BPlusTreePageStore.allocatePage s =
      ((.ok ⟨2⟩ : DbResult PageId), { s with nextPageId := s.nextPageId + 1 }) := by
    rw [MemoryStore.allocatePage_of_room (by rw [hnext]; decide), hnext]
  have hlast : t₂.nextPageId = 3 := by
    rw [hnext₂, hnext₁, hnext]
    rfl
  have halloc' : BPlusTreePageStore.allocatePage t₂ =
      ((.ok ⟨3⟩ : DbResult PageId), { t₂ with nextPageId := t₂.nextPageId + 1 }) := by
    rw [MemoryStore.allocatePage_of_room (by rw [hlast]; decide), hlast]
  refine ⟨t₃, ?_⟩
  simp only [insert, insertRecursive, Exec.bind_apply, MemoryStore.loadNode_of_view hview, hnew,
    storeLeaf]
  rw [if_neg hmost]
  simp only [Exec.bind_apply, halloc, hfirst, Exec.liftM_apply, hstore₁, hstore₂, Exec.pure_apply,
    halloc', hstore₃]

theorem MemoryStore.initializeRoot_empty :
    ∃ t, initializeRoot ⟨1⟩ MemoryStore.empty = (.ok (), t) ∧ MemoryStore.lawful.Good t ∧
      t.nextPageId = 2 ∧ MemoryStore.lawful.view t ⟨1⟩ = some (.leaf none []) := by
  obtain ⟨t, hinit, ht⟩ := MemoryStore.storeNode_of_fits MemoryStore.empty ⟨1⟩ (.leaf none []) rfl
    (by decide)
  obtain ⟨hkeeps, hview, -⟩ := LawfulPageStore.storeNode_eq_ok MemoryStore.empty_good
    MemoryStore.empty_storable hinit
  exact ⟨t, hinit, hkeeps.good, ht, hview⟩

/-- Four entries with small keys, as many as a leaf takes. -/
def fourPairs : List IndexEntry :=
  [⟨.integer 1, ⟨⟨3⟩, ⟨0⟩⟩⟩, ⟨.integer 2, ⟨⟨3⟩, ⟨1⟩⟩⟩, ⟨.integer 3, ⟨⟨3⟩, ⟨2⟩⟩⟩,
    ⟨.integer 4, ⟨⟨3⟩, ⟨3⟩⟩⟩]

theorem insert_fourPairs (fuel : Nat) :
    ∃ t u, initializeRoot ⟨1⟩ MemoryStore.empty = (.ok (), t) ∧
      insertAll (fuel + 1) ⟨1⟩ fourPairs t = (.ok ⟨1⟩, u) ∧ MemoryStore.lawful.Good u ∧
      u.nextPageId = 2 ∧ MemoryStore.lawful.view u ⟨1⟩ = some (.leaf none fourPairs) := by
  obtain ⟨t, hinit, h₀, n₀, v₀⟩ := MemoryStore.initializeRoot_empty
  obtain ⟨s₁, r₁, h₁, n₁, v₁⟩ := @MemoryStore.insert_leaf fuel t [] (fourPairs.take 1)
    ⟨.integer 1, ⟨⟨3⟩, ⟨0⟩⟩⟩ _ h₀ n₀ v₀ (by decide) (by decide) rfl (by decide)
  obtain ⟨s₂, r₂, h₂, n₂, v₂⟩ := @MemoryStore.insert_leaf fuel s₁ (fourPairs.take 1) (fourPairs.take 2)
    ⟨.integer 2, ⟨⟨3⟩, ⟨1⟩⟩⟩ _ h₁ n₁ v₁ (by decide +kernel) (by decide) rfl (by decide)
  obtain ⟨s₃, r₃, h₃, n₃, v₃⟩ := @MemoryStore.insert_leaf fuel s₂ (fourPairs.take 2) (fourPairs.take 3)
    ⟨.integer 3, ⟨⟨3⟩, ⟨2⟩⟩⟩ _ h₂ n₂ v₂ (by decide +kernel) (by decide) rfl (by decide)
  obtain ⟨u, r₄, h₄, n₄, v₄⟩ := @MemoryStore.insert_leaf fuel s₃ (fourPairs.take 3) fourPairs
    ⟨.integer 4, ⟨⟨3⟩, ⟨3⟩⟩⟩ _ h₃ n₃ v₃ (by decide +kernel) (by decide) rfl (by decide)
  refine ⟨t, u, hinit, ?_, h₄, n₄, v₄⟩
  exact Exec.bind_eq_ok.2 ⟨⟨1⟩, s₁, r₁, Exec.bind_eq_ok.2 ⟨⟨1⟩, s₂, r₂, Exec.bind_eq_ok.2
    ⟨⟨1⟩, s₃, r₃, Exec.bind_eq_ok.2 ⟨⟨1⟩, u, r₄, rfl⟩⟩⟩⟩

/-- One of the keys comes again. -/
def fivePairs : List IndexEntry := fourPairs ++ [⟨.integer 3, ⟨⟨3⟩, ⟨4⟩⟩⟩]

/-- The fifth entry splits the leaf. -/
theorem insert_fivePairs (fuel : Nat) :
    ∃ t u, initializeRoot ⟨1⟩ MemoryStore.empty = (.ok (), t) ∧
      insertAll (fuel + 1) ⟨1⟩ fivePairs t = (.ok ⟨3⟩, u) := by
  obtain ⟨t, u, hinit, hrun, -, hnext, hview⟩ := insert_fourPairs fuel
  obtain ⟨v, hsplit⟩ := @MemoryStore.insert_split fuel u fourPairs
    (fourPairs.take 3 ++ ⟨.integer 3, ⟨⟨3⟩, ⟨4⟩⟩⟩ :: fourPairs.drop 3) ⟨.integer 3, ⟨⟨3⟩, ⟨4⟩⟩⟩
    ⟨.integer 3, ⟨⟨3⟩, ⟨2⟩⟩⟩ _ _ _ hnext hview (by decide +kernel) (by decide) rfl rfl rfl rfl (by decide)
  refine ⟨t, v, hinit, ?_⟩
  rw [fivePairs, insertAll_append, Exec.bind_of_ok hrun]
  exact Exec.bind_eq_ok.2 ⟨⟨3⟩, v, hsplit, rfl⟩

/-- The lookup of a key that has been inserted twice, after its leaf has been split. -/
theorem lookup_after_five_inserts :
    ∃ t u, initializeRoot ⟨1⟩ MemoryStore.empty = (.ok (), t) ∧
      insertAll 1 ⟨1⟩ fivePairs t = (.ok ⟨3⟩, u) ∧
      ∃ rows v, Exec.Settles (fun fuel => lookup fuel ⟨3⟩ (.integer 3)) u (.ok rows, v) ∧
        rows.Perm [⟨⟨3⟩, ⟨2⟩⟩, ⟨⟨3⟩, ⟨4⟩⟩] := by
  obtain ⟨t, u, hinit, hrun⟩ := insert_fivePairs 0
  exact ⟨t, u, hinit, hrun, lookup_after_inserts_exact MemoryStore.lawful
    MemoryStore.empty_good MemoryStore.empty_storable hinit hrun (.integer 3)⟩

end Rdbms
