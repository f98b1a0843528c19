import Rdbms.Catalog.Tables
import Rdbms.Index.Bounded
import Rdbms.Tx.FaultFree

/-!
# Operations on a laid out database

`Laid` is the state between two calls of an active transaction whose calls have all
returned: the disk has no faults, every staged page is a valid page that has been
handed out, and the pages the transaction sees are laid out as its working catalog
says. Every call that returns keeps this and changes the holding of one relation at
most, and every call that fails fails with a user error.
-/

namespace Rdbms

open Library Disk BPlusTree

/-- The table and the column that an index is on. -/
def StorageObject.target : StorageObject → Option (RelationId × String)
  | heap _ => none
  | bPlusTree storage => some (storage.tableId, storage.columnName)

/-- The holding of one relation has changed, and nothing else. -/
inductive Changed (relationId : RelationId) (holding holding' : Holding) :
    Catalog → List Holding → Catalog → List Holding → Prop
  | mk {c c' : Catalog} {front back : List RelationInfo} {relation : RelationInfo}
      {storage : StorageObject} {before after : List Holding} (id : relation.id = relationId)
      (length : front.length = before.length) (relations : c.relations = front ++ relation :: back)
      (relations' : c'.relations = front ++ { relation with storage := storage } :: back)
      (target : storage.target = relation.storage.target)
      (extensions : c'.extensions = c.extensions) :
      Changed relationId holding holding' c (before ++ holding :: after) c'
        (before ++ holding' :: after)

/-- What one relation holds has changed. -/
theorem Changed.collect_perm {α : Type} {relationId : RelationId}
    {holding holding' : Holding} {c c' : Catalog} {held held' : List Holding}
    (h : Changed relationId holding holding' c held c' held') (items : Holding → List α)
    (new : List α) (hitems : (items holding').Perm (new ++ items holding)) :
    (collect items c'.relations held').Perm
      (new.map (Prod.mk relationId) ++ collect items c.relations held) := by
  obtain ⟨hid, hlength, hrelations, hrelations', -, -⟩ := h
  rw [hrelations, hrelations', collect_append hlength, collect_append hlength, collect_cons,
    collect_cons, hid]
  have hmoved := hitems.map (Prod.mk relationId)
  rw [List.map_append] at hmoved
  refine ((hmoved.append_right _).append_left _).trans ?_
  rw [List.append_assoc]
  exact List.perm_append_comm_assoc _ _ _

namespace Transaction

/-- The state between two calls of a transaction whose calls have all returned. -/
structure Laid (s : Transaction FileId × Disk) (held : List Holding) : Prop where
  faultFree : FaultFree s.2
  file : s.1.manager.store.pageFile = dataFile
  active : s.1.state = .active
  staged : s.1.StagedValid
  stagedAllocated : s.1.StagedAllocated
  layout : Layout (lawful.pages s) s.1.workingCatalog held

/-- The catalog page that the transaction sees holds its working catalog. -/
def Saved (s : Transaction FileId × Disk) : Prop :=
  ∃ page, visible s catalogPageId = some page ∧ s.1.workingCatalog.toPage = .ok page

/-- The state between two calls, with the catalog page up to date. -/
structure Settled (s : Transaction FileId × Disk) (held : List Holding) : Prop
    extends Laid s held where
  saved : Saved s

/-- The transaction with one more page staged. -/
def withStaged (tx : Transaction FileId) (pageId : PageId) (page : Page) : Transaction FileId :=
  { tx with dirtyPages := tx.dirtyPages.insert pageId page }

variable {s t : Transaction FileId × Disk} {tx : Transaction FileId} {d e : Disk}
  {held : List Holding} {pageId : PageId} {page : Page}

theorem current_apply (s : Transaction FileId × Disk) : current s = (.ok s.1, s) := rfl

theorem ensureActive_of_active (h : s.1.state = .active) : ensureActive s = (.ok (), s) := by
  simp only [ensureActive, Exec.bind_apply, current_apply, Exec.liftM_apply,
    failIf_of_not (not_not.2 h)]

theorem ensureActive_ensures {Q : Unit → Transaction FileId × Disk → Prop}
    (h : s.1.state = .active) (hQ : Q () s) : Exec.Ensures ensureActive s Stop.IsUser Q :=
  Exec.Ensures.of_ok (ensureActive_of_active h) hQ

theorem current_ensures {Q : Transaction FileId → Transaction FileId × Disk → Prop}
    (hQ : Q s.1 s) : Exec.Ensures current s Stop.IsUser Q := Exec.Ensures.of_ok rfl hQ

theorem stage_ensures {Q : Unit → Transaction FileId × Disk → Prop}
    (hQ : Q () (s.1.withStaged pageId page, s.2)) :
    Exec.Ensures (stage pageId page) s Stop.IsUser Q := Exec.Ensures.of_ok rfl hQ

theorem onCatalog_ensures {α : Type} {m : Db Catalog α} {E : Stop → Prop}
    {Q : α → Catalog → Prop} (h : Exec.Ensures m s.1.workingCatalog E Q) :
    Exec.Ensures (onCatalog m) s E fun a t => ∃ c, Q a c ∧
      t = ({ s.1 with workingCatalog := c }, s.2) := by
  rcases hm : m s.1.workingCatalog with ⟨stop | a, c⟩
  · refine Exec.Ensures.of_error (t := ({ s.1 with workingCatalog := c }, s.2)) ?_ (h.error hm)
    rw [onCatalog, Exec.zoom_apply, hm]
  · exact Exec.Ensures.of_ok (onCatalog_eq_ok.2 ⟨c, hm, rfl⟩) ⟨c, h.ok hm, rfl⟩

theorem pages_withStaged (tx : Transaction FileId) (d : Disk) (pageId : PageId) (page : Page)
    (i : PageId) :
    lawful.pages (tx.withStaged pageId page, d) i =
      if i = pageId then tx.workingCatalog.only (fun _ => some page) i
      else lawful.pages (tx, d) i := by
  change tx.workingCatalog.only (visible (tx.withStaged pageId page, d)) i = _
  rw [Catalog.only, withStaged, visible_stage]
  by_cases hi : i = pageId
  · rw [if_pos hi, if_pos hi, Catalog.only]
  · rw [if_neg hi, if_neg hi]
    rfl

theorem pages_withStaged_self (h : tx.workingCatalog.Allocated pageId) :
    lawful.pages (tx.withStaged pageId page, d) pageId = some page := by
  rw [pages_withStaged, if_pos rfl, Catalog.only, if_pos h]

theorem pages_withStaged_of_ne {i : PageId} (h : i ≠ pageId) :
    lawful.pages (tx.withStaged pageId page, d) i = lawful.pages (tx, d) i := by
  rw [pages_withStaged, if_neg h]

/-- Staging a page that belongs to no relation. -/
theorem Laid.stage (h : Laid (tx, d) held) (hpage : page.ValidAs pageId)
    (hid : tx.workingCatalog.Allocated pageId) (hfree : pageId ∉ occupied held) :
    Laid (tx.withStaged pageId page, d) held where
  faultFree := h.faultFree
  file := h.file
  active := h.active
  staged := stagedValid_insert h.staged hpage
  stagedAllocated := stagedAllocated_insert h.stagedAllocated hid
  layout := by
    refine h.layout.mono rfl rfl (fun _ hi => hi) ?_
    intro i _ hi p hp
    rw [pages_withStaged_of_ne, hp]
    rintro rfl
    exact hfree hi

theorem Laid.catalogPage_free (h : Laid (tx, d) held) :
    tx.workingCatalog.Allocated catalogPageId ∧ catalogPageId ∉ occupied held :=
  ⟨h.layout.allocated _ List.mem_cons_self, (List.nodup_cons.1 h.layout.nodup).1⟩

theorem visible_withStaged_self (tx : Transaction FileId) (d : Disk) (pageId : PageId)
    (page : Page) : visible (tx.withStaged pageId page, d) pageId = some page := by
  rw [withStaged, visible_stage, if_pos rfl]

theorem markCatalogDirty_ensures (h : Laid (tx, d) held) :
    Exec.Ensures markCatalogDirty (tx, d) Stop.IsUser fun _ t =>
      Settled t held ∧ t.1.workingCatalog = tx.workingCatalog := by
  refine Exec.Ensures.bind (current_ensures ?_)
  refine Exec.Ensures.bind (Catalog.ensures_check (Catalog.toPage_onlyUser _) fun page hpage => ?_)
  refine stage_ensures ⟨⟨h.stage (Catalog.toPage_validAs hpage) ?_ ?_, page, ?_, hpage⟩, rfl⟩
  · exact h.catalogPage_free.1
  · exact h.catalogPage_free.2
  · exact visible_withStaged_self tx d catalogPageId page

/-- A larger catalog shows more pages. -/
theorem pages_withCatalog {c : Catalog} {i : PageId} (h : lawful.pages (tx, d) i = some page)
    (hgrow : tx.workingCatalog.Allocated i → c.Allocated i) :
    lawful.pages ({ tx with workingCatalog := c }, d) i = some page := by
  obtain ⟨halloc, hpage⟩ := Catalog.only_eq_some.1 h
  exact Catalog.only_eq_some.2 ⟨hgrow halloc, hpage⟩

/-- A relation that has been created in the catalog is laid out as soon as its page is
staged. -/
theorem Laid.create (h : Laid (tx, d) held) {relation : RelationInfo} {c : Catalog}
    {contents : Contents} (hcreated : Catalog.Created tx.workingCatalog relation pageId c)
    (hpage : page.ValidAs pageId)
    (hoccupies : ∀ pages : PageId → Option Page, pages pageId = some page →
      Occupies pages relation ⟨[pageId], contents⟩) :
    Laid (withStaged { tx with workingCatalog := c } pageId page, d)
      (held ++ [⟨[pageId], contents⟩]) := by
  have hgrow : ∀ i, tx.workingCatalog.Allocated i → c.Allocated i := by
    intro i hi
    rw [Catalog.Allocated, hcreated.nextPageId]
    exact Nat.lt_succ_of_lt hi
  have hnew : c.Allocated pageId := by
    rw [Catalog.Allocated, hcreated.nextPageId, hcreated.pageId]
    exact Nat.lt_succ_self _
  have hold : ¬ tx.workingCatalog.Allocated pageId := by
    rw [Catalog.Allocated, hcreated.pageId]
    exact Nat.lt_irrefl _
  refine ⟨h.faultFree, h.file, h.active, stagedValid_insert h.staged hpage, ?_, ?_⟩
  · refine stagedAllocated_insert ?_ hnew
    exact fun id p hp => hgrow id (h.stagedAllocated id p hp)
  · refine h.layout.add hcreated.relations ?_ hcreated.nextRelationId hcreated.name
      (hoccupies _ (pages_withStaged_self hnew)) (List.nodup_singleton _) ?_ hgrow ?_
    · rw [hcreated.id]
    · intro i hi
      rw [List.mem_singleton.1 hi]
      exact ⟨hold, hnew⟩
    · intro i hi _ p hp
      rw [pages_withStaged_of_ne]
      · exact pages_withCatalog hp (hgrow i)
      · rintro rfl
        exact hold hi

theorem createTable_ensures (h : Laid (tx, d) held) (name : String) (columns : List ColumnDef) :
    Exec.Ensures (createTable name columns) (tx, d) Stop.IsUser fun relationId t => ∃ pageId,
      Settled t (held ++ [⟨[pageId], .heap []⟩]) ∧
      Catalog.Created tx.workingCatalog ⟨relationId, name, .table, .heap [pageId], columns⟩ pageId
        t.1.workingCatalog := by
  refine Exec.Ensures.bind (ensureActive_ensures h.active ?_)
  refine Exec.Ensures.bind
    ((onCatalog_ensures (Catalog.createTableMetadata_ensures name columns)).imp ?_)
  rintro ⟨relationId, pageId⟩ t ⟨c, hcreated, rfl⟩
  have hlaid := h.create hcreated ⟨_, Page.new_valid pageId .heap, rfl⟩ fun pages hpages =>
    Occupies.table (List.cons_ne_nil _ _) ⟨_, [], [], hpages, heapPage_new pageId, rfl, rfl⟩
  refine Exec.Ensures.bind (stage_ensures ?_)
  refine Exec.Ensures.bind ((markCatalogDirty_ensures hlaid).imp ?_)
  rintro ⟨⟩ t ⟨ht, hcatalog⟩
  refine Exec.Ensures.pure ⟨pageId, ht, ?_⟩
  rw [hcatalog]
  exact hcreated

theorem registerExtension_ensures (h : Settled (tx, d) held) (name : String) (abiVersion : UInt32)
    (kind : String) :
    Exec.Ensures (registerExtension name abiVersion kind) (tx, d) Stop.IsUser fun _ t =>
      Settled t held ∧ t.1.workingCatalog.relations = tx.workingCatalog.relations := by
  refine Exec.Ensures.bind (ensureActive_ensures h.active ?_)
  refine Exec.Ensures.bind
    ((onCatalog_ensures (Catalog.registerExtensionMetadata_ensures name abiVersion kind)).imp ?_)
  rintro inserted t ⟨c, ⟨hnothing, hrelations, hnext, hpage⟩, rfl⟩
  have hgrow : ∀ i, tx.workingCatalog.Allocated i → c.Allocated i := by
    intro i hi
    rwa [Catalog.Allocated, hpage]
  have hlaid : Laid ({ tx with workingCatalog := c }, d) held := by
    refine ⟨h.faultFree, h.file, h.active, h.staged, ?_, ?_⟩
    · exact fun id p hp => hgrow id (h.stagedAllocated id p hp)
    · exact h.layout.mono hrelations hnext hgrow fun i _ _ p hp => pages_withCatalog hp (hgrow i)
  cases inserted with
  | false =>
      obtain rfl := hnothing rfl
      exact Exec.Ensures.pure ⟨h, hrelations⟩
  | true =>
      refine Exec.Ensures.bind ((markCatalogDirty_ensures hlaid).imp ?_)
      rintro ⟨⟩ t ⟨ht, hcatalog⟩
      refine Exec.Ensures.pure ⟨ht, ?_⟩
      rw [hcatalog]
      exact hrelations

/-! ## Indexes -/

theorem storePage_ensures {header : PageHeader} {Q : Unit → Transaction FileId × Disk → Prop}
    (hheader : page.header = .ok header) (hQ : Q () (s.1.withStaged header.pageId page, s.2)) :
    Exec.Ensures (BPlusTreePageStore.storePage page) s Stop.IsUser Q := by
  refine Exec.Ensures.bind (Exec.Ensures.of_ok (t := s) (a := header) ?_ (stage_ensures hQ))
  rw [hheader]
  rfl

theorem failsUser : lawful.FailsUser where
  store := fun _ hheader => storePage_ensures hheader trivial
  allocate := fun _ => (onCatalog_ensures Catalog.allocatePageId_ensures).imp fun _ _ _ => trivial

theorem treeIn_empty {pages : PageId → Option Page} (hpage : pages pageId = some page)
    (hnode : nodeFromPage page = .ok (.leaf none [])) : TreeIn pages pageId [] [pageId] := by
  refine ⟨0, [⟨pageId, none, []⟩], ?_, ⟨rfl, trivial⟩, rfl⟩
  refine ⟨none, [], ?_, List.Pairwise.nil, nofun, Nat.le_refl _, Nat.zero_le _, rfl, rfl⟩
  exact Option.bind_eq_some_iff.2 ⟨page, hpage, by rw [hnode]; rfl⟩

theorem storeNode_stages {Q : Unit → Transaction FileId × Disk → Prop} {node : BTreeNode}
    (hshape : NodeShape node)
    (hQ : ∀ page, NodePage page pageId node → Q () (s.1.withStaged pageId page, s.2)) :
    Exec.Ensures (storeNode pageId node) s Stop.IsUser Q := by
  refine Exec.Ensures.bind
    (Catalog.ensures_check (nodeToPage_onlyUser pageId hshape) fun page hpage => ?_)
  have hnode := nodeToPage_eq_ok hpage
  obtain ⟨header, hvalid, rfl, -⟩ := hnode.valid
  exact storePage_ensures ((Page.header_eq_ok_iff page header).2 hvalid.toShape) (hQ page hnode)

theorem createIndex_ensures (h : Laid (tx, d) held) (name : String) (tableId : RelationId)
    (columnName : String) :
    Exec.Ensures (createIndex name tableId columnName) (tx, d) Stop.IsUser fun created t =>
      Settled t (held ++ [⟨[created.2], .tree []⟩]) ∧
      Catalog.Created tx.workingCatalog ⟨created.1, name, .index,
        .bPlusTree ⟨tableId, columnName, created.2⟩, [⟨columnName, "INDEX_KEY"⟩]⟩ created.2
        t.1.workingCatalog ∧
      ∃ table, tx.workingCatalog.Indexable tableId columnName table := by
  refine Exec.Ensures.bind (ensureActive_ensures h.active ?_)
  refine Exec.Ensures.bind
    ((onCatalog_ensures (Catalog.createIndexMetadata_ensures name tableId columnName)).imp ?_)
  rintro ⟨relationId, pageId⟩ t ⟨c, ⟨hcreated, hindexable⟩, rfl⟩
  refine Exec.Ensures.bind (storeNode_stages (nodeShape_leaf _ _) fun page hnode => ?_)
  obtain ⟨header, hvalid, hid, -⟩ := hnode.valid
  have hlaid := h.create hcreated ⟨header, hvalid, hid⟩ fun pages hpages =>
    Occupies.index (treeIn_empty hpages hnode.node)
  refine Exec.Ensures.bind ((markCatalogDirty_ensures hlaid).imp ?_)
  rintro ⟨⟩ t ⟨ht, hcatalog⟩
  refine Exec.Ensures.pure ⟨ht, ?_, hindexable⟩
  rw [hcatalog]
  exact hcreated

/-! ## Rows -/

theorem pages_of_reads (hreads : OnlyReads d e) (tx : Transaction FileId) :
    lawful.pages (tx, e) = lawful.pages (tx, d) := by
  have hvisible : visible (tx, e) = visible (tx, d) := by
    funext i
    exact visible_congr rfl hreads.files.data
  change tx.workingCatalog.only (visible (tx, e)) = tx.workingCatalog.only (visible (tx, d))
  rw [hvisible]

/-- Reading the disk changes nothing. -/
theorem Laid.reads (h : Laid (tx, d) held) (hreads : OnlyReads d e) : Laid (tx, e) held where
  faultFree := hreads.faultFree h.faultFree
  file := h.file
  active := h.active
  staged := h.staged
  stagedAllocated := h.stagedAllocated
  layout := by
    rw [pages_of_reads hreads tx]
    exact h.layout

theorem Saved.reads (h : Saved (tx, d)) (hreads : OnlyReads d e) : Saved (tx, e) := by
  obtain ⟨page, hpage, htoPage⟩ := h
  have hsame : visible (tx, e) catalogPageId = visible (tx, d) catalogPageId :=
    visible_congr rfl hreads.files.data
  exact ⟨page, hsame.trans hpage, htoPage⟩

theorem Saved.stage (h : Saved (tx, d)) (hne : pageId ≠ catalogPageId) :
    Saved (tx.withStaged pageId page, d) := by
  obtain ⟨p, hp, htoPage⟩ := h
  refine ⟨p, ?_, htoPage⟩
  rw [withStaged, visible_stage, if_neg hne.symm, hp]

theorem loadPage_ensures {Q : Page → Transaction FileId × Disk → Prop} (h : Laid (tx, d) held)
    (hpage : lawful.pages (tx, d) pageId = some page)
    (hQ : ∀ e, OnlyReads d e → Q page (tx, e)) :
    Exec.Ensures (loadPage pageId) (tx, d) Stop.IsUser Q := by
  obtain ⟨e, hload, hreads⟩ :=
    loadPage_of_visible h.faultFree h.file (Catalog.only_eq_some.1 hpage).2
  exact Exec.Ensures.of_ok hload (hQ e hreads)

/-- The pages with one of them replaced. -/
structure Updates (pages : PageId → Option Page) (pageId : PageId) (page : Page)
    (pages' : PageId → Option Page) : Prop where
  self : pages' pageId = some page
  other : ∀ i p, i ≠ pageId → pages i = some p → pages' i = some p

/-- The row has been put into one of the pages of the heap. -/
structure PlacedRow (pages : PageId → Option Page) (pageIds : List PageId) (rows : List HeapRow)
    (bytes : List UInt8) (rowId : RowId) (page : Page) (rows' : List HeapRow) : Prop where
  mem : rowId.pageId ∈ pageIds
  valid : page.ValidAs rowId.pageId
  heap : ∀ {pages'}, Updates pages rowId.pageId page pages' → HeapAt pages' pageIds rows'
  perm : rows'.Perm (⟨rowId, bytes⟩ :: rows)

theorem PlacedRow.cons {pages : PageId → Option Page} {pageIds : List PageId}
    {rows₁ rows₂ rows' : List HeapRow} {bytes : List UInt8} {rowId : RowId} {first : PageId}
    {firstPage : Page} (h : PlacedRow pages pageIds rows₂ bytes rowId page rows')
    (hfirst : pages first = some firstPage) (hheap : HeapPage first firstPage rows₁)
    (hnot : first ∉ pageIds) :
    PlacedRow pages (first :: pageIds) (rows₁ ++ rows₂) bytes rowId page (rows₁ ++ rows') where
  mem := List.mem_cons_of_mem _ h.mem
  valid := h.valid
  heap := by
    intro pages' hupdates
    refine ⟨firstPage, rows₁, rows', hupdates.other first firstPage ?_ hfirst, hheap,
      h.heap hupdates, rfl⟩
    rintro rfl
    exact hnot h.mem
  perm := (h.perm.append_left rows₁).trans List.perm_middle

theorem placedRow_head {pages : PageId → Option Page} {pageIds : List PageId}
    {rows₁ rows₂ rows₁' : List HeapRow} {bytes : List UInt8} {first : PageId} {slotId : SlotId}
    (hheap : HeapPage first page rows₁') (hperm : rows₁'.Perm (⟨⟨first, slotId⟩, bytes⟩ :: rows₁))
    (hrest : HeapAt pages pageIds rows₂) (hnot : first ∉ pageIds) :
    PlacedRow pages (first :: pageIds) (rows₁ ++ rows₂) bytes ⟨first, slotId⟩ page
      (rows₁' ++ rows₂) where
  mem := List.mem_cons_self
  valid := hheap.validAs
  heap := by
    intro pages' hupdates
    refine ⟨page, rows₁', rows₂, hupdates.self, hheap, hrest.mono ?_, rfl⟩
    intro i hi p hp
    refine hupdates.other i p ?_ hp
    rintro rfl
    exact hnot hi
  perm := hperm.append_right rows₂

/-- The row goes into the first page with room for it, or no page has room. -/
theorem insertIntoPages_ensures {bytes : List UInt8} {pageIds : List PageId} :
    ∀ {rows : List HeapRow} {d : Disk}, Laid (tx, d) held →
      HeapAt (lawful.pages (tx, d)) pageIds rows → pageIds.Nodup →
      Exec.Ensures (insertIntoPages bytes pageIds) (tx, d) Stop.IsUser fun placed t =>
        ∃ e, OnlyReads d e ∧ match placed with
        | none => t = (tx, e)
        | some rowId => ∃ page rows', t = (tx.withStaged rowId.pageId page, e) ∧
            PlacedRow (lawful.pages (tx, d)) pageIds rows bytes rowId page rows' := by
  induction pageIds with
  | nil =>
      intro rows d _ _ _
      exact Exec.Ensures.pure ⟨d, OnlyReads.refl d, rfl⟩
  | cons first pageIds ih =>
      intro rows d hlaid hheap hids
      obtain ⟨page, rows₁, rows₂, hpage, hfirst, hrest, rfl⟩ := hheap
      obtain ⟨hnot, hids⟩ := List.nodup_cons.1 hids
      refine Exec.Ensures.bind (loadPage_ensures hlaid hpage fun e hreads => ?_)
      have hsame := pages_of_reads hreads tx
      rcases hfirst.insertRecord bytes with ⟨message, hfull⟩ | ⟨slotId, q, rows₁', hok, hq, hperm⟩
      · -- No room: the next pages are tried.
        rw [hfull]
        rw [← hsame] at hrest
        refine (ih (hlaid.reads hreads) hrest hids).imp ?_
        rintro placed t ⟨e', hreads', hplaced⟩
        refine ⟨e', hreads.trans hreads', ?_⟩
        cases placed with
        | none => exact hplaced
        | some rowId =>
            obtain ⟨page', rows', ht, hrow⟩ := hplaced
            rw [hsame] at hrow
            exact ⟨page', rows₁ ++ rows', ht, hrow.cons hpage hfirst hnot⟩
      · rw [hok]
        refine Exec.Ensures.bind (stage_ensures (Exec.Ensures.pure ⟨e, hreads, q, rows₁' ++ rows₂,
          rfl, ?_⟩))
        exact placedRow_head hq hperm hrest hnot

theorem updates_withStaged (h : tx.workingCatalog.Allocated pageId) :
    Updates (lawful.pages (tx, d)) pageId page (lawful.pages (tx.withStaged pageId page, d)) where
  self := pages_withStaged_self h
  other := fun _ _ hne hp => (pages_withStaged_of_ne hne).trans hp

section Table

variable {front back : List RelationInfo} {before after : List Holding} {id : RelationId}
  {name : String} {columns : List ColumnDef} {pageIds : List PageId} {rows rows' : List HeapRow}
  {bytes : List UInt8}

/-- What is known about the holding of a relation inside the whole. -/
theorem Laid.holding {holding : Holding} (h : Laid (tx, d) (before ++ holding :: after)) :
    holding.pageIds.Nodup ∧ (∀ i ∈ holding.pageIds, tx.workingCatalog.Allocated i) ∧
      catalogPageId ∉ holding.pageIds := by
  have hnodup := h.layout.nodup
  have hallocated := h.layout.allocated
  rw [occupied_append, occupied_cons] at hnodup hallocated
  obtain ⟨hcatalog, hnodup⟩ := List.nodup_cons.1 hnodup
  refine ⟨(List.nodup_append.1 (List.nodup_append.1 hnodup).2.1).1, ?_, ?_⟩
  · intro i hi
    refine hallocated i (List.mem_cons_of_mem _ ?_)
    exact List.mem_append_right _ (List.mem_append_left _ hi)
  · exact fun hi => hcatalog (List.mem_append_right _ (List.mem_append_left _ hi))

/-- A row is put into a page of the heap. -/
theorem Laid.place {rowId : RowId} (h : Laid (tx, d) (before ++ ⟨pageIds, .heap rows⟩ :: after))
    (hlength : front.length = before.length)
    (hrelations : tx.workingCatalog.relations =
      front ++ ⟨id, name, .table, .heap pageIds, columns⟩ :: back) (hne : pageIds ≠ [])
    (hrow : PlacedRow (lawful.pages (tx, d)) pageIds rows bytes rowId page rows') :
    Laid (tx.withStaged rowId.pageId page, d) (before ++ ⟨pageIds, .heap rows'⟩ :: after) := by
  obtain ⟨hids, hallocated, -⟩ := h.holding
  have hupdates : Updates (lawful.pages (tx, d)) rowId.pageId page
      (lawful.pages (tx.withStaged rowId.pageId page, d)) :=
    updates_withStaged (hallocated _ hrow.mem)
  refine ⟨h.faultFree, h.file, h.active, stagedValid_insert h.staged hrow.valid,
    stagedAllocated_insert h.stagedAllocated (hallocated _ hrow.mem), ?_⟩
  refine h.layout.replace hlength hrelations hrelations rfl rfl rfl
    (Occupies.table hne (hrow.heap hupdates)) hids ?_ (fun _ hi => hi) ?_
  · exact fun i hi => ⟨Or.inl hi, hallocated i hi⟩
  · intro i _ hi p hp
    refine hupdates.other i p ?_ hp
    rintro rfl
    exact hi hrow.mem

/-- The heap gets a new page. -/
theorem Laid.grow {c : Catalog} {row : HeapRow}
    (h : Laid (tx, d) (before ++ ⟨pageIds, .heap rows⟩ :: after))
    (hheap : HeapAt (lawful.pages (tx, d)) pageIds rows) (hlength : front.length = before.length)
    (hrelations : tx.workingCatalog.relations =
      front ++ ⟨id, name, .table, .heap pageIds, columns⟩ :: back)
    (hrelations' : c.relations =
      front ++ ⟨id, name, .table, .heap (pageIds ++ [pageId]), columns⟩ :: back)
    (hnext : c.nextRelationId = tx.workingCatalog.nextRelationId)
    (hpageId : pageId = ⟨tx.workingCatalog.nextPageId⟩)
    (hnextPage : c.nextPageId.toNat = tx.workingCatalog.nextPageId.toNat + 1)
    (hpage : HeapPage pageId page [row]) :
    Laid (withStaged { tx with workingCatalog := c } pageId page, d)
      (before ++ ⟨pageIds ++ [pageId], .heap (rows ++ [row])⟩ :: after) := by
  obtain ⟨hids, hallocated, -⟩ := h.holding
  have hgrow : ∀ i, tx.workingCatalog.Allocated i → c.Allocated i := by
    intro i hi
    rw [Catalog.Allocated, hnextPage]
    exact Nat.lt_succ_of_lt hi
  have hnew : c.Allocated pageId := by
    rw [Catalog.Allocated, hnextPage, hpageId]
    exact Nat.lt_succ_self _
  have hold : ¬ tx.workingCatalog.Allocated pageId := by
    rw [Catalog.Allocated, hpageId]
    exact Nat.lt_irrefl _
  have hkept : ∀ i, tx.workingCatalog.Allocated i → ∀ p, lawful.pages (tx, d) i = some p →
      lawful.pages (withStaged { tx with workingCatalog := c } pageId page, d) i = some p := by
    intro i hi p hp
    rw [pages_withStaged_of_ne]
    · exact pages_withCatalog hp (hgrow i)
    · rintro rfl
      exact hold hi
  refine ⟨h.faultFree, h.file, h.active, stagedValid_insert h.staged hpage.validAs, ?_, ?_⟩
  · refine stagedAllocated_insert ?_ hnew
    exact fun i p hp => hgrow i (h.stagedAllocated i p hp)
  · refine h.layout.replace hlength hrelations hrelations' hnext rfl rfl
      (Occupies.table (List.append_ne_nil_of_right_ne_nil _ (List.cons_ne_nil _ _)) ?_) ?_ ?_ hgrow ?_
    · refine (hheap.mono fun i hi => hkept i (hallocated i hi)).append ?_
      exact ⟨page, [row], [], pages_withStaged_self hnew, hpage, rfl, rfl⟩
    · refine List.nodup_append.2 ⟨hids, List.nodup_singleton _, ?_⟩
      rintro i hi j hj rfl
      rw [List.mem_singleton.1 hj] at hi
      exact hold (hallocated _ hi)
    · intro i hi
      rcases List.mem_append.1 hi with hi | hi
      · exact ⟨Or.inl hi, hgrow i (hallocated i hi)⟩
      · rw [List.mem_singleton.1 hi]
        exact ⟨Or.inr hold, hnew⟩
    · exact fun i hi _ => hkept i hi

end Table

theorem insertNew_eq_ok {bytes : List UInt8} {slotId : SlotId}
    (h : Exec.toExcept (Page.insertRecord bytes) (Page.new pageId .heap) = .ok (slotId, page)) :
    HeapPage pageId page [⟨⟨pageId, slotId⟩, bytes⟩] := by
  rw [Exec.toExcept_eq_ok] at h
  rcases (heapPage_new pageId).insertRecord bytes with ⟨message, hfail⟩ |
    ⟨slotId', q, rows', hok, hq, hperm⟩
  · rw [hfail] at h
    cases h
  · rw [hok] at h
    cases h
    rwa [← List.perm_singleton.1 hperm]

/-- An insert adds its row to the heap of the relation. -/
theorem insertRow_ensures (h : Settled (tx, d) held) (relationId : RelationId) (bytes : List UInt8) :
    Exec.Ensures (insertRow relationId bytes) (tx, d) Stop.IsUser fun rowId t =>
      ∃ held' ids ids' rows rows', Settled t held' ∧
        Changed relationId ⟨ids, .heap rows⟩ ⟨ids', .heap rows'⟩ tx.workingCatalog held
          t.1.workingCatalog held' ∧ rows'.Perm (⟨rowId, bytes⟩ :: rows) := by
  refine Exec.Ensures.bind (ensureActive_ensures h.active ?_)
  refine Exec.Ensures.bind (current_ensures ?_)
  refine Exec.Ensures.bind
    (Catalog.ensures_check (Catalog.ensureHeapRelation_onlyUser _ _) fun _ hheap => ?_)
  obtain ⟨relation, hfind, hkind⟩ := Catalog.ensureHeapRelation_eq_ok hheap
  obtain ⟨hid, front, back, before, holding, after, hrelations, rfl, hlength, hoccupies, hfront⟩ :=
    h.layout.find hfind
  cases hoccupies with
  | index tree => cases hkind
  | @table id name columns pageIds rows hne heap =>
      refine Exec.Ensures.bind (Exec.Ensures.of_ok (t := (tx, d)) (a := pageIds) ?_ ?_)
      · rw [Catalog.heapPages_of_relation hfind]
        rfl
      refine Exec.Ensures.bind ((insertIntoPages_ensures h.toLaid heap h.holding.1).imp ?_)
      rintro placed t ⟨e, hreads, hplaced⟩
      cases placed with
      | some rowId =>
          obtain ⟨page, rows', rfl, hrow⟩ := hplaced
          have hlaid := (h.place hlength hrelations hne hrow).reads hreads
          have hsaved : Saved (tx.withStaged rowId.pageId page, e) := by
            refine (h.saved.stage ?_).reads hreads
            intro heq
            exact h.holding.2.2 (heq ▸ hrow.mem)
          exact Exec.Ensures.pure ⟨_, pageIds, pageIds, rows, rows', ⟨hlaid, hsaved⟩,
            Changed.mk hid hlength hrelations hrelations rfl rfl, hrow.perm⟩
      | none =>
          obtain rfl := hplaced
          refine Exec.Ensures.bind ((onCatalog_ensures Catalog.allocatePageId_ensures).imp ?_)
          rintro pageId t ⟨c, ⟨rfl, rfl, hnext⟩, rfl⟩
          refine Exec.Ensures.bind
            (Catalog.ensures_check (Page.insertRecord_new_onlyUser _ _ _) fun placed hinsert => ?_)
          obtain ⟨slotId, page⟩ := placed
          have happend := Catalog.appendHeapPage_of_split (c := { tx.workingCatalog with
            nextPageId := tx.workingCatalog.nextPageId + 1 }) ⟨tx.workingCatalog.nextPageId⟩
            hrelations hid hfront rfl rfl
          have hrestored := Catalog.setStorage_restored (c := { tx.workingCatalog with
            nextPageId := tx.workingCatalog.nextPageId + 1 }) hrelations hid hfront
            (.heap (pageIds ++ [⟨tx.workingCatalog.nextPageId⟩]))
          refine Exec.Ensures.bind ((onCatalog_ensures (Q := fun _ c => Catalog.Restored _ front _ back _ c)
            (Exec.Ensures.of_ok happend hrestored)).imp ?_)
          rintro ⟨⟩ t ⟨c, hrestored, rfl⟩
          have hlaid := (h.grow heap hlength hrelations hrestored.relations hrestored.nextRelationId
            rfl (hrestored.nextPageId ▸ hnext) (insertNew_eq_ok hinsert)).reads hreads
          refine Exec.Ensures.bind (stage_ensures ?_)
          refine Exec.Ensures.bind ((markCatalogDirty_ensures hlaid).imp ?_)
          rintro ⟨⟩ t ⟨ht, hcatalog⟩
          refine Exec.Ensures.pure ⟨_, pageIds, pageIds ++ [⟨tx.workingCatalog.nextPageId⟩], rows,
            rows ++ [⟨⟨⟨tx.workingCatalog.nextPageId⟩, slotId⟩, bytes⟩], ht, ?_,
            List.perm_append_singleton _ _⟩
          rw [hcatalog]
          exact Changed.mk hid hlength hrelations hrestored.relations rfl hrestored.extensions

/-- A scan gives the rows of the heap. -/
theorem Laid.fullScan (h : Laid (tx, d) held) {relationId : RelationId} {pageIds : List PageId}
    {rows : List HeapRow}
    (htable : TableAt (lawful.pages (tx, d)) tx.workingCatalog held relationId pageIds rows) :
    ∃ e, Transaction.fullScan relationId (tx, d) = (.ok rows, (tx, e)) ∧ OnlyReads d e := by
  have hload : ∀ {t : Transaction FileId × Disk} {pageId : PageId} {page : Page},
      (∃ e, t = (tx, e) ∧ OnlyReads d e) → lawful.pages (tx, d) pageId = some page →
      ∃ t', loadPage pageId t = (.ok page, t') ∧ ∃ e, t' = (tx, e) ∧ OnlyReads d e := by
    rintro _ pageId page ⟨e, rfl, hreads⟩ hpage
    rw [← pages_of_reads hreads] at hpage
    obtain ⟨e', hload, hreads'⟩ := loadPage_of_visible (s := (tx, e))
      (hreads.faultFree h.faultFree) h.file (Catalog.only_eq_some.1 hpage).2
    exact ⟨(tx, e'), hload, e', rfl, hreads.trans hreads'⟩
  obtain ⟨t, hscan, e, rfl, hreads⟩ := htable.heap.scanHeap hload ⟨d, rfl, OnlyReads.refl d⟩
  refine ⟨e, ?_, hreads⟩
  simp only [Transaction.fullScan, Exec.bind_apply, ensureActive_of_active h.active, current_apply,
    Exec.liftM_apply, htable.ensured, htable.heapPages, hscan]

theorem fullScan_ensures (h : Laid (tx, d) held) (relationId : RelationId) :
    Exec.Ensures (fullScan relationId) (tx, d) Stop.IsUser fun rows t => ∃ e pageIds, t = (tx, e) ∧
      OnlyReads d e ∧
      TableAt (lawful.pages (tx, d)) tx.workingCatalog held relationId pageIds rows := by
  by_cases hok : tx.workingCatalog.ensureHeapRelation relationId = .ok ()
  · obtain ⟨relation, hfind, hkind⟩ := Catalog.ensureHeapRelation_eq_ok hok
    obtain rfl : relation.id = relationId := by simpa using List.find?_some hfind
    obtain ⟨pageIds, rows, htable⟩ := h.layout.table (List.mem_of_find?_eq_some hfind) hkind
    obtain ⟨e, hscan, hreads⟩ := h.fullScan htable
    exact Exec.Ensures.of_ok hscan ⟨e, pageIds, rfl, hreads, htable⟩
  · refine Exec.Ensures.bind (ensureActive_ensures h.active ?_)
    refine Exec.Ensures.bind (current_ensures ?_)
    exact Exec.Ensures.bind
      (Catalog.ensures_check (Catalog.ensureHeapRelation_onlyUser _ _) fun _ hheap => (hok hheap).elim)

/-! ## Index entries -/

/-- The relations of the working catalog are as they were. -/
def SameRelations (s t : Transaction FileId × Disk) : Prop :=
  s.1.workingCatalog.SameRelations t.1.workingCatalog

instance : IsPreorder (Transaction FileId × Disk) SameRelations where
  refl s := refl_of Catalog.SameRelations s.1.workingCatalog
  trans _ _ _ h h' := trans_of Catalog.SameRelations h h'

theorem accessesPreserve_sameRelations :
    AccessesPreserve (S := Transaction FileId × Disk) SameRelations where
  load pageId := by
    intro s
    have htx := loadPage_eq_tx (Prod.mk.eta (p := loadPage pageId s)).symm
    change SameRelations s (loadPage pageId s).2
    rw [SameRelations, htx]
    exact refl_of Catalog.SameRelations s.1.workingCatalog
  store _ := Exec.Preserves.bind (Exec.Preserves.liftM _) fun _ s =>
    refl_of Catalog.SameRelations s.1.workingCatalog
  allocate := fun s => Catalog.allocatePageId_sameRelations s.1.workingCatalog

theorem Laid.good (h : Laid s held) : lawful.Good s := ⟨h.faultFree, h.file, h.stagedAllocated⟩

/-- The tree of an index has been replaced. -/
theorem Laid.reindex {front back : List RelationInfo} {before after : List Holding}
    {id : RelationId} {name : String} {columns : List ColumnDef} {storage : IndexStorage}
    {ids ids' : List PageId} {entries entries' : List IndexEntry} {newRoot : PageId} {c : Catalog}
    (h : Laid s (before ++ ⟨ids, .tree entries⟩ :: after)) (hlength : front.length = before.length)
    (hrelations : s.1.workingCatalog.relations =
      front ++ ⟨id, name, .index, .bPlusTree storage, columns⟩ :: back)
    (hstaging : Staging s t) (hsame : SameRelations s t) (hreplaced : Replaced lawful s t ids ids')
    (htree : IndexTree lawful t newRoot entries' ids')
    (hrelations' : c.relations =
      front ++ ⟨id, name, .index, .bPlusTree { storage with rootPageId := newRoot }, columns⟩ :: back)
    (hnext : c.nextRelationId = t.1.workingCatalog.nextRelationId)
    (hnextPage : c.nextPageId = t.1.workingCatalog.nextPageId) :
    Laid ({ t.1 with workingCatalog := c }, t.2) (before ++ ⟨ids', .tree entries'⟩ :: after) := by
  obtain ⟨hfaultFree, hfile, hstaged⟩ := hreplaced.keeps.good
  have hsameAllocated : ∀ i, c.Allocated i ↔ t.1.workingCatalog.Allocated i := by
    intro i
    rw [Catalog.Allocated, hnextPage, Catalog.Allocated]
  have hpages : ∀ i p, lawful.pages t i = some p →
      lawful.pages ({ t.1 with workingCatalog := c }, t.2) i = some p :=
    fun i p hp => pages_withCatalog hp (hsameAllocated i).2
  refine ⟨hfaultFree, hfile, hstaging.state.trans h.active, hstaging.staged h.staged, ?_, ?_⟩
  · exact fun i p hp => (hsameAllocated i).2 (hstaged i p hp)
  · refine h.layout.replace hlength hrelations hrelations' (hnext.trans hsame.nextRelationId) rfl rfl
      (Occupies.index (TreeIn.mono htree.tree fun i _ => hpages i)) hreplaced.nodup ?_ ?_ ?_
    · exact fun i hi => ⟨hreplaced.fresh i hi, (hsameAllocated i).2 (hreplaced.used i hi)⟩
    · exact fun i hi => (hsameAllocated i).2 (hreplaced.keeps.used i hi)
    · exact fun i _ hi p hp => hpages i p (hreplaced.keeps.pages i p hi hp)

/-- The index that an id names, as the catalog and the layout know it. -/
theorem Laid.index (h : Laid (tx, d) held) {indexRelationId : RelationId} {root : PageId}
    (hroot : tx.workingCatalog.indexRoot indexRelationId = .ok root) :
    ∃ front back before after name columns storage ids entries,
      tx.workingCatalog.relations =
        front ++ ⟨indexRelationId, name, .index, .bPlusTree storage, columns⟩ :: back ∧
      held = before ++ ⟨ids, .tree entries⟩ :: after ∧ front.length = before.length ∧
      storage.rootPageId = root ∧ IndexTree lawful (tx, d) root entries ids ∧
      ∀ r ∈ front, (r.id == indexRelationId) = false := by
  obtain ⟨storage, hstorage, rfl⟩ := Option.map_eq_some_iff.1 (DbResult.okOr_eq_ok hroot)
  obtain ⟨relation, hfind, hindex⟩ := Option.bind_eq_some_iff.1 hstorage
  obtain ⟨hid, front, back, before, holding, after, hrelations, rfl, hlength, hoccupies, hfront⟩ :=
    h.layout.find hfind
  cases hoccupies with
  | table hne heap => cases hindex
  | @index id name columns storage' ids entries tree =>
      cases hindex
      obtain rfl := hid
      exact ⟨front, back, before, after, name, columns, storage, ids, entries, hrelations, rfl, hlength,
        rfl, ⟨tree, h.holding.1, h.holding.2.1⟩, hfront⟩

/-- An insert adds its entry to the tree of the index. It fails with a user error when
it may take enough steps. -/
theorem insertIndexEntry_ensures (h : Laid (tx, d) held) (fuel : Nat)
    (indexRelationId : RelationId) (key : IndexKey) (rowId : RowId) :
    Exec.Ensures (insertIndexEntry fuel indexRelationId key rowId) (tx, d)
      (fun stop => 2 ^ 64 ≤ fuel → stop.IsUser) fun _ t =>
      ∃ held' ids ids' entries entries', Settled t held' ∧
        Changed indexRelationId ⟨ids, .tree entries⟩ ⟨ids', .tree entries'⟩ tx.workingCatalog held
          t.1.workingCatalog held' ∧ entries'.Perm (⟨key, rowId⟩ :: entries) := by
  have huser : ∀ stop : Stop, stop.IsUser → 2 ^ 64 ≤ fuel → stop.IsUser := fun _ hstop _ => hstop
  refine Exec.Ensures.bind ((ensureActive_ensures h.active ?_).weaken huser)
  refine Exec.Ensures.bind ((current_ensures ?_).weaken huser)
  refine Exec.Ensures.bind
    ((Catalog.ensures_check (DbResult.onlyUser_okOr _ _) fun root hroot => ?_).weaken huser)
  obtain ⟨front, back, before, after, name, columns, storage, ids, entries, hrelations, rfl, hlength,
    rfl, htree, hfront⟩ := h.index hroot
  have hinsert : Exec.Ensures (insert fuel storage.rootPageId key rowId) (tx, d)
      (fun stop => 2 ^ 64 ≤ fuel → stop.IsUser) fun newRoot t => ∃ entries' ids',
        IndexTree lawful t newRoot entries' ids' ∧ entries'.Perm (⟨key, rowId⟩ :: entries) ∧
        Replaced lawful (tx, d) t ids ids' := by
    rcases hrun : insert fuel storage.rootPageId key rowId (tx, d) with ⟨stop | newRoot, t⟩
    · refine Exec.Ensures.of_error hrun fun hfuel => ?_
      have hlength : ids.length ≤ tx.workingCatalog.nextPageId.toNat :=
        Catalog.length_le_of_allocated htree.nodup htree.used
      have hsteps : ids.length ≤ fuel :=
        hlength.trans (tx.workingCatalog.nextPageId.toNat_lt.le.trans hfuel)
      exact (insert_ensures failsUser htree h.good hsteps key rowId).error hrun
    · exact Exec.Ensures.of_ok hrun (insert_tree htree h.good hrun)
  refine Exec.Ensures.bind (((hinsert.and_rel (insert_preserves accessesPreserve_staging _ _ _ _)).and_rel
    (insert_preserves accessesPreserve_sameRelations _ _ _ _)).imp ?_)
  rintro newRoot ⟨tx', e⟩ ⟨⟨⟨entries', ids', htree', hperm, hreplaced⟩, hstaging⟩, hsame⟩
  have hrelations' : tx'.workingCatalog.relations =
      front ++ ⟨indexRelationId, name, .index, .bPlusTree storage, columns⟩ :: back :=
    hsame.relations.trans hrelations
  split
  · -- The root has been split, and the catalog records the new one.
    have hset := Catalog.setIndexRootPage_of_split newRoot hrelations' rfl hfront rfl rfl
    have hrestored := Catalog.setStorage_restored hrelations' rfl hfront
      (.bPlusTree { storage with rootPageId := newRoot })
    refine Exec.Ensures.bind (((onCatalog_ensures
      (Q := fun _ c => Catalog.Restored tx'.workingCatalog front _ back _ c)
      (Exec.Ensures.of_ok hset hrestored)).imp ?_).weaken huser)
    rintro ⟨⟩ t ⟨c, hrestored, rfl⟩
    have hlaid := h.reindex hlength hrelations hstaging hsame hreplaced htree' hrestored.relations
      hrestored.nextRelationId hrestored.nextPageId
    refine ((markCatalogDirty_ensures hlaid).imp ?_).weaken huser
    rintro ⟨⟩ t ⟨ht, hcatalog⟩
    refine ⟨_, ids, ids', entries, entries', ht, ?_, hperm⟩
    rw [hcatalog]
    exact Changed.mk rfl hlength hrelations hrestored.relations rfl
      (hrestored.extensions.trans hsame.extensions)
  · rename_i hroot'
    obtain rfl := not_not.1 hroot'
    have hlaid := h.reindex hlength hrelations hstaging hsame hreplaced htree' hrelations' rfl rfl
    refine ((markCatalogDirty_ensures hlaid).imp ?_).weaken huser
    rintro ⟨⟩ t ⟨ht, hcatalog⟩
    refine ⟨_, ids, ids', entries, entries', ht, ?_, hperm⟩
    rw [hcatalog]
    exact Changed.mk rfl hlength hrelations hrelations' rfl hsame.extensions

end Transaction

end Rdbms
