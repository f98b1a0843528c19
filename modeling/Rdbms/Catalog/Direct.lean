import Rdbms.Catalog.Calls
import Rdbms.Tx.View

/-!
# The catalog store on its own

The calls of the catalog store that write pages as they go. A call that fails leaves
the catalog and the data file as they were if it fails before it has changed the
catalog; the checks that come later (does the record fit a fresh page, does the page
fit the file, does the catalog fit its page) decide when it does not.
-/

namespace Rdbms

open Library Disk ByteFile

/-! ## Requests -/

namespace Catalog

variable {c : Catalog} {name : String} {columns : List ColumnDef}

/-- A request for a table that passes the checks and gets a relation id. -/
structure Creatable (c : Catalog) (name : String) (columns : List ColumnDef) : Prop where
  validName : validateName "relation" name = .ok ()
  validColumns : validateColumns columns = .ok ()
  new : ¬ (c.relationByName name).isSome
  ids : c.nextRelationId.toNat + 1 < 2 ^ 64

/-- The catalog with one more table. -/
def withTable (c : Catalog) (name : String) (columns : List ColumnDef) : Catalog where
  nextRelationId := c.nextRelationId + 1
  nextPageId := c.nextPageId + 1
  relations := c.relations ++
    [⟨⟨c.nextRelationId⟩, name, .table, .heap [⟨c.nextPageId⟩], columns⟩]
  extensions := c.extensions

theorem allocatePageId_of_room (h : c.nextPageId.toNat + 1 < 2 ^ 64) :
    allocatePageId c = (.ok ⟨c.nextPageId⟩, { c with nextPageId := c.nextPageId + 1 }) := by
  simp only [allocatePageId, Exec.bind_apply, Exec.get_apply, Exec.liftM_apply,
    failIf_of_not (not_le.2 h), Exec.modify_apply, Exec.pure_apply]

theorem allocatePageId_of_full (h : ¬ c.nextPageId.toNat + 1 < 2 ^ 64) :
    allocatePageId c = (DbResult.user "page id overflow", c) := by
  simp only [allocatePageId, Exec.bind_apply, Exec.get_apply, Exec.liftM_apply,
    failIf_of (not_lt.1 h)]

/-- The new table fits: its page has a place in the file, and the catalog has room for it. -/
def TableFits (c : Catalog) (name : String) (columns : List ColumnDef) : Prop :=
  Fits c.nextPageId.toNat ∧ ∃ page, (c.withTable name columns).toPage = .ok page

theorem createTableMetadata_eq (h : c.Creatable name columns) :
    createTableMetadata name columns c =
      if c.nextPageId.toNat + 1 < 2 ^ 64 then
        (.ok (⟨c.nextRelationId⟩, ⟨c.nextPageId⟩), c.withTable name columns)
      else (DbResult.user "page id overflow", { c with nextRelationId := c.nextRelationId + 1 }) := by
  have hids : ¬ c.nextRelationId.toNat + 1 ≥ 2 ^ 64 := not_le.2 h.ids
  simp only [createTableMetadata, allocateRelationId, allocatePageId, Exec.bind_apply,
    Exec.liftM_apply, Exec.get_apply, Exec.modify_apply, Exec.pure_apply, h.validName, h.validColumns,
    failIf_of_not h.new, failIf_of_not hids]
  by_cases hroom : c.nextPageId.toNat + 1 < 2 ^ 64
  · rw [if_pos hroom, failIf_of_not (not_le.2 hroom)]
    rfl
  · rw [if_neg hroom, failIf_of (not_lt.1 hroom)]

/-- A request that does not pass changes nothing. -/
theorem createTableMetadata_of_not (h : ¬ c.Creatable name columns) :
    ∃ stop, createTableMetadata name columns c = (.error stop, c) := by
  rcases hname : validateName "relation" name with stop | ⟨⟩
  · exact ⟨stop, Exec.bind_of_error (by rw [Exec.liftM_apply, hname])⟩
  rcases hcolumns : validateColumns columns with stop | ⟨⟩
  · exact ⟨stop, by simp only [createTableMetadata, Exec.bind_apply, Exec.liftM_apply, hname, hcolumns]⟩
  by_cases hnew : (c.relationByName name).isSome
  · exact ⟨_, by simp only [createTableMetadata, Exec.bind_apply, Exec.liftM_apply, Exec.get_apply,
      hname, hcolumns, failIf_of hnew]; rfl⟩
  · have hfull : c.nextRelationId.toNat + 1 ≥ 2 ^ 64 := by
      by_contra hids
      exact h ⟨hname, hcolumns, hnew, not_le.1 hids⟩
    exact ⟨_, by simp only [createTableMetadata, allocateRelationId, Exec.bind_apply, Exec.liftM_apply,
      Exec.get_apply, hname, hcolumns, failIf_of_not hnew, failIf_of hfull]; rfl⟩

end Catalog

namespace CatalogStore

/-- A call that fails leaves the catalog and every byte of the data file as they were. -/
def AtomicOnError {α : Type} (m : Db (CatalogStore FileId × Disk) α)
    (s : CatalogStore FileId × Disk) : Prop :=
  ∀ stop t, m s = (.error stop, t) → t.1.catalog = s.1.catalog ∧ t.2.data = s.2.data

section Calls

variable {α : Type} {store : CatalogStore FileId} {d e : Disk} {name : String}
  {columns : List ColumnDef}

theorem onCatalog_of_eq {m : Db Catalog α} {r : DbResult α} {c : Catalog}
    (h : m store.catalog = (r, c)) :
    onCatalog m (store, d) = (r, ({ store with catalog := c }, d)) := by
  rw [onCatalog, Exec.zoom_apply, h]

theorem onPageFile_of_eq {m : PageFile FileId → Db Disk α} {r : DbResult α}
    (h : m store.pageFile d = (r, e)) : onPageFile m (store, d) = (r, (store, e)) := by
  simp only [onPageFile, Exec.bind_apply, Exec.get_apply, Exec.onRight_apply, h]

/-- A page that fits the file is written. -/
theorem onPageFile_writePage {page : Page} {pageId : PageId} (hfile : store.pageFile = dataFile)
    (hd : FaultFree d) (hpage : page.ValidAs pageId) (hfits : Fits pageId.val.toNat) :
    onPageFile (fun pageFile => pageFile.writePage page) (store, d) =
      (.ok (), (store, d.withPage page)) := by
  refine onPageFile_of_eq ?_
  rw [hfile]
  exact writePage_of_faultFree dataFile_file hd hpage (by rwa [hpage.number])

/-- A page that does not fit the file is not written. -/
theorem onPageFile_writePage_of_not_fits {page : Page} {pageId : PageId}
    (hfile : store.pageFile = dataFile) (hd : FaultFree d) (hpage : page.ValidAs pageId)
    (hfits : ¬ Fits pageId.val.toNat) : ∃ stop e,
    onPageFile (fun pageFile => pageFile.writePage page) (store, d) = (.error stop, (store, e)) := by
  rcases writePage_crashOnly dataFile_file hd.crashOnly ⟨pageId, hpage⟩ with
    ⟨hfits', -⟩ | ⟨stop, e, he, -⟩
  · rw [hpage.number] at hfits'
    exact absurd hfits' hfits
  · refine ⟨stop, e, onPageFile_of_eq ?_⟩
    rw [hfile]
    exact he

theorem saveCatalog_of_ok {page : Page} (hfile : store.pageFile = dataFile) (hd : FaultFree d)
    (h : store.catalog.toPage = .ok page) :
    saveCatalog (store, d) = (.ok (), (store, d.withPage page)) := by
  have hvalid := Catalog.toPage_validAs h
  have hfits : Fits page.number := by
    rw [hvalid.number]
    exact fits_of_lt (by decide)
  simp only [saveCatalog, Catalog.save, Exec.bind_apply, Exec.get_apply, Exec.onRight_apply, h,
    Exec.liftM_apply, hfile, writePage_of_faultFree dataFile_file hd hvalid hfits]

theorem saveCatalog_of_error {stop : Stop} (h : store.catalog.toPage = .error stop) :
    saveCatalog (store, d) = (.error stop, (store, d)) := by
  simp only [saveCatalog, Catalog.save, Exec.bind_apply, Exec.get_apply, Exec.onRight_apply, h,
    Exec.liftM_apply]

theorem ne_succ (n : UInt64) : n + 1 ≠ n := by
  intro h
  have hnat := congrArg UInt64.toNat h
  have hlt := n.toNat_lt
  rw [UInt64.toNat_add, UInt64.toNat_one] at hnat
  omega

theorem room_of_fits {n : Nat} (h : Fits n) : n + 1 < 2 ^ 64 := by
  rw [Fits] at h
  omega

theorem faultFree_withPage (hd : FaultFree d) (page : Page) : FaultFree (d.withPage page) :=
  fun n => hd n

theorem newPage_validAs (pageId : PageId) : (Page.new pageId .heap).ValidAs pageId :=
  ⟨_, Page.new_valid _ _, rfl⟩

/-- What is left to do once the catalog has the table. -/
theorem createTable_of_metadata {relationId : RelationId} {pageId : PageId} {c : Catalog}
    (h : Catalog.createTableMetadata name columns store.catalog = (.ok (relationId, pageId), c)) :
    createTable name columns (store, d) = (do
      onPageFile fun pageFile => pageFile.writePage (Page.new pageId .heap)
      saveCatalog
      return relationId : Db (CatalogStore FileId × Disk) RelationId)
      ({ store with catalog := c }, d) := by
  rw [createTable, Exec.bind_of_ok (onCatalog_of_eq h)]

/-- A table that passes the checks and fits is created. -/
theorem createTable_of_fits (hfile : store.pageFile = dataFile) (hd : FaultFree d)
    (hpass : store.catalog.Creatable name columns) {page : Page}
    (hfits : Fits store.catalog.nextPageId.toNat)
    (hpage : (store.catalog.withTable name columns).toPage = .ok page) :
    createTable name columns (store, d) = (.ok ⟨store.catalog.nextRelationId⟩,
      ({ store with catalog := store.catalog.withTable name columns },
        (d.withPage (Page.new ⟨store.catalog.nextPageId⟩ .heap)).withPage page)) := by
  have hmetadata := Catalog.createTableMetadata_eq hpass
  rw [if_pos (room_of_fits hfits)] at hmetadata
  have hwrite := @onPageFile_writePage { store with catalog := store.catalog.withTable name columns } d
    _ _ hfile hd (newPage_validAs ⟨store.catalog.nextPageId⟩) hfits
  have hsave := @saveCatalog_of_ok { store with catalog := store.catalog.withTable name columns }
    (d.withPage (Page.new ⟨store.catalog.nextPageId⟩ .heap)) page hfile (faultFree_withPage hd _) hpage
  rw [createTable_of_metadata hmetadata, Exec.bind_of_ok hwrite,
    Exec.bind_of_ok hsave]
  rfl

/-- A table that passes the checks and does not fit has counted up the relation id. -/
theorem createTable_of_not_fits (hfile : store.pageFile = dataFile) (hd : FaultFree d)
    (hpass : store.catalog.Creatable name columns) (hfit : ¬ store.catalog.TableFits name columns) :
    ∃ stop t, createTable name columns (store, d) = (.error stop, t) ∧
      t.1.catalog.nextRelationId = store.catalog.nextRelationId + 1 := by
  have hmetadata := Catalog.createTableMetadata_eq hpass
  by_cases hroom : store.catalog.nextPageId.toNat + 1 < 2 ^ 64
  swap
  · rw [if_neg hroom] at hmetadata
    exact ⟨_, _, Exec.bind_of_error (onCatalog_of_eq hmetadata), rfl⟩
  rw [if_pos hroom] at hmetadata
  have hvalid := newPage_validAs ⟨store.catalog.nextPageId⟩
  by_cases hfits : Fits store.catalog.nextPageId.toNat
  swap
  · obtain ⟨stop, e, hwrite⟩ := @onPageFile_writePage_of_not_fits
      { store with catalog := store.catalog.withTable name columns } d _ _ hfile hd hvalid hfits
    refine ⟨stop, ({ store with catalog := store.catalog.withTable name columns }, e), ?_, rfl⟩
    rw [createTable_of_metadata hmetadata, Exec.bind_of_error hwrite]
  have hwrite := @onPageFile_writePage { store with catalog := store.catalog.withTable name columns } d
    _ _ hfile hd hvalid hfits
  rcases hpage : (store.catalog.withTable name columns).toPage with stop | page
  · have hsave := @saveCatalog_of_error { store with catalog := store.catalog.withTable name columns }
      (d.withPage (Page.new ⟨store.catalog.nextPageId⟩ .heap)) stop hpage
    refine ⟨stop, ({ store with catalog := store.catalog.withTable name columns },
      d.withPage (Page.new ⟨store.catalog.nextPageId⟩ .heap)), ?_, rfl⟩
    rw [createTable_of_metadata hmetadata, Exec.bind_of_ok hwrite,
      Exec.bind_of_error hsave]
  · exact absurd ⟨hfits, page, hpage⟩ hfit

/-- A request for a table fails without a trace exactly if it does not pass the checks, or
the table fits. -/
theorem createTable_atomic_iff (hfile : store.pageFile = dataFile) (hd : FaultFree d) :
    AtomicOnError (createTable name columns) (store, d) ↔
      (store.catalog.Creatable name columns → store.catalog.TableFits name columns) := by
  constructor
  · intro hatomic hpass
    by_contra hfit
    obtain ⟨stop, t, hrun, hchanged⟩ := createTable_of_not_fits hfile hd hpass hfit
    rw [(hatomic stop t hrun).1] at hchanged
    exact ne_succ _ hchanged.symm
  · intro hfit stop t hrun
    by_cases hpass : store.catalog.Creatable name columns
    · obtain ⟨hfits, page, hpage⟩ := hfit hpass
      rw [createTable_of_fits hfile hd hpass hfits hpage] at hrun
      cases hrun
    · obtain ⟨stop', hmetadata⟩ := Catalog.createTableMetadata_of_not hpass
      rw [createTable, Exec.bind_of_error (onCatalog_of_eq hmetadata)] at hrun
      cases hrun
      exact ⟨rfl, rfl⟩

/-! ## Rows -/

/-- The page has no room for the record. -/
def Refuses (page : Page) (bytes : List UInt8) : Prop :=
  ∃ message page', Page.insertRecord bytes page = (DbResult.user message, page')

/-- Every one of the pages can be read and has no room for the record. -/
def AllRefuse (d : Disk) (bytes : List UInt8) (pageIds : List PageId) : Prop :=
  ∀ id ∈ pageIds, ∃ page, d.storedPage id = some page ∧ Refuses page bytes

theorem readPage_cases (hd : FaultFree d) (pageId : PageId) :
    (∃ page e, dataFile.readPage pageId d = (.ok page, e) ∧ d.storedPage pageId = some page ∧
      OnlyReads d e) ∨
    (∃ stop e, dataFile.readPage pageId d = (.error stop, e) ∧ d.storedPage pageId = none ∧
      OnlyReads d e) := by
  have hreads := readPage_onlyReads dataFile pageId d
  rcases hread : dataFile.readPage pageId d with ⟨stop | page, e⟩
  · rw [hread] at hreads
    refine Or.inr ⟨stop, e, rfl, ?_, hreads⟩
    cases hstored : d.storedPage pageId with
    | none => rfl
    | some page =>
        obtain ⟨e', hok, -⟩ := readPage_of_stored hd hstored
        rw [hread] at hok
        cases hok
  · rw [hread] at hreads
    exact Or.inl ⟨page, e, rfl,
      storedPage_eq_some.2 ⟨holds_of_readPage dataFile_file hread, readPage_eq_ok hread⟩, hreads⟩

theorem fits_of_stored {pageId : PageId} {page : Page} (h : d.storedPage pageId = some page) :
    Fits pageId.val.toNat :=
  fits_of_end_lt ((storedPage_eq_some.1 h).1.length_le.trans_lt d.data.length_lt)

/-- The row goes into a page and is written, or no page has room for it, or a page cannot
be read. -/
theorem insertIntoPages_cases (bytes : List UInt8) (pageIds : List PageId) : ∀ {d : Disk},
    FaultFree d →
    (∃ rowId e, insertIntoPages bytes dataFile pageIds d = (.ok (some rowId), e) ∧
      ¬ AllRefuse d bytes pageIds) ∨
    (∃ e, insertIntoPages bytes dataFile pageIds d = (.ok none, e) ∧ AllRefuse d bytes pageIds ∧
      OnlyReads d e) ∨
    (∃ stop e, insertIntoPages bytes dataFile pageIds d = (.error stop, e) ∧
      ¬ AllRefuse d bytes pageIds ∧ e.data = d.data) := by
  induction pageIds with
  | nil => exact fun {d} _ => Or.inr (Or.inl ⟨d, rfl, nofun, OnlyReads.refl d⟩)
  | cons pageId pageIds ih =>
      intro d hd
      rcases readPage_cases hd pageId with ⟨page, e, hread, hstored, hreads⟩ |
        ⟨stop, e, hread, hstored, hreads⟩
      swap
      · refine Or.inr (Or.inr ⟨stop, e, Exec.bind_of_error hread, fun h => ?_, hreads.files.data⟩)
        obtain ⟨page, hpage, -⟩ := h pageId List.mem_cons_self
        rw [hstored] at hpage
        cases hpage
      obtain ⟨hholds, header, hvalid, hid⟩ := storedPage_eq_some.1 hstored
      have he : FaultFree e := hreads.faultFree hd
      rcases Page.insertRecord_spec hvalid bytes with ⟨message, hfail⟩ | ⟨i, q, k, hok, hins⟩
      · -- The page is full; the rest of the pages decides.
        have hrun : insertIntoPages bytes dataFile (pageId :: pageIds) d =
            insertIntoPages bytes dataFile pageIds e := by
          rw [insertIntoPages, Exec.bind_of_ok hread, hfail]
        have hall : AllRefuse d bytes (pageId :: pageIds) ↔ AllRefuse e bytes pageIds := by
          simp only [AllRefuse, List.forall_mem_cons, hreads.storedPage]
          exact ⟨fun h => h.2, fun h => ⟨⟨page, hstored, message, page, hfail⟩, h⟩⟩
        rw [hrun, hall]
        rcases ih he with ⟨rowId, e', hrest, hnot⟩ | ⟨e', hrest, hrefuse, hreads'⟩ |
          ⟨stop, e', hrest, hnot, hdata⟩
        · exact Or.inl ⟨rowId, e', hrest, hnot⟩
        · exact Or.inr (Or.inl ⟨e', hrest, hrefuse, hreads.trans hreads'⟩)
        · exact Or.inr (Or.inr ⟨stop, e', hrest, hnot, hdata.trans hreads.files.data⟩)
      · -- The page takes the row and is written back.
        have hvalid' : q.ValidAs pageId := ⟨k, hins.valid, hins.pageId.trans hid⟩
        have hwrite := writePage_of_faultFree dataFile_file he hvalid' (by
          rw [hvalid'.number]
          exact fits_of_stored hstored)
        refine Or.inl ⟨⟨pageId, ⟨i⟩⟩, e.withPage q, ?_, fun h => ?_⟩
        · rw [insertIntoPages, Exec.bind_of_ok hread, hok]
          exact Exec.bind_of_ok hwrite
        · obtain ⟨page', hpage', message, page'', hrefuse⟩ := h pageId List.mem_cons_self
          rw [hstored] at hpage'
          cases hpage'
          rw [hok] at hrefuse
          cases hrefuse

/-- The row needs a page of its own: the relation is a table, none of its pages has room,
and there is a page id left. -/
structure NeedsPage (c : Catalog) (d : Disk) (relationId : RelationId) (bytes : List UInt8) :
    Prop where
  table : c.ensureHeapRelation relationId = .ok ()
  refused : ∀ pageIds, c.heapPages relationId = .ok pageIds → AllRefuse d bytes pageIds
  ids : c.nextPageId.toNat + 1 < 2 ^ 64

/-- The row fits a fresh page, the page has a place in the file, and the catalog has room for
its id. -/
def RowFits (c : Catalog) (relationId : RelationId) (bytes : List UInt8) : Prop :=
  bytes.length ≤ Page.maxRecord ∧ Fits c.nextPageId.toNat ∧
    ∃ c' page, Catalog.appendHeapPage relationId ⟨c.nextPageId⟩
      { c with nextPageId := c.nextPageId + 1 } = (.ok (), c') ∧ c'.toPage = .ok page

/-- What is left to do once the row has a page id of its own. -/
def addPage (relationId : RelationId) (bytes : List UInt8) (pageId : PageId) :
    Db (CatalogStore FileId × Disk) RowId := do
  let (slotId, page) ← Exec.toExcept (Page.insertRecord bytes) (Page.new pageId .heap)
  onPageFile fun pageFile => pageFile.writePage page
  onCatalog (Catalog.appendHeapPage relationId pageId)
  saveCatalog
  return ⟨pageId, slotId⟩

/-- The page id that has been handed out is not taken back. -/
def KeepsPageId (s t : CatalogStore FileId × Disk) : Prop :=
  t.1.catalog.nextPageId = s.1.catalog.nextPageId

instance : IsPreorder (CatalogStore FileId × Disk) KeepsPageId where
  refl _ := rfl
  trans _ _ _ h h' := h'.trans h

theorem appendHeapPage_nextPageId (relationId : RelationId) (pageId : PageId) :
    Exec.Preserves (fun c c' : Catalog => c'.nextPageId = c.nextPageId)
      (Catalog.appendHeapPage relationId pageId) := by
  have : IsPreorder Catalog fun c c' => c'.nextPageId = c.nextPageId :=
    { refl := fun _ => rfl
      trans := fun _ _ _ h h' => h'.trans h }
  refine Exec.Preserves.bind Exec.Preserves.get fun catalog => ?_
  refine Exec.Preserves.bind (Exec.Preserves.liftM _) fun relation => ?_
  refine Exec.Preserves.bind (Exec.Preserves.liftM _) fun _ => ?_
  cases relation.storage with
  | bPlusTree storage => exact Exec.Preserves.liftM _
  | heap pages => exact fun c => rfl

theorem addPage_keepsPageId (relationId : RelationId) (bytes : List UInt8) (pageId : PageId) :
    Exec.Preserves KeepsPageId (addPage relationId bytes pageId) := by
  refine Exec.Preserves.bind (Exec.Preserves.liftM _) fun placed => ?_
  refine Exec.Preserves.bind (fun s => rfl) fun _ => ?_
  refine Exec.Preserves.bind (fun s => appendHeapPage_nextPageId _ _ s.1.catalog) fun _ => ?_
  exact Exec.Preserves.bind (fun s => rfl) fun _ => Exec.Preserves.pure _

theorem addPage_of_insert {relationId : RelationId} {bytes : List UInt8} {pageId : PageId}
    {slotId : SlotId} {q : Page}
    (h : Page.insertRecord bytes (Page.new pageId .heap) = (.ok slotId, q)) :
    addPage relationId bytes pageId (store, d) = (do
      onPageFile fun pageFile => pageFile.writePage q
      onCatalog (Catalog.appendHeapPage relationId pageId)
      saveCatalog
      return ⟨pageId, slotId⟩ : Db (CatalogStore FileId × Disk) RowId) (store, d) := by
  have hlift : (liftM (Exec.toExcept (Page.insertRecord bytes) (Page.new pageId .heap)) :
      Db (CatalogStore FileId × Disk) (SlotId × Page)) (store, d) = (.ok (slotId, q), (store, d)) := by
    rw [Exec.liftM_apply, Exec.toExcept, h]
  rw [addPage, Exec.bind_of_ok hlift]

/-- A row that fits gets its page. -/
theorem addPage_of_fits {relationId : RelationId} {bytes : List UInt8} {pageId : PageId}
    {c : Catalog} {page : Page} (hfile : store.pageFile = dataFile) (hd : FaultFree d)
    (hlen : bytes.length ≤ Page.maxRecord) (hfits : Fits pageId.val.toNat)
    (happend : Catalog.appendHeapPage relationId pageId store.catalog = (.ok (), c))
    (hpage : c.toPage = .ok page) : ∃ q, q.ValidAs pageId ∧
      Page.insertRecord bytes (Page.new pageId .heap) = (.ok ⟨0⟩, q) ∧
      addPage relationId bytes pageId (store, d) = (.ok ⟨pageId, ⟨0⟩⟩,
        ({ store with catalog := c }, (d.withPage q).withPage page)) := by
  obtain ⟨q, hinsert, hsingle⟩ := Page.insertRecord_new_of_fits pageId .heap hlen
  obtain ⟨header, hvalid, hid, -⟩ := hsingle.valid
  have hq : q.ValidAs pageId := ⟨header, hvalid, hid⟩
  have hwrite := onPageFile_writePage hfile hd hq hfits
  have hsave := @saveCatalog_of_ok { store with catalog := c } (d.withPage q) page hfile
    (faultFree_withPage hd q) hpage
  refine ⟨q, hq, hinsert, ?_⟩
  rw [addPage_of_insert hinsert, Exec.bind_of_ok hwrite,
    Exec.bind_of_ok (onCatalog_of_eq happend), Exec.bind_of_ok hsave]
  rfl

/-- Only a row that fits gets its page. -/
theorem fits_of_addPage {relationId : RelationId} {bytes : List UInt8} {pageId : PageId}
    {rowId : RowId} {t : CatalogStore FileId × Disk} (hfile : store.pageFile = dataFile)
    (hd : FaultFree d) (h : addPage relationId bytes pageId (store, d) = (.ok rowId, t)) :
    bytes.length ≤ Page.maxRecord ∧ Fits pageId.val.toNat ∧
      ∃ c page, Catalog.appendHeapPage relationId pageId store.catalog = (.ok (), c) ∧
        c.toPage = .ok page := by
  rcases hinsert : Page.insertRecord bytes (Page.new pageId .heap) with ⟨stop | slotId, q⟩
  · have hlift : (liftM (Exec.toExcept (Page.insertRecord bytes) (Page.new pageId .heap)) :
        Db (CatalogStore FileId × Disk) (SlotId × Page)) (store, d) = (.error stop, (store, d)) := by
      rw [Exec.liftM_apply, Exec.toExcept, hinsert]
    rw [addPage, Exec.bind_of_error hlift] at h
    cases h
  have hq := Transaction.insertRecord_validAs (newPage_validAs pageId) hinsert
  rw [addPage_of_insert hinsert] at h
  by_cases hfits : Fits pageId.val.toNat
  swap
  · obtain ⟨stop, e, hwrite⟩ := @onPageFile_writePage_of_not_fits store d q pageId hfile hd hq hfits
    rw [Exec.bind_of_error hwrite] at h
    cases h
  rw [Exec.bind_of_ok (onPageFile_writePage hfile hd hq hfits)] at h
  rcases happend : Catalog.appendHeapPage relationId pageId store.catalog with ⟨stop | ⟨⟩, c⟩
  · rw [Exec.bind_of_error (onCatalog_of_eq happend)] at h
    cases h
  rw [Exec.bind_of_ok (onCatalog_of_eq happend)] at h
  rcases hpage : c.toPage with stop | page
  · rw [Exec.bind_of_error (@saveCatalog_of_error { store with catalog := c } _ _ hpage)] at h
    cases h
  · exact ⟨Page.insertRecord_new_fits hinsert, hfits, c, page, rfl, hpage⟩

/-- The row is put into a page that is there. -/
def insertExisting (relationId : RelationId) (bytes : List UInt8) :
    Db (CatalogStore FileId × Disk) (Option RowId) := do
  let (store, _) ← Exec.get
  store.catalog.ensureHeapRelation relationId
  let pageIds ← store.catalog.heapPages relationId
  onPageFile fun pageFile => insertIntoPages bytes pageFile pageIds

/-- A row goes into a page that is there, or gets a page of its own. -/
theorem insertRow_eq (relationId : RelationId) (bytes : List UInt8) :
    (insertRow relationId bytes : Db (CatalogStore FileId × Disk) RowId) = (do
      let placed ← insertExisting relationId bytes
      match placed with
      | some rowId => return rowId
      | none => do
          let pageId ← onCatalog Catalog.allocatePageId
          addPage relationId bytes pageId) := by
  funext s
  rw [insertRow, insertExisting]
  simp only [Exec.bind_assoc]
  rfl

/-- What the search for room comes to. -/
theorem insertExisting_cases (hfile : store.pageFile = dataFile) (hd : FaultFree d)
    (relationId : RelationId) (bytes : List UInt8) :
    (∃ rowId e, insertExisting relationId bytes (store, d) = (.ok (some rowId), (store, e)) ∧
      ¬ ∀ pageIds, store.catalog.heapPages relationId = .ok pageIds → AllRefuse d bytes pageIds) ∨
    (∃ e, insertExisting relationId bytes (store, d) = (.ok none, (store, e)) ∧ OnlyReads d e ∧
      store.catalog.ensureHeapRelation relationId = .ok () ∧
      ∀ pageIds, store.catalog.heapPages relationId = .ok pageIds → AllRefuse d bytes pageIds) ∨
    (∃ stop e, insertExisting relationId bytes (store, d) = (.error stop, (store, e)) ∧
      e.data = d.data ∧ ¬ (store.catalog.ensureHeapRelation relationId = .ok () ∧
      ∀ pageIds, store.catalog.heapPages relationId = .ok pageIds → AllRefuse d bytes pageIds)) := by
  rcases hensure : store.catalog.ensureHeapRelation relationId with stop | ⟨⟩
  · refine Or.inr (Or.inr ⟨stop, d, ?_, rfl, fun h => by cases h.1⟩)
    simp only [insertExisting, Exec.bind_apply, Exec.get_apply, Exec.liftM_apply, hensure]
  rcases hpages : store.catalog.heapPages relationId with stop | pageIds
  · obtain ⟨relation, hrelation, -⟩ := Catalog.ensureHeapRelation_eq_ok hensure
    rw [Catalog.heapPages_of_relation hrelation] at hpages
    cases hpages
  have hrun : ∀ {r e}, insertIntoPages bytes dataFile pageIds d = (r, e) →
      insertExisting relationId bytes (store, d) = (r, (store, e)) := by
    intro r e h
    simp only [insertExisting, onPageFile, Exec.bind_apply, Exec.get_apply, Exec.liftM_apply,
      Exec.onRight_apply, hensure, hpages, hfile, h]
  rcases insertIntoPages_cases bytes pageIds hd with ⟨rowId, e, hloop, hnot⟩ |
    ⟨e, hloop, hrefuse, hreads⟩ | ⟨stop, e, hloop, hnot, hdata⟩
  · exact Or.inl ⟨rowId, e, hrun hloop, fun h => hnot (h pageIds rfl)⟩
  · refine Or.inr (Or.inl ⟨e, hrun hloop, hreads, rfl, ?_⟩)
    rintro _ ⟨⟩
    exact hrefuse
  · exact Or.inr (Or.inr ⟨stop, e, hrun hloop, hdata, fun h => hnot (h.2 pageIds rfl)⟩)

theorem insertRow_of_some {relationId : RelationId} {bytes : List UInt8} {rowId : RowId}
    (h : insertExisting relationId bytes (store, d) = (.ok (some rowId), (store, e))) :
    insertRow relationId bytes (store, d) = (.ok rowId, (store, e)) := by
  rw [insertRow_eq, Exec.bind_of_ok h]
  rfl

theorem insertRow_of_none {relationId : RelationId} {bytes : List UInt8}
    (h : insertExisting relationId bytes (store, d) = (.ok none, (store, e))) :
    insertRow relationId bytes (store, d) =
      (onCatalog Catalog.allocatePageId >>= addPage relationId bytes) (store, e) := by
  rw [insertRow_eq, Exec.bind_of_ok h]

theorem insertRow_of_error {relationId : RelationId} {bytes : List UInt8} {stop : Stop}
    (h : insertExisting relationId bytes (store, d) = (.error stop, (store, e))) :
    insertRow relationId bytes (store, d) = (.error stop, (store, e)) := by
  rw [insertRow_eq, Exec.bind_of_error h]

/-- A row fails without a trace exactly if it needs no page of its own, or fits. -/
theorem insertRow_atomic_iff (hfile : store.pageFile = dataFile) (hd : FaultFree d)
    (relationId : RelationId) (bytes : List UInt8) :
    AtomicOnError (insertRow relationId bytes) (store, d) ↔
      (NeedsPage store.catalog d relationId bytes → RowFits store.catalog relationId bytes) := by
  rw [AtomicOnError]
  rcases insertExisting_cases hfile hd relationId bytes with ⟨rowId, e, hrun, hnot⟩ |
    ⟨e, hrun, hreads, htable, hrefused⟩ | ⟨stop, e, hrun, hdata, hnot⟩
  · rw [insertRow_of_some hrun]
    refine ⟨fun _ h => absurd h.refused hnot, ?_⟩
    rintro - _ _ ⟨⟩
  · rw [insertRow_of_none hrun]
    have he : FaultFree e := hreads.faultFree hd
    by_cases hroom : store.catalog.nextPageId.toNat + 1 < 2 ^ 64
    · -- A page id is handed out; from here on no error leaves the catalog as it was.
      obtain ⟨counted, hcounted⟩ : ∃ counted : CatalogStore FileId, counted = { store with
        catalog := { store.catalog with nextPageId := store.catalog.nextPageId + 1 } } := ⟨_, rfl⟩
      have hfile' : counted.pageFile = dataFile := by rw [hcounted, hfile]
      have hcatalog : counted.catalog =
        { store.catalog with nextPageId := store.catalog.nextPageId + 1 } := by rw [hcounted]
      rw [Exec.bind_of_ok (onCatalog_of_eq (Catalog.allocatePageId_of_room hroom)), ← hcounted]
      refine ⟨fun hatomic _ => ?_, fun hfit stop t h => ?_⟩
      · rcases hadd : addPage relationId bytes ⟨store.catalog.nextPageId⟩ (counted, e)
          with ⟨stop | rowId, t⟩
        · have hkeeps := (addPage_keepsPageId _ _ _).rel hadd
          rw [KeepsPageId, (hatomic stop t hadd).1, hcatalog] at hkeeps
          exact absurd hkeeps.symm (ne_succ _)
        · rw [RowFits, ← hcatalog]
          exact fits_of_addPage hfile' he hadd
      · obtain ⟨hlen, hfits, c, page, happend, hpage⟩ := hfit ⟨htable, hrefused, hroom⟩
        rw [← hcatalog] at happend
        obtain ⟨q, -, -, hadd⟩ := addPage_of_fits hfile' he hlen hfits happend hpage
        rw [hadd] at h
        cases h
    · rw [Exec.bind_of_error (onCatalog_of_eq (Catalog.allocatePageId_of_full hroom))]
      refine ⟨fun _ h => absurd h.ids hroom, ?_⟩
      rintro - _ _ ⟨⟩
      exact ⟨rfl, hreads.files.data⟩
  · rw [insertRow_of_error hrun]
    refine ⟨fun _ h => absurd ⟨h.table, h.refused⟩ hnot, ?_⟩
    rintro - _ _ ⟨⟩
    exact ⟨rfl, hdata⟩

/-- A call fails without a trace exactly if it fails before it has changed the catalog. -/
theorem direct_calls_atomic_iff (store : CatalogStore FileId) (d : Disk)
    (hfile : store.pageFile = dataFile) (hd : FaultFree d) :
    (∀ name columns, AtomicOnError (createTable name columns) (store, d) ↔
      (store.catalog.Creatable name columns → store.catalog.TableFits name columns)) ∧
    ∀ relationId bytes, AtomicOnError (insertRow relationId bytes) (store, d) ↔
      (NeedsPage store.catalog d relationId bytes → RowFits store.catalog relationId bytes) :=
  ⟨fun _ _ => createTable_atomic_iff hfile hd, insertRow_atomic_iff hfile hd⟩

end Calls

theorem firstTable_toPage :
    (Catalog.empty.withTable "t" [⟨"a", "INTEGER"⟩]).toPage.toOption.isSome = true := by
  decide +kernel

/-- The first table of an empty store is created or refused without a trace. -/
theorem direct_calls_atomic_first_table :
    AtomicOnError (createTable "t" [⟨"a", "INTEGER"⟩]) (⟨dataFile, Catalog.empty⟩, fresh) := by
  have hcalls := direct_calls_atomic_iff ⟨dataFile, Catalog.empty⟩ fresh rfl fresh_faultFree
  rw [hcalls.1]
  obtain ⟨page, hpage⟩ := Option.isSome_iff_exists.1 firstTable_toPage
  exact fun _ => ⟨fits_of_lt (by decide), page, toOption_eq_some.1 hpage⟩

/-- What a test says about a call that has returned. -/
def returned {α σ : Type} (test : α → σ → Bool) : DbResult α × σ → Bool
  | (.ok a, s) => test a s
  | (.error _, _) => false

theorem of_returned {α σ : Type} {test : α → σ → Bool} {result : DbResult α × σ}
    (h : returned test result = true) : ∃ a s, result = (.ok a, s) ∧ test a s = true := by
  obtain ⟨r, s⟩ := result
  cases r with
  | error stop => cases h
  | ok a => exact ⟨a, s, rfl, h⟩

/-- What a test says about a call that has failed. -/
def refused {α σ : Type} (test : σ → Bool) : DbResult α × σ → Bool
  | (.ok _, _) => false
  | (.error _, s) => test s

theorem of_refused {α σ : Type} {test : σ → Bool} {result : DbResult α × σ}
    (h : refused test result = true) : ∃ stop s, result = (.error stop, s) ∧ test s = true := by
  obtain ⟨r, s⟩ := result
  cases r with
  | error stop => exact ⟨stop, s, rfl, h⟩
  | ok a => cases h

theorem long_row_counts_up : returned (fun store d =>
    returned (fun relationId (s : CatalogStore FileId × Disk) =>
      refused (fun t : CatalogStore FileId × Disk =>
        t.1.catalog.nextPageId != s.1.catalog.nextPageId)
        (insertRow relationId (List.replicate 5000 0) s))
      (createTable "t" [⟨"a", "INTEGER"⟩] (store, d)))
    ((CatalogStore.open dataFile : Db Disk (CatalogStore FileId)) fresh) = true := by
  decide +kernel

/-- A row of 5000 bytes is refused and takes a page id with it. -/
theorem long_row_takes_page_id : ∃ store d relationId s,
    (CatalogStore.open dataFile : Db Disk (CatalogStore FileId)) fresh = (.ok store, d) ∧
    createTable "t" [⟨"a", "INTEGER"⟩] (store, d) = (.ok relationId, s) ∧
    ¬ AtomicOnError (insertRow relationId (List.replicate 5000 0)) s := by
  obtain ⟨store, d, hopen, htest⟩ := of_returned long_row_counts_up
  obtain ⟨relationId, s, hcreate, htest⟩ := of_returned htest
  obtain ⟨stop, t, hinsert, htest⟩ := of_refused htest
  refine ⟨store, d, relationId, s, hopen, hcreate, fun hatomic => ?_⟩
  rw [(hatomic stop t hinsert).1] at htest
  simp at htest

end CatalogStore

end Rdbms
