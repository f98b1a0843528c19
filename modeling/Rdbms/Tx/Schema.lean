import Rdbms.Catalog.WellFormed
import Rdbms.Tx.View

/-!
# The schema over whole runs

Whatever a session calls, with whatever outcome, its catalogs stay well formed: the
committed one, the working one of the active transaction, and the one in page 0 of
the data file. The machine may stop at any operation, and the files may be opened
again in any state.
-/

namespace Rdbms

open Library Disk ByteFile

/-- If the page decodes as a catalog, in whatever memory, then as a well-formed one. -/
def Page.HoldsWellFormed (page : Page) : Prop :=
  ∀ memory c, Catalog.fromPage memory page = .ok c → c.WellFormed

theorem Page.holdsWellFormed_of_type {page : Page} {header : PageHeader} (h : page.Valid header)
    (htype : header.pageType ≠ .catalog) : page.HoldsWellFormed := by
  intro memory c hc
  obtain ⟨header', hheader, hc⟩ := except_bind_eq_ok.1 hc
  obtain ⟨⟨⟩, hcheck, -⟩ := except_bind_eq_ok.1 hc
  cases ((Page.header_eq_ok_iff page header').1 hheader).unique h.toShape
  exact absurd (not_not.1 (failIf_eq_ok.1 hcheck)) htype

theorem Page.holdsWellFormed_of_toPage {page : Page} {c : Catalog} (h : c.toPage = .ok page)
    (hc : c.WellFormed) : page.HoldsWellFormed := by
  intro memory c' hc'
  rw [Catalog.fromPage_of_toPage memory h hc.heapsNonempty] at hc'
  cases hc'
  exact hc

/-! ## Inside a transaction -/

namespace Transaction

/-- The working catalog is well formed, and so is the one on a staged catalog page. -/
structure WellFormed (tx : Transaction FileId) : Prop where
  catalog : tx.workingCatalog.WellFormed
  staged : ∀ page, tx.dirtyPages[catalogPageId]? = some page → page.HoldsWellFormed

/-- The operation leaves a well-formed transaction well formed. -/
def KeepsWellFormed (s t : Transaction FileId × Disk) : Prop := s.1.WellFormed → t.1.WellFormed

instance : IsPreorder (Transaction FileId × Disk) KeepsWellFormed where
  refl _ := id
  trans _ _ _ h h' := h' ∘ h

variable {s : Transaction FileId × Disk}

theorem onCatalog_keepsWellFormed {α : Type} {m : Db Catalog α}
    (h : Exec.Preserves Catalog.KeepsWellFormed m) : Exec.Preserves KeepsWellFormed (onCatalog m) :=
  fun s hs => ⟨h s.1.workingCatalog hs.catalog, hs.staged⟩

theorem stage_keepsWellFormed {pageId : PageId} {page : Page}
    (h : pageId = catalogPageId → s.1.WellFormed → page.HoldsWellFormed) :
    KeepsWellFormed s (stage pageId page s).2 := by
  intro hs
  refine ⟨hs.catalog, ?_⟩
  intro other hother
  change (s.1.dirtyPages.insert pageId page)[catalogPageId]? = some other at hother
  rw [Std.TreeMap.getElem?_insert] at hother
  split at hother
  · rename_i heq
    cases hother
    exact h (Std.LawfulEqOrd.eq_of_compare heq) hs
  · exact hs.staged other hother

theorem current_keepsWellFormed :
    Exec.Preserves KeepsWellFormed (current : Db (Transaction FileId × Disk) _) :=
  Exec.Preserves.bind Exec.Preserves.get fun _ => Exec.Preserves.pure _

theorem ensureActive_keepsWellFormed :
    Exec.Preserves KeepsWellFormed (ensureActive : Db (Transaction FileId × Disk) _) :=
  Exec.Preserves.bind current_keepsWellFormed fun _ => Exec.Preserves.liftM _

theorem markCatalogDirty_keepsWellFormed :
    Exec.Preserves KeepsWellFormed (markCatalogDirty : Db (Transaction FileId × Disk) _) := by
  intro s
  refine Exec.rel_bind (current_keepsWellFormed s) ?_
  rintro _ _ ⟨⟩
  refine Exec.rel_check fun page hpage => stage_keepsWellFormed fun _ hs => ?_
  exact Page.holdsWellFormed_of_toPage hpage hs.catalog

theorem loadPage_keepsWellFormed (pageId : PageId) :
    Exec.Preserves KeepsWellFormed (loadPage pageId : Db (Transaction FileId × Disk) _) := by
  intro s hs
  have htx : (loadPage pageId s).2.1 = s.1 := loadPage_eq_tx Prod.mk.eta.symm
  rwa [htx]

theorem accessesPreserve_keepsWellFormed :
    AccessesPreserve (S := Transaction FileId × Disk) KeepsWellFormed where
  load := loadPage_keepsWellFormed
  store {id node page} hpage := by
    intro s
    refine Exec.rel_check fun header _ => stage_keepsWellFormed fun _ _ => ?_
    obtain ⟨header', hvalid, -, htype⟩ := (nodeToPage_eq_ok hpage).valid
    exact Page.holdsWellFormed_of_type hvalid (by rw [htype]; decide)
  allocate := onCatalog_keepsWellFormed Catalog.allocatePageId_keepsWellFormed

theorem registerExtension_keepsWellFormed (name : String) (abiVersion : UInt32) (kind : String) :
    Exec.Preserves KeepsWellFormed
      (registerExtension name abiVersion kind : Db (Transaction FileId × Disk) _) := by
  refine Exec.Preserves.bind ensureActive_keepsWellFormed fun _ => ?_
  refine Exec.Preserves.bind (onCatalog_keepsWellFormed
    (Catalog.registerExtensionMetadata_keepsWellFormed name abiVersion kind)) fun inserted => ?_
  cases inserted with
  | true => exact Exec.Preserves.bind markCatalogDirty_keepsWellFormed fun _ => Exec.Preserves.pure _
  | false => exact Exec.Preserves.pure _

theorem createTable_keepsWellFormed (name : String) (columns : List ColumnDef) :
    Exec.Preserves KeepsWellFormed (createTable name columns : Db (Transaction FileId × Disk) _) := by
  refine Exec.Preserves.bind ensureActive_keepsWellFormed fun _ => ?_
  refine Exec.Preserves.bind (onCatalog_keepsWellFormed
    (Catalog.createTableMetadata_keepsWellFormed name columns)) fun created => ?_
  refine Exec.Preserves.bind (fun s => stage_keepsWellFormed fun _ _ => ?_) fun _ => ?_
  · exact Page.holdsWellFormed_of_type (Page.new_valid _ _) (by simp [Page.newHeader])
  · exact Exec.Preserves.bind markCatalogDirty_keepsWellFormed fun _ => Exec.Preserves.pure _

theorem createIndex_keepsWellFormed (name : String) (tableId : RelationId) (columnName : String) :
    Exec.Preserves KeepsWellFormed
      (createIndex name tableId columnName : Db (Transaction FileId × Disk) _) := by
  refine Exec.Preserves.bind ensureActive_keepsWellFormed fun _ => ?_
  refine Exec.Preserves.bind (onCatalog_keepsWellFormed
    (Catalog.createIndexMetadata_keepsWellFormed name tableId columnName)) fun created => ?_
  refine Exec.Preserves.bind (storeNode_preserves accessesPreserve_keepsWellFormed _ _) fun _ => ?_
  exact Exec.Preserves.bind markCatalogDirty_keepsWellFormed fun _ => Exec.Preserves.pure _

theorem insertIndexEntry_keepsWellFormed (fuel : Nat) (indexRelationId : RelationId) (key : IndexKey)
    (rowId : RowId) : Exec.Preserves KeepsWellFormed
      (insertIndexEntry fuel indexRelationId key rowId : Db (Transaction FileId × Disk) _) := by
  refine Exec.Preserves.bind ensureActive_keepsWellFormed fun _ => ?_
  refine Exec.Preserves.bind current_keepsWellFormed fun tx => ?_
  refine Exec.Preserves.bind (Exec.Preserves.liftM _) fun root => ?_
  refine Exec.Preserves.bind (insert_preserves accessesPreserve_keepsWellFormed _ _ _ _)
    fun newRoot => ?_
  split
  · exact Exec.Preserves.bind (onCatalog_keepsWellFormed
      (Catalog.setIndexRootPage_keepsWellFormed indexRelationId newRoot))
      fun _ => markCatalogDirty_keepsWellFormed
  · exact markCatalogDirty_keepsWellFormed

/-- The pages of a table do not include the catalog page. -/
theorem insertIntoPages_keepsWellFormed (bytes : List UInt8) {pageIds : List PageId}
    (h : catalogPageId ∉ pageIds) : Exec.Preserves KeepsWellFormed
      (insertIntoPages bytes pageIds : Db (Transaction FileId × Disk) _) := by
  refine insertIntoPages_preserves loadPage_keepsWellFormed ?_
  intro pageId s page t slotId page' hmem _ _
  refine stage_keepsWellFormed fun heq => ?_
  rw [heq] at hmem
  exact absurd hmem h

theorem heapPages_free {c : Catalog} (h : c.WellFormed) {relationId : RelationId}
    {pageIds : List PageId} (hpages : c.heapPages relationId = .ok pageIds) :
    catalogPageId ∉ pageIds := by
  obtain ⟨relation, hrelation, hpages⟩ := except_bind_eq_ok.1 hpages
  cases hpages
  have hmem := (Catalog.relationById_mem (DbResult.okOr_eq_ok hrelation)).1
  have hone := h.relations relation hmem
  cases hstorage : relation.storage with
  | bPlusTree storage => simp [RelationInfo.heapPages, hstorage, StorageObject.heapPages]
  | heap pages =>
      cases hkind : relation.kind with
      | system => exact absurd hkind hone.kind
      | table =>
          obtain ⟨pages', hpages', -, hfree⟩ := hone.table hkind
          rwa [RelationInfo.heapPages, hpages']
      | index =>
          obtain ⟨storage', hstorage', -⟩ := hone.index hkind
          rw [hstorage] at hstorage'
          cases hstorage'

theorem insertRow_keepsWellFormed (relationId : RelationId) (bytes : List UInt8) :
    Exec.Preserves KeepsWellFormed
      (insertRow relationId bytes : Db (Transaction FileId × Disk) _) := by
  refine Exec.Preserves.bind ensureActive_keepsWellFormed fun _ s => ?_
  by_cases hs : s.1.WellFormed
  · refine Exec.rel_bind (current_keepsWellFormed s) ?_
    rintro _ _ ⟨⟩
    refine Exec.rel_check fun _ _ => Exec.rel_check fun pageIds hpageIds => ?_
    have hplaced := insertIntoPages_keepsWellFormed bytes (heapPages_free hs.catalog hpageIds)
    refine Exec.rel_bind (hplaced s) ?_
    intro placed t hrun
    cases placed with
    | some rowId => exact refl_of KeepsWellFormed t
    | none =>
        have ht : t.1.WellFormed := hplaced.rel hrun hs
        refine Exec.rel_bind (onCatalog_keepsWellFormed Catalog.allocatePageId_keepsWellFormed t) ?_
        intro pageId u hallocate
        obtain ⟨c, hallocate, -⟩ := onCatalog_eq_ok.1 hallocate
        have hne := Catalog.allocatePageId_ne ht.catalog hallocate
        refine Exec.rel_check fun ⟨slotId, page⟩ _ => ?_
        refine Exec.Preserves.bind (onCatalog_keepsWellFormed
          (Catalog.appendHeapPage_keepsWellFormed relationId hne)) (fun _ => ?_) u
        refine Exec.Preserves.bind (fun v => stage_keepsWellFormed fun heq => absurd heq hne) fun _ => ?_
        exact Exec.Preserves.bind markCatalogDirty_keepsWellFormed fun _ => Exec.Preserves.pure _
  · exact fun h => absurd h hs

end Transaction

/-! ## The data file -/

/-- Page 0 of the data file is there, and holds no catalog that is not well formed. -/
def Disk.HoldsWellFormed (d : Disk) : Prop :=
  ∃ page, d.storedPage catalogPageId = some page ∧ page.HoldsWellFormed

section File

variable {d e : Disk}

theorem Disk.HoldsWellFormed.congr (h : d.HoldsWellFormed) (hdata : e.data = d.data) :
    e.HoldsWellFormed := by
  obtain ⟨page, hpage, hholds⟩ := h
  exact ⟨page, (storedPage_congr hdata).trans hpage, hholds⟩

/-- One of the pages put into the file goes to page 0. -/
theorem holdsWellFormed_of_putPages {pages : List Page} {page : Page}
    (hdata : e.data = d.data.putPages pages) (hfits : ∀ page ∈ pages, Fits page.number)
    (hpages : ∀ page ∈ pages, page.number = 0 →
      page.ValidAs catalogPageId ∧ page.HoldsWellFormed)
    (hlast : lastPage 0 pages = some page) : e.HoldsWellFormed := by
  have hmem : page ∈ pages := List.mem_reverse.1 (List.mem_of_find?_eq_some hlast)
  have hnumber : page.number = 0 := by simpa using List.find?_some hlast
  obtain ⟨hvalid, hholds⟩ := hpages page hmem hnumber
  refine ⟨page, storedPage_eq_some.2 ⟨?_, hvalid⟩, hholds⟩
  rw [hdata]
  exact holds_putPages hfits hlast

/-- Pages are put into the file. -/
theorem Disk.HoldsWellFormed.putPages {pages : List Page} (h : d.HoldsWellFormed)
    (hdata : e.data = d.data.putPages pages) (hfits : ∀ page ∈ pages, Fits page.number)
    (hpages : ∀ page ∈ pages, page.number = 0 →
      page.ValidAs catalogPageId ∧ page.HoldsWellFormed) : e.HoldsWellFormed := by
  cases hlast : lastPage 0 pages with
  | some page => exact holdsWellFormed_of_putPages hdata hfits hpages hlast
  | none =>
      obtain ⟨page, hpage, hholds⟩ := h
      obtain ⟨hstored, hvalid⟩ := storedPage_eq_some.1 hpage
      refine ⟨page, storedPage_eq_some.2 ⟨?_, hvalid⟩, hholds⟩
      rw [hdata]
      exact hstored.putPages_of_not_mem hfits (lastPage_eq_none.1 hlast)

end File

/-- The data file and the schedule are as before. -/
structure Disk.SameData (d e : Disk) : Prop where
  data : e.data = d.data
  faults : e.faults = d.faults

instance : IsPreorder Disk SameData where
  refl _ := ⟨rfl, rfl⟩
  trans _ _ _ h h' := ⟨h'.data.trans h.data, h'.faults.trans h.faults⟩

theorem Disk.OnlyReads.sameData {d e : Disk} (h : OnlyReads d e) : SameData d e :=
  ⟨h.files.data, h.files.faults⟩

theorem writeAllAt_wal_sameData (offset : UInt64) (bytes : List UInt8) :
    Exec.Preserves SameData (writeAllAt .wal offset bytes) := by
  intro d
  unfold writeAllAt
  split
  · exact ⟨rfl, rfl⟩
  · split
    · exact ⟨rfl, rfl⟩
    · exact ⟨rfl, rfl⟩

theorem syncData_sameData (fileId : FileId) : Exec.Preserves SameData (syncData fileId) := by
  intro d
  unfold syncData
  split
  · exact ⟨rfl, rfl⟩
  · cases fileId with
    | data => exact ⟨rfl, rfl⟩
    | wal => exact ⟨rfl, rfl⟩

/-- The writer of the log leaves the data file alone. -/
structure LeavesData (s t : WalWriter FileId × Disk) : Prop where
  file : t.1.file = s.1.file
  disk : s.1.file = .wal → SameData s.2 t.2

instance : IsPreorder (WalWriter FileId × Disk) LeavesData where
  refl s := ⟨rfl, fun _ => refl_of SameData s.2⟩
  trans _ _ _ h h' := ⟨h'.file.trans h.file, fun hs =>
    trans_of SameData (h.disk hs) (h'.disk (h.file.trans hs))⟩

theorem append_leavesData (kind : WalRecordKind) :
    Exec.Preserves LeavesData (WalWriter.append kind : Db (WalWriter FileId × Disk) _) := by
  rintro ⟨w, d⟩
  refine ⟨(append_logging kind).rel Prod.mk.eta.symm |>.file, ?_⟩
  intro hfile
  by_cases hroom : w.allocator.next.val.toNat + kind.encodedLen < 2 ^ 64
  · have hwrite := writeAllAt_wal_sameData w.allocator.next.val
      (WalRecord.bytes ⟨w.allocator.next, kind⟩) d
    have hw : w.file = .wal := hfile
    rw [append_eq hroom, hw]
    rcases hrun : writeAllAt .wal w.allocator.next.val
      (WalRecord.bytes ⟨w.allocator.next, kind⟩) d with ⟨stop | ⟨⟩, e⟩
    · rwa [hrun] at hwrite
    · rwa [hrun] at hwrite
  · rw [append_of_full hroom]
    exact refl_of SameData d

theorem syncWal_leavesData : Exec.Preserves LeavesData (do
    let (writer, _) ← Exec.get
    Exec.onRight writer.syncData : Db (WalWriter FileId × Disk) Unit) :=
  fun s => ⟨rfl, fun _ => syncData_sameData s.1.file s.2⟩

theorem logCommit_leavesData (txId : TxId) (pages : List Page) :
    Exec.Preserves LeavesData (Transaction.logCommit txId pages :
      Db (WalWriter FileId × Disk) Unit) := by
  refine Exec.Preserves.bind (Exec.Preserves.forM fun page _ => ?_) fun _ => ?_
  · refine Exec.Preserves.bind (Exec.Preserves.liftM _) fun kind => ?_
    exact Exec.Preserves.bind (append_leavesData kind) fun _ => Exec.Preserves.pure _
  · exact Exec.Preserves.bind (append_leavesData _) fun _ => syncWal_leavesData

theorem logAbort_leavesData (txId : TxId) :
    Exec.Preserves LeavesData (Transaction.logAbort txId : Db (WalWriter FileId × Disk) Unit) :=
  Exec.Preserves.bind (append_leavesData _) fun _ => syncWal_leavesData

theorem storeSync_sameData (store : TransactionalStore FileId) (d : Disk) :
    SameData d (TransactionalStore.syncData (store, d)).2.2 := by
  have h : Exec.Preserves (fun s t : TransactionalStore FileId × Disk => SameData s.2 t.2)
      TransactionalStore.syncData := by
    have : IsPreorder (TransactionalStore FileId × Disk) (fun s t => SameData s.2 t.2) :=
      { refl := fun s => refl_of SameData s.2
        trans := fun _ _ _ h h' => trans_of SameData h h' }
    refine Exec.Preserves.bind Exec.Preserves.get fun s => ?_
    refine Exec.Preserves.bind (fun t => syncData_sameData s.1.store.pageFile.file t.2) fun _ => ?_
    exact fun t => syncData_sameData s.1.wal.file t.2
  exact h (store, d)

/-! ## Sessions -/

namespace Session

/-- The catalogs of a session, in memory and in the data file. -/
structure WellFormed (s : Session × Disk) : Prop where
  good : s.1.Good
  crashOnly : CrashOnly s.2
  committed : s.1.handle.store.catalog.WellFormed
  working : ∀ tx, s.1 = active tx → tx.WellFormed
  stored : s.2.HoldsWellFormed

variable {s : Session × Disk} {tx : Transaction FileId} {store : TransactionalStore FileId}
  {d e : Disk}

theorem WellFormed.ended {store' : TransactionalStore FileId} (h : WellFormed s) (hgood : (idle store').Good)
    (hdisk : SameData s.2 e) (hstore : store'.store = s.1.handle.store) :
    WellFormed (idle store', e) where
  good := hgood
  crashOnly := h.crashOnly.congr hdisk.faults
  committed := by
    change store'.store.catalog.WellFormed
    rw [hstore]
    exact h.committed
  working := nofun
  stored := h.stored.congr hdisk.data

/-- An operation of the active transaction. -/
theorem WellFormed.inside {α : Type} {m : Db (Transaction FileId × Disk) α}
    (h : WellFormed (active tx, d)) (hstaging : Exec.Preserves Transaction.Staging m)
    (hkeeps : Exec.Preserves Transaction.KeepsWellFormed m) :
    WellFormed (Session.inside tx m d) := by
  have hstep : Transaction.Staging (tx, d) (m (tx, d)).2 := hstaging (tx, d)
  refine ⟨(does_inside .drop hstaging d nofun).good h.good, ?_, ?_, ?_, ?_⟩
  · exact h.crashOnly.congr hstep.disk.files.faults
  · change (m (tx, d)).2.1.manager.store.catalog.WellFormed
    rw [hstep.manager]
    exact h.committed
  · rintro _ ⟨⟩
    exact hkeeps (tx, d) (h.working tx rfl)
  · exact h.stored.congr hstep.disk.files.data

/-- A staged page that goes to page 0 holds a well-formed catalog, if any. -/
theorem WellFormed.staged (h : WellFormed (active tx, d)) {page : Page}
    (hpage : page ∈ tx.stagedPages) (hnumber : page.number = 0) :
    page.ValidAs catalogPageId ∧ page.HoldsWellFormed := by
  obtain ⟨id, hid⟩ := Transaction.mem_stagedPages.1 hpage
  have hvalid := h.good.staged tx rfl id page hid
  have hzero : id = catalogPageId := by
    rw [hvalid.number] at hnumber
    by_contra hne
    exact PageId.toNat_ne hne hnumber
  rw [hzero] at hid hvalid
  exact ⟨hvalid, (h.working tx rfl).staged page hid⟩

/-- The data part of a commit, cut short or not. -/
theorem WellFormed.written (h : WellFormed (active tx, d)) {e' : Disk} (hlog : SameData d e)
    {r : DbResult Unit}
    (hdata : Transaction.writePages tx.manager.store.pageFile tx.stagedPages e = (r, e')) :
    CrashOnly e' ∧ e'.HoldsWellFormed := by
  have hcrash := h.crashOnly.congr hlog.faults
  obtain ⟨hsame, -, k, hput, hfits, -⟩ :=
    writePages_crashOnly h.good.data hcrash (h.good.staged tx rfl).validAs hdata
  refine ⟨hcrash.congr hsame.faults, (h.stored.congr hlog.data).putPages hput hfits ?_⟩
  exact fun page hpage => h.staged (List.mem_of_mem_take hpage)

theorem WellFormed.commit {t : Session × Disk} (h : WellFormed (active tx, d))
    (hdoes : Does .commit (active tx, d) t) : WellFormed t := by
  have hgood := hdoes.good h.good
  have hwal : tx.manager.wal.file = .wal := h.good.wal
  cases hdoes with
  | looks hborrowed hreads =>
      obtain ⟨store, hstore⟩ := hborrowed rfl
      cases hstore
  | stages hcall hstaging => exact absurd rfl hcall
  | logFails hlog => exact h.ended hgood ((logCommit_leavesData _ _).rel hlog |>.disk hwal) rfl
  | dataFails hlog hdata =>
      obtain ⟨hcrash, hstored⟩ := h.written ((logCommit_leavesData _ _).rel hlog |>.disk hwal) hdata
      exact ⟨hgood, hcrash, h.committed, nofun, hstored⟩
  | commits hlog hdata =>
      obtain ⟨hcrash, hstored⟩ := h.written ((logCommit_leavesData _ _).rel hlog |>.disk hwal) hdata
      exact ⟨hgood, hcrash, (h.working tx rfl).catalog, nofun, hstored⟩

theorem WellFormed.begin {t : Session × Disk} (h : WellFormed (idle store, d))
    (hdoes : Does .begin (idle store, d) t) : WellFormed t := by
  have hgood := hdoes.good h.good
  have hwal : store.wal.file = .wal := h.good.wal
  cases hdoes with
  | looks hborrowed hreads => exact h.ended hgood hreads.sameData rfl
  | starts hroom happend =>
      have hdisk := (append_leavesData _).rel happend |>.disk hwal
      refine ⟨hgood, h.crashOnly.congr hdisk.faults, h.committed, ?_, h.stored.congr hdisk.data⟩
      rintro _ ⟨⟩
      refine ⟨h.committed, ?_⟩
      intro page hpage
      simp [TransactionalStore.started] at hpage
  | startFails hroom happend =>
      exact h.ended hgood ((append_leavesData _).rel happend |>.disk hwal) rfl

theorem WellFormed.rollback (h : WellFormed (active tx, d)) :
    WellFormed (ending tx Transaction.rollback d) := by
  have hactive := h.good.state tx rfl
  have hgood := (does_rollback hactive d).good h.good
  rw [ending, Transaction.rollback_eq hactive] at hgood ⊢
  exact h.ended hgood ((logAbort_leavesData tx.txId (tx.manager.wal, d)).disk h.good.wal) rfl

/-- Every call keeps the catalogs well formed. -/
theorem WellFormed.step (h : WellFormed s) (call : Call) : WellFormed (Session.step call s) := by
  obtain ⟨s, d⟩ := s
  cases s with
  | idle store =>
      have hlook : ∀ {e}, OnlyReads d e → WellFormed (idle store, e) :=
        fun hreads => h.ended h.good hreads.sameData rfl
      cases call with
      | begin => exact h.begin (does_start d)
      | syncData =>
          rw [Session.step, outside, syncData_handle]
          exact h.ended h.good (storeSync_sameData store d) rfl
      | fullScan id => exact hlook (TransactionalStore.fullScan_onlyReads store id d)
      | readRow id rowId => exact hlook (TransactionalStore.readRow_onlyReads store id rowId d)
      | lookupIndex fuel id key =>
          have hlooking := TransactionalStore.lookupIndex_looking fuel id key (store, d)
          rw [Session.step, outside, hlooking.handle]
          exact hlook hlooking.disk
      | registerExtension name abi kind => exact h
      | createTable name columns => exact h
      | createIndex name tableId column => exact h
      | insertIndexEntry fuel id key rowId => exact h
      | insertRow id bytes => exact h
      | commit => exact h
      | rollback => exact h
      | drop => exact h
  | active tx =>
      have hactive := h.good.state tx rfl
      cases call with
      | registerExtension name abi kind =>
          exact h.inside (Transaction.registerExtension_staging name abi kind)
            (Transaction.registerExtension_keepsWellFormed name abi kind)
      | createTable name columns =>
          exact h.inside (Transaction.createTable_staging name columns)
            (Transaction.createTable_keepsWellFormed name columns)
      | createIndex name tableId column =>
          exact h.inside (Transaction.createIndex_staging name tableId column)
            (Transaction.createIndex_keepsWellFormed name tableId column)
      | insertIndexEntry fuel id key rowId =>
          exact h.inside (Transaction.insertIndexEntry_staging fuel id key rowId)
            (Transaction.insertIndexEntry_keepsWellFormed fuel id key rowId)
      | insertRow id bytes =>
          exact h.inside (Transaction.insertRow_staging id bytes)
            (Transaction.insertRow_keepsWellFormed id bytes)
      | fullScan id =>
          refine h.inside (Transaction.fullScan_staging id) fun t ht => ?_
          rwa [(Transaction.fullScan_looking id t).handle]
      | commit => exact h.commit (does_commit hactive d)
      | rollback => exact h.rollback
      | drop =>
          have hdrop : tx.drop = tx.released tx.manager.wal := Transaction.drop_withWal hactive _
          rw [Session.step, hdrop]
          exact h.ended ⟨h.good.data, h.good.wal, (fun tx hc => by cases hc), fun tx hc => by cases hc⟩ (refl_of SameData d) rfl
      | begin => exact h
      | readRow id rowId => exact h
      | lookupIndex fuel id key => exact h
      | syncData => exact h

/-! ## Opening the files -/

theorem len_of_empty {n : UInt64} (h : d.data.bytes = [])
    (hlen : len .data d = (.ok n, e)) : n = 0 := by
  unfold len at hlen
  split at hlen
  · cases hlen
  · cases hlen
    rw [show d.file .data = d.data from rfl, h]
    rfl

theorem lastPage_single {page : Page} (h : page.ValidAs catalogPageId) :
    lastPage 0 [page] = some page := by
  have hnumber : page.number = 0 := h.number
  simp [lastPage, hnumber]

theorem readCatalog_eq_ok {pageId : PageId} {c : Catalog}
    (h : (do
      let page ← dataFile.readPage pageId
      let world ← Exec.get
      Catalog.fromPage (HasMemory.memory world) page : Db Disk Catalog) d = (.ok c, e)) :
    ∃ page, dataFile.readPage pageId d = (.ok page, e) ∧
      Catalog.fromPage e.memory page = .ok c := by
  obtain ⟨page, v, hread, h⟩ := Exec.bind_eq_ok.1 h
  obtain ⟨world, v', hworld, h⟩ := Exec.bind_eq_ok.1 h
  cases hworld
  obtain ⟨hc, rfl⟩ := Exec.liftM_eq_ok.1 h
  exact ⟨page, hread, hc⟩

/-- The catalog that is loaded is the one in page 0, which is there from then on. -/
theorem loadOrBootstrap_wellFormed {c : Catalog} (hcrash : CrashOnly d)
    (hfiles : d.data.bytes = [] ∨ d.HoldsWellFormed)
    (h : Catalog.loadOrBootstrap dataFile d = (.ok c, e)) :
    c.WellFormed ∧ e.HoldsWellFormed ∧ e.faults = d.faults := by
  obtain ⟨len, u, hlen, h⟩ := Exec.bind_eq_ok.1 h
  have hreads : OnlyReads d u := (len_onlyReads .data).rel hlen
  split at h
  · obtain ⟨⟨⟩, v, hsave, h⟩ := Exec.bind_eq_ok.1 h
    cases h
    rw [Catalog.save] at hsave
    obtain ⟨page, u', hpage, hwrite⟩ := Exec.bind_eq_ok.1 hsave
    obtain ⟨htoPage, rfl⟩ := Exec.liftM_eq_ok.1 hpage
    have hvalid := Catalog.toPage_validAs htoPage
    rcases writePage_crashOnly dataFile_file (hcrash.congr hreads.files.faults) ⟨_, hvalid⟩ with
      ⟨hfits, e', he', hdata, hsame⟩ | ⟨stop, e', he', -⟩
    · rw [hwrite] at he'
      cases he'
      refine ⟨Catalog.empty_wellFormed, ?_, hsame.faults.trans hreads.files.faults⟩
      refine @holdsWellFormed_of_putPages u e [page] page hdata (by simpa using hfits) ?_ ?_
      · intro page' hpage' _
        rw [List.mem_singleton.1 hpage']
        exact ⟨hvalid, Page.holdsWellFormed_of_toPage htoPage Catalog.empty_wellFormed⟩
      · exact lastPage_single hvalid
    · rw [hwrite] at he'
      cases he'
  · rename_i hnonempty
    obtain ⟨⟨⟩, u', hlong, h⟩ := Exec.bind_eq_ok.1 h
    obtain ⟨-, rfl⟩ := Exec.liftM_eq_ok.1 hlong
    obtain ⟨page, hread, hc⟩ := readCatalog_eq_ok h
    have hstored : u.storedPage catalogPageId = some page :=
      storedPage_eq_some.2 ⟨holds_of_readPage dataFile_file hread, readPage_eq_ok hread⟩
    have hreads' := (readPage_onlyReads dataFile catalogPageId).rel hread
    rcases hfiles with hempty | hholds
    · exact absurd (len_of_empty hempty hlen) hnonempty
    · obtain ⟨page', hpage', hwf⟩ := hholds
      rw [← hreads.storedPage, hstored] at hpage'
      cases hpage'
      refine ⟨hwf _ c hc, ⟨page, ?_, hwf⟩, hreads'.files.faults.trans hreads.files.faults⟩
      rw [hreads'.storedPage]
      exact hstored

theorem open_wellFormed (hcrash : CrashOnly d) (hfiles : d.data.bytes = [] ∨ d.HoldsWellFormed)
    (h : openTransactionalStore .data .wal d = (.ok store, e)) : WellFormed (idle store, e) := by
  have hgood := open_good h
  obtain ⟨catalogStore, u, hopen, h⟩ := Exec.bind_eq_ok.1 h
  obtain ⟨w, v, hwal, h⟩ := Exec.bind_eq_ok.1 h
  cases h
  obtain ⟨catalog, u', hload, hopen⟩ := Exec.bind_eq_ok.1 hopen
  cases hopen
  obtain ⟨len, v', hlen, hwal⟩ := Exec.bind_eq_ok.1 hwal
  cases hwal
  have hreads : OnlyReads u e := (len_onlyReads .wal).rel hlen
  obtain ⟨hc, hstored, hfaults⟩ := loadOrBootstrap_wellFormed hcrash hfiles hload
  exact ⟨hgood, (hcrash.congr hfaults).congr hreads.files.faults, hc, nofun,
    hstored.congr hreads.files.data⟩

end Session

/-- The disk in a machine with this memory. -/
def Disk.inMemory (d : Disk) (memory : Memory) : Disk := { d with memory := memory }

/-- The sessions on a pair of files that start out empty. The machine may stop at any
operation, and the files may be opened again in any state, with as much memory as there
happens to be. -/
inductive Visited : Session × Disk → Prop
  | opened {faults : Nat → Option Fault} {memory : Memory} {store : TransactionalStore FileId}
      {d : Disk} (hfaults : CrashOnly (holding .empty .empty faults))
      (h : openTransactionalStore .data .wal ((holding .empty .empty faults).inMemory memory) =
        (.ok store, d)) : Visited (.idle store, d)
  | step {s : Session × Disk} (h : Visited s) (call : Call) : Visited (Session.step call s)
  | reopened {s : Session × Disk} {faults : Nat → Option Fault} {memory : Memory}
      {store : TransactionalStore FileId} {d : Disk} (h : Visited s)
      (hfaults : CrashOnly (holding s.2.data s.2.wal faults))
      (hopen : openTransactionalStore .data .wal
        ((holding s.2.data s.2.wal faults).inMemory memory) = (.ok store, d)) :
      Visited (.idle store, d)

theorem Visited.wellFormed {s : Session × Disk} (h : Visited s) : Session.WellFormed s := by
  induction h with
  | opened hfaults hopen =>
      refine Session.open_wellFormed ?_ (Or.inl rfl) hopen
      exact hfaults.congr rfl
  | step h call ih => exact ih.step call
  | @reopened s faults memory store d h hfaults hopen ih =>
      have hcrash : CrashOnly ((holding s.2.data s.2.wal faults).inMemory memory) :=
        hfaults.congr rfl
      exact Session.open_wellFormed hcrash (Or.inr (ih.stored.congr rfl)) hopen

theorem Visited.run {s : Session × Disk} (h : Visited s) (calls : List Call) :
    Visited (Session.run calls s) := by
  induction calls generalizing s with
  | nil => exact h
  | cons call calls ih => exact ih (h.step call)

/-- In every state of every run the committed catalog, the working catalog of the active
transaction and the catalog in page 0 are well formed. -/
theorem catalogs_stay_well_formed {s : Session × Disk} (h : Visited s) :
    s.1.handle.store.catalog.WellFormed ∧
      (∀ tx, s.1 = .active tx → tx.workingCatalog.WellFormed) ∧
      ∀ page memory c, s.2.storedPage catalogPageId = some page →
        Catalog.fromPage memory page = .ok c → c.WellFormed := by
  have hwf := h.wellFormed
  refine ⟨hwf.committed, fun tx htx => (hwf.working tx htx).catalog, ?_⟩
  intro page memory c hpage hc
  obtain ⟨page', hpage', hholds⟩ := hwf.stored
  rw [hpage] at hpage'
  cases hpage'
  exact hholds memory c hc

/-- A table is created and an index on its column. -/
def indexCalls : List Call := [.begin, .createTable "t" [⟨"a", "INTEGER"⟩],
  .createIndex "i" ⟨1⟩ "a", .createIndex "j" ⟨1⟩ "a", .commit]

theorem indexCalls_relations : onFresh (fun store d =>
    (Session.run indexCalls (.idle store, d)).1.handle.store.catalog.relations.map
      RelationInfo.name == ["t", "i"]) = true := by
  decide +kernel

theorem catalogs_stay_well_formed_index : ∃ s, Visited s ∧
    s.1.handle.store.catalog.relations.map RelationInfo.name = ["t", "i"] ∧
    s.1.handle.store.catalog.WellFormed := by
  obtain ⟨store, d, hopen, htest⟩ := of_onFresh indexCalls_relations
  have hvisited := (Visited.opened fresh_faultFree.crashOnly hopen).run indexCalls
  exact ⟨_, hvisited, by simpa using htest, (catalogs_stay_well_formed hvisited).1⟩

end Rdbms
