import Rdbms.Tx.Operations

/-!
# The committed state

`Committed` is what holds of a store between two transactions, and of the store that
the active transaction has borrowed: the data file is laid out as the committed
catalog says, and its page 0 holds that catalog. Opening empty files establishes it,
a new transaction starts from it, and a commit carries what the transaction sees over
to it.
-/

namespace Rdbms

open Library Disk ByteFile

/-- The data file is laid out as the committed catalog says. -/
structure Committed (records : List WalRecord) (store : TransactionalStore FileId) (d : Disk)
    (held : List Holding) : Prop where
  log : LogReady records store.wal d
  file : store.store.pageFile = dataFile
  layout : Layout (store.store.catalog.only d.storedPage) store.store.catalog held
  saved : ∃ page, d.storedPage catalogPageId = some page ∧ store.store.catalog.toPage = .ok page

section Committed

variable {records records' : List WalRecord} {store store' : TransactionalStore FileId} {d e : Disk}
  {held : List Holding}

/-- Nothing has happened to the data file and the catalog. -/
theorem Committed.congr (h : Committed records store d held) (hstore : store'.store = store.store)
    (hlog : LogReady records' store'.wal e) (hdata : e.data = d.data) :
    Committed records' store' e held := by
  have hpages : e.storedPage = d.storedPage := by
    funext i
    exact storedPage_congr hdata
  refine ⟨hlog, ?_, ?_, ?_⟩
  · rw [hstore]
    exact h.file
  · rw [hstore, hpages]
    exact h.layout
  · rw [hstore, hpages]
    exact h.saved

theorem LogReady.reads {w : WalWriter FileId} (h : LogReady records w d) (hreads : OnlyReads d e) :
    LogReady records w e :=
  ⟨Session.OnlyReads_walAt h.wal hreads, hreads.faultFree h.faultFree⟩

theorem Committed.reads (h : Committed records store d held) (hreads : OnlyReads d e) :
    Committed records store e held :=
  h.congr rfl (h.log.reads hreads) hreads.files.data

theorem Committed.logged {kinds : List WalRecordKind} (h : Committed records store d held)
    (hstore : store'.store = store.store) (hlogged : Logged records d kinds store'.wal e) :
    ∃ new, Committed (records ++ new) store' e held ∧ kindsOf new = kinds := by
  obtain ⟨new, hready, hkinds⟩ := hlogged.ready
  exact ⟨new, h.congr hstore hready hlogged.data, hkinds⟩

end Committed

/-! ## Opening empty files -/

theorem toPage_empty : ∃ page, Catalog.empty.toPage = .ok page :=
  @Catalog.toPage_of_fits Catalog.empty _ rfl (by decide)

/-- Opening empty files writes the empty catalog to page 0. -/
theorem open_fresh : ∃ store d, openTransactionalStore .data .wal fresh = (.ok store, d) ∧
    Committed [] store d [] ∧ store.activeWriter = false ∧ store.store.catalog = Catalog.empty ∧
    store.nextTxId = firstTxId.val := by
  obtain ⟨page, hpage⟩ := toPage_empty
  have hvalid := Catalog.toPage_validAs hpage
  have hzero : page.number = 0 := hvalid.number
  have hfits : Fits page.number := by
    rw [hzero]
    exact fits_of_lt (by decide)
  set d₁ := fresh.record ⟨.data, .len, true⟩ with hd₁
  have hfree₁ : FaultFree d₁ := fun _ => rfl
  set d₂ := d₁.withPage page with hd₂
  have hfree₂ : FaultFree d₂ := fun _ => rfl
  set d₃ := d₂.record ⟨.wal, .len, true⟩ with hd₃
  have hlen : dataFile.len fresh = (.ok 0, d₁) := rfl
  have hwrite : dataFile.writePage page d₁ = (.ok (), d₂) :=
    writePage_of_faultFree dataFile_file hfree₁ hvalid hfits
  have hload : Catalog.loadOrBootstrap dataFile fresh = (.ok Catalog.empty, d₂) := by
    simp only [Catalog.loadOrBootstrap, Exec.bind_apply, hlen, if_pos, Catalog.save, hpage,
      Exec.liftM_apply, hwrite, Exec.pure_apply]
  have hopen : openTransactionalStore .data .wal fresh =
      (.ok ⟨⟨dataFile, Catalog.empty⟩, ⟨.wal, ⟨⟨0⟩⟩⟩, firstTxId.val, false⟩, d₃) := by
    simp only [openTransactionalStore, CatalogStore.open, Exec.bind_apply, Exec.pure_apply,
      WalWriter.new, vfs_len]
    rw [show (⟨.data⟩ : PageFile FileId) = dataFile from rfl, hload]
    rfl
  refine ⟨_, d₃, hopen, ?_, rfl, rfl, rfl⟩
  refine ⟨⟨open_walAt fresh_faultFree.crashOnly rfl trivial (Nat.le_refl _) hopen, fun _ => rfl⟩, rfl,
    layout_empty _, page, storedPage_eq_some.2 ⟨?_, hvalid⟩, hpage⟩
  change (fresh.data.putPage page.number page).Holds 0 page
  rw [hzero] at hfits ⊢
  exact holds_putPage_self hfits

/-! ## The ends of a transaction -/

section Ends

variable {records : List WalRecord} {store : TransactionalStore FileId} {d e : Disk}
  {held : List Holding}

/-- A transaction starts from what has been committed. -/
theorem Committed.started {w : WalWriter FileId}
    (h : Committed records (store.advanced w true) d held) : Transaction.Settled (store.started w, d) held := by
  have hvisible : Transaction.visible (store.started w, d) = d.storedPage := by
    funext i
    exact Transaction.visible_of_not_staged Std.TreeMap.getElem?_emptyc
  have hnothing : ∀ (id : PageId) (page : Page), (store.started w).dirtyPages[id]? = some page →
      False := by
    intro id page hpage
    rw [show (store.started w).dirtyPages = ∅ from rfl, Std.TreeMap.getElem?_emptyc] at hpage
    cases hpage
  refine ⟨⟨h.log.faultFree, h.file, rfl, ?_, ?_, ?_⟩, ?_⟩
  · exact fun id page hpage => (hnothing id page hpage).elim
  · exact fun id page hpage => (hnothing id page hpage).elim
  · change Layout (store.store.catalog.only (Transaction.visible (store.started w, d))) _ held
    rw [hvisible]
    exact h.layout
  · obtain ⟨page, hpage, htoPage⟩ := h.saved
    exact ⟨page, by rw [hvisible, hpage], htoPage⟩

variable {tx : Transaction FileId}

theorem fits_of_settled (h : Transaction.Settled (tx, d) held)
    (hids : tx.workingCatalog.nextPageId.toNat ≤ 2 ^ 51) :
    ∀ page ∈ tx.stagedPages, Fits page.number := by
  intro page hpage
  obtain ⟨id, hid⟩ := Transaction.mem_stagedPages.1 hpage
  rw [Transaction.number_of_staged h.staged hid]
  exact fits_of_lt ((h.stagedAllocated id page hid).trans_le hids)

/-- Files that have the staged pages are laid out as the transaction saw them. -/
theorem stored_of_settled (h : Transaction.Settled (tx, d) held)
    (hfits : ∀ page ∈ tx.stagedPages, Fits page.number)
    (hdata : e.data = d.data.putPages tx.stagedPages) :
    Layout (tx.workingCatalog.only e.storedPage) tx.workingCatalog held ∧
      ∃ page, e.storedPage catalogPageId = some page ∧ tx.workingCatalog.toPage = .ok page := by
  have hstored : ∀ {i page}, Transaction.visible (tx, d) i = some page → e.storedPage i = some page :=
    fun hvisible => Transaction.storedPage_of_visible h.staged hfits hdata hvisible
  constructor
  · refine h.layout.mono rfl rfl (fun _ hi => hi) ?_
    intro i _ _ page hpage
    obtain ⟨halloc, hvisible⟩ := Catalog.only_eq_some.1 hpage
    exact Catalog.only_eq_some.2 ⟨halloc, hstored hvisible⟩
  · obtain ⟨page, hpage, htoPage⟩ := h.saved
    exact ⟨page, hstored hpage, htoPage⟩

/-- A commit that has written its pages has committed what the transaction saw. -/
theorem committed_of_settled {w : WalWriter FileId} (h : Transaction.Settled (tx, d) held)
    (hfits : ∀ page ∈ tx.stagedPages, Fits page.number) (hlog : LogReady records w e)
    (hdata : e.data = d.data.putPages tx.stagedPages) :
    Committed records (tx.published w) e held := by
  obtain ⟨hlayout, hsaved⟩ := stored_of_settled h hfits hdata
  exact ⟨hlog, h.file, hlayout, hsaved⟩

end Ends

/-! ## Reading the committed store -/

namespace Committed

variable {records : List WalRecord} {store : TransactionalStore FileId} {d : Disk}
  {held : List Holding} {relationId : RelationId} {pageIds : List PageId} {rows : List HeapRow}

/-- A scan of the committed store gives the rows of the heap. -/
theorem fullScan (h : Committed records store d held)
    (htable : TableAt (store.store.catalog.only d.storedPage) store.store.catalog held relationId
      pageIds rows) :
    ∃ e, store.fullScan relationId d = (.ok rows, e) ∧ OnlyReads d e := by
  have hload : ∀ {e : Disk} {pageId : PageId} {page : Page}, OnlyReads d e →
      store.store.catalog.only d.storedPage pageId = some page →
      ∃ e', dataFile.readPage pageId e = (.ok page, e') ∧ OnlyReads d e' := by
    intro e pageId page hreads hpage
    have hstored : e.storedPage pageId = some page :=
      hreads.storedPage.trans (Catalog.only_eq_some.1 hpage).2
    obtain ⟨e', hread, hreads'⟩ := readPage_of_stored (hreads.faultFree h.log.faultFree) hstored
    exact ⟨e', hread, hreads.trans hreads'⟩
  obtain ⟨e, hscan, hreads⟩ := htable.heap.scanHeap hload (OnlyReads.refl d)
  refine ⟨e, ?_, hreads⟩
  simp only [TransactionalStore.fullScan, CatalogStore.fullScan, Exec.bind_apply, Exec.liftM_apply,
    htable.ensured, htable.heapPages, h.file, hscan]

/-- A row of the heap is read under its id. -/
theorem readRow (h : Committed records store d held)
    (htable : TableAt (store.store.catalog.only d.storedPage) store.store.catalog held relationId
      pageIds rows) {row : HeapRow} (hrow : row ∈ rows) :
    ∃ e, store.readRow relationId row.rowId d = (.ok (some row), e) := by
  have hmem := htable.heap.mem_pageIds hrow
  obtain ⟨page, rows', hpage, hheap⟩ := htable.heap.page hmem
  have hrow' := htable.heap.mem_page hrow hpage hheap
  obtain ⟨e, hread, -⟩ := readPage_of_stored h.log.faultFree (Catalog.only_eq_some.1 hpage).2
  have hrecord := hheap.readRecord hrow'
  obtain ⟨header, hvalid, -, htype, -⟩ := hheap
  have hheader := (Page.header_eq_ok_iff page header).2 hvalid.toShape
  refine ⟨e, ?_⟩
  simp only [TransactionalStore.readRow, CatalogStore.readRow, Exec.bind_apply, Exec.liftM_apply,
    htable.ensured, htable.heapPages, failIf_of_not (not_not.2 hmem), h.file, hread, hheader,
    ensureHeapPage, failIf_of_not (not_not.2 htype), hrecord, Exec.pure_apply]
  rfl

end Committed

end Rdbms
