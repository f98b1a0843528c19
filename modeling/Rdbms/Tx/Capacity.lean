import Rdbms.Tx.Paths

/-!
# What the catalog page has room for

The catalog lists all heap pages, and it has to fit into one page. So a database never has more
than some number of tables and rows, and calls that return, each of which adds one or the other,
use up only so much of the log. A log that starts out no longer than a file can be therefore
has room for every call up to the first that fails.
-/

namespace Rdbms

open Library Disk ByteFile

/-! ## Sizes of catalogs -/

namespace Catalog

/-- The relations and the heap pages of a catalog that is saved are fewer than the bytes of a
page. -/
theorem length_heapPages_le {c : Catalog} {page : Page} (h : c.toPage = .ok page) :
    c.relations.length + (c.relations.flatMap RelationInfo.heapPages).length ≤ pageSize := by
  obtain ⟨bytes, hbytes, hsingle⟩ := toPage_eq_ok h
  have hlen := Page.length_le_of_readRecord hsingle.readRecord
  have hcount := length_elements_le hbytes
  omega

end Catalog

/-! ## Rows -/

/-- The ids that rows on the pages can have. -/
def rowIdsOn (pageIds : List PageId) : List RowId :=
  pageIds.flatMap fun pageId => (List.range (2 ^ 16)).map fun i => ⟨pageId, ⟨UInt16.ofNat i⟩⟩

theorem length_rowIdsOn (pageIds : List PageId) :
    (rowIdsOn pageIds).length = pageIds.length * 2 ^ 16 := by
  induction pageIds with
  | nil => exact (Nat.zero_mul _).symm
  | cons pageId pageIds ih =>
      rw [rowIdsOn, List.flatMap_cons, List.length_append, List.length_map, List.length_range,
        ← rowIdsOn, ih, List.length_cons, Nat.succ_mul, Nat.add_comm]

theorem mem_rowIdsOn {pageIds : List PageId} {rowId : RowId} (h : rowId.pageId ∈ pageIds) :
    rowId ∈ rowIdsOn pageIds := by
  obtain ⟨pageId, ⟨slot⟩⟩ := rowId
  refine List.mem_flatMap.2 ⟨pageId, h, List.mem_map.2 ⟨slot.toNat, ?_, ?_⟩⟩
  · exact List.mem_range.2 slot.toNat_lt
  · rw [UInt16.ofNat_toNat]

section Layout

variable {pages : PageId → Option Page} {c : Catalog} {held : List Holding}

/-- A row is on a page that the catalog lists. -/
theorem Layout.mem_heapPages (h : Layout pages c held) {entry : RelationId × HeapRow}
    (hentry : entry ∈ ledger c.relations held) :
    entry.2.rowId.pageId ∈ c.relations.flatMap RelationInfo.heapPages := by
  obtain ⟨relation, holding, hmem, -, hrow⟩ := mem_collect.1 hentry
  refine List.mem_flatMap.2 ⟨relation, (List.of_mem_zip hmem).1, ?_⟩
  have hoccupies := List.forall₂_zip h.occupies hmem
  have hpage := hoccupies.mem_pageIds hrow
  cases hoccupies with
  | table hne heap => exact hpage
  | index tree => cases hrow

theorem Layout.length_ledger_le (h : Layout pages c held) :
    (ledger c.relations held).length ≤ (c.relations.flatMap RelationInfo.heapPages).length * 2 ^ 16 := by
  have hnodup := nodup_ledger h.occupies (List.nodup_cons.1 h.nodup).2
  have hsubset : (ledger c.relations held).map (fun entry => entry.2.rowId) ⊆
      rowIdsOn (c.relations.flatMap RelationInfo.heapPages) := by
    intro rowId hmem
    obtain ⟨entry, hentry, rfl⟩ := List.mem_map.1 hmem
    exact mem_rowIdsOn (h.mem_heapPages hentry)
  have hle := (List.subperm_of_subset hnodup hsubset).length_le
  rwa [List.length_map, length_rowIdsOn] at hle

end Layout

/-! ## What calls add -/

/-- The files hold so many tables and rows, taken together. -/
def Stores (s : CatalogStore FileId × Disk) (count : Nat) : Prop :=
  ∃ held db, Layout (s.1.catalog.only s.2.storedPage) s.1.catalog held ∧
    (∃ page, s.2.storedPage catalogPageId = some page ∧ s.1.catalog.toPage = .ok page) ∧
    Shows s.1.catalog held db ∧ db.schema.length + db.rows.length = count

theorem Stores.count_le {s : CatalogStore FileId × Disk} {count : Nat} (h : Stores s count) :
    count ≤ 2 ^ 29 := by
  obtain ⟨held, db, hlayout, ⟨page, -, hpage⟩, hshows, rfl⟩ := h
  have hlisted := Catalog.length_heapPages_le hpage
  have hrows := hlayout.length_ledger_le
  have hschema : db.schema.length = s.1.catalog.relations.length := by
    rw [← hshows.schema, Catalog.schema, List.length_map]
  rw [hshows.rows.length_eq] at hrows
  simp only [pageSize] at hlisted
  omega

section Calls

variable {s s' : CatalogStore FileId × Disk} {t : TransactionalStore FileId × Disk} {α : Type}
  {store : CatalogStore FileId} {d e : Disk} {tx : Transaction FileId} {held : List Holding} {count : Nat}

/-- A transaction that has just begun sees what is stored. -/
theorem JustBegun.settled (h : JustBegun store d tx e)
    (hlayout : Layout (store.catalog.only d.storedPage) store.catalog held)
    (hsaved : ∃ page, d.storedPage catalogPageId = some page ∧ store.catalog.toPage = .ok page) :
    Transaction.Settled (tx, e) held := by
  have hnone : ∀ id : PageId, tx.dirtyPages[id]? = none := by
    intro id
    rw [h.nothing]
    exact Std.TreeMap.getElem?_emptyc
  have hvisible : Transaction.visible (tx, e) = d.storedPage := by
    funext i
    rw [Transaction.visible_of_not_staged (hnone i)]
    exact storedPage_congr h.data
  refine ⟨⟨h.transactional, ?_, h.active, ?_, ?_, ?_⟩, ?_⟩
  · rw [h.manager]
    exact h.file
  · intro id page hpage
    rw [hnone] at hpage
    cases hpage
  · intro id page hpage
    rw [hnone] at hpage
    cases hpage
  · change Layout (tx.workingCatalog.only (Transaction.visible (tx, e))) tx.workingCatalog held
    rw [hvisible, h.catalog]
    exact hlayout
  · obtain ⟨page, hpage, htoPage⟩ := hsaved
    refine ⟨page, ?_, ?_⟩
    · rw [hvisible]
      exact hpage
    · rw [h.catalog]
      exact htoPage

/-- What a transaction shows after a call is stored when the same call has returned on files. -/
theorem Copies.stores {nextPageId : Nat} {m : Db (Transaction FileId × Disk) α} {a : α}
    {E : Stop → Prop} (h : Copies nextPageId (m (tx, e)) (.ok a, s'))
    (hm : Exec.Ensures m (tx, e) E fun _ t => ∃ db, Transaction.Holds t db ∧
      db.schema.length + db.rows.length = count) : Stores s' count := by
  rcases hrun : m (tx, e) with ⟨r, tx', f⟩
  rw [hrun] at h
  cases h with
  | done faultFree data fits few grows ids =>
      obtain ⟨db, ⟨held, hsettled, hshows⟩, hcount⟩ := hm.ok hrun
      obtain ⟨hlayout, hsaved⟩ := stored_of_settled hsettled fits data
      exact ⟨held, db, hlayout, hsaved, hshows, hcount⟩

/-- Every call that returns adds a table or a row. -/
theorem Matching.stores (h : Matching s t) (hroom : ¬ LogShort t.2) (hstores : Stores s count)
    {op : HeapOp} {id : HeapId} (hdirect : op.direct s = (.ok id, s')) : Stores s' (count + 1) := by
  obtain ⟨held, db, hlayout, hsaved, hshows, rfl⟩ := hstores
  obtain ⟨w, e, -, -, hbegun⟩ := h.begin hroom
  have hholds : Transaction.Holds (t.1.started w, e) db := by
    refine ⟨held, hbegun.settled hlayout hsaved, ?_⟩
    rw [hbegun.catalog]
    exact hshows
  cases op with
  | createTable name columns =>
      obtain ⟨relationId, u, hcreate, hlast⟩ := Exec.bind_eq_ok.1 hdirect
      cases hlast
      have hcopies := createTable_copies hbegun name columns
      rw [hcreate] at hcopies
      refine hcopies.stores ((Transaction.createTable_holds hholds name columns).imp ?_)
      intro relationId t ht
      refine ⟨_, ht, ?_⟩
      change (db.schema ++ [_]).length + db.rows.length = _
      rw [List.length_append, List.length_singleton, Nat.add_right_comm]
  | insertRow relationId bytes =>
      obtain ⟨rowId, u, hinsert, hlast⟩ := Exec.bind_eq_ok.1 hdirect
      cases hlast
      have hcopies := insertRow_copies hbegun relationId bytes
      rw [hinsert] at hcopies
      refine hcopies.stores ((Transaction.insertRow_holds hholds relationId bytes).imp ?_)
      intro rowId t ht
      exact ⟨_, ht, rfl⟩

end Calls

/-! ## Runs up to the first error -/

/-- Both stores give the same result for each call, up to and including the first that fails,
and show the same until then. -/
def AgreeToError : List HeapOp → CatalogStore FileId × Disk → TransactionalStore FileId × Disk → Prop
  | [], s, t => SameView s t
  | op :: ops, s, t => SameView s t ∧ (op.autocommit t).1 = (op.direct s).1 ∧
      ((∃ id, (op.direct s).1 = .ok id) → AgreeToError ops (op.direct s).2 (op.autocommit t).2)

/-- The log has room for a call as long as it has grown with the tables and rows only. -/
theorem Stores.room {s : CatalogStore FileId × Disk} {d : Disk} {count : Nat} (h : Stores s count)
    (hlength : d.wal.bytes.length ≤ 2 ^ 63 + count * 10000) : ¬ LogShort d := by
  have hcount := h.count_le
  rw [LogShort]
  omega

/-- The log has room for every call up to the first that fails. -/
def RoomToError : List HeapOp → CatalogStore FileId × Disk → TransactionalStore FileId × Disk → Prop
  | [], _, _ => True
  | op :: ops, s, t => ¬ LogShort t.2 ∧
      ((∃ id, (op.direct s).1 = .ok id) → RoomToError ops (op.direct s).2 (op.autocommit t).2)

theorem Agree.toError {ops : List HeapOp} : ∀ {s : CatalogStore FileId × Disk}
    {t : TransactionalStore FileId × Disk}, Agree ops s t → RoomToError ops s t → AgreeToError ops s t := by
  induction ops with
  | nil => exact fun h _ => h
  | cons op ops ih =>
      intro s t h hroom
      obtain ⟨hsame, hagree⟩ := h.2 hroom.1
      refine ⟨h.1, hsame, fun hok => ih (hagree ?_) (hroom.2 hok)⟩
      obtain ⟨id, hid⟩ := hok
      intro stop u hfails
      rw [hfails] at hid
      cases hid

theorem Matching.roomToError (ops : List HeapOp) : ∀ {s : CatalogStore FileId × Disk}
    {t : TransactionalStore FileId × Disk} {count : Nat}, Matching s t → Stores s count →
    t.2.wal.bytes.length ≤ 2 ^ 63 + count * 10000 → RoomToError ops s t := by
  induction ops with
  | nil => exact fun _ _ _ => trivial
  | cons op ops ih =>
      intro s t count h hstores hlength
      have hroom := hstores.room hlength
      refine ⟨hroom, ?_⟩
      rcases h.op hroom op with ⟨id, s', t', hdirect, hauto, hmatching, hgrown⟩ |
        ⟨stop, s', t', hdirect, -, -⟩
      · have hlength' : t'.2.wal.bytes.length ≤ 2 ^ 63 + (count + 1) * 10000 := by omega
        rw [hdirect, hauto]
        exact fun _ => ih hmatching (h.stores hroom hstores hdirect) hlength'
      · rw [hdirect]
        rintro ⟨id, hid⟩
        cases hid

/-- From empty data files on, every sequence of calls gives the same through the catalog store
and through transactions of their own, up to and including the first error. The log may have
any content, and is no longer than a file can be. -/
theorem heap_paths_agree (d e : Disk) (hd : FaultFree d) (he : FaultFree e)
    (hdata : d.data.bytes = []) (hdata' : e.data.bytes = []) (hlog : e.wal.bytes.length < 2 ^ 63) :
    ∃ store d' txStore e', CatalogStore.open dataFile d = (.ok store, d') ∧
      openTransactionalStore .data .wal e = (.ok txStore, e') ∧
      ∀ ops, AgreeToError ops (store, d') (txStore, e') := by
  obtain ⟨store, d', txStore, e', hopen, hopen', hwal, hcatalog, hsaved, hmatching⟩ :=
    matching_open hd he hdata hdata'
  have hstores : Stores (store, d') 0 := by
    refine ⟨[], Database.empty, ?_, ?_, ?_, rfl⟩
    · change Layout (store.catalog.only _) store.catalog []
      rw [hcatalog]
      exact layout_empty _
    · change ∃ page, _ ∧ store.catalog.toPage = .ok page
      rw [hcatalog]
      exact hsaved
    · change Shows store.catalog [] Database.empty
      rw [hcatalog]
      exact shows_empty
  have hlength : e'.wal.bytes.length ≤ 2 ^ 63 + 0 * 10000 := by
    rw [hwal]
    omega
  exact ⟨store, d', txStore, e', hopen, hopen', fun ops =>
    (hmatching.agree ops).toError (hmatching.roomToError ops hstores hlength)⟩

theorem heap_paths_agree_fresh : ∃ store d' txStore e',
    CatalogStore.open dataFile fresh = (.ok store, d') ∧
      openTransactionalStore .data .wal fresh = (.ok txStore, e') ∧
      ∀ ops, AgreeToError ops (store, d') (txStore, e') :=
  heap_paths_agree fresh fresh fresh_faultFree fresh_faultFree rfl rfl (by decide)

end Rdbms
