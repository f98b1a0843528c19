import Rdbms.Sql.PageIds

/-!
# Indexes agree with tables

In every store that statements reach, the leaves of an index hold one entry for each
row of its table whose value has a key, and nothing else. Every entry leads back to its
row, and every row has a value for each column of its table.
-/

namespace Rdbms

open Library Disk BPlusTree

/-- The entries in the leaves of the tree on the disk. -/
def Disk.indexEntries (d : Disk) (root : PageId) : List IndexEntry :=
  entriesBelow (nodeView d.storedPage) Sql.indexFuel root

namespace Sql

variable {host : Host} {records : List WalRecord} {store : TransactionalStore FileId} {d : Disk}
  {db : Database} {relation : RelationInfo}

/-- The leaves of an index hold the entries that it shows. -/
theorem Steady.indexEntries (h : Steady host records (store, d) db)
    (hmem : relation ∈ store.store.catalog.relations) {storage : IndexStorage}
    (hstorage : relation.indexStorage = some storage) :
    (d.indexEntries storage.rootPageId).Perm (itemsOf relation.id db.entries) := by
  obtain ⟨held, hcommitted, hshows⟩ := h.holds
  obtain ⟨ids, -, htree, hnodup, halloc⟩ := hcommitted.layout.index hmem hstorage
  obtain ⟨height, leaves, hsubtree, -, hentries⟩ := htree
  have hlength : ids.length ≤ store.store.catalog.nextPageId.toNat :=
    Catalog.length_le_of_allocated hnodup halloc
  have hheight : height < indexFuel :=
    (hsubtree.height_lt.trans_le hlength).trans store.store.catalog.nextPageId.toNat_lt
  have hstored : ∀ i ∈ ids, ∀ node,
      nodeView (store.store.catalog.only d.storedPage) i = some node →
      nodeView d.storedPage i = some node := by
    intro i hi node hnode
    rwa [nodeView, Catalog.only, if_pos (halloc i hi)] at hnode
  rw [Disk.indexEntries, (hsubtree.mono hstored).entriesBelow_eq hheight, hentries]
  exact itemsOf_perm hshows.entries

/-- Every row of a table has a value for each of its columns. -/
structure RowsDecode (store : TransactionalStore FileId) (d : Disk) (table : RelationInfo)
    (rows : List HeapRow) : Prop where
  scan : ∃ e, store.fullScan table.id d = (.ok rows, e)
  decode : ∀ row ∈ rows, ∃ values, decodeRow row.bytes = .ok values ∧
    values.length = table.columns.length

theorem Steady.rowsDecode (h : Steady host records (store, d) db)
    (hmem : relation ∈ store.store.catalog.relations) (hkind : relation.kind = .table) :
    ∃ rows, RowsDecode store d relation rows ∧ rows.Perm (itemsOf relation.id db.rows) := by
  obtain ⟨rows, e, hscan, -, hperm⟩ := h.holds.fullScan hmem hkind
  have hrelation := h.relationOf_mem hmem
  refine ⟨rows, ⟨⟨e, hscan⟩, ?_⟩, hperm⟩
  intro row hrow
  obtain ⟨values, hdecode, hcoerced⟩ := h.rowFits hrelation (hperm.mem_iff.1 hrow)
  exact ⟨values, hdecode, length_of_coerceValues hcoerced⟩

/-- The index holds an entry for each row of its table whose value has a key. -/
structure IndexAgrees (store : TransactionalStore FileId) (d : Disk) (storage : IndexStorage)
    (table : RelationInfo) (rows : List HeapRow) (position : Nat) : Prop where
  table_mem : table ∈ store.store.catalog.relations
  table_id : table.id = storage.tableId
  table_kind : table.kind = .table
  column : resolveColumnIndex table storage.columnName = .ok position
  decode : RowsDecode store d table rows
  entries : (d.indexEntries storage.rootPageId).Perm (rows.filterMap (rowEntry position))
  resolve : ∀ entry ∈ d.indexEntries storage.rootPageId, ∃ row ∈ rows, ∃ e,
    store.readRow table.id entry.rowId d = (.ok (some row), e)

theorem indexStorage_of_kind {pages : PageId → Option Page} {c : Catalog} {held : List Holding}
    (h : Layout pages c held) (hmem : relation ∈ c.relations) (hkind : relation.kind = .index) :
    ∃ storage, relation.indexStorage = some storage := by
  obtain ⟨holding, hat⟩ := h.holdingAt hmem
  cases hat.occupies with
  | table hne heap => cases hkind
  | @index id name columns storage pageIds entries tree => exact ⟨storage, rfl⟩

theorem Steady.indexAgrees (h : Steady host records (store, d) db)
    (hmem : relation ∈ store.store.catalog.relations) {storage : IndexStorage}
    (hstorage : relation.indexStorage = some storage) :
    ∃ table rows position, IndexAgrees store d storage table rows position := by
  obtain ⟨held, hcommitted, hshows⟩ := h.holds
  have hschema : store.store.catalog.schema = db.schema := hshows.schema
  have hsignature : relation.signature ∈ db.schema := by
    rw [← hschema]
    exact List.mem_map_of_mem hmem
  have hids : (db.schema.map Signature.id).Nodup := by
    rw [← hschema, Catalog.schema, List.map_map]
    exact hcommitted.layout.relationIds
  have htarget := target_of_indexStorage hstorage
  obtain ⟨signature, i, hat⟩ := h.consistent.indexes _ hsignature _ _ htarget
  -- The signature that the index names is that of a relation of the catalog.
  obtain ⟨table, hfound, rfl⟩ : ∃ table, store.store.catalog.relationById storage.tableId = some table ∧
      table.signature = signature := by
    have hfound := hat.found
    rw [← hschema, relationOf_schema] at hfound
    exact Option.map_eq_some_iff.1 hfound
  have htable := List.mem_of_find?_eq_some hfound
  have hid : table.id = storage.tableId := by simpa using List.find?_some hfound
  obtain ⟨rows, hrows, hperm⟩ := h.rowsDecode htable hat.kind
  have hentries := (h.indexEntries hmem hstorage).trans
    (h.consistent.index_entries hids hsignature htarget hat)
  rw [← hid] at hentries
  have hagree := hentries.trans (hperm.symm.filterMap (rowEntry i))
  refine ⟨table, rows, i, htable, hid, hat.kind, resolveColumnIndex_of_position hat.position, hrows,
    hagree, ?_⟩
  intro entry hentry
  obtain ⟨row, hrow, hrowEntry⟩ := List.mem_filterMap.1 (hagree.mem_iff.1 hentry)
  obtain ⟨e, hread, -⟩ := h.holds.readRow htable hat.kind (hperm.mem_iff.1 hrow)
  refine ⟨row, hrow, e, ?_⟩
  rwa [rowEntry_rowId hrowEntry]

/-- In every store that statements reach, every index agrees with its table, and every
row of every table has a value for each column. -/
theorem indexes_agree_with_tables {s : TransactionalStore FileId × Disk}
    {book : List (String × List Value)} (h : Reached host s book) :
    (∀ index ∈ s.1.store.catalog.relations, index.kind = .index →
      ∃ storage table rows position, index.indexStorage = some storage ∧
        IndexAgrees s.1 s.2 storage table rows position) ∧
    ∀ table ∈ s.1.store.catalog.relations, table.kind = .table →
      ∃ rows, RowsDecode s.1 s.2 table rows := by
  obtain ⟨records, db, hsteady, -⟩ := h.sound
  constructor
  · intro index hmem hkind
    obtain ⟨held, hcommitted, -⟩ := hsteady.holds
    obtain ⟨storage, hstorage⟩ := indexStorage_of_kind hcommitted.layout hmem hkind
    obtain ⟨table, rows, position, hagrees⟩ := hsteady.indexAgrees hmem hstorage
    exact ⟨storage, table, rows, position, hstorage, hagrees⟩
  · intro table hmem hkind
    obtain ⟨rows, hrows, -⟩ := hsteady.rowsDecode hmem hkind
    exact ⟨rows, hrows⟩

theorem indexes_agree_one_row : ∃ s table rows position rows',
    Reached plainHost s [("t", [.integer 7])] ∧ s.1.store.catalog = indexedTable ∧
    IndexAgrees s.1 s.2 ⟨⟨1⟩, "a", ⟨2⟩⟩ table rows position ∧
    RowsDecode s.1 s.2 ⟨⟨1⟩, "t", .table, .heap [⟨1⟩], [⟨"a", "INTEGER"⟩]⟩ rows' := by
  obtain ⟨s, hreached, hcatalog⟩ := reached_indexed_row
  obtain ⟨hindexes, htables⟩ := indexes_agree_with_tables hreached
  rw [hcatalog] at hindexes htables
  obtain ⟨storage, table, rows, position, hstorage, hagrees⟩ :=
    hindexes _ (List.mem_cons_of_mem _ (List.mem_singleton_self _)) rfl
  obtain ⟨rows', hdecode⟩ := htables _ List.mem_cons_self rfl
  cases hstorage
  exact ⟨s, table, rows, position, rows', hreached, hcatalog, hagrees, hdecode⟩

end Sql

end Rdbms
