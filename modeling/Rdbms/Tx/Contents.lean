import Rdbms.Tx.Committed

/-!
# What a database contains

`Database` forgets pages: it lists the relations by what never changes of them, the
rows of the tables and the entries of the indexes. `Shows` relates a catalog and its
holdings to a database; rows and entries are compared up to their order. Each call of
a transaction adds one relation, one row or one entry to what the transaction shows,
and the calls of the committed store read the database that the store shows.
-/

namespace Rdbms

open Library Disk

/-- What never changes of a relation. -/
structure Signature where
  id : RelationId
  name : String
  kind : RelationKind
  columns : List ColumnDef
  target : Option (RelationId × String)

def RelationInfo.signature (relation : RelationInfo) : Signature :=
  ⟨relation.id, relation.name, relation.kind, relation.columns, relation.storage.target⟩

def Catalog.schema (c : Catalog) : List Signature := c.relations.map RelationInfo.signature

/-- The relations, the rows of the tables and the entries of the indexes. -/
structure Database where
  schema : List Signature
  rows : List (RelationId × HeapRow)
  entries : List (RelationId × IndexEntry)

namespace Database

def empty : Database := ⟨[], [], []⟩

def addRelation (db : Database) (signature : Signature) : Database :=
  { db with schema := db.schema ++ [signature] }

def addRow (db : Database) (relationId : RelationId) (row : HeapRow) : Database :=
  { db with rows := (relationId, row) :: db.rows }

def addEntry (db : Database) (relationId : RelationId) (entry : IndexEntry) : Database :=
  { db with entries := (relationId, entry) :: db.entries }

end Database

/-- The relations of the catalog hold what is in the database. -/
structure Shows (c : Catalog) (held : List Holding) (db : Database) : Prop where
  schema : c.schema = db.schema
  rows : (ledger c.relations held).Perm db.rows
  entries : (postings c.relations held).Perm db.entries

section Shows

variable {c c' : Catalog} {held held' : List Holding} {db : Database}

theorem shows_empty : Shows Catalog.empty [] Database.empty :=
  ⟨rfl, List.Perm.refl _, List.Perm.refl _⟩

theorem Changed.schema {relationId : RelationId} {holding holding' : Holding}
    (h : Changed relationId holding holding' c held c' held') : c'.schema = c.schema := by
  obtain ⟨hid, hlength, hrelations, hrelations', htarget, -⟩ := h
  rw [Catalog.schema, Catalog.schema, hrelations, hrelations', List.map_append, List.map_append,
    List.map_cons, List.map_cons, RelationInfo.signature, RelationInfo.signature, htarget]

/-- One relation holds another row. -/
theorem Shows.addRow (h : Shows c held db) {relationId : RelationId} {ids ids' : List PageId}
    {rows rows' : List HeapRow} {row : HeapRow}
    (hchanged : Changed relationId ⟨ids, .heap rows⟩ ⟨ids', .heap rows'⟩ c held c' held')
    (hrows : rows'.Perm (row :: rows)) : Shows c' held' (db.addRow relationId row) where
  schema := hchanged.schema.trans h.schema
  rows := (hchanged.collect_perm Holding.rows [row] hrows).trans (h.rows.cons _)
  entries := (hchanged.collect_perm Holding.entries [] (List.Perm.refl _)).trans h.entries

/-- One relation holds another entry. -/
theorem Shows.addEntry (h : Shows c held db) {relationId : RelationId} {ids ids' : List PageId}
    {entries entries' : List IndexEntry} {entry : IndexEntry}
    (hchanged : Changed relationId ⟨ids, .tree entries⟩ ⟨ids', .tree entries'⟩ c held c' held')
    (hentries : entries'.Perm (entry :: entries)) :
    Shows c' held' (db.addEntry relationId entry) where
  schema := hchanged.schema.trans h.schema
  rows := (hchanged.collect_perm Holding.rows [] (List.Perm.refl _)).trans h.rows
  entries := (hchanged.collect_perm Holding.entries [entry] hentries).trans (h.entries.cons _)

/-- A relation that holds nothing has been added. -/
theorem Shows.addRelation (h : Shows c held db) {relation : RelationInfo} {holding : Holding}
    (hrelations : c'.relations = c.relations ++ [relation])
    (hlength : c.relations.length = held.length) (hrows : holding.rows = [])
    (hentries : holding.entries = []) :
    Shows c' (held ++ [holding]) (db.addRelation relation.signature) where
  schema := by
    rw [Catalog.schema, hrelations, List.map_append, ← Catalog.schema, h.schema]
    rfl
  rows := by
    rw [hrelations, ledger, collect_create hlength relation hrows]
    exact h.rows
  entries := by
    rw [hrelations, postings, collect_create hlength relation hentries]
    exact h.entries

/-- An index of a laid out catalog is listed as one. -/
theorem Layout.kind_of_index {pages : PageId → Option Page} (h : Layout pages c held)
    {relation : RelationInfo} (hmem : relation ∈ c.relations) {storage : IndexStorage}
    (hstorage : relation.indexStorage = some storage) : relation.kind = .index := by
  obtain ⟨holding, hat⟩ := h.holdingAt hmem
  cases hat.occupies with
  | table hne heap => cases hstorage
  | index tree => rfl

end Shows

/-! ## Calls of a transaction -/

namespace Transaction

/-- Between two calls the transaction shows the database. -/
def Holds (s : Transaction FileId × Disk) (db : Database) : Prop :=
  ∃ held, Settled s held ∧ Shows s.1.workingCatalog held db

variable {s : Transaction FileId × Disk} {db : Database}

theorem createTable_holds (h : Holds s db) (name : String) (columns : List ColumnDef) :
    Exec.Ensures (createTable name columns) s Stop.IsUser fun relationId t =>
      Holds t (db.addRelation ⟨relationId, name, .table, columns, none⟩) := by
  obtain ⟨tx, d⟩ := s
  obtain ⟨held, hsettled, hshows⟩ := h
  refine (createTable_ensures hsettled.toLaid name columns).imp ?_
  rintro relationId t ⟨pageId, ht, hcreated⟩
  exact ⟨_, ht, hshows.addRelation hcreated.relations hsettled.layout.occupies.length_eq rfl rfl⟩

theorem createIndex_holds (h : Holds s db) (name : String) (tableId : RelationId)
    (columnName : String) :
    Exec.Ensures (createIndex name tableId columnName) s Stop.IsUser fun created t =>
      Holds t (db.addRelation ⟨created.1, name, .index, [⟨columnName, "INDEX_KEY"⟩],
        some (tableId, columnName)⟩) ∧
      ∃ table, s.1.workingCatalog.Indexable tableId columnName table := by
  obtain ⟨tx, d⟩ := s
  obtain ⟨held, hsettled, hshows⟩ := h
  refine (createIndex_ensures hsettled.toLaid name tableId columnName).imp ?_
  rintro created t ⟨ht, hcreated, hindexable⟩
  refine ⟨⟨_, ht, ?_⟩, hindexable⟩
  exact hshows.addRelation hcreated.relations hsettled.layout.occupies.length_eq rfl rfl

theorem registerExtension_holds (h : Holds s db) (name : String) (abiVersion : UInt32)
    (kind : String) :
    Exec.Ensures (registerExtension name abiVersion kind) s Stop.IsUser fun _ t => Holds t db := by
  obtain ⟨tx, d⟩ := s
  obtain ⟨held, hsettled, hshows⟩ := h
  refine (registerExtension_ensures hsettled name abiVersion kind).imp ?_
  rintro _ t ⟨ht, hrelations⟩
  refine ⟨held, ht, ?_, ?_, ?_⟩
  · rw [Catalog.schema, hrelations]
    exact hshows.schema
  · rw [hrelations]
    exact hshows.rows
  · rw [hrelations]
    exact hshows.entries

theorem insertRow_holds (h : Holds s db) (relationId : RelationId) (bytes : List UInt8) :
    Exec.Ensures (insertRow relationId bytes) s Stop.IsUser fun rowId t =>
      Holds t (db.addRow relationId ⟨rowId, bytes⟩) := by
  obtain ⟨tx, d⟩ := s
  obtain ⟨held, hsettled, hshows⟩ := h
  refine (insertRow_ensures hsettled relationId bytes).imp ?_
  rintro rowId t ⟨held', ids, ids', rows, rows', ht, hchanged, hperm⟩
  exact ⟨held', ht, hshows.addRow hchanged hperm⟩

theorem insertIndexEntry_holds (h : Holds s db) {fuel : Nat} (hfuel : 2 ^ 64 ≤ fuel)
    (indexRelationId : RelationId) (key : IndexKey) (rowId : RowId) :
    Exec.Ensures (insertIndexEntry fuel indexRelationId key rowId) s Stop.IsUser fun _ t =>
      Holds t (db.addEntry indexRelationId ⟨key, rowId⟩) := by
  obtain ⟨tx, d⟩ := s
  obtain ⟨held, hsettled, hshows⟩ := h
  refine (insertIndexEntry_ensures hsettled.toLaid fuel indexRelationId key rowId).mono
    (fun stop hstop => hstop hfuel) ?_
  rintro _ t ⟨held', ids, ids', entries, entries', ht, hchanged, hperm⟩
  exact ⟨held', ht, hshows.addEntry hchanged hperm⟩

theorem fullScan_holds (h : Holds s db) (relationId : RelationId) :
    Exec.Ensures (fullScan relationId) s Stop.IsUser fun rows t =>
      Holds t db ∧ rows.Perm (itemsOf relationId db.rows) := by
  obtain ⟨tx, d⟩ := s
  obtain ⟨held, hsettled, hshows⟩ := h
  refine (fullScan_ensures hsettled.toLaid relationId).imp ?_
  rintro rows t ⟨e, pageIds, rfl, hreads, htable⟩
  refine ⟨⟨held, ⟨hsettled.toLaid.reads hreads, hsettled.saved.reads hreads⟩, hshows⟩, ?_⟩
  rw [← htable.rows_eq]
  exact itemsOf_perm hshows.rows

end Transaction

/-! ## Calls of the committed store -/

/-- The committed store shows the database. -/
def TransactionalStore.Holds (records : List WalRecord) (s : TransactionalStore FileId × Disk)
    (db : Database) : Prop :=
  ∃ held, Committed records s.1 s.2 held ∧ Shows s.1.store.catalog held db

namespace TransactionalStore

variable {records : List WalRecord} {store : TransactionalStore FileId} {d e : Disk} {db : Database}
  {relation : RelationInfo}

theorem Holds.reads (h : Holds records (store, d) db) (hreads : OnlyReads d e) :
    Holds records (store, e) db := by
  obtain ⟨held, hcommitted, hshows⟩ := h
  exact ⟨held, hcommitted.reads hreads, hshows⟩

theorem Holds.fullScan (h : Holds records (store, d) db)
    (hmem : relation ∈ store.store.catalog.relations) (hkind : relation.kind = .table) :
    ∃ rows e, store.fullScan relation.id d = (.ok rows, e) ∧ OnlyReads d e ∧
      rows.Perm (itemsOf relation.id db.rows) := by
  obtain ⟨held, hcommitted, hshows⟩ := h
  obtain ⟨pageIds, rows, htable⟩ := hcommitted.layout.table hmem hkind
  obtain ⟨e, hscan, hreads⟩ := hcommitted.fullScan htable
  refine ⟨rows, e, hscan, hreads, ?_⟩
  rw [← htable.rows_eq]
  exact itemsOf_perm hshows.rows

theorem Holds.readRow (h : Holds records (store, d) db)
    (hmem : relation ∈ store.store.catalog.relations) (hkind : relation.kind = .table)
    {row : HeapRow} (hrow : row ∈ itemsOf relation.id db.rows) :
    ∃ e, store.readRow relation.id row.rowId d = (.ok (some row), e) ∧ OnlyReads d e := by
  obtain ⟨held, hcommitted, hshows⟩ := h
  obtain ⟨pageIds, rows, htable⟩ := hcommitted.layout.table hmem hkind
  have hrow' : row ∈ rows := by
    rw [← htable.rows_eq]
    exact (itemsOf_perm hshows.rows).mem_iff.2 hrow
  obtain ⟨e, hread⟩ := hcommitted.readRow htable hrow'
  have hreads := readRow_onlyReads store relation.id row.rowId d
  rw [hread] at hreads
  exact ⟨e, hread, hreads⟩

/-- A lookup gives the rows of the entries with the key. -/
theorem Holds.lookupIndex (h : Holds records (store, d) db)
    (hmem : relation ∈ store.store.catalog.relations) {storage : IndexStorage}
    (hstorage : relation.indexStorage = some storage) {fuel : Nat} (hfuel : 2 ^ 64 ≤ fuel)
    (key : IndexKey) :
    ∃ rowIds e, TransactionalStore.lookupIndex fuel relation.id key (store, d) =
        (.ok rowIds, (store, e)) ∧ OnlyReads d e ∧
      rowIds.Perm (rowsWith key (itemsOf relation.id db.entries)) := by
  obtain ⟨held, hcommitted, hshows⟩ := h
  obtain ⟨ids, hroot, htree, hnodup, halloc⟩ := hcommitted.layout.index hmem hstorage
  have hindex : IndexTree lawful (store.store, d) storage.rootPageId
      (itemsOf relation.id (postings store.store.catalog.relations held)) ids := ⟨htree, hnodup, halloc⟩
  have hsteps : ids.length < fuel := by
    have hlength : ids.length ≤ store.store.catalog.nextPageId.toNat :=
      Catalog.length_le_of_allocated hnodup halloc
    exact (hlength.trans_lt store.store.catalog.nextPageId.toNat_lt).trans_le hfuel
  obtain ⟨t, hlookup, -⟩ := lookup_of_fuel hindex ⟨hcommitted.log.faultFree, hcommitted.file⟩ key hsteps
  have hlooking := lookupIndex_looking fuel relation.id key (store, d)
  have hrun : (TransactionalStore.lookupIndex fuel relation.id key (store, d)).1 =
      .ok (rowsWith key (itemsOf relation.id (postings store.store.catalog.relations held))) := by
    simp only [TransactionalStore.lookupIndex, Exec.bind_apply, Exec.get_apply, Exec.liftM_apply,
      hroot, Exec.onPart_apply, hlookup]
  rcases hresult : TransactionalStore.lookupIndex fuel relation.id key (store, d) with ⟨r, store', e⟩
  rw [hresult] at hlooking hrun
  obtain rfl : store' = store := hlooking.handle
  refine ⟨_, e, ?_, hlooking.disk, rowsWith_perm key (itemsOf_perm hshows.entries)⟩
  rw [← hrun]

end TransactionalStore

end Rdbms
