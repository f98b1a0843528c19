import Rdbms.Sql.Consistent
import Rdbms.Sql.Execute
import Rdbms.Tx.Autocommit

/-!
# What statements do to a consistent database

Each statement that changes the database starts from a consistent one and, if it
returns, leaves a consistent one with the relation or the row that it adds. While it
runs, the database owes entries to the indexes, and the loops of the executor pay them
back one by one.
-/

namespace Rdbms

namespace Sql

open Library Disk

/-- The transaction shows the relations and the rows, and owes entries to the indexes. -/
def Owes (host : Host) (s : Transaction FileId × Disk) (schema : List Signature)
    (rows : List (RelationId × HeapRow)) (owed : List (RelationId × IndexEntry)) : Prop :=
  ∃ entries, Transaction.Holds s ⟨schema, rows, entries⟩ ∧
    Consistent host ⟨schema, rows, owed ++ entries⟩

variable {host : Host} {s : Transaction FileId × Disk} {schema : List Signature}
  {rows : List (RelationId × HeapRow)} {owed : List (RelationId × IndexEntry)}

theorem ensures_user {σ α : Type} {s : σ} {r : DbResult α} {Q : α → σ → Prop}
    (hr : DbResult.OnlyUser r) (hQ : ∀ a, r = .ok a → Q a s) :
    Exec.Ensures (liftM r : Db σ α) s Stop.IsUser Q := Exec.Ensures.liftM hQ hr

theorem ensures_ok {σ α : Type} {s : σ} {r : DbResult α} {a : α} {E : Stop → Prop}
    {Q : α → σ → Prop} (hr : r = .ok a) (hQ : Q a s) : Exec.Ensures (liftM r : Db σ α) s E Q := by
  rw [hr]
  exact Exec.Ensures.of_ok rfl hQ

/-! ## Paying entries back -/

theorem insertKey_ensures {key : Option IndexKey} {relationId : RelationId} {rowId : RowId}
    (h : Owes host s schema rows
      ((key.map fun key => (⟨key, rowId⟩ : IndexEntry)).toList.map (Prod.mk relationId) ++ owed)) :
    Exec.Ensures (insertKey relationId rowId key) s Stop.IsUser fun _ t =>
      Owes host t schema rows owed := by
  obtain ⟨entries, hholds, hconsistent⟩ := h
  cases key with
  | none => exact Exec.Ensures.pure ⟨entries, hholds, hconsistent⟩
  | some key =>
      refine (Transaction.insertIndexEntry_holds hholds (Nat.le_refl _) relationId key rowId).imp ?_
      intro _ t ht
      have hpaid : Consistent host ((Database.addEntry ⟨schema, rows, entries⟩ relationId
          ⟨key, rowId⟩).owing owed) := Consistent.addEntry hconsistent
      exact ⟨_, ht, hpaid⟩

/-- An index on a column of the table. -/
structure IndexOf (relation : RelationInfo) (indexRelation : RelationInfo) (storage : IndexStorage)
    (i : Nat) : Prop where
  indexStorage : indexRelation.indexStorage = some storage
  table : storage.tableId = relation.id
  position : columnIndex relation.columns storage.columnName = some i

theorem columnIndex_lt {columns : List ColumnDef} {columnName : String} {i : Nat}
    (h : columnIndex columns columnName = some i) : i < columns.length := by
  obtain ⟨hlt, -⟩ := List.findIdx?_eq_some_iff_getElem.1 h
  exact hlt

theorem resolveColumnIndex_of_position {relation : RelationInfo} {columnName : String} {i : Nat}
    (h : columnIndex relation.columns columnName = some i) :
    resolveColumnIndex relation columnName = .ok i := by
  rw [columnIndex] at h
  rw [resolveColumnIndex, h]
  rfl

/-- The key that is found makes up the entry, if there is one, of an index with the property. -/
inductive Finds (A : RelationId → Prop) :
    DbResult (RelationId × RowId × Option IndexKey) → List (RelationId × IndexEntry) → Prop
  | found {relationId : RelationId} {rowId : RowId} {key : Option IndexKey} (allowed : A relationId) :
      Finds A (.ok (relationId, rowId, key))
        ((key.map fun key => (⟨key, rowId⟩ : IndexEntry)).toList.map (Prod.mk relationId))

/-- The loop pays back all entries when one turn pays back one and keeps `P`. -/
theorem insertKeys_ensures {A : RelationId → Prop} {E : Stop → Prop}
    {P : Transaction FileId × Disk → Prop}
    (hone : ∀ {s relationId rowId key owed}, A relationId → P s → Owes host s schema rows
      ((key.map fun key => (⟨key, rowId⟩ : IndexEntry)).toList.map (Prod.mk relationId) ++ owed) →
      Exec.Ensures (insertKey relationId rowId key) s E fun _ t => Owes host t schema rows owed ∧ P t)
    {found : List (DbResult (RelationId × RowId × Option IndexKey))}
    {parts : List (List (RelationId × IndexEntry))} (hfound : List.Forall₂ (Finds A) found parts) :
    ∀ {s}, P s → Owes host s schema rows parts.flatten →
      Exec.Ensures (insertKeys found) s E fun _ t => Owes host t schema rows [] ∧ P t := by
  induction hfound with
  | nil => exact fun hp h => Exec.Ensures.pure ⟨h, hp⟩
  | cons hfirst _ ih =>
      intro s hp h
      cases hfirst with
      | found hallowed =>
          refine Exec.Ensures.bind (ensures_ok rfl ?_)
          exact Exec.Ensures.bind ((hone hallowed hp h).imp fun _ t ht => ih ht.2 ht.1)

/-- The keys of a new row make up what it calls for. -/
theorem finds_keyInIndex {A : RelationId → Prop} {relation : RelationInfo} {values : List Value}
    {row : HeapRow} (hdecode : decodeRow row.bytes = .ok values)
    (hwidth : values.length = relation.columns.length) {indexRelations : List RelationInfo}
    (hindexes : ∀ r ∈ indexRelations, A r.id ∧ ∃ storage i, IndexOf relation r storage i ∧
      calledFor schema [(relation.id, row)] r.signature = (rowEntry i row).toList.map (Prod.mk r.id)) :
    List.Forall₂ (Finds A) (indexRelations.map (keyInIndex relation values row.rowId))
      (indexRelations.map fun r => calledFor schema [(relation.id, row)] r.signature) := by
  rw [List.forall₂_map_left_iff, List.forall₂_map_right_iff, List.forall₂_same]
  intro r hr
  obtain ⟨hallowed, storage, i, hindex, hcalled⟩ := hindexes r hr
  have hi : i < values.length := by
    rw [hwidth]
    exact columnIndex_lt hindex.position
  have hvalue : values[i]? = some (values[i]) := List.getElem?_eq_getElem hi
  have hkey : keyInIndex relation values row.rowId r = .ok (r.id, row.rowId, keyOf values[i]) := by
    rw [keyInIndex, hindex.indexStorage]
    simp only [DbResult.okOr, bind, Except.bind, resolveColumnIndex_of_position hindex.position,
      DbResult.index_of_getElem? hvalue, indexKeyFromValue_eq]
    rfl
  rw [hcalled, rowEntry_of_decodes hdecode hvalue, hkey]
  exact Finds.found hallowed

/-- The keys of the rows of a table make up what they owe to a new index. -/
theorem finds_keyOfRow {A : RelationId → Prop} {relation : RelationInfo} {i : Nat}
    {relationId : RelationId} (hallowed : A relationId) (hi : i < relation.columns.length)
    {heapRows : List HeapRow} (hfits : ∀ row ∈ heapRows, RowFits host relation.columns row) :
    List.Forall₂ (Finds A) (heapRows.map (keyOfRow relation i relationId))
      (heapRows.map fun row => (rowEntry i row).toList.map (Prod.mk relationId)) := by
  rw [List.forall₂_map_left_iff, List.forall₂_map_right_iff, List.forall₂_same]
  intro row hrow
  obtain ⟨values, hdecode, hcoerced⟩ := hfits row hrow
  have hwidth := length_of_coerceValues hcoerced
  have hvalue : values[i]? = some (values[i]) := List.getElem?_eq_getElem (by rwa [hwidth])
  have hkey : keyOfRow relation i relationId row = .ok (relationId, row.rowId, keyOf values[i]) := by
    simp only [keyOfRow, hdecode, bind, Except.bind, validateRowWidth, failIf_of_not (not_not.2 hwidth),
      DbResult.index_of_getElem? hvalue, indexKeyFromValue_eq]
    rfl
  rw [rowEntry_of_decodes hdecode hvalue, hkey]
  exact Finds.found hallowed

/-- What the rows of a table owe to a new index, row by row. -/
theorem flatten_owed (i : Nat) (relationId : RelationId) (heapRows : List HeapRow) :
    (heapRows.map fun row => (rowEntry i row).toList.map (Prod.mk relationId)).flatten =
      (heapRows.filterMap (rowEntry i)).map (Prod.mk relationId) := by
  rw [List.filterMap_eq_flatMap_toList, List.map_flatMap, List.flatMap_def]

/-! ## The loop only stages pages -/

theorem insertKey_staging (relationId : RelationId) (rowId : RowId) (key : Option IndexKey) :
    Exec.Preserves Transaction.Staging
      (insertKey relationId rowId key : Db (Transaction FileId × Disk) Unit) := by
  cases key with
  | none => exact Exec.Preserves.pure ()
  | some key => exact Transaction.insertIndexEntry_staging _ _ _ _

theorem insertKeys_staging (found : List (DbResult (RelationId × RowId × Option IndexKey))) :
    Exec.Preserves Transaction.Staging (insertKeys found : Db (Transaction FileId × Disk) Unit) := by
  induction found with
  | nil => exact Exec.Preserves.pure ()
  | cons first found ih =>
      refine Exec.Preserves.bind (Exec.Preserves.liftM _) fun key => ?_
      exact Exec.Preserves.bind (insertKey_staging _ _ _) fun _ => ih

theorem addRow_staging (relation : RelationInfo) (values : List Value) (bytes : List UInt8)
    (indexRelations : List RelationInfo) : Exec.Preserves Transaction.Staging
      (addRow relation values bytes indexRelations : Db (Transaction FileId × Disk) Unit) :=
  Exec.Preserves.bind (Transaction.insertRow_staging _ _) fun _ => insertKeys_staging _

theorem fillIndex_staging (name : String) (relation : RelationInfo) (columnIndex : Nat)
    (columnName : String) : Exec.Preserves Transaction.Staging
      (fillIndex name relation columnIndex columnName : Db (Transaction FileId × Disk) Unit) :=
  Exec.Preserves.bind (Transaction.createIndex_staging _ _ _) fun _ =>
    Exec.Preserves.bind (Transaction.fullScan_staging _) fun _ => insertKeys_staging _

/-! ## Statements from a consistent database -/

/-- The committed store is free and shows a consistent database. -/
structure Steady (host : Host) (records : List WalRecord) (s : TransactionalStore FileId × Disk)
    (db : Database) : Prop where
  holds : TransactionalStore.Holds records s db
  consistent : Consistent host db
  free : s.1.activeWriter = false

/-- A call returns and leaves a consistent database with the property, or it is refused. -/
def Achieves {α : Type} (host : Host) (records : List WalRecord)
    (s : TransactionalStore FileId × Disk) (m : Db (TransactionalStore FileId × Disk) α)
    (Q : α → Database → Prop) : Prop :=
  ∀ r t, m s = (r, t) → PageIdsSmall t.2 →
    (∃ a records' db', r = .ok a ∧ Steady host records' t db' ∧ Q a db') ∨
    (∃ stop, r = .error stop ∧ IsRefusal stop ∧ Refused records s t)

section Rules

variable {α β : Type} {records : List WalRecord} {s : TransactionalStore FileId × Disk}
  {db : Database} {Q : β → Database → Prop}

theorem Steady.refused_refl (h : Steady host records s db) : Refused records s s := by
  obtain ⟨⟨held, hcommitted, -⟩, -, hfree⟩ := h
  refine ⟨rfl, rfl, hfree, [], ?_, nofun⟩
  rw [List.append_nil]
  exact hcommitted.log

/-- After a refusal the store shows what it showed before. -/
theorem Steady.refused {t : TransactionalStore FileId × Disk} (h : Steady host records s db)
    (hrefused : Refused records s t) : ∃ records', Steady host records' t db := by
  obtain ⟨⟨held, hcommitted, hshows⟩, hconsistent, -⟩ := h
  obtain ⟨hstore, hdata, hfree, new, hlog, -⟩ := hrefused
  refine ⟨records ++ new, ⟨held, hcommitted.congr hstore hlog hdata, ?_⟩, hconsistent, hfree⟩
  rw [hstore]
  exact hshows

theorem Achieves.get {f : TransactionalStore FileId × Disk → Db (TransactionalStore FileId × Disk) β}
    (h : Achieves host records s (f s) Q) : Achieves host records s (Exec.get >>= f) Q := h

/-- A check before anything has happened. -/
theorem Achieves.check {r : DbResult α} {f : α → Db (TransactionalStore FileId × Disk) β}
    (h : Steady host records s db) (hr : ∀ stop, r = .error stop → IsRefusal stop)
    (hf : ∀ a, r = .ok a → Achieves host records s (f a) Q) :
    Achieves host records s (liftM r >>= f) Q := by
  intro result t hrun hsmall
  cases r with
  | ok a => exact hf a rfl result t hrun hsmall
  | error stop =>
      cases hrun
      exact Or.inr ⟨stop, rfl, hr stop rfl, h.refused_refl⟩

theorem Achieves.map {m : Db (TransactionalStore FileId × Disk) α} {k : α → β}
    (h : Achieves host records s m fun a => Q (k a)) :
    Achieves host records s (do let a ← m; return k a) Q := by
  intro result t hrun hsmall
  rcases hm : m s with ⟨stop | a, u⟩
  · rw [Exec.bind_of_error hm] at hrun
    cases hrun
    rcases h _ _ hm hsmall with ⟨a, records', db', hok, -⟩ | ⟨stop', hstop, hrefused⟩
    · cases hok
    · cases hstop
      exact Or.inr ⟨stop, rfl, hrefused⟩
  · rw [Exec.bind_of_ok hm] at hrun
    cases hrun
    rcases h _ _ hm hsmall with ⟨a', records', db', hok, hsteady, hQ⟩ | ⟨stop', hstop, -⟩
    · cases hok
      exact Or.inl ⟨k a, records', db', rfl, hsteady, hQ⟩
    · cases hstop

/-- Calls in a transaction of their own. -/
theorem Achieves.withTransaction {m : Db (Transaction FileId × Disk) α} {k : α → β}
    (h : Steady host records s db) (hstaging : Exec.Preserves Transaction.Staging m)
    (hm : ∀ tx e, tx.workingCatalog = s.1.store.catalog → Transaction.Holds (tx, e) db →
      Exec.Ensures m (tx, e) Stop.IsUser fun a t => ∃ db', Transaction.Holds t db' ∧
        Consistent host db' ∧ Q (k a) db') :
    Achieves host records s (TransactionalStore.withTransaction (do
      let a ← m
      Transaction.commit
      return k a)) Q := by
  rintro result ⟨store', d'⟩ hrun hsmall
  obtain ⟨store, d⟩ := s
  rcases h.holds.withTransaction h.free hstaging hm hrun hsmall with
    ⟨a, records', db', rfl, ⟨hconsistent, hQ⟩, hholds, hfree⟩ | ⟨stop, rfl, huser, hrefused⟩
  · exact Or.inl ⟨k a, records', db', rfl, ⟨hholds, hconsistent, hfree⟩, hQ⟩
  · exact Or.inr ⟨stop, rfl, Or.inl huser, hrefused⟩

end Rules

/-! ## The statements that change the database -/

section Statements

variable {records : List WalRecord} {store : TransactionalStore FileId} {d : Disk} {db : Database}

theorem relationOf_schema (c : Catalog) (relationId : RelationId) :
    relationOf c.schema relationId = (c.relationById relationId).map RelationInfo.signature := by
  rw [relationOf, Catalog.schema, List.find?_map]
  rfl

theorem createTable_achieves (h : Steady host records (store, d) db) (name : String)
    (columns : List ColumnDef) :
    Achieves host records (store, d) (executeStatement host (.createTable name columns))
      fun _ db' => ∃ relationId, db' = db.addRelation ⟨relationId, name, .table, columns, none⟩ := by
  refine Achieves.map (Achieves.withTransaction (k := id) h (Transaction.createTable_staging _ _) ?_)
  intro tx e _ hholds
  refine (Transaction.createTable_holds hholds name columns).imp fun relationId t ht => ?_
  exact ⟨_, ht, h.consistent.addRelation nofun, relationId, rfl⟩

theorem loadExtension_achieves (h : Steady host records (store, d) db) (name : String) :
    Achieves host records (store, d) (executeStatement host (.loadExtension name))
      fun _ db' => db' = db := by
  refine Achieves.check h (fun _ => builtinExtensionDescriptor_refusal) fun descriptor _ => ?_
  refine Achieves.map (Achieves.withTransaction (k := id) h
    (Transaction.registerExtension_staging _ _ _) ?_)
  intro tx e _ hholds
  refine (Transaction.registerExtension_holds hholds _ _ _).imp fun _ t ht => ?_
  exact ⟨db, ht, h.consistent, rfl⟩

/-- A relation, as the schema knows it. -/
theorem Steady.relationOf_mem (h : Steady host records (store, d) db) {relation : RelationInfo}
    (hmem : relation ∈ store.store.catalog.relations) :
    relationOf db.schema relation.id = some relation.signature := by
  obtain ⟨⟨held, hcommitted, hshows⟩, -⟩ := h
  obtain ⟨holding, hat⟩ := hcommitted.layout.holdingAt hmem
  rw [← hshows.schema, relationOf_schema, hat.found]
  rfl

/-- The relation with the name, as the schema knows it. -/
theorem Steady.lookup (h : Steady host records (store, d) db) {table : String}
    {relation : RelationInfo} (hlookup : lookupRelation store table = .ok relation) :
    relation ∈ store.store.catalog.relations ∧ relation.name = table ∧
      relationOf db.schema relation.id = some relation.signature := by
  have hfind : store.store.catalog.relationByName table = some relation :=
    DbResult.okOr_eq_ok hlookup
  have hmem := List.mem_of_find?_eq_some hfind
  exact ⟨hmem, by simpa using List.find?_some hfind, h.relationOf_mem hmem⟩

/-- A relation is found under its name. -/
theorem Steady.lookup_of_mem (h : Steady host records (store, d) db) {relation : RelationInfo}
    (hmem : relation ∈ store.store.catalog.relations) :
    lookupRelation store relation.name = .ok relation := by
  obtain ⟨⟨held, hcommitted, -⟩, -⟩ := h
  have hfind : store.store.catalog.relationByName relation.name = some relation := by
    cases hfound : store.store.catalog.relationByName relation.name with
    | none =>
        have hnone := List.find?_eq_none.1 hfound relation hmem
        simp at hnone
    | some other =>
        have hname : other.name = relation.name := by simpa using List.find?_some hfound
        rw [List.inj_on_of_nodup_map hcommitted.layout.names (List.mem_of_find?_eq_some hfound) hmem
          hname]
  rw [lookupRelation, hfind]
  rfl

theorem target_eq_some {relation : RelationInfo} {tableId : RelationId} {columnName : String}
    (h : relation.signature.target = some (tableId, columnName)) : ∃ storage,
      relation.indexStorage = some storage ∧ storage.tableId = tableId ∧
        storage.columnName = columnName := by
  obtain ⟨id, name, kind, storage, columns⟩ := relation
  cases storage with
  | heap pages => cases h
  | bPlusTree storage =>
      cases h
      exact ⟨storage, rfl, rfl, rfl⟩

theorem target_of_indexStorage {relation : RelationInfo} {storage : IndexStorage}
    (h : relation.indexStorage = some storage) :
    relation.signature.target = some (storage.tableId, storage.columnName) := by
  obtain ⟨id, name, kind, storage', columns⟩ := relation
  cases storage' with
  | heap pages => cases h
  | bPlusTree storage' =>
      cases h
      rfl

theorem mem_indexesOnTable {c : Catalog} {tableId : RelationId} {relation : RelationInfo} :
    relation ∈ c.indexesOnTable tableId ↔ relation ∈ c.relations ∧ relation.kind = .index ∧
      ∃ storage, relation.indexStorage = some storage ∧ storage.tableId = tableId := by
  rw [Catalog.indexesOnTable, List.mem_filter, Bool.and_eq_true, beq_iff_eq]
  cases relation.indexStorage with
  | none => simp
  | some storage => simp

theorem flatMap_filter_of_nil {α β : Type} {xs : List α} {p : α → Bool} {f : α → List β}
    (h : ∀ x ∈ xs, x ∉ xs.filter p → f x = []) : (xs.filter p).flatMap f = xs.flatMap f := by
  induction xs with
  | nil => rfl
  | cons x xs ih =>
      rw [List.forall_mem_cons] at h
      have hrest := ih fun y hy hnot => h.2 y hy fun hmem => hnot ?_
      · by_cases hx : p x
        · rw [List.filter_cons_of_pos hx, List.flatMap_cons, List.flatMap_cons, hrest]
        · have hnil := h.1 fun hmem => hx (List.mem_filter.1 hmem).2
          rw [List.filter_cons_of_neg hx, List.flatMap_cons, hnil, hrest, List.nil_append]
      · exact List.mem_filter.2 ⟨hy, (List.mem_filter.1 hmem).2⟩

/-- The indexes that a new row has to be entered into, as the executor lists them. -/
theorem Steady.indexes (h : Steady host records (store, d) db) {relation : RelationInfo}
    (hrelation : relationOf db.schema relation.id = some relation.signature) (row : HeapRow) :
    (∀ r ∈ store.store.catalog.indexesOnTable relation.id, ∃ storage i, IndexOf relation r storage i ∧
      calledFor db.schema [(relation.id, row)] r.signature =
        (rowEntry i row).toList.map (Prod.mk r.id)) ∧
    db.schema.flatMap (calledFor db.schema [(relation.id, row)]) =
      (store.store.catalog.indexesOnTable relation.id).flatMap
        fun r => calledFor db.schema [(relation.id, row)] r.signature := by
  obtain ⟨⟨held, hcommitted, hshows⟩, hconsistent, -⟩ := h
  have hschema : store.store.catalog.schema = db.schema := hshows.schema
  constructor
  · intro r hr
    obtain ⟨hmem, -, storage, hstorage, htable⟩ := mem_indexesOnTable.1 hr
    have htarget := target_of_indexStorage hstorage
    have hsignature : r.signature ∈ db.schema := by
      rw [← hschema]
      exact List.mem_map_of_mem hmem
    obtain ⟨table, i, hat⟩ := hconsistent.indexes _ hsignature _ _ htarget
    rw [htable] at htarget hat
    obtain rfl : table = relation.signature := Option.some.inj (hat.found.symm.trans hrelation)
    refine ⟨storage, i, ⟨hstorage, htable, hat.position⟩, ?_⟩
    rw [calledFor_of_indexedAt htarget hat]
    have hrow : itemsOf relation.id [(relation.id, row)] = [row] := itemsOf_map relation.id [row]
    rw [hrow, List.filterMap_cons, List.filterMap_nil]
    cases rowEntry i row with
    | none => rfl
    | some entry => rfl
  · have hmap : ∀ f : Signature → List (RelationId × IndexEntry), db.schema.flatMap f =
        store.store.catalog.relations.flatMap fun r => f r.signature := by
      intro f
      rw [← hschema, Catalog.schema, List.flatMap_map]
    rw [hmap]
    refine (flatMap_filter_of_nil fun r hmem hnot => ?_).symm
    refine calledFor_other fun tableId columnName htarget heq => hnot ?_
    obtain ⟨storage, hstorage, htable, -⟩ := target_eq_some htarget
    exact mem_indexesOnTable.2 ⟨hmem, hcommitted.layout.kind_of_index hmem hstorage, storage,
      hstorage, htable.trans heq⟩

/-- An INSERT adds the coerced values as a row of its table. -/
theorem insert_achieves (h : Steady host records (store, d) db) (table : String)
    (values : List Value) :
    Achieves host records (store, d) (executeStatement host (.insert table values))
      fun _ db' => ∃ relation coerced row, lookupRelation store table = .ok relation ∧
        coerceValues host relation.columns values = .ok coerced ∧
        decodeRow row.bytes = .ok coerced ∧ db'.schema = db.schema ∧
        db'.rows = (relation.id, row) :: db.rows := by
  change Achieves host records (store, d) (executeInsert host table values) _
  rw [executeInsert_eq]
  refine Achieves.get (Achieves.check h ?_ fun relation hlookup => ?_)
  · exact fun stop hstop => Or.inl (DbResult.onlyUser_okOr _ _ stop hstop)
  refine Achieves.check h ?_ fun coerced hcoerced => ?_
  · exact fun stop hstop => Or.inl (coerceValues_onlyUser _ _ _ stop hstop)
  refine Achieves.check h ?_ fun bytes hbytes => ?_
  · exact fun stop hstop => Or.inl (encodeRow_onlyUser _ stop hstop)
  obtain ⟨hmem, -, hrelation⟩ := h.lookup hlookup
  have hdecode := decodeRow_encodeRow hbytes
  have hfits : ∀ rowId, RowFits host relation.columns ⟨rowId, bytes⟩ :=
    fun rowId => ⟨coerced, hdecode, coerceValues_idem hcoerced⟩
  refine Achieves.withTransaction h (addRow_staging _ _ _ _) ?_
  intro tx e _ hholds
  refine Exec.Ensures.bind ((Transaction.insertRow_holds hholds relation.id bytes).imp ?_)
  intro rowId t ht
  obtain ⟨hindexes, howed⟩ := h.indexes hrelation ⟨rowId, bytes⟩
  have hconsistent := h.consistent.addRow hrelation (hfits rowId)
  rw [howed] at hconsistent
  have hfound := finds_keyInIndex (A := fun _ => True) hdecode (length_of_coerceValues hcoerced)
    fun r hr => ⟨trivial, hindexes r hr⟩
  refine (insertKeys_ensures (P := fun _ => True) (fun _ _ h => (insertKey_ensures h).imp
    fun _ _ ht => ⟨ht, trivial⟩) hfound trivial ⟨db.entries, ht, hconsistent⟩).imp ?_
  rintro _ u ⟨⟨entries, hu, hconsistent'⟩, -⟩
  exact ⟨_, hu, hconsistent', relation, coerced, ⟨rowId, bytes⟩, hlookup, hcoerced, hdecode, rfl, rfl⟩

/-- A CREATE INDEX adds an index on the column. -/
theorem createIndex_achieves (h : Steady host records (store, d) db) (name table columnName : String) :
    Achieves host records (store, d) (executeStatement host (.createIndex name table columnName))
      fun _ db' => ∃ index : Signature, index.kind = .index ∧ db'.schema = db.schema ++ [index] ∧
        db'.rows = db.rows := by
  change Achieves host records (store, d) (executeCreateIndex name table columnName) _
  rw [executeCreateIndex_eq]
  refine Achieves.get (Achieves.check h ?_ fun relation hlookup => ?_)
  · exact fun stop hstop => Or.inl (DbResult.onlyUser_okOr _ _ stop hstop)
  refine Achieves.check h ?_ fun i hposition => ?_
  · exact fun stop hstop => Or.inl (DbResult.onlyUser_okOr _ _ stop hstop)
  have hi : columnIndex relation.columns columnName = some i := DbResult.okOr_eq_ok hposition
  have hlt := columnIndex_lt hi
  have hcolumn : relation.columns[i]? = some relation.columns[i] := List.getElem?_eq_getElem hlt
  refine Achieves.check h ?_ fun column hget => ?_
  · rw [DbResult.index_of_getElem? hcolumn]
    intro stop hstop
    cases hstop
  obtain rfl : column = relation.columns[i] :=
    Option.some.inj ((DbResult.index_eq_ok hget).symm.trans hcolumn)
  refine Achieves.check h ?_ fun _ hindexable => ?_
  · intro stop hstop
    rw [ensureIndexableColumn] at hstop
    split at hstop
    · cases hstop
    · cases hstop
      exact Or.inl ⟨_, rfl⟩
  obtain ⟨hmem, -, hrelation⟩ := h.lookup hlookup
  refine Achieves.withTransaction h (fillIndex_staging _ _ _ _) ?_
  intro tx e hcatalog hholds
  refine Exec.Ensures.bind ((Transaction.createIndex_holds hholds name relation.id columnName).imp ?_)
  rintro created t ⟨ht, indexed, hindexed⟩
  have hat : IndexedAt db.schema relation.id columnName relation.signature i := by
    refine ⟨hrelation, ?_, hi, relation.columns[i], hcolumn, hindexable⟩
    obtain ⟨⟨held, -, hshows⟩, -⟩ := h
    rw [← hshows.schema, relationOf_schema, ← hcatalog, hindexed.found] at hrelation
    have hsame : indexed.signature = relation.signature := Option.some.inj hrelation
    exact (congrArg Signature.kind hsame).symm.trans hindexed.kind
  refine Exec.Ensures.bind ((Transaction.fullScan_holds ht relation.id).imp ?_)
  rintro heapRows u ⟨hu, hperm⟩
  have hfits : ∀ row ∈ heapRows, RowFits host relation.columns row := by
    intro row hrow
    obtain ⟨table', htable', hfits⟩ :=
      h.consistent.rows _ (mem_itemsOf.1 (hperm.mem_iff.1 hrow))
    obtain rfl : table' = relation.signature := Option.some.inj (htable'.symm.trans hrelation)
    exact hfits
  let index : Signature :=
    ⟨created.1, name, .index, [⟨columnName, "INDEX_KEY"⟩], some (relation.id, columnName)⟩
  have hindex : ∀ tableId columnName', index.target = some (tableId, columnName') →
      ∃ table i, IndexedAt db.schema tableId columnName' table i := by
    rintro _ _ ⟨⟩
    exact ⟨_, i, hat⟩
  have hconsistent := h.consistent.addRelation hindex
  rw [calledFor_of_indexedAt rfl hat] at hconsistent
  have howed := hconsistent.owing_perm ((hperm.symm.filterMap (rowEntry i)).map _)
  rw [← flatten_owed] at howed
  refine (insertKeys_ensures (P := fun _ => True) (fun _ _ h => (insertKey_ensures h).imp
    fun _ _ ht => ⟨ht, trivial⟩) (finds_keyOfRow (A := fun _ => True) trivial hlt hfits) trivial
    ⟨db.entries, hu, howed⟩).imp ?_
  rintro _ v ⟨⟨entries, hv, hconsistent'⟩, -⟩
  exact ⟨_, hv, hconsistent', _, rfl, rfl, rfl⟩

end Statements

end Sql

end Rdbms
