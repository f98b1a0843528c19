import Rdbms.Sql.Depicts

/-!
# The engine refines the ideal database

Whatever can be seen of the engine, over any run of texts and openings of the files, can be
seen of the ideal database: every answer, every error and its text, and the answers to
everything that follows. Only texts that change the database may be refused at a limit of the
storage, and they leave nothing behind then.
-/

namespace Rdbms

namespace Sql

open Library Disk

/-! ## Paying entries back -/

section Owes

variable {host : Host} {s : Transaction FileId × Disk} {schema : List Signature}
  {rows : List (RelationId × HeapRow)} {owed : List (RelationId × IndexEntry)}

/-- An index of the schema has a root. -/
theorem indexRoot_of_holds {db : Database} {index : Signature} (h : Transaction.Holds s db)
    (hmem : index ∈ db.schema) (htarget : index.target.isSome) :
    ∃ root, s.1.workingCatalog.indexRoot index.id = .ok root := by
  obtain ⟨held, hsettled, hshows⟩ := h
  rw [← hshows.schema] at hmem
  obtain ⟨relation, hrelation, rfl⟩ := List.mem_map.1 hmem
  obtain ⟨⟨tableId, columnName⟩, htarget⟩ := Option.isSome_iff_exists.1 htarget
  obtain ⟨storage, hstorage, -⟩ := target_eq_some htarget
  obtain ⟨holding, hat⟩ := hsettled.layout.holdingAt hrelation
  refine ⟨storage.rootPageId, ?_⟩
  rw [Catalog.indexRoot, show s.1.workingCatalog.relationById relation.signature.id = _ from hat.found,
    Option.bind_some, hstorage]
  rfl

/-- The index is one of the schema. -/
def Targeted (schema : List Signature) (relationId : RelationId) : Prop :=
  ∃ index ∈ schema, index.id = relationId ∧ index.target.isSome

/-- One entry is paid back, or the storage is full; the register stays that of `s₀`. -/
theorem insertKey_pays {s₀ : Transaction FileId × Disk} {key : Option IndexKey}
    {relationId : RelationId} {rowId : RowId} (hindex : Targeted schema relationId)
    (hregister : Transaction.SameRegister s₀ s) (h : Owes host s schema rows
      ((key.map fun key => (⟨key, rowId⟩ : IndexEntry)).toList.map (Prod.mk relationId) ++ owed)) :
    Exec.Ensures (insertKey relationId rowId key) s Stop.OfStorage fun _ t =>
      Owes host t schema rows owed ∧ Transaction.SameRegister s₀ t := by
  cases key with
  | none => exact Exec.Ensures.pure ⟨h, hregister⟩
  | some key =>
      obtain ⟨index, hmem, rfl, htarget⟩ := hindex
      have hpaid := insertKey_ensures h
      obtain ⟨entries, hholds, -⟩ := h
      obtain ⟨root, hroot⟩ := indexRoot_of_holds hholds hmem htarget
      obtain ⟨held, hsettled, -⟩ := hholds
      obtain ⟨tx, d⟩ := s
      exact ((Transaction.insertIndexEntry_ofStorage hsettled.toLaid (Nat.le_refl _) hroot key rowId).and
        hpaid).imp fun _ _ ht => ⟨ht.2, trans_of Transaction.SameRegister hregister ht.1⟩

end Owes

/-! ## Statements -/

section Statements

variable {host : Host} {records : List WalRecord} {store : TransactionalStore FileId} {d : Disk}
  {db : Database} {ideal : Ideal}

/-- The result is the answer of the ideal database, and the catalog depicts it afterwards. The
rows that it has gained are those that the statement puts in. -/
structure Answered (host : Host) (store : TransactionalStore FileId) (ideal : Ideal) (st : Statement)
    (answer : ExecResult × Ideal) (result : ExecResult) (t : TransactionalStore FileId × Disk) :
    Prop where
  same : SameAnswer answer.1 result
  depicts : Depicts t.1.store.catalog answer.2
  rows : answer.2.rows = ideal.rows ++ rowOf host store st

/-- The statement does what the ideal database does, unless it is refused at a limit. -/
def Follow (host : Host) (s : TransactionalStore FileId × Disk) (ideal : Ideal) (st : Statement)
    (E : Stop → Prop) : Prop :=
  Exec.Matches (executeStatement host st) s (ideal.respond host st) E (Answered host s.1 ideal st)

theorem createTable_follows (h : Steady host records (store, d) db)
    (hdepicts : Depicts store.store.catalog ideal) (name : String) (columns : List ColumnDef) :
    Follow host (store, d) ideal (.createTable name columns) Stop.OfStorage := by
  rw [Follow, hdepicts.tableCheck]
  refine Exec.Matches.bind ((h.holds.withTransaction_matches (k := id) (Q := fun _ relationId c =>
    ∃ pageId, Catalog.Created store.store.catalog
      ⟨relationId, name, .table, .heap [pageId], columns⟩ pageId c) h.free
    (Transaction.createTable_staging _ _) ?_).imp ?_)
  · rintro tx e hcatalog ⟨held, hsettled, -⟩
    rw [← hcatalog]
    refine ((Transaction.createTable_matches hsettled.active name columns).and
      (Transaction.createTable_ensures hsettled.toLaid name columns)).imp ?_
    rintro - relationId t - ⟨-, pageId, -, hcreated⟩
    exact ⟨pageId, hcreated⟩
  · rintro - relationId t - ⟨pageId, hcreated⟩
    refine Exec.Matches.of_ensures (Exec.Ensures.pure ⟨SameAnswer.refl _, ?_, ?_⟩)
    · exact hdepicts.create hcreated (Described.table _ _ _)
    · exact (List.append_nil _).symm

/-- The relation that a statement names, in the catalog. -/
theorem Steady.found (h : Steady host records (store, d) db) {relation : RelationInfo}
    (hmem : relation ∈ store.store.catalog.relations) :
    store.store.catalog.relationById relation.id = some relation := by
  obtain ⟨⟨held, hcommitted, -⟩, -⟩ := h
  obtain ⟨holding, hat⟩ := hcommitted.layout.holdingAt hmem
  exact hat.found

theorem encodeRow_ofStorage (values : List Value) : FailsIn Stop.OfStorage (encodeRow values) := by
  refine (writeU16Len_ofStorage _ _).bind fun count _ => ?_
  refine (FailsIn.mapM fun value _ => ?_).bind fun _ _ => FailsIn.ok _
  cases value with
  | null => exact FailsIn.ok _
  | integer value => exact FailsIn.ok _
  | text value => exact (writeU32Len_ofStorage _ _).bind fun _ _ => FailsIn.ok _
  | double bits => exact FailsIn.ok _

theorem insert_follows (h : Steady host records (store, d) db)
    (hdepicts : Depicts store.store.catalog ideal) (table : String) (values : List Value) :
    Follow host (store, d) ideal (.insert table values) Stop.OfStorage := by
  change Exec.Matches (executeInsert host table values) _ _ _ _
  rw [executeInsert_eq]
  refine Exec.Matches.bind_after (Exec.Ensures.get ?_)
  refine Exec.Matches.check (hdepicts.lookup table) fun relation other hlookup hother => ?_
  obtain ⟨hmem, -, hrelation⟩ := h.lookup hlookup
  have hcolumns : other.columns = relation.columns := hother.columns_eq
  rw [hcolumns, ← hother.ensureHeapRelation (h.found hmem)]
  refine Exec.Matches.same fun coerced hcoerced => ?_
  refine Exec.Matches.bind_after (Exec.Ensures.liftM (fun bytes hbytes => ?_) (encodeRow_ofStorage coerced))
  have hdecode := decodeRow_encodeRow hbytes
  refine Exec.Matches.map (h.holds.withTransaction_matches (Q := fun _ result c =>
    result = .statementComplete 1 ∧ c.schema = store.store.catalog.schema ∧
      store.store.catalog.SameRegister c) h.free (addRow_staging _ _ _ _) ?_) ?_
  · intro tx e hcatalog hholds
    have hactive : tx.state = .active := by
      obtain ⟨held, hsettled, -⟩ := hholds
      exact hsettled.active
    have hinsert := Transaction.insertRow_matches (d := e) hactive relation.id bytes
    rw [hcatalog] at hinsert
    refine Exec.Matches.finish ((hinsert.and
      (Transaction.insertRow_holds hholds relation.id bytes)).imp ?_)
    rintro - rowId t - ⟨hregister, ht⟩
    obtain ⟨hindexes, howed⟩ := h.indexes hrelation ⟨rowId, bytes⟩
    have hfits : RowFits host relation.columns ⟨rowId, bytes⟩ :=
      ⟨coerced, hdecode, coerceValues_idem hcoerced⟩
    have hconsistent := h.consistent.addRow hrelation hfits
    rw [howed] at hconsistent
    have hshows : store.store.catalog.schema = db.schema := by
      obtain ⟨held, -, hshows⟩ := h.holds
      exact hshows.schema
    have hthere : ∀ r ∈ store.store.catalog.indexesOnTable relation.id, Targeted db.schema r.id := by
      intro r hr
      obtain ⟨hmem', -, storage, hstorage, -⟩ := mem_indexesOnTable.1 hr
      refine ⟨r.signature, ?_, rfl, Option.isSome_of_eq_some (target_of_indexStorage hstorage)⟩
      rw [← hshows]
      exact List.mem_map_of_mem hmem'
    have hfound := finds_keyInIndex hdecode (length_of_coerceValues hcoerced)
      fun r hr => ⟨hthere r hr, hindexes r hr⟩
    refine (insertKeys_ensures insertKey_pays hfound (refl_of Transaction.SameRegister t)
      ⟨db.entries, ht, hconsistent⟩).imp ?_
    · rintro _ u ⟨⟨entries, ⟨held, -, hu⟩, -⟩, hregister'⟩
      refine ⟨rfl, hu.schema.trans hshows.symm, ?_⟩
      rw [← hcatalog]
      exact trans_of Transaction.SameRegister hregister hregister'
  · rintro ⟨⟩ result t ⟨rfl, hschema, hregister⟩
    obtain ⟨hrelations, hnext, hextensions⟩ := hdepicts.congr hschema hregister
    refine ⟨SameAnswer.refl _, ⟨hrelations, hnext, hextensions⟩, ?_⟩
    have hrow : (lookupRelation store table >>= fun relation =>
        coerceValues host relation.columns values) = .ok coerced := by
      rw [hlookup]
      exact hcoerced
    simp only [rowOf, hrow]

/-- A table is scanned, in a transaction that shows it. -/
theorem fullScan_of_holds {tx : Transaction FileId} {e : Disk} (h : Transaction.Holds (tx, e) db)
    {relation : RelationInfo} (hmem : relation ∈ tx.workingCatalog.relations)
    (hkind : relation.kind = .table) :
    ∃ heapRows f, Transaction.fullScan relation.id (tx, e) = (.ok heapRows, (tx, f)) ∧
      Transaction.Holds (tx, f) db ∧ heapRows.Perm (itemsOf relation.id db.rows) := by
  have hscanned := Transaction.fullScan_holds h relation.id
  obtain ⟨held, hsettled, -⟩ := h
  obtain ⟨pageIds, heapRows, htable⟩ := hsettled.layout.table hmem hkind
  obtain ⟨f, hscan, -⟩ := hsettled.toLaid.fullScan htable
  obtain ⟨hholds, hperm⟩ := hscanned.ok hscan
  exact ⟨heapRows, f, hscan, hholds, hperm⟩

theorem createIndex_follows (h : Steady host records (store, d) db)
    (hdepicts : Depicts store.store.catalog ideal) (name table columnName : String) :
    Follow host (store, d) ideal (.createIndex name table columnName) Stop.OfStorage := by
  change Exec.Matches (executeCreateIndex name table columnName) _ _ _ _
  rw [executeCreateIndex_eq]
  refine Exec.Matches.bind_after (Exec.Ensures.get ?_)
  refine Exec.Matches.check (hdepicts.lookup table) fun relation other hlookup hother => ?_
  obtain ⟨hmem, hname, hrelation⟩ := h.lookup hlookup
  refine Exec.Matches.check (hother.column columnName) fun i column _ ⟨hi, hcolumn⟩ => ?_
  refine Exec.Matches.bind_after (ensures_ok (DbResult.index_of_getElem? hcolumn) ?_)
  refine Exec.Matches.same fun _ hindexable => ?_
  have hkind : relation.kind = .table := hother.kind_of_indexable hcolumn hindexable
  have hshows : store.store.catalog.schema = db.schema := by
    obtain ⟨held, -, hshows⟩ := h.holds
    exact hshows.schema
  have hexists : ∃ column ∈ relation.columns, column.name = columnName := by
    obtain ⟨hlt, hfound, -⟩ := List.findIdx?_eq_some_iff_getElem.1 hi
    exact ⟨_, List.getElem_mem hlt, beq_iff_eq.1 hfound⟩
  have hcheck := hdepicts.indexCheck hother (h.found hmem) hkind
    (fun i => by rw [hshows]; exact h.id_of_name hmem) hexists name
  have hspec : (do
      validateName "index" name
      validateName "column" columnName
      ideal.ensureFree name
      ideal.ensureUnindexed other columnName
      return (ExecResult.statementComplete 0, ideal.add name (.index table columnName))) = (do
      store.store.catalog.indexCheck name relation.id columnName
      return (ExecResult.statementComplete 0, ideal.add name (.index table columnName))) := by
    rw [hcheck]
    simp only [bind_assoc]
  rw [hspec]
  refine Exec.Matches.map (h.holds.withTransaction_matches (Q := fun _ result c =>
    result = .statementComplete 0 ∧ ∃ created pageId c', created.signature =
        ⟨created.id, name, .index, [⟨columnName, "INDEX_KEY"⟩], some (relation.id, columnName)⟩ ∧
      Catalog.Created store.store.catalog created pageId c' ∧ c.schema = c'.schema ∧
      c'.SameRegister c) h.free (fillIndex_staging _ _ _ _) ?_) ?_
  · intro tx e hcatalog hholds
    obtain ⟨held, hsettled, -⟩ := id hholds
    have hcreate := Transaction.createIndex_matches (d := e) hsettled.active name relation.id columnName
    rw [hcatalog] at hcreate
    refine Exec.Matches.finish (((hcreate.and
      (Transaction.createIndex_holds hholds name relation.id columnName)).and
      (Transaction.createIndex_ensures hsettled.toLaid name relation.id columnName)).imp ?_)
    rintro - created ⟨tx', e'⟩ - ⟨⟨-, ht, -⟩, -, hcreated, -⟩
    have hmem' : relation ∈ tx'.workingCatalog.relations := by
      rw [hcreated.relations, hcatalog]
      exact List.mem_append_left _ hmem
    obtain ⟨heapRows, f, hscan, hu, hperm⟩ := fullScan_of_holds ht hmem' hkind
    refine Exec.Ensures.bind (Exec.Ensures.of_ok hscan ?_)
    have hfits : ∀ row ∈ heapRows, RowFits host relation.columns row :=
      fun row hrow => h.rowFits hrelation (hperm.mem_iff.1 hrow)
    have hat : IndexedAt db.schema relation.id columnName relation.signature i :=
      ⟨hrelation, hkind, hi, column, hcolumn, hindexable⟩
    let index : Signature :=
      ⟨created.1, name, .index, [⟨columnName, "INDEX_KEY"⟩], some (relation.id, columnName)⟩
    have hindex : ∀ tableId columnName', index.target = some (tableId, columnName') →
        ∃ table i, IndexedAt db.schema tableId columnName' table i := by
      rintro _ _ ⟨⟩
      exact ⟨_, i, hat⟩
    have hconsistent := h.consistent.addRelation hindex
    rw [calledFor_of_indexedAt rfl hat] at hconsistent
    have howed := hconsistent.owing_perm ((hperm.symm.filterMap (rowEntry i)).map _)
    have hthere : Targeted (db.schema ++ [index]) created.1 :=
      ⟨index, List.mem_append_right _ (List.mem_singleton_self _), rfl, rfl⟩
    rw [← flatten_owed] at howed
    refine (insertKeys_ensures insertKey_pays (finds_keyOfRow hthere (columnIndex_lt hi) hfits)
      (refl_of Transaction.SameRegister (tx', f)) ⟨db.entries, hu, howed⟩).imp ?_
    rintro _ v ⟨⟨entries, ⟨held', -, hv⟩, -⟩, hregister⟩
    obtain ⟨held'', -, hshown⟩ := hu
    rw [hcatalog] at hcreated
    exact ⟨rfl, _, _, _, rfl, hcreated, hv.schema.trans hshown.schema.symm, hregister⟩
  · rintro ⟨⟩ result t ⟨rfl, created, pageId, c', hsignature, hcreated, hschema, hregister⟩
    have hnamed : nameOf store.store.catalog.schema relation.id = some table := by
      rw [hshows, ← hname]
      exact (h.id_of_name hmem).2 rfl
    obtain rfl : created.name = name := congrArg Signature.name hsignature
    have hdescribed := Described.index created.id created.name columnName hnamed
    rw [← hsignature] at hdescribed
    exact ⟨SameAnswer.refl _, (hdepicts.create hcreated hdescribed).congr hschema hregister,
      (List.append_nil _).symm⟩

theorem loadExtension_follows (h : Steady host records (store, d) db)
    (hdepicts : Depicts store.store.catalog ideal) (name : String) :
    Follow host (store, d) ideal (.loadExtension name) Stop.OfStorage := by
  refine Exec.Matches.same fun descriptor hdescriptor => ?_
  obtain rfl := builtinExtensionDescriptor_eq_ok hdescriptor
  obtain ⟨hcheck, hinstalled⟩ := hdepicts.extensionCheck
  have hcalls : ∀ tx e, tx.workingCatalog = store.store.catalog → Transaction.Holds (tx, e) db →
      Exec.Matches (Transaction.registerExtension "stdlib" rdbmsExtAbiVersion
        (ExtensionKind.asStr .static)) (tx, e) (.ok ()) Stop.OfStorage fun _ _ t =>
          t.1.workingCatalog = { store.store.catalog with extensions := installed true } := by
    rintro tx e hcatalog ⟨held, hsettled, -⟩
    rw [← hcheck, ← hinstalled, ← hcatalog]
    exact Transaction.registerExtension_matches hsettled.active _ _ _
  have hregister := h.holds.withTransaction_matches (k := id) (Q := fun _ _ c =>
    c = { store.store.catalog with extensions := installed true }) h.free
    (Transaction.registerExtension_staging _ _ _) hcalls
  refine Exec.Matches.bind (k := fun _ => .ok _) (hregister.imp ?_)
  rintro - - t - ht
  refine Exec.Matches.of_ensures (Exec.Ensures.pure ⟨SameAnswer.refl _, ?_, ?_⟩)
  · rw [ht]
    exact ⟨hdepicts.relations, hdepicts.next, rfl⟩
  · exact (List.append_nil _).symm

/-! ## Queries -/

theorem selectFunction_follows (hdepicts : Depicts store.store.catalog ideal) (name : String)
    (args : List Value) :
    Follow host (store, d) ideal (.selectFunction name args) fun _ => False := by
  refine Exec.Matches.bind_after (Exec.Ensures.get ?_)
  rw [Ideal.respond, ← hdepicts.call]
  refine Exec.Matches.map (Exec.Matches.liftM (Q := fun answer result (t : TransactionalStore FileId × Disk) =>
    result = answer ∧ t.1 = store) fun answer _ => ⟨rfl, rfl⟩) ?_
  rintro answer result t ⟨rfl, rfl⟩
  exact ⟨SameAnswer.refl _, hdepicts, (List.append_nil _).symm⟩

/-- A SELECT gives the answer over the rows of the table, or says what is wrong with it. -/
theorem select_follows (h : Steady host records (store, d) db) (hbook : Booked db ideal.rows)
    (hdepicts : Depicts store.store.catalog ideal) (projection : Projection) (table : String)
    (selection : Option Selection) :
    Follow host (store, d) ideal (.select projection table selection) fun _ => False := by
  have hanswers : Exec.Matches (executeSelect host projection table selection) (store, d)
      (ideal.respond host (.select projection table selection)) (fun _ => False)
      fun answer result _ => SameAnswer answer.1 result ∧ answer.2 = ideal := by
    refine Exec.Matches.bind_after (Exec.Ensures.get ?_)
    refine Exec.Matches.check (hdepicts.lookup table) fun relation other hlookup hother => ?_
    obtain ⟨hmem, rfl, hrelation⟩ := h.lookup hlookup
    refine Exec.Matches.check (hother.projected projection) fun indexes columns hprojection hcolumns => ?_
    refine Exec.Matches.check (hother.selection selection) fun index _ hselection _ => ?_
    have hwidth : other.columns = relation.columns := hother.columns_eq
    by_cases hkind : relation.kind = .table
    · rw [hother.ensureTable_of_table hkind, hwidth, ← hcolumns]
      obtain ⟨found, t, hcandidates, hin, hanswer⟩ :=
        h.candidateRows hmem hrelation hkind hselection
      refine Exec.Matches.bind_after (Exec.Ensures.of_ok hcandidates ?_)
      refine Exec.Matches.bind_after (ensures_ok (selectRows_eq (fun row hrow =>
        h.rowFits hrelation (hin row hrow)) (inBounds_of_projection hprojection)
        (inBounds_of_selection hselection)) ?_)
      refine Exec.Matches.bind_after (ensures_ok (projectedColumns_of_projection hprojection) ?_)
      refine Exec.Matches.of_ensures (Exec.Ensures.pure ⟨SameAnswer.query _ ?_, rfl⟩)
      exact ((hanswer indexes).trans (h.answers_query hbook hmem hprojection hselection)).symm
    · have hrefused := hother.ensureTable_of_not hkind
      rw [hrefused]
      refine Exec.Matches.of_error (t := (store, d)) ?_ (Or.inl rfl)
      rw [Exec.bind_of_error (h.candidateRows_index hmem hrelation hkind)]
      rfl
  have hleaves : Exec.LeavesIn (fun _ => True) (executeSelect host projection table selection :
      Db (TransactionalStore FileId × Disk) ExecResult) := fun _ _ _ => trivial
  have hlooks := (hleaves.ensures (store, d)).and_rel
    (executeSelect_looking host projection table selection)
  refine (hanswers.and hlooks).imp ?_
  rintro ⟨answer, ideal'⟩ result ⟨store', e⟩ - ⟨⟨hsame, hideal⟩, -, hlooking⟩
  obtain rfl : ideal' = ideal := hideal
  obtain rfl : store' = store := hlooking.handle
  exact ⟨hsame, hdepicts, (List.append_nil _).symm⟩

/-! ## Texts -/

theorem executeStatement_follows (h : Steady host records (store, d) db)
    (hbook : Booked db ideal.rows) (hdepicts : Depicts store.store.catalog ideal) (st : Statement) :
    Follow host (store, d) ideal st fun stop => ¬ st.IsSelect ∧ stop.OfStorage := by
  cases st with
  | createTable name columns =>
      exact (createTable_follows h hdepicts name columns).weaken fun _ hstop => ⟨id, hstop⟩
  | insert table values =>
      exact (insert_follows h hdepicts table values).weaken fun _ hstop => ⟨id, hstop⟩
  | createIndex name table columnName =>
      exact (createIndex_follows h hdepicts name table columnName).weaken fun _ hstop => ⟨id, hstop⟩
  | loadExtension name =>
      exact (loadExtension_follows h hdepicts name).weaken fun _ hstop => ⟨id, hstop⟩
  | selectFunction name args =>
      exact (selectFunction_follows hdepicts name args).weaken fun _ hstop => hstop.elim
  | select projection table selection =>
      exact (select_follows h hbook hdepicts projection table selection).weaken fun _ hstop => hstop.elim

/-- A text does what it does in the ideal database, unless it changes the database and the
storage refuses it. -/
theorem execute_follows (h : Steady host records (store, d) db) (hbook : Booked db ideal.rows)
    (hdepicts : Depicts store.store.catalog ideal) (sql : String) (params : List Value) :
    Exec.Matches (execute host sql params) (store, d) (ideal.execute host sql params)
      (fun stop => Writes host sql params ∧ stop.OfStorage)
      fun answer result t => ∃ st, parseStatement host sql = .ok st ∧
        Answered host store ideal st answer result t := by
  refine Exec.Matches.same fun _ hparams => Exec.Matches.same fun st hparse => ?_
  have hnone : params = [] := not_not.1 (failIf_eq_ok.1 hparams)
  refine ((executeStatement_follows h hbook hdepicts st).weaken ?_).imp ?_
  · exact fun stop hstop => ⟨⟨hnone, st, hparse, hstop.1⟩, hstop.2⟩
  · exact fun answer result t _ hanswered => ⟨st, hparse, hanswered⟩

end Statements

/-! ## Runs -/

/-- The store holds the rows of the ideal database, and its catalog depicts it. -/
structure Realises (host : Host) (s : TransactionalStore FileId × Disk) (ideal : Ideal) : Prop where
  sound : Sound host s ideal.rows
  depicts : Depicts s.1.store.catalog ideal

variable {host : Host} {s : TransactionalStore FileId × Disk} {ideal : Ideal}

theorem Realises.opened (hopen : openTransactionalStore .data .wal fresh = (.ok s.1, s.2)) :
    Realises host s Ideal.empty := by
  refine ⟨Reached.sound (Reached.opened hopen), ?_⟩
  obtain ⟨store, d, hfresh, -, -, hcatalog, -⟩ := open_fresh
  rw [hfresh] at hopen
  obtain rfl : store = s.1 := by injection congrArg Prod.fst hopen
  rw [hcatalog]
  exact depicts_empty

/-- A text that is refused at the storage is refused at one of the limits. -/
theorem exists_limit_of_refusal {stop : Stop} (hstorage : stop.OfStorage) (h : IsRefusal stop) :
    ∃ limit : Limit, stop = limit.stop := by
  rcases h with huser | ⟨message, rfl⟩
  · exact hstorage.exists_limit huser
  · exact hstorage.elim

/-- The ideal database follows a text: it gives the same answer or makes the same check, or the
storage is at one of its limits. -/
theorem Realises.execute (h : Realises host s ideal) (sql : String) (params : List Value)
    (hsmall : PageIdsSmall (execute host sql params s).2.2) :
    ∃ ideal', Ideal.Step host ideal (.executed sql params (execute host sql params s).1) ideal' ∧
      Realises host (execute host sql params s).2 ideal' := by
  have hsound := h.sound.execute sql params hsmall
  obtain ⟨store, d⟩ := s
  obtain ⟨records, db, hsteady, hbooked⟩ := h.sound
  have hfollows := execute_follows hsteady hbooked h.depicts sql params
  have hachieves := execute_achieves hsteady sql params
  rcases hrun : Sql.execute host sql params (store, d) with ⟨stop | result, t⟩
  · rw [hrun] at hsound hsmall
    rw [inserted_of_error hrun, List.append_nil] at hsound
    rcases hachieves _ t hrun hsmall with ⟨_, -, -, hok, -⟩ | ⟨_, hstop, hrefusal, hrefused⟩
    · cases hok
    obtain rfl := Except.error.inj hstop
    have hdepicts : Depicts t.1.store.catalog ideal := by
      rw [hrefused.store]
      exact h.depicts
    refine ⟨ideal, ?_, hsound, hdepicts⟩
    rcases hfollows.error hrun with hrefuses | ⟨hwrites, hstorage⟩
    · exact Ideal.Step.refused hrefuses
    · obtain ⟨limit, rfl⟩ := exists_limit_of_refusal hstorage hrefusal
      exact Ideal.Step.full hwrites limit
  · rw [hrun] at hsound
    obtain ⟨⟨answer, ideal'⟩, hanswer, st, hparse, hanswered⟩ := hfollows.ok hrun
    rw [inserted_of_ok hrun hparse, ← hanswered.rows] at hsound
    exact ⟨ideal', Ideal.Step.answered hanswer hanswered.same, hsound, hanswered.depicts⟩

/-- Closing the files and opening them again changes nothing. -/
theorem Realises.reopened (h : Realises host s ideal) :
    (reopen s).1 = .ok () ∧ Realises host (reopen s).2 ideal := by
  obtain ⟨store, e, hopen, hsound, hcatalog⟩ := h.sound.reopened
  have hreopen : reopen s = (.ok (), store, e) := by rw [reopen, hopen]
  rw [hreopen]
  refine ⟨rfl, hsound, ?_⟩
  rw [hcatalog]
  exact h.depicts

end Sql

end Rdbms
