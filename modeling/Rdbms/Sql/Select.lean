import Rdbms.Sql.Statements

/-!
# What a SELECT finds

A SELECT only looks at the store. Over a consistent database the rows that an index
gives for a predicate are the rows of the table that satisfy it, so the answer is the
same as that of a full scan: the rows that satisfy the predicate, each with the
requested columns.
-/

namespace Rdbms

namespace Sql

open Library Disk

/-! ## Queries only look -/

theorem readRows_onlyReads (store : TransactionalStore FileId) (relationId : RelationId)
    (rowIds : List RowId) : Exec.Preserves OnlyReads (readRows store relationId rowIds) := by
  induction rowIds with
  | nil => exact Exec.Preserves.pure _
  | cons rowId rowIds ih =>
      refine Exec.Preserves.bind (TransactionalStore.readRow_onlyReads _ _ _) fun row => ?_
      exact Exec.Preserves.bind ih fun rows => Exec.Preserves.pure _

theorem onRight_looking {H α : Type} {m : Db Disk α} (h : Exec.Preserves OnlyReads m) :
    Exec.Preserves Looking (Exec.onRight m : Db (H × Disk) α) := fun s => ⟨rfl, h s.2⟩

theorem candidateRows_looking (relation : RelationInfo) (selection : Option Selection) :
    Exec.Preserves Looking (candidateRows relation selection :
      Db (TransactionalStore FileId × Disk) (List HeapRow)) := by
  refine Exec.Preserves.bind Exec.Preserves.get fun s => ?_
  have hscan := onRight_looking (H := TransactionalStore FileId)
    (TransactionalStore.fullScan_onlyReads s.1 relation.id)
  cases selection with
  | none => exact hscan
  | some selection =>
      dsimp only
      split
      · exact hscan
      · refine Exec.Preserves.bind (Exec.Preserves.liftM _) fun key => ?_
        cases key with
        | none => exact hscan
        | some key =>
            refine Exec.Preserves.bind (TransactionalStore.lookupIndex_looking _ _ _) fun rowIds => ?_
            exact onRight_looking (readRows_onlyReads _ _ _)

theorem executeSelect_looking (host : Host) (projection : Projection) (table : String)
    (selection : Option Selection) :
    Exec.Preserves Looking (executeSelect host projection table selection :
      Db (TransactionalStore FileId × Disk) ExecResult) := by
  refine Exec.Preserves.bind Exec.Preserves.get fun s => ?_
  refine Exec.Preserves.bind (Exec.Preserves.liftM _) fun relation => ?_
  refine Exec.Preserves.bind (Exec.Preserves.liftM _) fun indexes => ?_
  refine Exec.Preserves.bind (Exec.Preserves.liftM _) fun index => ?_
  refine Exec.Preserves.bind (candidateRows_looking _ _) fun heapRows => ?_
  refine Exec.Preserves.bind (Exec.Preserves.liftM _) fun rows => ?_
  exact Exec.Preserves.bind (Exec.Preserves.liftM _) fun columns => Exec.Preserves.pure _

/-- Any form of SELECT. -/
def Statement.IsSelect : Statement → Prop
  | selectFunction _ _ => True
  | select _ _ _ => True
  | _ => False

/-- A SELECT only looks at the store. -/
theorem executeStatement_looking (host : Host) {st : Statement} (h : st.IsSelect) :
    Exec.Preserves Looking (executeStatement host st :
      Db (TransactionalStore FileId × Disk) ExecResult) := by
  cases st with
  | selectFunction name args =>
      exact Exec.Preserves.bind Exec.Preserves.get fun s => Exec.Preserves.liftM _
  | select projection table selection => exact executeSelect_looking _ _ _ _
  | _ => cases h

/-! ## The answer to a query -/

/-- The values of a row. -/
def valuesOf (row : HeapRow) : List Value := (decodeRow row.bytes).toOption.getD []

/-- The row satisfies the predicate. -/
def satisfies (host : Host) (selectionIndex : Option Nat) (selection : Option Selection)
    (values : List Value) : Bool :=
  match selectionIndex, selection with
  | some index, some selection => values[index]?.any fun value =>
      sqlValuesEqual host value selection.value
  | _, _ => true

/-- The values at the positions. -/
def project (indexes : List Nat) (values : List Value) : List Value :=
  indexes.filterMap fun i => values[i]?

/-- The answer to a query over rows of values. -/
def answer (host : Host) (indexes : List Nat) (selectionIndex : Option Nat)
    (selection : Option Selection) (rows : List (List Value)) : List (List Value) :=
  (rows.filter (satisfies host selectionIndex selection)).map (project indexes)

variable {host : Host} {relation : RelationInfo} {indexes : List Nat} {selectionIndex : Option Nat}
  {selection : Option Selection}

theorem valuesOf_of_decodes {row : HeapRow} {values : List Value}
    (h : decodeRow row.bytes = .ok values) : valuesOf row = values := by
  rw [valuesOf, h]
  rfl

/-- All positions are those of a column. -/
def InBounds (indexes : List Nat) (width : Nat) : Prop := ∀ i ∈ indexes, i < width

theorem mapM_index_of_inBounds {α : Type} {xs : List α} (h : InBounds indexes xs.length) :
    indexes.mapM (DbResult.index xs) = .ok (indexes.filterMap fun i => xs[i]?) := by
  induction indexes with
  | nil => rfl
  | cons i indexes ih =>
      rw [InBounds, List.forall_mem_cons] at h
      have hi : xs[i]? = some xs[i] := List.getElem?_eq_getElem h.1
      rw [List.mapM_cons, DbResult.index_of_getElem? hi, ih h.2, List.filterMap_cons, hi]
      rfl

theorem isSelected_of_inBounds {values : List Value} (h : InBounds selectionIndex.toList values.length) :
    isSelected host selectionIndex selection values =
      .ok (satisfies host selectionIndex selection values) := by
  cases selectionIndex with
  | none => rfl
  | some i =>
      cases selection with
      | none => rfl
      | some selection =>
          have hlt : i < values.length := h i (List.mem_singleton_self i)
          have hi : values[i]? = some values[i] := List.getElem?_eq_getElem hlt
          rw [isSelected, DbResult.index_of_getElem? hi, satisfies, hi]
          rfl

/-- Over rows that fit the table, the executor computes the answer. -/
theorem selectRows_eq {rows : List HeapRow} (hrows : ∀ row ∈ rows, RowFits host relation.columns row)
    (hindexes : InBounds indexes relation.columns.length)
    (hselection : InBounds selectionIndex.toList relation.columns.length) :
    selectRows host relation indexes selectionIndex selection rows =
      .ok (answer host indexes selectionIndex selection (rows.map valuesOf)) := by
  induction rows with
  | nil => rfl
  | cons row rows ih =>
      rw [List.forall_mem_cons] at hrows
      obtain ⟨values, hdecode, hcoerced⟩ := hrows.1
      have hwidth := length_of_coerceValues hcoerced
      rw [← hwidth] at hindexes hselection
      have hrest := ih hrows.2
      have hvalid : validateRowWidth relation values = .ok () := failIf_of_not (not_not.2 hwidth)
      rw [List.map_cons, valuesOf_of_decodes hdecode, answer, List.filter_cons]
      rw [selectRows, hdecode]
      change (validateRowWidth relation values >>= _) = _
      rw [hvalid]
      change (isSelected host selectionIndex selection values >>= _) = _
      rw [isSelected_of_inBounds hselection]
      cases hsatisfies : satisfies host selectionIndex selection values with
      | true =>
          change (indexes.mapM (DbResult.index values) >>= _) = _
          rw [mapM_index_of_inBounds hindexes, hrest]
          rfl
      | false =>
          change selectRows host relation indexes selectionIndex selection rows = _
          rw [hrest]
          rfl

theorem answer_perm {rows rows' : List (List Value)} (h : rows.Perm rows') :
    (answer host indexes selectionIndex selection rows).Perm
      (answer host indexes selectionIndex selection rows') := (h.filter _).map _

/-- Rows that do not satisfy the predicate may be left out. -/
theorem answer_filter (rows : List HeapRow) :
    answer host indexes selectionIndex selection
      ((rows.filter fun row => satisfies host selectionIndex selection (valuesOf row)).map valuesOf) =
    answer host indexes selectionIndex selection (rows.map valuesOf) := by
  rw [answer, answer, List.filter_map, List.filter_map, List.filter_filter]
  simp only [Function.comp_apply, Bool.and_self]
  rfl

/-! ## Rows found through an index -/

/-- In an indexable column, a value equals the wanted one if it has the same key. -/
theorem sqlValuesEqual_eq_key {column : ColumnDef} {value wanted : Value} {key : IndexKey}
    (hfits : coerceValue host column value = .ok value)
    (hindexable : ensureIndexableColumn column = .ok ()) (hkey : keyOf wanted = some key) :
    sqlValuesEqual host value wanted = decide (keyOf value = some key) := by
  cases value with
  | null =>
      cases wanted with
      | null => cases hkey
      | _ => rfl
  | integer n =>
      cases wanted with
      | null => cases hkey
      | double bits => cases hkey
      | text t =>
          cases hkey
          rfl
      | integer m =>
          cases hkey
          by_cases hnm : n = m
          · subst hnm
            simp [sqlValuesEqual, keyOf, indexKeyFromValue, Except.toOption]
          · simp [sqlValuesEqual, keyOf, indexKeyFromValue, Except.toOption, hnm]
  | text s =>
      cases wanted with
      | null => cases hkey
      | double bits => cases hkey
      | integer m =>
          cases hkey
          rfl
      | text t =>
          cases hkey
          by_cases hst : s = t
          · subst hst
            simp [sqlValuesEqual, keyOf, indexKeyFromValue, Except.toOption]
          · simp [sqlValuesEqual, keyOf, indexKeyFromValue, Except.toOption, hst]
  | double bits =>
      -- A double never fits an indexable column.
      exfalso
      have htype : column.typeName ∈ ["INT", "INTEGER", "TEXT"] := by
        by_contra hnot
        rw [ensureIndexableColumn, if_neg hnot] at hindexable
        cases hindexable
      simp only [List.mem_cons, List.not_mem_nil, or_false] at htype
      rcases htype with htype | htype | htype
      · simp [coerceValue, htype, typeError] at hfits
      · simp [coerceValue, htype, typeError] at hfits
      · simp [coerceValue, htype, typeError] at hfits

theorem rowEntry_rowId {i : Nat} {row : HeapRow} {entry : IndexEntry}
    (h : rowEntry i row = some entry) : entry.rowId = row.rowId := by
  obtain ⟨values, -, h⟩ := Option.bind_eq_some_iff.1 h
  obtain ⟨value, -, h⟩ := Option.bind_eq_some_iff.1 h
  obtain ⟨key, -, h⟩ := Option.bind_eq_some_iff.1 h
  cases h
  rfl

/-- The rows of a table whose entries have the key. -/
theorem rowsWith_filterMap (key : IndexKey) (i : Nat) (rows : List HeapRow) :
    rowsWith key (rows.filterMap (rowEntry i)) =
      (rows.filter fun row => (rowEntry i row).any fun entry => entry.key = key).map HeapRow.rowId := by
  induction rows with
  | nil => rfl
  | cons row rows ih =>
      rw [List.filterMap_cons, List.filter_cons]
      cases hrow : rowEntry i row with
      | none => simpa using ih
      | some entry =>
          have hid := rowEntry_rowId hrow
          by_cases hkey : entry.key = key
          · rw [rowsWith] at ih ⊢
            simp [hkey, hid, ih]
          · rw [rowsWith] at ih ⊢
            simp [hkey, ih]

/-- A list that is the image of another one up to order is the image of some order of it. -/
theorem exists_perm_of_map {α β : Type} {f : α → β} {xs : List β} :
    ∀ {ys : List α}, xs.Perm (ys.map f) → ∃ zs : List α, zs.Perm ys ∧ zs.map f = xs := by
  induction xs with
  | nil =>
      intro ys h
      rw [List.map_eq_nil_iff.1 h.nil_eq.symm]
      exact ⟨[], List.Perm.refl _, rfl⟩
  | cons x xs ih =>
      intro ys h
      obtain ⟨y, hy, rfl⟩ := List.mem_map.1 (h.mem_iff.1 List.mem_cons_self)
      obtain ⟨front, back, rfl⟩ := List.append_of_mem hy
      have hmiddle : (f y :: xs).Perm (f y :: (front ++ back).map f) := by
        refine h.trans ?_
        rw [List.map_append, List.map_cons, List.map_append]
        exact List.perm_middle
      obtain ⟨zs, hzs, rfl⟩ := ih hmiddle.cons_inv
      exact ⟨y :: zs, (hzs.cons y).trans List.perm_middle.symm, rfl⟩

section Candidates

variable {records : List WalRecord} {store : TransactionalStore FileId} {d : Disk} {db : Database}

theorem readRows_of_mem (h : TransactionalStore.Holds records (store, d) db)
    (hmem : relation ∈ store.store.catalog.relations) (hkind : relation.kind = .table)
    {rows : List HeapRow} (hrows : ∀ row ∈ rows, row ∈ itemsOf relation.id db.rows) :
    ∃ e, readRows store relation.id (rows.map HeapRow.rowId) d = (.ok rows, e) := by
  induction rows generalizing d with
  | nil => exact ⟨d, rfl⟩
  | cons row rows ih =>
      rw [List.forall_mem_cons] at hrows
      obtain ⟨e, hread, hreads⟩ := h.readRow hmem hkind hrows.1
      obtain ⟨f, hrest⟩ := ih (h.reads hreads) hrows.2
      refine ⟨f, ?_⟩
      rw [List.map_cons, readRows, Exec.bind_of_ok hread, Exec.bind_of_ok hrest]
      rfl

/-- The rows of a table fit its columns. -/
theorem Steady.rowFits (h : Steady host records (store, d) db)
    (hrelation : relationOf db.schema relation.id = some relation.signature) {row : HeapRow}
    (hrow : row ∈ itemsOf relation.id db.rows) : RowFits host relation.columns row := by
  obtain ⟨table, htable, hfits⟩ := h.consistent.rows _ (mem_itemsOf.1 hrow)
  obtain rfl : table = relation.signature := Option.some.inj (htable.symm.trans hrelation)
  exact hfits

/-- The rows that an index finds for a key are those that satisfy the predicate. -/
theorem any_rowEntry_eq_satisfies {columnName : String} {table : Signature} {tableId : RelationId}
    {i : Nat} {wanted : Selection} {key : IndexKey}
    (hat : IndexedAt db.schema tableId columnName table i) (hkey : keyOf wanted.value = some key)
    {row : HeapRow} (hfits : RowFits host table.columns row) :
    ((rowEntry i row).any fun entry => entry.key = key) =
      satisfies host (some i) (some wanted) (valuesOf row) := by
  obtain ⟨values, hdecode, hcoerced⟩ := hfits
  obtain ⟨column, hcolumn, hindexable⟩ := hat.indexable
  have hlt : i < values.length := by
    rw [length_of_coerceValues hcoerced]
    exact (List.getElem?_eq_some_iff.1 hcolumn).1
  have hvalue : values[i]? = some values[i] := List.getElem?_eq_getElem hlt
  rw [rowEntry_of_decodes hdecode hvalue, valuesOf_of_decodes hdecode, satisfies, hvalue, Option.any_some,
    sqlValuesEqual_eq_key (coerceValue_of_fits hcoerced hcolumn hvalue) hindexable hkey]
  cases keyOf values[i] with
  | none => simp
  | some found => simp

/-- What an index gives for the predicate. -/
theorem Steady.candidates_index (h : Steady host records (store, d) db)
    (hmem : relation ∈ store.store.catalog.relations)
    (hrelation : relationOf db.schema relation.id = some relation.signature)
    (hkind : relation.kind = .table) {indexRelation : RelationInfo} {wanted : Selection}
    {key : IndexKey} {i : Nat}
    (hfind : findIndexOnColumn store relation.id wanted.column = some indexRelation)
    (hposition : columnIndex relation.columns wanted.column = some i)
    (hkey : keyOf wanted.value = some key) :
    ∃ rowIds rows e e', TransactionalStore.lookupIndex indexFuel indexRelation.id key (store, d) =
        (.ok rowIds, (store, e)) ∧ readRows store relation.id rowIds e = (.ok rows, e') ∧
      rows.Perm ((itemsOf relation.id db.rows).filter fun row =>
        satisfies host (some i) (some wanted) (valuesOf row)) := by
  obtain ⟨hindex, hcolumn⟩ := And.intro (List.mem_of_find?_eq_some hfind) (List.find?_some hfind)
  obtain ⟨hindexMem, -, storage, hstorage, htable⟩ := mem_indexesOnTable.1 hindex
  rw [hstorage, Option.any_some, beq_iff_eq] at hcolumn
  have htarget := target_of_indexStorage hstorage
  rw [htable, hcolumn] at htarget
  obtain ⟨held, hcommitted, hshows⟩ := h.holds
  have hschema : store.store.catalog.schema = db.schema := hshows.schema
  have hsignature : indexRelation.signature ∈ db.schema := by
    rw [← hschema]
    exact List.mem_map_of_mem hindexMem
  have hids : (db.schema.map Signature.id).Nodup := by
    rw [← hschema, Catalog.schema, List.map_map]
    exact hcommitted.layout.relationIds
  obtain ⟨table, j, hat⟩ := h.consistent.indexes _ hsignature _ _ htarget
  obtain rfl : table = relation.signature := Option.some.inj (hat.found.symm.trans hrelation)
  obtain rfl : j = i := Option.some.inj (hat.position.symm.trans hposition)
  obtain ⟨rowIds, e, hlookup, hreads, hrowIds⟩ :=
    h.holds.lookupIndex hindexMem hstorage (Nat.le_refl _) key
  have hentries := h.consistent.index_entries hids hsignature htarget hat
  have hfound := hrowIds.trans (rowsWith_perm key hentries)
  rw [rowsWith_filterMap] at hfound
  obtain ⟨rows, hrows, rfl⟩ := exists_perm_of_map hfound
  have hin : ∀ row ∈ rows, row ∈ itemsOf relation.id db.rows :=
    fun row hrow => (List.mem_filter.1 (hrows.mem_iff.1 hrow)).1
  obtain ⟨e', hread⟩ := readRows_of_mem (h.holds.reads hreads) hmem hkind hin
  refine ⟨_, rows, e, e', hlookup, hread, hrows.trans ?_⟩
  have hsame : ∀ row ∈ itemsOf relation.id db.rows, ((rowEntry j row).any fun entry => entry.key = key) =
      satisfies host (some j) (some wanted) (valuesOf row) :=
    fun row hrow => any_rowEntry_eq_satisfies hat hkey (h.rowFits hrelation hrow)
  rw [List.filter_congr hsame]

theorem fullScan_onRight {rows : List HeapRow} {e : Disk}
    (h : store.fullScan relation.id d = (.ok rows, e)) :
    Exec.onRight (store.fullScan relation.id) (store, d) = (.ok rows, (store, e)) := by
  rw [Exec.onRight_apply, h]

/-- The candidates lead to the answer over all rows of the table. -/
theorem Steady.candidateRows (h : Steady host records (store, d) db)
    (hmem : relation ∈ store.store.catalog.relations)
    (hrelation : relationOf db.schema relation.id = some relation.signature)
    (hkind : relation.kind = .table)
    (hselection : resolveSelection relation selection = .ok selectionIndex) :
    ∃ rows t, candidateRows relation selection (store, d) = (.ok rows, t) ∧
      (∀ row ∈ rows, row ∈ itemsOf relation.id db.rows) ∧
      ∀ indexes, (answer host indexes selectionIndex selection (rows.map valuesOf)).Perm
        (answer host indexes selectionIndex selection ((itemsOf relation.id db.rows).map valuesOf)) := by
  obtain ⟨scanned, e, hscan, -, hscanned⟩ := h.holds.fullScan hmem hkind
  have hall : (∀ row ∈ scanned, row ∈ itemsOf relation.id db.rows) ∧
      ∀ indexes, (answer host indexes selectionIndex selection (scanned.map valuesOf)).Perm
        (answer host indexes selectionIndex selection ((itemsOf relation.id db.rows).map valuesOf)) :=
    ⟨fun row hrow => hscanned.mem_iff.1 hrow, fun indexes => answer_perm (hscanned.map _)⟩
  cases selection with
  | none =>
      refine ⟨scanned, (store, e), ?_, hall⟩
      exact fullScan_onRight hscan
  | some wanted =>
      obtain ⟨i, hresolve, hi⟩ := except_bind_eq_ok.1 hselection
      cases hi
      have hposition : columnIndex relation.columns wanted.column = some i :=
        DbResult.okOr_eq_ok hresolve
      rw [Sql.candidateRows]
      cases hfind : findIndexOnColumn store relation.id wanted.column with
      | none =>
          refine ⟨scanned, (store, e), ?_, hall⟩
          simp only [Exec.bind_apply, Exec.get_apply, hfind]
          exact fullScan_onRight hscan
      | some indexRelation =>
          cases hkey : keyOf wanted.value with
          | none =>
              refine ⟨scanned, (store, e), ?_, hall⟩
              simp only [Exec.bind_apply, Exec.get_apply, hfind, indexKeyFromValue_eq, hkey,
                Exec.liftM_apply]
              exact fullScan_onRight hscan
          | some key =>
              obtain ⟨rowIds, rows, f, f', hlookup, hread, hrows⟩ :=
                h.candidates_index hmem hrelation hkind hfind hposition hkey
              refine ⟨rows, (store, f'), ?_, ?_, ?_⟩
              · simp only [Exec.bind_apply, Exec.get_apply, hfind, indexKeyFromValue_eq, hkey,
                  Exec.liftM_apply, hlookup, Exec.onRight_apply, hread]
              · exact fun row hrow => (List.mem_filter.1 (hrows.mem_iff.1 hrow)).1
              · intro indexes
                rw [← answer_filter (itemsOf relation.id db.rows)]
                exact answer_perm (hrows.map _)

/-- The columns that a query returns. -/
def columnsAt (relation : RelationInfo) (indexes : List Nat) : List ColumnInfo :=
  (indexes.filterMap fun i => relation.columns[i]?).map fun column => ⟨column.name, column.typeName⟩

theorem inBounds_of_resolves {columnName : String} {i : Nat}
    (h : resolveColumnIndex relation columnName = .ok i) : i < relation.columns.length :=
  columnIndex_lt (DbResult.okOr_eq_ok h)

theorem inBounds_of_projection {projection : Projection}
    (h : resolveProjection relation projection = .ok indexes) :
    InBounds indexes relation.columns.length := by
  cases projection with
  | all =>
      cases h
      exact fun i hi => List.mem_range.1 hi
  | columns names =>
      intro i hi
      obtain ⟨name, -, hname⟩ := forall₂_mem_right (except_mapM_eq_ok.1 h) hi
      exact inBounds_of_resolves hname

theorem projectedColumns_of_projection {projection : Projection}
    (h : resolveProjection relation projection = .ok indexes) :
    projectedColumns relation indexes = .ok (columnsAt relation indexes) := by
  rw [projectedColumns, mapM_index_of_inBounds (inBounds_of_projection h)]
  rfl

theorem inBounds_of_selection (h : resolveSelection relation selection = .ok selectionIndex) :
    InBounds selectionIndex.toList relation.columns.length := by
  cases selection with
  | none =>
      cases h
      exact nofun
  | some wanted =>
      obtain ⟨i, hresolve, hi⟩ := except_bind_eq_ok.1 h
      cases hi
      intro j hj
      rw [List.mem_singleton.1 hj]
      exact inBounds_of_resolves hresolve

/-- A SELECT over a table and existing columns gives the answer over the rows of the
table. -/
theorem Steady.select (h : Steady host records (store, d) db) {projection : Projection}
    {table : String} (hlookup : lookupRelation store table = .ok relation)
    (hkind : relation.kind = .table) (hprojection : resolveProjection relation projection = .ok indexes)
    (hselection : resolveSelection relation selection = .ok selectionIndex) :
    ∃ rows t, executeSelect host projection table selection (store, d) =
        (.ok (.query (columnsAt relation indexes) rows), t) ∧
      rows.Perm (answer host indexes selectionIndex selection
        ((itemsOf relation.id db.rows).map valuesOf)) := by
  obtain ⟨hmem, -, hrelation⟩ := h.lookup hlookup
  obtain ⟨found, t, hcandidates, hin, hanswer⟩ := h.candidateRows hmem hrelation hkind hselection
  have hrows : selectRows host relation indexes selectionIndex selection found =
      .ok (answer host indexes selectionIndex selection (found.map valuesOf)) :=
    selectRows_eq (fun row hrow => h.rowFits hrelation (hin row hrow))
      (inBounds_of_projection hprojection) (inBounds_of_selection hselection)
  refine ⟨_, t, ?_, hanswer indexes⟩
  simp only [executeSelect, Exec.bind_apply, Exec.get_apply, Exec.liftM_apply, hlookup, hprojection,
    hselection, hcandidates, hrows, projectedColumns_of_projection hprojection, Exec.pure_apply]

/-- The rows of an index cannot be scanned. -/
theorem Steady.candidateRows_index (h : Steady host records (store, d) db)
    (hmem : relation ∈ store.store.catalog.relations)
    (hrelation : relationOf db.schema relation.id = some relation.signature)
    (hkind : relation.kind ≠ .table) :
    Sql.candidateRows relation selection (store, d) =
      (DbResult.user s!"relation is not a heap table: {relation.id.val}", (store, d)) := by
  obtain ⟨held, hcommitted, hshows⟩ := h.holds
  have hscan : Exec.onRight (store.fullScan relation.id) (store, d) =
      (DbResult.user s!"relation is not a heap table: {relation.id.val}", (store, d)) := by
    obtain ⟨holding, hat⟩ := hcommitted.layout.holdingAt hmem
    have hrefused : store.store.catalog.ensureHeapRelation relation.id =
        DbResult.user s!"relation is not a heap table: {relation.id.val}" := by
      rw [Catalog.ensureHeapRelation, show store.store.catalog.relationById relation.id = _ from hat.found]
      exact failIf_of (by simpa [RelationInfo.isHeapTable] using hkind)
    rw [Exec.onRight_apply, TransactionalStore.fullScan, CatalogStore.fullScan, hrefused]
    rfl
  cases selection with
  | none => exact hscan
  | some wanted =>
      -- There is no index on an index.
      have hnone : findIndexOnColumn store relation.id wanted.column = none := by
        rw [findIndexOnColumn, List.find?_eq_none]
        intro r hr
        obtain ⟨hindexMem, -, storage, hstorage, htable⟩ := mem_indexesOnTable.1 hr
        have htarget := target_of_indexStorage hstorage
        have hsignature : r.signature ∈ db.schema := by
          rw [← hshows.schema]
          exact List.mem_map_of_mem hindexMem
        obtain ⟨table, i, hat⟩ := h.consistent.indexes _ hsignature _ _ htarget
        rw [htable] at hat
        obtain rfl : table = relation.signature := Option.some.inj (hat.found.symm.trans hrelation)
        exact absurd hat.kind hkind
      simp only [Sql.candidateRows, Exec.bind_apply, Exec.get_apply, hnone]
      exact hscan

theorem resolveColumnIndex_onlyUser (relation : RelationInfo) (columnName : String) :
    DbResult.OnlyUser (resolveColumnIndex relation columnName) := DbResult.onlyUser_okOr _ _

theorem resolveProjection_onlyUser (relation : RelationInfo) (projection : Projection) :
    DbResult.OnlyUser (resolveProjection relation projection) := by
  cases projection with
  | all => exact DbResult.onlyUser_ok _
  | columns names => exact DbResult.onlyUser_mapM fun name _ => resolveColumnIndex_onlyUser _ _

theorem resolveSelection_onlyUser (relation : RelationInfo) (selection : Option Selection) :
    DbResult.OnlyUser (resolveSelection relation selection) := by
  cases selection with
  | none => exact DbResult.onlyUser_ok _
  | some wanted =>
      exact (resolveColumnIndex_onlyUser _ _).bind fun _ _ => DbResult.onlyUser_ok _

/-- A SELECT fails with user errors only. -/
theorem Steady.select_ensures (h : Steady host records (store, d) db) (projection : Projection)
    (table : String) (selection : Option Selection) :
    Exec.Ensures (executeSelect host projection table selection) (store, d) Stop.IsUser
      fun _ _ => True := by
  refine Exec.Ensures.bind (Exec.Ensures.get ?_)
  refine Exec.Ensures.bind (ensures_user (DbResult.onlyUser_okOr _ _) fun relation hlookup => ?_)
  obtain ⟨hmem, -, hrelation⟩ := h.lookup hlookup
  refine Exec.Ensures.bind (ensures_user (resolveProjection_onlyUser _ _) fun indexes hprojection => ?_)
  refine Exec.Ensures.bind (ensures_user (resolveSelection_onlyUser _ _) fun index hselection => ?_)
  by_cases hkind : relation.kind = .table
  · obtain ⟨found, t, hcandidates, hin, -⟩ := h.candidateRows hmem hrelation hkind hselection
    refine Exec.Ensures.bind (Exec.Ensures.of_ok hcandidates ?_)
    refine Exec.Ensures.bind (ensures_ok (selectRows_eq (fun row hrow => h.rowFits hrelation (hin row hrow))
      (inBounds_of_projection hprojection) (inBounds_of_selection hselection)) ?_)
    refine Exec.Ensures.bind (ensures_ok (projectedColumns_of_projection hprojection) ?_)
    exact Exec.Ensures.pure trivial
  · exact Exec.Ensures.bind
      (Exec.Ensures.of_error (h.candidateRows_index hmem hrelation hkind) ⟨_, rfl⟩)

end Candidates

end Sql

end Rdbms
