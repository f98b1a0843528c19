import Rdbms.Sql.PageIds

/-!
# SQL over bags of rows

A table is a bag of rows, and a query over it asks for the rows that satisfy the
predicate, each reduced to the requested columns. In every store that statements
reach, a SELECT gives this answer over the rows that INSERT statements have put into
the table.
-/

namespace Rdbms

namespace Sql

open Library Disk

/-! ## Queries over bags -/

/-- The value that a row has in a column. -/
def cell (columns : List ColumnDef) (values : List Value) (columnName : String) : Option Value :=
  (columnIndex columns columnName).bind fun i => values[i]?

/-- The row satisfies the predicate. -/
def selects (host : Host) (columns : List ColumnDef) : Option Selection → List Value → Bool
  | none, _ => true
  | some wanted, values => (cell columns values wanted.column).any fun value =>
      sqlValuesEqual host value wanted.value

/-- The requested columns of a row, in the requested order. -/
def projects (columns : List ColumnDef) : Projection → List Value → List Value
  | .all, values => values
  | .columns names, values => names.filterMap (cell columns values)

/-- The answer to a query over a bag of rows. -/
def query (host : Host) (columns : List ColumnDef) (projection : Projection)
    (selection : Option Selection) (rows : List (List Value)) : List (List Value) :=
  (rows.filter (selects host columns selection)).map (projects columns projection)

/-- The rows that the book has for a table. -/
def bagOf (table : String) (book : List (String × List Value)) : List (List Value) :=
  (book.filter fun x => x.1 = table).map Prod.snd

/-- The columns that a query names. -/
def namedColumns (projection : Projection) (selection : Option Selection) : List String :=
  (match projection with
  | .all => []
  | .columns names => names) ++ (selection.map Selection.column).toList

/-- Every column that the query names is a column of the table. -/
def ColumnsExist (columns : List ColumnDef) (projection : Projection)
    (selection : Option Selection) : Prop :=
  ∀ columnName ∈ namedColumns projection selection, ∃ column ∈ columns, column.name = columnName

variable {host : Host} {relation : RelationInfo} {projection : Projection}
  {selection : Option Selection}

/-! ## The executor answers queries over bags -/

theorem exists_columnIndex {columns : List ColumnDef} {columnName : String}
    (h : ∃ column ∈ columns, column.name = columnName) : ∃ i, columnIndex columns columnName = some i := by
  obtain ⟨column, hmem, hname⟩ := h
  cases hindex : columnIndex columns columnName with
  | some i => exact ⟨i, rfl⟩
  | none =>
      have hnone := List.findIdx?_eq_none_iff.1 hindex column hmem
      simp [hname] at hnone

theorem filterMap_range_getElem? {α : Type} (xs : List α) :
    (List.range xs.length).filterMap (fun i => xs[i]?) = xs := by
  induction xs with
  | nil => rfl
  | cons x xs ih =>
      rw [List.length_cons, List.range_succ_eq_map, List.filterMap_cons, List.filterMap_map]
      exact congrArg (x :: ·) ih

/-- Existing columns resolve to the positions at which a row has their values. -/
theorem resolves_columns {columnNames : List String}
    (h : ∀ columnName ∈ columnNames, ∃ column ∈ relation.columns, column.name = columnName) :
    ∃ indexes, columnNames.mapM (resolveColumnIndex relation) = .ok indexes ∧
      ∀ values, project indexes values = columnNames.filterMap (cell relation.columns values) := by
  induction columnNames with
  | nil => exact ⟨[], rfl, fun _ => rfl⟩
  | cons columnName columnNames ih =>
      rw [List.forall_mem_cons] at h
      obtain ⟨i, hi⟩ := exists_columnIndex h.1
      obtain ⟨indexes, hindexes, hproject⟩ := ih h.2
      refine ⟨i :: indexes, ?_, fun values => ?_⟩
      · rw [List.mapM_cons, resolveColumnIndex_of_position hi, hindexes]
        rfl
      · rw [project, List.filterMap_cons, List.filterMap_cons, ← project, hproject values, cell, hi,
          Option.bind_some]

theorem resolves_projection (h : ColumnsExist relation.columns projection selection) :
    ∃ indexes, resolveProjection relation projection = .ok indexes ∧
      ∀ values, values.length = relation.columns.length →
        project indexes values = projects relation.columns projection values := by
  cases projection with
  | all =>
      refine ⟨_, rfl, fun values hwidth => ?_⟩
      rw [project, ← hwidth, filterMap_range_getElem?]
      rfl
  | columns columnNames =>
      obtain ⟨indexes, hindexes, hproject⟩ := resolves_columns fun columnName hmem =>
        h columnName (List.mem_append_left _ hmem)
      exact ⟨indexes, hindexes, fun values _ => hproject values⟩

theorem resolves_selection (h : ColumnsExist relation.columns projection selection) :
    ∃ selectionIndex, resolveSelection relation selection = .ok selectionIndex ∧
      satisfies host selectionIndex selection = selects host relation.columns selection := by
  cases selection with
  | none => exact ⟨none, rfl, rfl⟩
  | some wanted =>
      obtain ⟨i, hi⟩ := exists_columnIndex (h wanted.column
        (List.mem_append_right _ (List.mem_singleton_self _)))
      refine ⟨some i, ?_, ?_⟩
      · rw [resolveSelection, resolveColumnIndex_of_position hi]
        rfl
      · funext values
        rw [satisfies, selects, cell, hi, Option.bind_some]

/-- The columns that have been resolved are there. -/
theorem columnsExist_of_resolves {projection : Projection} {selection : Option Selection}
    {indexes : List Nat} {selectionIndex : Option Nat}
    (hprojection : resolveProjection relation projection = .ok indexes)
    (hselection : resolveSelection relation selection = .ok selectionIndex) :
    ColumnsExist relation.columns projection selection := by
  have hexists : ∀ {columnName i}, resolveColumnIndex relation columnName = .ok i →
      ∃ column ∈ relation.columns, column.name = columnName := by
    intro columnName i hi
    obtain ⟨hlt, hname, -⟩ := List.findIdx?_eq_some_iff_getElem.1 (DbResult.okOr_eq_ok hi)
    exact ⟨_, List.getElem_mem hlt, beq_iff_eq.1 hname⟩
  intro columnName hmem
  rcases List.mem_append.1 hmem with hprojected | hselected
  · cases projection with
    | all => cases hprojected
    | columns names =>
        obtain ⟨i, -, hi⟩ := forall₂_mem_right (except_mapM_eq_ok.1 hprojection).flip hprojected
        exact hexists hi
  · cases selection with
    | none => cases hselected
    | some wanted =>
        obtain ⟨i, hi, -⟩ := except_bind_eq_ok.1 hselection
        rw [List.mem_singleton.1 hselected]
        exact hexists hi

/-- Over rows of the right width, positions say the same as names. -/
theorem answer_eq_query {indexes : List Nat} {selectionIndex : Option Nat} {rows : List (List Value)}
    (hproject : ∀ values, values.length = relation.columns.length →
      project indexes values = projects relation.columns projection values)
    (hselects : satisfies host selectionIndex selection = selects host relation.columns selection)
    (hwidth : ∀ values ∈ rows, values.length = relation.columns.length) :
    answer host indexes selectionIndex selection rows =
      query host relation.columns projection selection rows := by
  rw [answer, query, hselects]
  refine List.map_congr_left fun values hvalues => hproject values (hwidth values ?_)
  exact (List.mem_filter.1 hvalues).1

/-! ## The rows of a table are those put in -/

theorem map_filter_eq_filterMap {α β : Type} (p : α → Bool) (f : α → β) (xs : List α) :
    (xs.filter p).map f = xs.filterMap fun x => if p x then some (f x) else none := by
  induction xs with
  | nil => rfl
  | cons x xs ih =>
      by_cases hx : p x
      · rw [List.filter_cons_of_pos hx, List.map_cons, List.filterMap_cons, if_pos hx, ih]
      · rw [List.filter_cons_of_neg hx, List.filterMap_cons, if_neg hx, ih]

section Book

variable {records : List WalRecord} {store : TransactionalStore FileId} {d : Disk} {db : Database}
  {book : List (String × List Value)}

/-- A relation is known by its name. -/
theorem Steady.id_of_name (h : Steady host records (store, d) db)
    (hmem : relation ∈ store.store.catalog.relations) {relationId : RelationId} :
    nameOf db.schema relationId = some relation.name ↔ relationId = relation.id := by
  constructor
  · intro hname
    obtain ⟨signature, hfound, hsame⟩ := Option.map_eq_some_iff.1 hname
    obtain ⟨held, hcommitted, hshows⟩ := h.holds
    have hschema : store.store.catalog.schema = db.schema := hshows.schema
    rw [← hschema, relationOf_schema] at hfound
    obtain ⟨other, hother, rfl⟩ := Option.map_eq_some_iff.1 hfound
    have hid : other.id = relationId := by simpa using List.find?_some hother
    have heq : other = relation := List.inj_on_of_nodup_map hcommitted.layout.names
      (List.mem_of_find?_eq_some hother) hmem hsame
    rw [← hid, heq]
  · rintro rfl
    rw [nameOf, h.relationOf_mem hmem]
    rfl

/-- The rows of a table are those that the book has for its name. -/
theorem Steady.bagOf (h : Steady host records (store, d) db) (hbook : Booked db book)
    (hmem : relation ∈ store.store.catalog.relations) :
    ((itemsOf relation.id db.rows).map valuesOf).Perm (bagOf relation.name book) := by
  -- Both bags read off, entry by entry, what stands under the name of the table.
  let read : Option String × DbResult (List Value) → Option (List Value) := fun x =>
    if x.1 = some relation.name then x.2.toOption else none
  have hstored : (itemsOf relation.id db.rows).map valuesOf =
      (db.rows.map fun x => (nameOf db.schema x.1, decodeRow x.2.bytes)).filterMap read := by
    rw [List.filterMap_map, itemsOf, List.map_map, map_filter_eq_filterMap]
    refine List.filterMap_congr fun x hx => ?_
    obtain ⟨-, -, values, hdecode, -⟩ := h.consistent.rows x hx
    have hvalues : valuesOf x.2 = values := valuesOf_of_decodes hdecode
    simp only [read, Function.comp_apply, decide_eq_true_eq, h.id_of_name hmem, hdecode, hvalues]
    rfl
  have hbooked : Sql.bagOf relation.name book =
      (book.map fun x => (some x.1, (.ok x.2 : DbResult (List Value)))).filterMap read := by
    rw [List.filterMap_map, Sql.bagOf, map_filter_eq_filterMap]
    refine List.filterMap_congr fun x _ => ?_
    simp only [read, Function.comp_apply, decide_eq_true_eq, Option.some_inj]
    rfl
  rw [hstored, hbooked]
  exact hbook.filterMap read

/-- The answer over the stored rows is the answer to the query over the rows in the book. -/
theorem Steady.answers_query (h : Steady host records (store, d) db) (hbook : Booked db book)
    (hmem : relation ∈ store.store.catalog.relations) {indexes : List Nat}
    {selectionIndex : Option Nat} (hprojection : resolveProjection relation projection = .ok indexes)
    (hselection : resolveSelection relation selection = .ok selectionIndex) :
    (answer host indexes selectionIndex selection ((itemsOf relation.id db.rows).map valuesOf)).Perm
      (query host relation.columns projection selection (Sql.bagOf relation.name book)) := by
  have hcolumns := columnsExist_of_resolves hprojection hselection
  obtain ⟨_, hprojection', hproject⟩ := resolves_projection hcolumns
  obtain ⟨_, hselection', hselects⟩ := resolves_selection hcolumns
  obtain rfl := Except.ok.inj (hprojection.symm.trans hprojection')
  obtain rfl := Except.ok.inj (hselection.symm.trans hselection')
  have hwidth : ∀ values ∈ (itemsOf relation.id db.rows).map valuesOf,
      values.length = relation.columns.length := by
    intro values hvalues
    obtain ⟨row, hrow, rfl⟩ := List.mem_map.1 hvalues
    obtain ⟨values, hdecode, hcoerced⟩ := h.rowFits (h.relationOf_mem hmem) hrow
    rw [valuesOf_of_decodes hdecode]
    exact length_of_coerceValues hcoerced
  rw [answer_eq_query hproject hselects hwidth]
  exact ((h.bagOf hbook hmem).filter _).map _

end Book

/-- A SELECT over a table and existing columns gives the answer over the rows in the book. -/
theorem Sound.answers {s : TransactionalStore FileId × Disk} {book : List (String × List Value)}
    (h : Sound host s book) {sql table : String}
    (hparse : parseStatement host sql = .ok (.select projection table selection))
    (hmem : relation ∈ s.1.store.catalog.relations) (hname : relation.name = table)
    (hkind : relation.kind = .table) (hcolumns : ColumnsExist relation.columns projection selection) :
    ∃ columns rows t, Sql.execute host sql [] s = (.ok (.query columns rows), t) ∧
      rows.Perm (query host relation.columns projection selection (bagOf table book)) := by
  obtain ⟨store, d⟩ := s
  obtain ⟨records, db, hsteady, hbook⟩ := h
  subst hname
  obtain ⟨indexes, hprojection, -⟩ := resolves_projection hcolumns
  obtain ⟨selectionIndex, hselection, -⟩ := @resolves_selection host _ _ _ hcolumns
  obtain ⟨rows, t, hrun, hrows⟩ :=
    hsteady.select (hsteady.lookup_of_mem hmem) hkind hprojection hselection
  refine ⟨columnsAt relation indexes, rows, t, ?_, ?_⟩
  · rw [execute_of_parse hparse]
    exact hrun
  · exact hrows.trans (hsteady.answers_query hbook hmem hprojection hselection)

/-- In every store that statements reach, a SELECT over a table and existing columns
gives the answer over the rows that INSERT statements have put into the table. -/
theorem select_answers_query {s : TransactionalStore FileId × Disk}
    {book : List (String × List Value)} (h : Reached host s book) {sql table : String}
    (hparse : parseStatement host sql = .ok (.select projection table selection))
    (hmem : relation ∈ s.1.store.catalog.relations) (hname : relation.name = table)
    (hkind : relation.kind = .table) (hcolumns : ColumnsExist relation.columns projection selection) :
    ∃ columns rows t, execute host sql [] s = (.ok (.query columns rows), t) ∧
      rows.Perm (query host relation.columns projection selection (bagOf table book)) :=
  h.sound.answers hparse hmem hname hkind hcolumns

/-- The query goes through the index. -/
theorem select_answers_query_one_row : ∃ s columns rows t,
    Reached plainHost s [("t", [.integer 7])] ∧ s.1.store.catalog = indexedTable ∧
      execute plainHost "SELECT a FROM t WHERE a = 7" [] s = (.ok (.query columns rows), t) ∧
      rows.Perm [[.integer 7]] := by
  obtain ⟨s, hreached, hcatalog⟩ := reached_indexed_row
  have hparse : parseStatement plainHost "SELECT a FROM t WHERE a = 7" =
      .ok (.select (.columns ["a"]) "t" (some ⟨"a", .integer 7⟩)) :=
    toOption_eq_some.1 (by decide +kernel)
  have hmem : ⟨⟨1⟩, "t", .table, .heap [⟨1⟩], [⟨"a", "INTEGER"⟩]⟩ ∈ s.1.store.catalog.relations := by
    rw [hcatalog]
    exact List.mem_cons_self
  have hcolumns : ColumnsExist [⟨"a", "INTEGER"⟩] (.columns ["a"]) (some ⟨"a", .integer 7⟩) := by
    intro columnName hmem
    obtain rfl : columnName = "a" := by simpa [namedColumns] using hmem
    exact ⟨_, List.mem_singleton_self _, rfl⟩
  obtain ⟨columns, rows, t, hrun, hrows⟩ := select_answers_query hreached hparse hmem rfl rfl hcolumns
  exact ⟨s, columns, rows, t, hreached, hcatalog, hrun, hrows⟩

end Sql

end Rdbms
