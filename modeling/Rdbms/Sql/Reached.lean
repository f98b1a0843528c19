import Rdbms.Sql.Grammar
import Rdbms.Sql.Select

/-!
# States that statements reach

`Reached` are the stores that statements reach from empty files, together with the rows
that their INSERT statements have put in. In every one of them the store shows a
consistent database whose rows are these, whatever the statements have returned.
-/

namespace Rdbms

namespace Sql

open Library Disk

/-- The row that a statement puts in, with the name of its table. -/
def rowOf (host : Host) (store : TransactionalStore FileId) :
    Statement → List (String × List Value)
  | .insert table values =>
      match lookupRelation store table >>= fun relation => coerceValues host relation.columns values with
      | .ok coerced => [(table, coerced)]
      | .error _ => []
  | _ => []

/-- The row that a text puts in when it returns. -/
def inserted (host : Host) (sql : String) (params : List Value)
    (s : TransactionalStore FileId × Disk) : List (String × List Value) :=
  match (execute host sql params s).1, parseStatement host sql with
  | .ok _, .ok st => rowOf host s.1 st
  | _, _ => []

/-- The stores that statements reach from empty files, with the rows put in on the way.
Page ids stay below 2^51. -/
inductive Reached (host : Host) :
    TransactionalStore FileId × Disk → List (String × List Value) → Prop
  | opened {store : TransactionalStore FileId} {d : Disk}
      (h : openTransactionalStore .data .wal fresh = (.ok store, d)) : Reached host (store, d) []
  | execute {s : TransactionalStore FileId × Disk} {book : List (String × List Value)}
      (h : Reached host s book) (sql : String) (params : List Value)
      (pageIds : PageIdsSmall (execute host sql params s).2.2) :
      Reached host (execute host sql params s).2 (book ++ inserted host sql params s)

/-- The functions of the language's library, where no text denotes a double. -/
def plainHost : Host := ⟨fun _ => none, fun s => s, fun _ => 0, fun a b => a == b⟩

/-- A text without parameters is parsed and executed. -/
theorem execute_of_parse {host : Host} {sql : String} {st : Statement}
    (h : parseStatement host sql = .ok st) (s : TransactionalStore FileId × Disk) :
    execute host sql [] s = executeStatement host st s := by
  simp only [execute, Exec.bind_apply, Exec.liftM_apply, failIf_of_not (not_not.2 rfl), h]

/-- The name of a relation. -/
def nameOf (schema : List Signature) (relationId : RelationId) : Option String :=
  (relationOf schema relationId).map Signature.name

/-- The rows of the database are those in the book. -/
def Booked (db : Database) (book : List (String × List Value)) : Prop :=
  (db.rows.map fun x => (nameOf db.schema x.1, decodeRow x.2.bytes)).Perm
    (book.map fun x => (some x.1, .ok x.2))

/-- What a statement that returns makes of the database. -/
def Effect (host : Host) (store : TransactionalStore FileId) (db : Database) :
    Statement → Database → Prop
  | .createTable name columns, db' =>
      ∃ relationId, db' = db.addRelation ⟨relationId, name, .table, columns, none⟩
  | .insert table values, db' => ∃ relation coerced row, lookupRelation store table = .ok relation ∧
      coerceValues host relation.columns values = .ok coerced ∧ decodeRow row.bytes = .ok coerced ∧
      db'.schema = db.schema ∧ db'.rows = (relation.id, row) :: db.rows
  | .createIndex _ _ _, db' => ∃ index : Signature, index.kind = .index ∧
      db'.schema = db.schema ++ [index] ∧ db'.rows = db.rows
  | _, db' => db' = db

section Statements

variable {host : Host} {records : List WalRecord} {store : TransactionalStore FileId} {d : Disk}
  {db : Database} {book : List (String × List Value)}

/-- A query leaves the database as it is. -/
theorem Achieves.looking {α : Type} {m : Db (TransactionalStore FileId × Disk) α}
    (h : Steady host records (store, d) db) (hlooks : Exec.Preserves Looking m)
    (hm : Exec.Ensures m (store, d) IsRefusal fun _ _ => True) :
    Achieves host records (store, d) m fun _ db' => db' = db := by
  rintro r ⟨store', e⟩ hrun -
  have hlooking : Looking (store, d) (store', e) := hlooks.rel hrun
  obtain rfl : store' = store := hlooking.handle
  cases r with
  | ok a =>
      exact Or.inl ⟨a, records, db, rfl, ⟨h.holds.reads hlooking.disk, h.consistent, h.free⟩, rfl⟩
  | error stop =>
      refine Or.inr ⟨stop, rfl, hm.error hrun, rfl, hlooking.disk.files.data, h.free, [], ?_, nofun⟩
      obtain ⟨⟨held, hcommitted, -⟩, -⟩ := h
      rw [List.append_nil]
      exact hcommitted.log.reads hlooking.disk

/-- A function call returns or is refused. -/
theorem executeSelectFunction_refusal (store : TransactionalStore FileId) (name : String)
    (args : List Value) {stop : Stop} (h : executeSelectFunction store name args = .error stop) :
    IsRefusal stop := by
  rcases registryFromInstalledExtensions_cases store.store.catalog.extensions with
    ⟨registry, hregistry, hstandard⟩ | ⟨stop', hregistry, hrefusal⟩
  · rw [executeSelectFunction, hregistry] at h
    change (registry.callScalar name args >>= _) = _ at h
    rcases except_bind_eq_error.1 h with hcall | ⟨value, hcall, hrest⟩
    · exact Or.inl (callScalar_onlyUser hstandard name args stop hcall)
    · obtain ⟨function, hfunction⟩ := scalarFunction_of_callScalar hcall
      rw [hfunction] at hrest
      cases hrest
  · rw [executeSelectFunction, hregistry] at h
    cases h
    exact hrefusal

theorem executeStatement_achieves (h : Steady host records (store, d) db) (st : Statement) :
    Achieves host records (store, d) (executeStatement host st)
      fun _ db' => Effect host store db st db' := by
  cases st with
  | createTable name columns => exact createTable_achieves h name columns
  | insert table values => exact insert_achieves h table values
  | createIndex name table columnName => exact createIndex_achieves h name table columnName
  | loadExtension name => exact loadExtension_achieves h name
  | selectFunction name args =>
      refine Achieves.looking h (executeStatement_looking host trivial) ?_
      refine Exec.Ensures.bind (Exec.Ensures.get (Exec.Ensures.liftM (fun _ _ => trivial) ?_))
      exact fun stop hstop => executeSelectFunction_refusal store name args hstop
  | select projection table selection =>
      refine Achieves.looking h (executeStatement_looking host trivial) ?_
      exact (h.select_ensures projection table selection).weaken fun stop huser => Or.inl huser

/-- The effect of a text that may be a statement. -/
theorem execute_achieves (h : Steady host records (store, d) db) (sql : String)
    (params : List Value) :
    Achieves host records (store, d) (execute host sql params) fun _ db' =>
      ∃ st, parseStatement host sql = .ok st ∧ Effect host store db st db' := by
  refine Achieves.check h ?_ fun _ _ => Achieves.check h ?_ fun st hst => ?_
  · exact fun stop hstop => Or.inl (DbResult.onlyUser_failIf _ stop hstop)
  · exact fun stop hstop => Or.inl (parseStatement_isUser hstop)
  · intro r t hrun hsmall
    rcases executeStatement_achieves h st r t hrun hsmall with
      ⟨a, records', db', rfl, hsteady, heffect⟩ | hrefused
    · exact Or.inl ⟨a, records', db', rfl, hsteady, st, hst, heffect⟩
    · exact Or.inr hrefused

/-! ## The book -/

theorem Booked.append {new : List Signature} {db' : Database} (h : Booked db book)
    (hconsistent : Consistent host db) (hschema : db'.schema = db.schema ++ new)
    (hrows : db'.rows = db.rows) : Booked db' book := by
  rw [Booked, hrows, hschema]
  refine (List.Perm.of_eq (List.map_congr_left ?_)).trans h
  intro x hx
  obtain ⟨table, htable, -⟩ := hconsistent.rows x hx
  rw [nameOf, nameOf, relationOf_append new htable, htable]

theorem inserted_of_ok {sql : String} {params : List Value} {result : ExecResult}
    {t : TransactionalStore FileId × Disk} {st : Statement}
    (hrun : execute host sql params (store, d) = (.ok result, t))
    (hst : parseStatement host sql = .ok st) :
    inserted host sql params (store, d) = rowOf host store st := by
  rw [inserted, hrun, hst]

theorem Booked.effect {sql : String} {params : List Value} {result : ExecResult}
    {t : TransactionalStore FileId × Disk} {st : Statement} {db' : Database} (h : Booked db book)
    (hsteady : Steady host records (store, d) db)
    (hrun : execute host sql params (store, d) = (.ok result, t))
    (hst : parseStatement host sql = .ok st) (heffect : Effect host store db st db') :
    Booked db' (book ++ inserted host sql params (store, d)) := by
  rw [inserted_of_ok hrun hst]
  cases st with
  | createTable name columns =>
      obtain ⟨relationId, rfl⟩ := heffect
      simp only [rowOf, List.append_nil]
      exact h.append hsteady.consistent rfl rfl
  | insert table values =>
      obtain ⟨relation, coerced, row, hlookup, hcoerced, hdecode, hschema, hrows⟩ := heffect
      obtain ⟨-, hname, hrelation⟩ := hsteady.lookup hlookup
      have hbind : (lookupRelation store table >>= fun relation =>
          coerceValues host relation.columns values) = .ok coerced := by
        rw [hlookup]
        exact hcoerced
      simp only [rowOf, hbind]
      have hnamed : nameOf db.schema relation.id = some table := by
        rw [nameOf, hrelation, ← hname]
        rfl
      rw [Booked, hrows, hschema, List.map_cons, List.map_append, hnamed, hdecode]
      exact (h.cons _).trans (List.perm_append_singleton _ _).symm
  | createIndex name table columnName =>
      obtain ⟨index, -, hschema, hrows⟩ := heffect
      simp only [rowOf, List.append_nil]
      exact h.append hsteady.consistent hschema hrows
  | loadExtension name =>
      obtain rfl : db' = db := heffect
      simpa only [rowOf, List.append_nil] using h
  | selectFunction name args =>
      obtain rfl : db' = db := heffect
      simpa only [rowOf, List.append_nil] using h
  | select projection table selection =>
      obtain rfl : db' = db := heffect
      simpa only [rowOf, List.append_nil] using h

theorem inserted_of_error {sql : String} {params : List Value} {stop : Stop}
    {t : TransactionalStore FileId × Disk}
    (hrun : execute host sql params (store, d) = (.error stop, t)) :
    inserted host sql params (store, d) = [] := by
  rw [inserted, hrun]

end Statements

/-! ## The invariant -/

/-- What holds of every store that statements reach. -/
def Sound (host : Host) (s : TransactionalStore FileId × Disk) (book : List (String × List Value)) :
    Prop := ∃ records db, Steady host records s db ∧ Booked db book

theorem Sound.execute {host : Host} {s : TransactionalStore FileId × Disk}
    {book : List (String × List Value)} (h : Sound host s book) (sql : String) (params : List Value)
    (hsmall : PageIdsSmall (execute host sql params s).2.2) :
    Sound host (execute host sql params s).2 (book ++ inserted host sql params s) := by
  obtain ⟨store, d⟩ := s
  obtain ⟨records, db, hsteady, hbooked⟩ := h
  rcases hrun : Sql.execute host sql params (store, d) with ⟨r, t⟩
  rw [hrun] at hsmall
  rcases execute_achieves hsteady sql params r t hrun hsmall with
    ⟨result, records', db', rfl, hsteady', st, hst, heffect⟩ | ⟨stop, rfl, -, hrefused⟩
  · exact ⟨records', db', hsteady', hbooked.effect hsteady hrun hst heffect⟩
  · obtain ⟨records', hsteady'⟩ := hsteady.refused hrefused
    refine ⟨records', db, hsteady', ?_⟩
    rwa [inserted_of_error hrun, List.append_nil]

theorem Reached.sound {host : Host} {s : TransactionalStore FileId × Disk}
    {book : List (String × List Value)} (h : Reached host s book) : Sound host s book := by
  induction h with
  | opened hopen =>
      obtain ⟨store, d, hfresh, hcommitted, hfree, hcatalog, -⟩ := open_fresh
      rw [hfresh] at hopen
      cases hopen
      refine ⟨[], Database.empty, ⟨⟨[], hcommitted, ?_⟩, consistent_empty host, hfree⟩,
        List.Perm.refl _⟩
      rw [hcatalog]
      exact shows_empty
  | execute h sql params pageIds ih => exact ih.execute sql params pageIds

end Sql

end Rdbms
