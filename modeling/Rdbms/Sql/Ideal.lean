import Rdbms.Library.Refinement
import Rdbms.Sql.Durable
import Rdbms.Tx.Limits

/-!
# The ideal database

What the engine is for, without its files: named tables and indexes, and a bag of rows. The
ideal database has no pages, no ids of pages or transactions and no index entries, and it
answers a SELECT by looking at all rows. It makes the checks that users see, in their order
and with their texts, and nothing else can happen to a statement, except that one that
changes the database may be refused at a limit of the storage.
-/

namespace Rdbms

namespace Sql

open Library Disk

/-- What a relation is: a table with its columns, or an index on a column of a table. -/
inductive Definition where
  | table (columns : List ColumnDef)
  | index (table column : String)
  deriving DecidableEq, Repr

/-- A relation, with the number under which it was created. -/
structure Relation where
  number : Nat
  name : String
  definition : Definition
  deriving DecidableEq, Repr

namespace Relation

variable (relation : Relation)

def columns : List ColumnDef :=
  match relation.definition with
  | .table columns => columns
  | .index _ column => [⟨column, "INDEX_KEY"⟩]

def column (columnName : String) : DbResult ColumnDef :=
  let relationName := relation.name
  DbResult.okOr (relation.columns.find? fun column => column.name == columnName)
    (DbResult.user s!"unknown column '{columnName}' on relation '{relationName}'")

/-- The columns that a query returns. -/
def projected : Projection → DbResult (List ColumnDef)
  | .all => .ok relation.columns
  | .columns names => names.mapM relation.column

/-- The column of the predicate has to be there. -/
def checkSelection : Option Selection → DbResult Unit
  | none => .ok ()
  | some wanted => do
      let _ ← relation.column wanted.column
      return ()

def ensureTable : DbResult Unit :=
  let number := relation.number
  match relation.definition with
  | .table _ => .ok ()
  | .index _ _ => DbResult.user s!"relation is not a heap table: {number}"

end Relation

/-- The function of the list that goes by the name. -/
def functionNamed (functions : List ScalarFunction) (name : String) : Option ScalarFunction :=
  functions.find? fun function => normalizeName function.name == normalizeName name

/-- The relations, whether the standard extension is loaded, and the rows of the tables. -/
structure Ideal where
  relations : List Relation
  stdlib : Bool
  rows : List (String × List Value)

namespace Ideal

def empty : Ideal := ⟨[], false, []⟩

variable (ideal : Ideal)

def lookup (table : String) : DbResult Relation :=
  DbResult.okOr (ideal.relations.find? fun relation => relation.name == table)
    (DbResult.user s!"unknown relation: {table}")

/-- The name of a new relation has to be free. -/
def ensureFree (name : String) : DbResult Unit :=
  failIf (ideal.relations.any fun relation => relation.name == name)
    (DbResult.user s!"relation already exists: {name}")

/-- A column has one index at most. -/
def ensureUnindexed (relation : Relation) (columnName : String) : DbResult Unit :=
  let number := relation.number
  failIf (ideal.relations.any fun other => other.definition = .index relation.name columnName)
    (DbResult.user s!"index already exists on relation {number} column {columnName}")

def add (name : String) (definition : Definition) : Ideal :=
  { ideal with relations :=
      ideal.relations ++ [⟨ideal.relations.length + 1, name, definition⟩] }

def functions : List ScalarFunction := if ideal.stdlib then stdlibFunctions else []

def call (name : String) (args : List Value) : DbResult ExecResult := do
  let function ← DbResult.okOr (functionNamed ideal.functions name)
    (DbResult.user s!"unknown scalar function: {name}")
  let functionName := function.name
  let arity := function.arity.describe
  let given := args.length
  failIf (function.arity.accepts given = false)
    (DbResult.user s!"scalar function '{functionName}' expects {arity} argument(s), got {given}")
  let value ← function.eval args
  return .query [⟨function.name, scalarResultType function.returnType value⟩] [[value]]

/-- What a statement answers, and the database after it. -/
def respond (host : Host) : Statement → DbResult (ExecResult × Ideal)
  | .createTable name columns => do
      validateName "relation" name
      validateColumns columns
      ideal.ensureFree name
      return (.statementComplete 0, ideal.add name (.table columns))
  | .insert table values => do
      let relation ← ideal.lookup table
      let coerced ← coerceValues host relation.columns values
      relation.ensureTable
      return (.statementComplete 1, { ideal with rows := ideal.rows ++ [(table, coerced)] })
  | .createIndex name table columnName => do
      let relation ← ideal.lookup table
      let column ← relation.column columnName
      ensureIndexableColumn column
      validateName "index" name
      validateName "column" columnName
      ideal.ensureFree name
      ideal.ensureUnindexed relation columnName
      return (.statementComplete 0, ideal.add name (.index table columnName))
  | .loadExtension name => do
      let _ ← builtinExtensionDescriptor name
      return (.statementComplete 0, { ideal with stdlib := true })
  | .selectFunction name args => do
      let answer ← ideal.call name args
      return (answer, ideal)
  | .select projection table selection => do
      let relation ← ideal.lookup table
      let columns ← relation.projected projection
      relation.checkSelection selection
      relation.ensureTable
      return (.query (columns.map fun column => ⟨column.name, column.typeName⟩)
        (query host relation.columns projection selection (bagOf table ideal.rows)), ideal)

/-- What a text answers, and the database after it. -/
def execute (host : Host) (sql : String) (params : List Value) : DbResult (ExecResult × Ideal) := do
  failIf (params ≠ []) (DbResult.user "SQL parameters are not supported in Stage 9")
  let statement ← parseStatement host sql
  ideal.respond host statement

end Ideal

/-! ## What is seen of a database -/

/-- A text is executed, or the database is closed and opened again. -/
inductive Event where
  | executed (sql : String) (params : List Value) (result : DbResult ExecResult)
  | reopened (result : DbResult Unit)

/-- The answers differ in the order of the rows only. -/
inductive SameAnswer : ExecResult → ExecResult → Prop
  | statementComplete (count : UInt64) :
      SameAnswer (.statementComplete count) (.statementComplete count)
  | query (columns : List ColumnInfo) {rows rows' : List (List Value)} (h : rows.Perm rows') :
      SameAnswer (.query columns rows) (.query columns rows')

theorem SameAnswer.refl (answer : ExecResult) : SameAnswer answer answer := by
  cases answer with
  | statementComplete count => exact statementComplete count
  | query columns rows => exact query columns (List.Perm.refl rows)

/-- A text that changes the database. -/
def Writes (host : Host) (sql : String) (params : List Value) : Prop :=
  params = [] ∧ ∃ st, parseStatement host sql = .ok st ∧ ¬ st.IsSelect

/-- The steps of the ideal database. The order of the rows of an answer is left open. A text
that changes the database may be refused at a limit, and then changes nothing. -/
inductive Ideal.Step (host : Host) : Ideal → Event → Ideal → Prop
  | answered {ideal ideal' : Ideal} {sql : String} {params : List Value} {answer result : ExecResult}
      (h : ideal.execute host sql params = .ok (answer, ideal')) (hsame : SameAnswer answer result) :
      Step host ideal (.executed sql params (.ok result)) ideal'
  | refused {ideal : Ideal} {sql : String} {params : List Value} {stop : Stop}
      (h : ideal.execute host sql params = .error stop) :
      Step host ideal (.executed sql params (.error stop)) ideal
  | full {ideal : Ideal} {sql : String} {params : List Value} (h : Writes host sql params)
      (limit : Limit) : Step host ideal (.executed sql params (.error limit.stop)) ideal
  | reopened (ideal : Ideal) : Step host ideal (.reopened (.ok ())) ideal

/-- Close the files and open them again. A handle that cannot be opened is kept. -/
def reopen (s : TransactionalStore FileId × Disk) : DbResult Unit × TransactionalStore FileId × Disk :=
  match openTransactionalStore .data .wal s.2 with
  | (.ok store, d) => (.ok (), store, d)
  | (.error stop, d) => (.error stop, s.1, d)

end Sql

end Rdbms
