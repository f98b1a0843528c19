import Rdbms.Sql.Extension
import Rdbms.Sql.Parser
import Rdbms.Sql.Row
import Rdbms.Tx.Basic

/-!
# Executing SQL statements

Every statement that changes something runs in a transaction of its own, which is
dropped with everything it has staged when one of its calls returns an error. A
SELECT reads the committed store, through an index where there is one on the column
of the predicate.
-/

namespace Rdbms

namespace Sql

open Library

/-- The bound on the steps of an index operation. No tree has more pages than there
are page ids. -/
def indexFuel : Nat := 2 ^ 64

section Lookup

variable {F : Type}

def lookupRelation (store : TransactionalStore F) (table : String) : DbResult RelationInfo :=
  DbResult.okOr (store.store.catalog.relationByName table)
    (DbResult.user s!"unknown relation: {table}")

def findIndexOnColumn (store : TransactionalStore F) (tableId : RelationId) (columnName : String) :
    Option RelationInfo :=
  (store.store.catalog.indexesOnTable tableId).find? fun relation =>
    relation.indexStorage.any fun storage => storage.columnName == columnName

end Lookup

section Execute

variable {W F : Type} [VfsFile W F]

/-! ## Statements that change the database -/

def executeLoadExtension (name : String) : Db (TransactionalStore F × W) ExecResult := do
  let descriptor ← builtinExtensionDescriptor name
  let _ ← TransactionalStore.registerExtensionAutocommit descriptor.name descriptor.abiVersion
    descriptor.kind.asStr
  return .statementComplete 0

/-- Enter a row into an index under its key, if it has one. -/
def insertKey (indexRelationId : RelationId) (rowId : RowId) :
    Option IndexKey → Db (Transaction F × W) Unit
  | some key => Transaction.insertIndexEntry indexFuel indexRelationId key rowId
  | none => pure ()

/-- Enter a new row into the indexes of its table. -/
def insertIntoIndexes (relation : RelationInfo) (values : List Value) (rowId : RowId) :
    List RelationInfo → Db (Transaction F × W) Unit
  | [] => pure ()
  | indexRelation :: indexRelations => do
      let indexStorage ← DbResult.okOr indexRelation.indexStorage
        (DbResult.internalInvariant "index relation without index storage")
      let columnIndex ← resolveColumnIndex relation indexStorage.columnName
      let value ← DbResult.index values columnIndex
      let key ← indexKeyFromValue value
      insertKey indexRelation.id rowId key
      insertIntoIndexes relation values rowId indexRelations

def executeInsert (host : Host) (table : String) (values : List Value) :
    Db (TransactionalStore F × W) ExecResult := do
  let (store, _) ← Exec.get
  let relation ← lookupRelation store table
  let values ← coerceValues host relation.columns values
  let bytes ← encodeRow values
  let indexRelations := store.store.catalog.indexesOnTable relation.id
  TransactionalStore.withTransaction do
    let rowId ← Transaction.insertRow relation.id bytes
    insertIntoIndexes relation values rowId indexRelations
    Transaction.commit
    return .statementComplete 1

/-- Enter the rows of a table into a new index. -/
def insertRowsIntoIndex (relation : RelationInfo) (columnIndex : Nat) (indexRelationId : RelationId) :
    List HeapRow → Db (Transaction F × W) Unit
  | [] => pure ()
  | heapRow :: heapRows => do
      let values ← decodeRow heapRow.bytes
      validateRowWidth relation values
      let value ← DbResult.index values columnIndex
      let key ← indexKeyFromValue value
      insertKey indexRelationId heapRow.rowId key
      insertRowsIntoIndex relation columnIndex indexRelationId heapRows

def executeCreateIndex (name table columnName : String) :
    Db (TransactionalStore F × W) ExecResult := do
  let (store, _) ← Exec.get
  let relation ← lookupRelation store table
  let columnIndex ← resolveColumnIndex relation columnName
  let column ← DbResult.index relation.columns columnIndex
  ensureIndexableColumn column
  TransactionalStore.withTransaction do
    let (indexRelationId, _) ← Transaction.createIndex name relation.id columnName
    let heapRows ← Transaction.fullScan relation.id
    insertRowsIntoIndex relation columnIndex indexRelationId heapRows
    Transaction.commit
    return .statementComplete 0

/-! ## The two loops as one -/

/-- Enter rows into indexes under the keys that are found one after the other. -/
def insertKeys :
    List (DbResult (RelationId × RowId × Option IndexKey)) → Db (Transaction F × W) Unit
  | [] => pure ()
  | found :: rest => do
      let (indexRelationId, rowId, key) ← found
      insertKey indexRelationId rowId key
      insertKeys rest

/-- The key of a new row in an index of its table. -/
def keyInIndex (relation : RelationInfo) (values : List Value) (rowId : RowId)
    (indexRelation : RelationInfo) : DbResult (RelationId × RowId × Option IndexKey) := do
  let indexStorage ← DbResult.okOr indexRelation.indexStorage
    (DbResult.internalInvariant "index relation without index storage")
  let columnIndex ← resolveColumnIndex relation indexStorage.columnName
  let value ← DbResult.index values columnIndex
  let key ← indexKeyFromValue value
  return (indexRelation.id, rowId, key)

/-- The key of a stored row in a new index. -/
def keyOfRow (relation : RelationInfo) (columnIndex : Nat) (indexRelationId : RelationId)
    (heapRow : HeapRow) : DbResult (RelationId × RowId × Option IndexKey) := do
  let values ← decodeRow heapRow.bytes
  validateRowWidth relation values
  let value ← DbResult.index values columnIndex
  let key ← indexKeyFromValue value
  return (indexRelationId, heapRow.rowId, key)

theorem insertIntoIndexes_eq (relation : RelationInfo) (values : List Value) (rowId : RowId)
    (indexRelations : List RelationInfo) :
    (insertIntoIndexes relation values rowId indexRelations : Db (Transaction F × W) Unit) =
      insertKeys (indexRelations.map (keyInIndex relation values rowId)) := by
  induction indexRelations with
  | nil => rfl
  | cons indexRelation indexRelations ih =>
      rw [insertIntoIndexes, ih]
      simp only [List.map_cons, insertKeys, keyInIndex, Exec.liftM_bind, Exec.bind_assoc]
      rfl

theorem insertRowsIntoIndex_eq (relation : RelationInfo) (columnIndex : Nat)
    (indexRelationId : RelationId) (heapRows : List HeapRow) :
    (insertRowsIntoIndex relation columnIndex indexRelationId heapRows :
        Db (Transaction F × W) Unit) =
      insertKeys (heapRows.map (keyOfRow relation columnIndex indexRelationId)) := by
  induction heapRows with
  | nil => rfl
  | cons heapRow heapRows ih =>
      rw [insertRowsIntoIndex, ih]
      simp only [List.map_cons, insertKeys, keyOfRow, Exec.liftM_bind, Exec.bind_assoc]
      rfl

/-- Insert a row and enter it into the indexes of its table. -/
def addRow (relation : RelationInfo) (values : List Value) (bytes : List UInt8)
    (indexRelations : List RelationInfo) : Db (Transaction F × W) Unit := do
  let rowId ← Transaction.insertRow relation.id bytes
  insertKeys (indexRelations.map (keyInIndex relation values rowId))

/-- Create an index and enter the rows of its table. -/
def fillIndex (name : String) (relation : RelationInfo) (columnIndex : Nat) (columnName : String) :
    Db (Transaction F × W) Unit := do
  let created ← Transaction.createIndex name relation.id columnName
  let heapRows ← Transaction.fullScan relation.id
  insertKeys (heapRows.map (keyOfRow relation columnIndex created.1))

/-- What stands in front of the commit is one computation. -/
theorem executeInsert_eq (host : Host) (table : String) (values : List Value) :
    (executeInsert host table values : Db (TransactionalStore F × W) ExecResult) = (do
      let (store, _) ← Exec.get
      let relation ← lookupRelation store table
      let values ← coerceValues host relation.columns values
      let bytes ← encodeRow values
      TransactionalStore.withTransaction do
        addRow relation values bytes (store.store.catalog.indexesOnTable relation.id)
        Transaction.commit
        return .statementComplete 1) := by
  simp only [executeInsert, addRow, insertIntoIndexes_eq, Exec.bind_assoc]

theorem executeCreateIndex_eq (name table columnName : String) :
    (executeCreateIndex name table columnName : Db (TransactionalStore F × W) ExecResult) = (do
      let (store, _) ← Exec.get
      let relation ← lookupRelation store table
      let columnIndex ← resolveColumnIndex relation columnName
      let column ← DbResult.index relation.columns columnIndex
      ensureIndexableColumn column
      TransactionalStore.withTransaction do
        fillIndex name relation columnIndex columnName
        Transaction.commit
        return .statementComplete 0) := by
  simp only [executeCreateIndex, fillIndex, insertRowsIntoIndex_eq, Exec.bind_assoc]

/-! ## Queries -/

def scalarResultType (declared : String) (value : Value) : String :=
  if declared ≠ "DYNAMIC" then declared
  else
    match value with
    | .null => "NULL"
    | .integer _ => "INT"
    | .text _ => "TEXT"
    | .double _ => "DOUBLE"

def executeSelectFunction (store : TransactionalStore F) (name : String) (args : List Value) :
    DbResult ExecResult := do
  let registry ← registryFromInstalledExtensions store.store.catalog.extensions
  let value ← registry.callScalar name args
  let function ← DbResult.okOr (registry.scalarFunction name)
    (DbResult.internalInvariant "function disappeared after call")
  return .query [⟨function.name, scalarResultType function.returnType value⟩] [[value]]

/-- The rows that an index has found. -/
def readRows (store : TransactionalStore F) (relationId : RelationId) :
    List RowId → Db W (List HeapRow)
  | [] => pure []
  | rowId :: rowIds => do
      let row ← store.readRow relationId rowId
      let rows ← readRows store relationId rowIds
      return row.toList ++ rows

def candidateRows (relation : RelationInfo) (selection : Option Selection) :
    Db (TransactionalStore F × W) (List HeapRow) := do
  let (store, _) ← Exec.get
  match selection with
  | none => Exec.onRight (store.fullScan relation.id)
  | some selection =>
      match findIndexOnColumn store relation.id selection.column with
      | none => Exec.onRight (store.fullScan relation.id)
      | some indexRelation => do
          let key ← indexKeyFromValue selection.value
          match key with
          | none => Exec.onRight (store.fullScan relation.id)
          | some key => do
              let rowIds ← TransactionalStore.lookupIndex indexFuel indexRelation.id key
              Exec.onRight (readRows store relation.id rowIds)

/-- The position of the column of the predicate. -/
def resolveSelection (relation : RelationInfo) : Option Selection → DbResult (Option Nat)
  | some selection => do
      let index ← resolveColumnIndex relation selection.column
      return some index
  | none => .ok none

/-- Whether a row satisfies the predicate. -/
def isSelected (host : Host) (selectionIndex : Option Nat) (selection : Option Selection)
    (values : List Value) : DbResult Bool :=
  match selectionIndex, selection with
  | some index, some selection => do
      let value ← DbResult.index values index
      return sqlValuesEqual host value selection.value
  | _, _ => .ok true

/-- The projections of the rows that satisfy the predicate. -/
def selectRows (host : Host) (relation : RelationInfo) (projectedIndexes : List Nat)
    (selectionIndex : Option Nat) (selection : Option Selection) :
    List HeapRow → DbResult (List (List Value))
  | [] => .ok []
  | heapRow :: heapRows => do
      let values ← decodeRow heapRow.bytes
      validateRowWidth relation values
      let selected ← isSelected host selectionIndex selection values
      if selected then do
        let outputRow ← projectedIndexes.mapM (DbResult.index values)
        let rows ← selectRows host relation projectedIndexes selectionIndex selection heapRows
        return outputRow :: rows
      else selectRows host relation projectedIndexes selectionIndex selection heapRows

def projectedColumns (relation : RelationInfo) (projectedIndexes : List Nat) :
    DbResult (List ColumnInfo) := do
  let columns ← projectedIndexes.mapM (DbResult.index relation.columns)
  return columns.map fun column => ⟨column.name, column.typeName⟩

def executeSelect (host : Host) (projection : Projection) (table : String)
    (selection : Option Selection) : Db (TransactionalStore F × W) ExecResult := do
  let (store, _) ← Exec.get
  let relation ← lookupRelation store table
  let projectedIndexes ← resolveProjection relation projection
  let selectionIndex ← resolveSelection relation selection
  let heapRows ← candidateRows relation selection
  let rows ← selectRows host relation projectedIndexes selectionIndex selection heapRows
  let columns ← projectedColumns relation projectedIndexes
  return .query columns rows

/-! ## Statements -/

/-- Execute a parsed statement. -/
def executeStatement (host : Host) : Statement → Db (TransactionalStore F × W) ExecResult
  | .createTable name columns => do
      let _ ← TransactionalStore.createTableAutocommit name columns
      return .statementComplete 0
  | .insert table values => executeInsert host table values
  | .createIndex name table column => executeCreateIndex name table column
  | .loadExtension name => executeLoadExtension name
  | .selectFunction name args => do
      let (store, _) ← Exec.get
      executeSelectFunction store name args
  | .select projection table selection => executeSelect host projection table selection

/-- Execute one SQL statement against a transactional store. Positional parameters are
refused. -/
def execute (host : Host) (sql : String) (params : List Value) :
    Db (TransactionalStore F × W) ExecResult := do
  failIf (params ≠ []) (DbResult.user "SQL parameters are not supported in Stage 9")
  let statement ← parseStatement host sql
  executeStatement host statement

end Execute

end Sql

end Rdbms
