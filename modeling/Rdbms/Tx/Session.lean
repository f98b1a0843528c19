import Rdbms.Tx.Basic
import Rdbms.Vfs.Disk

/-!
# Sessions

A session is a store handle on a disk, either idle or lent to the active
transaction. `Session.step` performs one call of the interface: whether the call
returns a value or an error, the session goes on in the state the call has left.
Ending a transaction, in whichever way, drops its handle.
-/

namespace Rdbms

open Library Disk

/-- The store handle, or the active transaction that has borrowed it. -/
inductive Session where
  | idle (store : TransactionalStore FileId)
  | active (tx : Transaction FileId)

/-- The calls of the interface. The bound of an index operation is part of the
call. -/
inductive Call where
  | begin
  | registerExtension (name : String) (abiVersion : UInt32) (kind : String)
  | createTable (name : String) (columns : List ColumnDef)
  | createIndex (name : String) (tableId : RelationId) (columnName : String)
  | insertIndexEntry (fuel : Nat) (indexRelationId : RelationId) (key : IndexKey) (rowId : RowId)
  | insertRow (relationId : RelationId) (bytes : List UInt8)
  | fullScan (relationId : RelationId)
  | readRow (relationId : RelationId) (rowId : RowId)
  | lookupIndex (fuel : Nat) (indexRelationId : RelationId) (key : IndexKey)
  | syncData
  | commit
  | rollback
  | drop

namespace Session

/-- A call inside the active transaction; the session stays in it. -/
def inside {α : Type} (tx : Transaction FileId) (m : Db (Transaction FileId × Disk) α)
    (d : Disk) : Session × Disk := (active (m (tx, d)).2.1, (m (tx, d)).2.2)

/-- A call that consumes the active transaction. -/
def ending {α : Type} (tx : Transaction FileId) (m : Db (Transaction FileId × Disk) α)
    (d : Disk) : Session × Disk := (idle (m (tx, d)).2.1.drop, (m (tx, d)).2.2)

/-- A call of the idle store. -/
def outside {α : Type} (store : TransactionalStore FileId)
    (m : Db (TransactionalStore FileId × Disk) α) (d : Disk) : Session × Disk :=
  (idle (m (store, d)).2.1, (m (store, d)).2.2)

/-- Starting a transaction lends the store to it. -/
def start (store : TransactionalStore FileId) (d : Disk) : Session × Disk :=
  match TransactionalStore.begin (store, d) with
  | (.ok tx, (_, e)) => (active tx, e)
  | (.error _, (store', e)) => (idle store', e)

/-- One call of the interface. A call that the borrow rules out changes nothing. -/
def step (call : Call) : Session × Disk → Session × Disk
  | (idle store, d) =>
      match call with
      | .begin => start store d
      | .fullScan relationId => outside store (Exec.onRight (store.fullScan relationId)) d
      | .readRow relationId rowId => outside store (Exec.onRight (store.readRow relationId rowId)) d
      | .lookupIndex fuel id key => outside store (TransactionalStore.lookupIndex fuel id key) d
      | .syncData => outside store TransactionalStore.syncData d
      | _ => (idle store, d)
  | (active tx, d) =>
      match call with
      | .registerExtension name abi kind => inside tx (Transaction.registerExtension name abi kind) d
      | .createTable name columns => inside tx (Transaction.createTable name columns) d
      | .createIndex name tableId column => inside tx (Transaction.createIndex name tableId column) d
      | .insertIndexEntry fuel id key rowId =>
          inside tx (Transaction.insertIndexEntry fuel id key rowId) d
      | .insertRow relationId bytes => inside tx (Transaction.insertRow relationId bytes) d
      | .fullScan relationId => inside tx (Transaction.fullScan relationId) d
      | .commit => ending tx Transaction.commit d
      | .rollback => ending tx Transaction.rollback d
      | .drop => (idle tx.drop, d)
      | _ => (active tx, d)

/-- A sequence of calls. -/
def run (calls : List Call) (s : Session × Disk) : Session × Disk :=
  calls.foldl (fun s call => step call s) s

end Session

/-- What a test says about a store that has been opened. -/
def opened (test : TransactionalStore FileId → Disk → Bool) :
    DbResult (TransactionalStore FileId) × Disk → Bool
  | (.ok store, d) => test store d
  | (.error _, _) => false

/-- What a test says about the store that is opened on empty files. -/
def onFresh (test : TransactionalStore FileId → Disk → Bool) : Bool :=
  opened test (openTransactionalStore FileId.data FileId.wal fresh)

theorem of_opened {test : TransactionalStore FileId → Disk → Bool}
    {result : DbResult (TransactionalStore FileId) × Disk} (h : opened test result = true) :
    ∃ store d, result = (.ok store, d) ∧ test store d = true := by
  obtain ⟨r, d⟩ := result
  cases r with
  | error stop => cases h
  | ok store => exact ⟨store, d, rfl, h⟩

theorem of_onFresh {test : TransactionalStore FileId → Disk → Bool} (h : onFresh test = true) :
    ∃ store d, openTransactionalStore FileId.data FileId.wal fresh = (.ok store, d) ∧
      test store d = true := of_opened h

/-- A table is created in a transaction that is committed. -/
def tableCalls : List Call := [.begin, .createTable "t" [⟨"a", "INTEGER"⟩], .commit]

end Rdbms
