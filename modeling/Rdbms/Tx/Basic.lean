import Std.Data.TreeMap
import Rdbms.Catalog.Store
import Rdbms.Index.Basic
import Rdbms.Wal.Basic

/-!
# Transactions

A single writer at a time. Dirty catalog, heap and index pages are staged in
memory, written to the log as full page images on commit, and only then copied to
the database file.

A transaction borrows the store exclusively; here it holds the store and gives it
back when it ends. Its operations are computations over the transaction and the
world, so a call that returns an error leaves behind what it had already staged.
-/

namespace Rdbms

open Library

/-- First transaction id produced by a newly opened transaction store. -/
def firstTxId : TxId := ⟨1⟩

/-- Runtime state for a transaction handle. -/
inductive TransactionState where
  | active
  | committed
  | rolledBack
  deriving DecidableEq, Repr

/-- Catalog and heap handle with a log-backed transaction boundary. -/
structure TransactionalStore (F : Type) where
  store : CatalogStore F
  wal : WalWriter F
  nextTxId : UInt64
  activeWriter : Bool

/-- Active write transaction. -/
structure Transaction (F : Type) where
  manager : TransactionalStore F
  txId : TxId
  workingCatalog : Catalog
  dirtyPages : Std.TreeMap PageId Page
  state : TransactionState

section Store

variable {W F : Type} [VfsFile W F]

/-- Run a call of the log writer. -/
def TransactionalStore.onWal {α : Type} (m : Db (WalWriter F × W) α) :
    Db (TransactionalStore F × W) α :=
  Exec.onPart TransactionalStore.wal (fun store wal => { store with wal := wal }) m

/-- Open catalog data and log files. -/
def openTransactionalStore [HasMemory W] (dataFile walFile : F) : Db W (TransactionalStore F) := do
  let store ← CatalogStore.open ⟨dataFile⟩
  let wal ← WalWriter.new walFile
  return ⟨store, wal, firstTxId.val, false⟩

end Store

/-! ## Operations inside a transaction -/

namespace Transaction

variable {W F : Type} [VfsFile W F]

/-- The values of the staged pages in the order of their ids. -/
def stagedPages (tx : Transaction F) : List Page := tx.dirtyPages.toList.map Prod.snd

/-- Run a call of the working catalog. -/
def onCatalog {α : Type} (m : Db Catalog α) : Db (Transaction F × W) α :=
  Exec.zoom (fun s => s.1.workingCatalog) (fun s c => ({ s.1 with workingCatalog := c }, s.2)) m

/-- Run a call of the manager. -/
def onManager {α : Type} (m : Db (TransactionalStore F × W) α) : Db (Transaction F × W) α :=
  Exec.onPart Transaction.manager (fun tx manager => { tx with manager := manager }) m

/-- Run a call of the world. -/
def onWorld {α : Type} (m : Db W α) : Db (Transaction F × W) α := Exec.onRight m

/-- The current transaction. -/
def current : Db (Transaction F × W) (Transaction F) := do
  let (tx, _) ← Exec.get
  return tx

def stage (pageId : PageId) (page : Page) : Db (Transaction F × W) Unit :=
  Exec.modify fun s => ({ s.1 with dirtyPages := s.1.dirtyPages.insert pageId page }, s.2)

def ensureActive : Db (Transaction F × W) Unit := do
  let tx ← current
  failIf (tx.state ≠ .active) (DbResult.user "transaction is no longer active")

def markCatalogDirty : Db (Transaction F × W) Unit := do
  let tx ← current
  let page ← tx.workingCatalog.toPage
  stage catalogPageId page

def loadPage (pageId : PageId) : Db (Transaction F × W) Page := do
  let tx ← current
  match tx.dirtyPages[pageId]? with
  | some page => return page
  | none => onWorld (tx.manager.store.pageFile.readPage pageId)

/-- Index pages are staged like all others, and their ids come from the working
catalog. -/
instance : BPlusTreePageStore (Transaction F × W) where
  loadPage := loadPage
  storePage page := do
    let header ← page.header
    stage header.pageId page
  allocatePage := onCatalog Catalog.allocatePageId

/-- Register extension metadata inside this transaction. -/
def registerExtension (name : String) (abiVersion : UInt32) (kind : String) :
    Db (Transaction F × W) Bool := do
  ensureActive
  let inserted ← onCatalog (Catalog.registerExtensionMetadata name abiVersion kind)
  if inserted then
    markCatalogDirty
    return true
  else return false

/-- Create a heap table inside this transaction. -/
def createTable (name : String) (columns : List ColumnDef) :
    Db (Transaction F × W) RelationId := do
  ensureActive
  let (relationId, firstPageId) ← onCatalog (Catalog.createTableMetadata name columns)
  stage firstPageId (Page.new firstPageId .heap)
  markCatalogDirty
  return relationId

/-- Create an empty index relation inside this transaction. -/
def createIndex (name : String) (tableId : RelationId) (columnName : String) :
    Db (Transaction F × W) (RelationId × PageId) := do
  ensureActive
  let (indexRelationId, rootPageId) ←
    onCatalog (Catalog.createIndexMetadata name tableId columnName)
  initializeRoot rootPageId
  markCatalogDirty
  return (indexRelationId, rootPageId)

/-- Insert one index entry into an index relation. -/
def insertIndexEntry (fuel : Nat) (indexRelationId : RelationId) (key : IndexKey) (rowId : RowId) :
    Db (Transaction F × W) Unit := do
  ensureActive
  let tx ← current
  let rootPageId ← tx.workingCatalog.indexRoot indexRelationId
  let newRootPageId ← insert fuel rootPageId key rowId
  if newRootPageId ≠ rootPageId then
    onCatalog (Catalog.setIndexRootPage indexRelationId newRootPageId)
    markCatalogDirty
  else markCatalogDirty

/-- Put the row into the first page that takes it. -/
def insertIntoPages (bytes : List UInt8) : List PageId → Db (Transaction F × W) (Option RowId)
  | [] => pure none
  | pageId :: pageIds => do
      let page ← loadPage pageId
      match Page.insertRecord bytes page with
      | (.ok slotId, page) => do
          stage pageId page
          return some ⟨pageId, slotId⟩
      | (.error (.error (.user _)), _) => insertIntoPages bytes pageIds
      | (.error stop, _) => Exec.fail stop

/-- Insert raw row bytes into a heap table inside this transaction. -/
def insertRow (relationId : RelationId) (bytes : List UInt8) : Db (Transaction F × W) RowId := do
  ensureActive
  let tx ← current
  tx.workingCatalog.ensureHeapRelation relationId
  let pageIds ← tx.workingCatalog.heapPages relationId
  let placed ← insertIntoPages bytes pageIds
  match placed with
  | some rowId => return rowId
  | none => do
      let pageId ← onCatalog Catalog.allocatePageId
      let (slotId, page) ← Exec.toExcept (Page.insertRecord bytes) (Page.new pageId .heap)
      onCatalog (Catalog.appendHeapPage relationId pageId)
      stage pageId page
      markCatalogDirty
      return ⟨pageId, slotId⟩

/-- Scan heap rows visible inside this transaction. -/
def fullScan (relationId : RelationId) : Db (Transaction F × W) (List HeapRow) := do
  ensureActive
  let tx ← current
  tx.workingCatalog.ensureHeapRelation relationId
  let pageIds ← tx.workingCatalog.heapPages relationId
  scanHeap loadPage pageIds

/-- Append the images of the staged pages to the log. -/
def logImages (txId : TxId) (pages : List Page) : Db (WalWriter F × W) Unit :=
  pages.forM fun page => do
    let kind ← WalRecordKind.ofPage txId page
    let _ ← WalWriter.append kind
    return ()

/-- The log part of a commit: images, marker, sync. -/
def logCommit (txId : TxId) (pages : List Page) : Db (WalWriter F × W) Unit := do
  logImages txId pages
  let _ ← WalWriter.append (.commitTx txId)
  let (writer, _) ← Exec.get
  Exec.onRight writer.syncData

/-- The data part of a commit: page writes and a sync. -/
def writePages (pageFile : PageFile F) (pages : List Page) : Db W Unit := do
  pages.forM pageFile.writePage
  pageFile.syncData

/-- Commit staged pages: full-page images to the log, log sync, data write, data
sync. -/
def commit : Db (Transaction F × W) Unit := do
  ensureActive
  let tx ← current
  onManager (TransactionalStore.onWal (logCommit tx.txId tx.stagedPages))
  onWorld (writePages tx.manager.store.pageFile tx.stagedPages)
  Exec.modify fun s =>
    ({ s.1 with
        manager := { s.1.manager with
          store := s.1.manager.store.replaceCatalog s.1.workingCatalog
          activeWriter := false }
        state := .committed }, s.2)

/-- The log part of a rollback. -/
def logAbort (txId : TxId) : Db (WalWriter F × W) Unit := do
  let _ ← WalWriter.append (.abortTx txId)
  let (writer, _) ← Exec.get
  Exec.onRight writer.syncData

/-- Roll back this transaction by discarding all staged pages, whatever becomes of
the abort marker. -/
def rollback : Db (Transaction F × W) Unit := do
  ensureActive
  let tx ← current
  let result ← Exec.attempt (onManager (TransactionalStore.onWal (logAbort tx.txId)))
  Exec.modify fun s =>
    ({ s.1 with
        manager := { s.1.manager with activeWriter := false }
        dirtyPages := ∅
        state := .rolledBack }, s.2)
  result

/-- Dropping the handle gives the store back and ends a transaction that is still
active. -/
def drop (tx : Transaction F) : TransactionalStore F :=
  if tx.state = .active then { tx.manager with activeWriter := false } else tx.manager

end Transaction

/-! ## Operations of the store -/

namespace TransactionalStore

variable {W F : Type} [VfsFile W F]

/-- Scan committed heap rows for a relation. -/
def fullScan (store : TransactionalStore F) (relationId : RelationId) : Db W (List HeapRow) :=
  store.store.fullScan relationId

/-- Read one committed heap row by physical row id. -/
def readRow (store : TransactionalStore F) (relationId : RelationId) (rowId : RowId) :
    Db W (Option HeapRow) := store.store.readRow relationId rowId

/-- Committed index pages can be read only. -/
instance : BPlusTreePageStore (CatalogStore F × W) where
  loadPage pageId := do
    let (store, _) ← Exec.get
    Exec.onRight (store.pageFile.readPage pageId)
  storePage _ :=
    Exec.lift (DbResult.internalInvariant "read-only index page store cannot write pages")
  allocatePage :=
    Exec.lift (DbResult.internalInvariant "read-only index page store cannot allocate pages")

/-- Look up row ids through a committed index relation. -/
def lookupIndex (fuel : Nat) (indexRelationId : RelationId) (key : IndexKey) :
    Db (TransactionalStore F × W) (List RowId) := do
  let (store, _) ← Exec.get
  let rootPageId ← store.store.catalog.indexRoot indexRelationId
  Exec.onPart TransactionalStore.store (fun t s => { t with store := s })
    (lookup fuel rootPageId key)

def allocateTxId : Db (TransactionalStore F × W) TxId := do
  let (store, _) ← Exec.get
  failIf (store.nextTxId.toNat + 1 ≥ 2 ^ 64) (DbResult.user "transaction id overflow")
  Exec.modify fun s => ({ s.1 with nextTxId := s.1.nextTxId + 1 }, s.2)
  return ⟨store.nextTxId⟩

def setActiveWriter (active : Bool) : Db (TransactionalStore F × W) Unit :=
  Exec.modify fun s => ({ s.1 with activeWriter := active }, s.2)

/-- Start one write transaction. -/
def begin : Db (TransactionalStore F × W) (Transaction F) := do
  let (store, _) ← Exec.get
  failIf store.activeWriter (DbResult.retryable "a write transaction is already active")
  let txId ← allocateTxId
  setActiveWriter true
  let outcome ← Exec.attempt (onWal (WalWriter.append (.beginTx txId)))
  match outcome with
  | .error stop => do
      setActiveWriter false
      Exec.fail stop
  | .ok _ => do
      let (store, _) ← Exec.get
      return {
        manager := store
        txId
        workingCatalog := store.store.catalog
        dirtyPages := ∅
        state := .active }

/-- Run calls inside a new transaction; at the end the handle is dropped, also
when one of the calls returns an error. -/
def withTransaction {α : Type} (body : Db (Transaction F × W) α) :
    Db (TransactionalStore F × W) α := fun s =>
  match begin s with
  | (.error stop, t) => (.error stop, t)
  | (.ok tx, (_, w)) => ((body (tx, w)).1, ((body (tx, w)).2.1.drop, (body (tx, w)).2.2))

/-- Create a table in its own transaction. -/
def createTableAutocommit (name : String) (columns : List ColumnDef) :
    Db (TransactionalStore F × W) RelationId := withTransaction do
  let relationId ← Transaction.createTable name columns
  Transaction.commit
  return relationId

/-- Insert one raw row in its own transaction. -/
def insertRowAutocommit (relationId : RelationId) (bytes : List UInt8) :
    Db (TransactionalStore F × W) RowId := withTransaction do
  let rowId ← Transaction.insertRow relationId bytes
  Transaction.commit
  return rowId

/-- Register extension metadata in its own transaction. -/
def registerExtensionAutocommit (name : String) (abiVersion : UInt32) (kind : String) :
    Db (TransactionalStore F × W) Bool := withTransaction do
  let inserted ← Transaction.registerExtension name abiVersion kind
  Transaction.commit
  return inserted

/-- Force both files through their sync boundaries. -/
def syncData : Db (TransactionalStore F × W) Unit := do
  let (store, _) ← Exec.get
  Exec.onRight store.store.syncData
  Exec.onRight store.wal.syncData

end TransactionalStore

end Rdbms
