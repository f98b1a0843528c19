import Rdbms.Catalog.Basic
import Rdbms.Vfs.PageFile

/-!
# The catalog store

The catalog and the heap tables on top of a page file. Page 0 holds the catalog;
an empty file is bootstrapped with an empty one.
-/

namespace Rdbms

open Library

namespace Catalog

variable {W F : Type} [VfsFile W F]

/-- Persist this catalog as a single record in page 0. -/
def save (catalog : Catalog) (pageFile : PageFile F) : Db W Unit := do
  let page ← catalog.toPage
  pageFile.writePage page

/-- Load the catalog from page 0, or bootstrap it when the file is empty. -/
def loadOrBootstrap [HasMemory W] (pageFile : PageFile F) : Db W Catalog := do
  let len ← pageFile.len
  if len = 0 then
    Catalog.empty.save pageFile
    return Catalog.empty
  else
    failIf (len.toNat < pageSize) (DbResult.corruption
      s!"database file is too short for catalog page: {len} bytes")
    let page ← pageFile.readPage catalogPageId
    let world ← Exec.get
    fromPage (HasMemory.memory world) page

end Catalog

/-- Materialized heap row returned by a full scan. -/
structure HeapRow where
  rowId : RowId
  bytes : List UInt8
  deriving DecidableEq

/-- A page listed by a heap table must be a heap page. -/
def ensureHeapPage (pageId : PageId) (header : PageHeader) : DbResult Unit :=
  let id := pageId.val
  failIf (header.pageType ≠ .heap) (DbResult.corruption s!"relation page is not a heap page: {id}")

/-- The live rows of a heap page, in slot order. -/
def heapRows (pageId : PageId) (page : Page) : DbResult (List HeapRow) := do
  let header ← page.header
  ensureHeapPage pageId header
  let rows ← (Page.slotIndexes header.slotCount).mapM fun slotIndex => do
    let record ← page.readRecord ⟨slotIndex⟩
    return record.map fun bytes => HeapRow.mk ⟨pageId, ⟨slotIndex⟩⟩ bytes
  return rows.reduceOption

/-- The live rows of the pages, loaded one after the other. -/
def scanHeap {σ : Type} (loadPage : PageId → Db σ Page) : List PageId → Db σ (List HeapRow)
  | [] => pure []
  | pageId :: pageIds => do
      let page ← loadPage pageId
      let rows ← heapRows pageId page
      let rest ← scanHeap loadPage pageIds
      return rows ++ rest

/-- Database handle for the catalog and the heap tables. -/
structure CatalogStore (F : Type) where
  pageFile : PageFile F
  catalog : Catalog

namespace CatalogStore

variable {W F : Type} [VfsFile W F]

/-- Open a catalog store from an already opened page file. -/
def «open» [HasMemory W] (pageFile : PageFile F) : Db W (CatalogStore F) := do
  let catalog ← Catalog.loadOrBootstrap pageFile
  return ⟨pageFile, catalog⟩

/-- Replace the committed in-memory catalog snapshot. -/
def replaceCatalog (store : CatalogStore F) (catalog : Catalog) : CatalogStore F :=
  { store with catalog := catalog }

/-- Run a call of the catalog. -/
def onCatalog {α : Type} (m : Db Catalog α) : Db (CatalogStore F × W) α :=
  Exec.zoom (fun s => s.1.catalog) (fun s c => ({ s.1 with catalog := c }, s.2)) m

/-- Run a call of the page file. -/
def onPageFile {α : Type} (m : PageFile F → Db W α) : Db (CatalogStore F × W) α := do
  let (store, _) ← Exec.get
  Exec.onRight (m store.pageFile)

/-- Persist the catalog as it is now. -/
def saveCatalog : Db (CatalogStore F × W) Unit := do
  let (store, _) ← Exec.get
  Exec.onRight (store.catalog.save store.pageFile)

/-- Create a heap table and persist its catalog entry. -/
def createTable (name : String) (columns : List ColumnDef) :
    Db (CatalogStore F × W) RelationId := do
  let (relationId, firstPageId) ← onCatalog (Catalog.createTableMetadata name columns)
  onPageFile fun pageFile => pageFile.writePage (Page.new firstPageId .heap)
  saveCatalog
  return relationId

/-- Put the row into the first page that takes it, and write that page back. -/
def insertIntoPages (bytes : List UInt8) (pageFile : PageFile F) :
    List PageId → Db W (Option RowId)
  | [] => pure none
  | pageId :: pageIds => do
      let page ← pageFile.readPage pageId
      match Page.insertRecord bytes page with
      | (.ok slotId, page) => do
          pageFile.writePage page
          return some ⟨pageId, slotId⟩
      | (.error (.error (.user _)), _) => insertIntoPages bytes pageFile pageIds
      | (.error stop, _) => Exec.fail stop

/-- Insert raw row bytes into a heap table. -/
def insertRow (relationId : RelationId) (bytes : List UInt8) : Db (CatalogStore F × W) RowId := do
  let (store, _) ← Exec.get
  store.catalog.ensureHeapRelation relationId
  let pageIds ← store.catalog.heapPages relationId
  let placed ← onPageFile fun pageFile => insertIntoPages bytes pageFile pageIds
  match placed with
  | some rowId => return rowId
  | none => do
      let pageId ← onCatalog Catalog.allocatePageId
      let (slotId, page) ← Exec.toExcept (Page.insertRecord bytes) (Page.new pageId .heap)
      onPageFile fun pageFile => pageFile.writePage page
      onCatalog (Catalog.appendHeapPage relationId pageId)
      saveCatalog
      return ⟨pageId, slotId⟩

/-- Scan every live row in heap-page order. -/
def fullScan (store : CatalogStore F) (relationId : RelationId) : Db W (List HeapRow) := do
  store.catalog.ensureHeapRelation relationId
  let pageIds ← store.catalog.heapPages relationId
  scanHeap store.pageFile.readPage pageIds

/-- Read one heap row by physical row id after checking relation ownership. -/
def readRow (store : CatalogStore F) (relationId : RelationId) (rowId : RowId) :
    Db W (Option HeapRow) := do
  store.catalog.ensureHeapRelation relationId
  let pageIds ← store.catalog.heapPages relationId
  let page := rowId.pageId.val
  let relation := relationId.val
  failIf (rowId.pageId ∉ pageIds) (DbResult.user
    s!"row page {page} does not belong to relation {relation}")
  let page ← store.pageFile.readPage rowId.pageId
  let header ← page.header
  ensureHeapPage rowId.pageId header
  let record ← page.readRecord rowId.slotId
  return record.map fun bytes => ⟨rowId, bytes⟩

def syncData (store : CatalogStore F) : Db W Unit := store.pageFile.syncData

end CatalogStore

end Rdbms
