import Rdbms.Codec
import Rdbms.Memory
import Rdbms.Page.Insert

/-!
# The catalog

The catalog lists the relations and the installed extensions and hands out the
ids of relations and pages. A call that changes it is a computation over the
catalog, so that what a failing call has already changed is kept: the engine does
not take back an id that it has counted up before a later check fails.
-/

namespace Rdbms

open Library

/-- Physical page reserved for catalog metadata. -/
def catalogPageId : PageId := ⟨0⟩

/-- Relation kind stored in the catalog. -/
inductive RelationKind where
  | table
  | index
  | system
  deriving DecidableEq, Repr

namespace RelationKind

def toU8 : RelationKind → UInt8
  | table => 1
  | index => 2
  | system => 3

def fromU8 (value : UInt8) : DbResult RelationKind :=
  if value = 1 then .ok table
  else if value = 2 then .ok index
  else if value = 3 then .ok system
  else DbResult.corruption s!"unknown catalog relation kind: {value}"

theorem fromU8_toU8 (kind : RelationKind) : fromU8 kind.toU8 = .ok kind := by
  cases kind <;> rfl

end RelationKind

/-- Column metadata stored by the catalog. -/
structure ColumnDef where
  name : String
  typeName : String
  deriving DecidableEq, Repr

/-- Persisted extension metadata. -/
structure ExtensionInfo where
  name : String
  abiVersion : UInt32
  kind : String
  deriving DecidableEq, Repr

/-- Index storage metadata for one index relation. -/
structure IndexStorage where
  tableId : RelationId
  columnName : String
  rootPageId : PageId
  deriving DecidableEq, Repr

/-- Physical storage object referenced by a relation: the pages of a heap or the
root of an index. -/
inductive StorageObject where
  | heap (pages : List PageId)
  | bPlusTree (storage : IndexStorage)
  deriving DecidableEq, Repr

namespace StorageObject

def heapPages : StorageObject → List PageId
  | heap pages => pages
  | bPlusTree _ => []

def indexStorage : StorageObject → Option IndexStorage
  | heap _ => none
  | bPlusTree storage => some storage

end StorageObject

/-- Relation metadata. -/
structure RelationInfo where
  id : RelationId
  name : String
  kind : RelationKind
  storage : StorageObject
  columns : List ColumnDef
  deriving DecidableEq, Repr

namespace RelationInfo

def heapPages (relation : RelationInfo) : List PageId := relation.storage.heapPages

def isHeapTable (relation : RelationInfo) : Bool := relation.kind = .table

def indexStorage (relation : RelationInfo) : Option IndexStorage := relation.storage.indexStorage

end RelationInfo

/-- In-memory representation of the persistent catalog page. -/
structure Catalog where
  nextRelationId : UInt64
  nextPageId : UInt64
  relations : List RelationInfo
  extensions : List ExtensionInfo
  deriving DecidableEq, Repr

/-! ## Checks -/

def validateName (kind name : String) : DbResult Unit := do
  failIf (name.isEmpty) (DbResult.user s!"{kind} name must not be empty")
  failIf ((utf8 name).length > 65535) (DbResult.user s!"{kind} name is too long")

/-- The checks of the columns from `seen` on, which have been checked already. -/
def validateColumnsFrom (seen : List ColumnDef) : List ColumnDef → DbResult Unit
  | [] => .ok ()
  | column :: columns => do
      validateName "column" column.name
      validateName "type" column.typeName
      let name := column.name
      failIf (seen.any fun previous => previous.name == column.name)
        (DbResult.user s!"duplicate column name: {name}")
      validateColumnsFrom (seen ++ [column]) columns

def validateColumns (columns : List ColumnDef) : DbResult Unit := do
  failIf (columns.length > 65535) (DbResult.user "too many columns")
  validateColumnsFrom [] columns

/-- Change the first element with the property. -/
def modifyFirst {α : Type} (p : α → Bool) (f : α → α) : List α → List α
  | [] => []
  | a :: as => if p a then f a :: as else a :: modifyFirst p f as

/-! ## Operations -/

namespace Catalog

/-- An empty catalog with page 0 reserved for the catalog itself. -/
def empty : Catalog := ⟨1, 1, [], []⟩

def extensionByName (catalog : Catalog) (name : String) : Option ExtensionInfo :=
  catalog.extensions.find? fun extension => extension.name == name

def relationById (catalog : Catalog) (relationId : RelationId) : Option RelationInfo :=
  catalog.relations.find? fun relation => relation.id == relationId

def relationByName (catalog : Catalog) (name : String) : Option RelationInfo :=
  catalog.relations.find? fun relation => relation.name == name

/-- The indexes that belong to a heap table. -/
def indexesOnTable (catalog : Catalog) (tableId : RelationId) : List RelationInfo :=
  catalog.relations.filter fun relation =>
    relation.kind == .index && relation.indexStorage.any fun storage => storage.tableId == tableId

/-- Register extension metadata. Registering the same extension again changes
nothing. -/
def registerExtensionMetadata (name : String) (abiVersion : UInt32) (kind : String) :
    Db Catalog Bool := do
  validateName "extension" name
  validateName "extension kind" kind
  let catalog ← Exec.get
  match catalog.extensionByName name with
  | some existing =>
      if existing.abiVersion = abiVersion ∧ existing.kind = kind then return false
      else DbResult.user s!"extension already registered with different metadata: {name}"
  | none => do
      Exec.modify fun c => { c with extensions := c.extensions ++ [⟨name, abiVersion, kind⟩] }
      return true

def allocateRelationId : Db Catalog RelationId := do
  let catalog ← Exec.get
  failIf (catalog.nextRelationId.toNat + 1 ≥ 2 ^ 64) (DbResult.user "relation id overflow")
  Exec.modify fun c => { c with nextRelationId := c.nextRelationId + 1 }
  return ⟨catalog.nextRelationId⟩

/-- Allocate a fresh page id. -/
def allocatePageId : Db Catalog PageId := do
  let catalog ← Exec.get
  failIf (catalog.nextPageId.toNat + 1 ≥ 2 ^ 64) (DbResult.user "page id overflow")
  Exec.modify fun c => { c with nextPageId := c.nextPageId + 1 }
  return ⟨catalog.nextPageId⟩

/-- Add heap-table metadata and allocate its first heap page. -/
def createTableMetadata (name : String) (columns : List ColumnDef) :
    Db Catalog (RelationId × PageId) := do
  validateName "relation" name
  validateColumns columns
  let catalog ← Exec.get
  failIf (catalog.relationByName name).isSome (DbResult.user s!"relation already exists: {name}")
  let relationId ← allocateRelationId
  let pageId ← allocatePageId
  Exec.modify fun c => { c with relations := c.relations ++
    [⟨relationId, name, .table, .heap [pageId], columns⟩] }
  return (relationId, pageId)

/-- The catalog with another storage object for the first relation with the id. -/
def setStorage (catalog : Catalog) (relationId : RelationId) (storage : StorageObject) : Catalog :=
  { catalog with
    relations := modifyFirst (fun relation => relation.id == relationId)
      (fun relation => { relation with storage := storage }) catalog.relations }

/-- Append a heap page to an existing heap table. -/
def appendHeapPage (relationId : RelationId) (pageId : PageId) : Db Catalog Unit := do
  let catalog ← Exec.get
  let id := relationId.val
  let relation ← DbResult.okOr (catalog.relationById relationId)
    (DbResult.user s!"unknown relation id: {id}")
  failIf (relation.kind ≠ .table) (DbResult.user s!"relation is not a heap table: {id}")
  match relation.storage with
  | .bPlusTree _ => DbResult.internalInvariant "table relation without heap storage"
  | .heap pages =>
      Exec.modify fun c => c.setStorage relationId (.heap (pages ++ [pageId]))

/-- Add index metadata and allocate its initial root page. -/
def createIndexMetadata (name : String) (tableId : RelationId) (columnName : String) :
    Db Catalog (RelationId × PageId) := do
  validateName "index" name
  validateName "column" columnName
  let catalog ← Exec.get
  failIf (catalog.relationByName name).isSome (DbResult.user s!"relation already exists: {name}")
  let id := tableId.val
  let table ← DbResult.okOr (catalog.relationById tableId)
    (DbResult.user s!"unknown table relation id: {id}")
  let tableName := table.name
  failIf (table.isHeapTable = false) (DbResult.user s!"indexed relation is not a heap table: {id}")
  failIf (table.columns.all fun column => column.name != columnName)
    (DbResult.user s!"unknown indexed column '{columnName}' on relation '{tableName}'")
  failIf ((catalog.indexesOnTable tableId).any fun relation =>
      relation.indexStorage.any fun storage => storage.columnName == columnName)
    (DbResult.user s!"index already exists on relation {id} column {columnName}")
  let relationId ← allocateRelationId
  let rootPageId ← allocatePageId
  Exec.modify fun c => { c with relations := c.relations ++
    [⟨relationId, name, .index, .bPlusTree ⟨tableId, columnName, rootPageId⟩,
      [⟨columnName, "INDEX_KEY"⟩]⟩] }
  return (relationId, rootPageId)

/-- Update an index root page after the root of the tree has split. -/
def setIndexRootPage (indexRelationId : RelationId) (rootPageId : PageId) : Db Catalog Unit := do
  let catalog ← Exec.get
  let id := indexRelationId.val
  let relation ← DbResult.okOr (catalog.relationById indexRelationId)
    (DbResult.user s!"unknown index relation id: {id}")
  failIf (relation.kind ≠ .index) (DbResult.user s!"relation is not an index: {id}")
  match relation.storage with
  | .heap _ => DbResult.internalInvariant "index relation without index storage"
  | .bPlusTree storage =>
      Exec.modify fun c =>
        c.setStorage indexRelationId (.bPlusTree { storage with rootPageId := rootPageId })

/-- The relation must be a heap table. -/
def ensureHeapRelation (catalog : Catalog) (relationId : RelationId) : DbResult Unit := do
  let id := relationId.val
  let relation ← DbResult.okOr (catalog.relationById relationId)
    (DbResult.user s!"unknown relation id: {id}")
  failIf (relation.isHeapTable = false) (DbResult.user s!"relation is not a heap table: {id}")

def heapPages (catalog : Catalog) (relationId : RelationId) : DbResult (List PageId) := do
  let id := relationId.val
  let relation ← DbResult.okOr (catalog.relationById relationId)
    (DbResult.user s!"unknown relation id: {id}")
  return relation.heapPages

/-- The root page of an index relation. -/
def indexRoot (catalog : Catalog) (indexRelationId : RelationId) : DbResult PageId :=
  let id := indexRelationId.val
  DbResult.okOr (((catalog.relationById indexRelationId).bind RelationInfo.indexStorage).map
    IndexStorage.rootPageId) (DbResult.user s!"unknown index relation id: {id}")

end Catalog

/-! ## Encoding -/

namespace Catalog

def catalogMagic : List UInt8 := [0x52, 0x44, 0x42, 0x43]

def catalogVersion : UInt16 := 1

def storageHeap : UInt8 := 1

def storageIndex : UInt8 := 2

def errors : CursorErrors Stop :=
  cursorErrors "catalog offset overflow" "catalog record is truncated"
    "catalog record has trailing bytes"

def writeString (value : String) : DbResult (List UInt8) := do
  let len ← writeU16Len (utf8 value).length "string length"
  return len ++ utf8 value

def encodeStorageObject : StorageObject → DbResult (List UInt8)
  | .heap pages => do
      let count ← writeU32Len pages.length "heap page count"
      return [storageHeap] ++ (count ++ (pages.map fun page => le64 page.val).flatten)
  | .bPlusTree storage => do
      let column ← writeString storage.columnName
      return [storageIndex] ++ (le64 storage.tableId.val ++ (le64 storage.rootPageId.val ++ column))

def encodeColumn (column : ColumnDef) : DbResult (List UInt8) := do
  let name ← writeString column.name
  let typeName ← writeString column.typeName
  return name ++ typeName

def encodeRelation (relation : RelationInfo) : DbResult (List UInt8) := do
  let storage ← encodeStorageObject relation.storage
  let name ← writeString relation.name
  let count ← writeU16Len relation.columns.length "column count"
  let columns ← relation.columns.mapM encodeColumn
  return le64 relation.id.val ++ ([relation.kind.toU8] ++ (storage ++ (name ++
    (count ++ columns.flatten))))

def encodeExtension (extension : ExtensionInfo) : DbResult (List UInt8) := do
  let name ← writeString extension.name
  let kind ← writeString extension.kind
  return name ++ (le32 extension.abiVersion ++ kind)

def encodeExtensions (extensions : List ExtensionInfo) : DbResult (List UInt8) := do
  let count ← writeU32Len extensions.length "extension count"
  let encoded ← extensions.mapM encodeExtension
  return count ++ encoded.flatten

def encodeCatalog (catalog : Catalog) : DbResult (List UInt8) := do
  let relationCount ← writeU32Len catalog.relations.length "relation count"
  let relations ← catalog.relations.mapM encodeRelation
  let extensions ← encodeExtensions catalog.extensions
  return catalogMagic ++ (le16 catalogVersion ++ (le64 catalog.nextRelationId ++
    (le64 catalog.nextPageId ++ (relationCount ++ (relations.flatten ++ extensions)))))

def readString : Db Cursor String := do
  let len ← Cursor.readU16 errors
  readText errors len.toNat "catalog string is not valid UTF-8"

def decodePageId : Db Cursor PageId := do
  let page ← Cursor.readU64 errors
  return ⟨page⟩

def decodeStorageObject (memory : Memory) : Db Cursor StorageObject := do
  let storageKind ← Cursor.readU8 errors
  if storageKind = storageHeap then
    let pageCount ← Cursor.readU32 errors
    memory.withCapacity .pageId pageCount.toNat
    let pages ← Cursor.readMany decodePageId pageCount.toNat
    failIf (pages = []) (DbResult.corruption "heap storage has no pages")
    return .heap pages
  else if storageKind = storageIndex then
    let tableId ← Cursor.readU64 errors
    let rootPageId ← Cursor.readU64 errors
    let columnName ← readString
    return .bPlusTree ⟨⟨tableId⟩, columnName, ⟨rootPageId⟩⟩
  else DbResult.corruption s!"unknown catalog storage object kind: {storageKind}"

def decodeColumn : Db Cursor ColumnDef := do
  let name ← readString
  let typeName ← readString
  return ⟨name, typeName⟩

def decodeRelation (memory : Memory) : Db Cursor RelationInfo := do
  let id ← Cursor.readU64 errors
  let code ← Cursor.readU8 errors
  let kind ← RelationKind.fromU8 code
  let storage ← decodeStorageObject memory
  let name ← readString
  let columnCount ← Cursor.readU16 errors
  let columns ← Cursor.readMany decodeColumn columnCount.toNat
  return ⟨⟨id⟩, name, kind, storage, columns⟩

def decodeExtension : Db Cursor ExtensionInfo := do
  let name ← readString
  let abiVersion ← Cursor.readU32 errors
  let kind ← readString
  return ⟨name, abiVersion, kind⟩

/-- The extensions; a record that ends before them has none. -/
def decodeExtensions (memory : Memory) : Db Cursor (List ExtensionInfo) := do
  let cursor ← Exec.get
  if cursor.isFinished then return []
  else do
    let extensionCount ← Cursor.readU32 errors
    memory.withCapacity .extension extensionCount.toNat
    Cursor.readMany decodeExtension extensionCount.toNat

/-- A whole catalog, up to the check that nothing is left over. -/
def readCatalog (memory : Memory) : Db Cursor Catalog := do
  let magic ← Cursor.readBytes errors 4
  failIf (magic ≠ catalogMagic) (DbResult.corruption "invalid catalog magic")
  let version ← Cursor.readU16 errors
  failIf (version ≠ catalogVersion)
    (DbResult.corruption s!"unsupported catalog version: {version}")
  let nextRelationId ← Cursor.readU64 errors
  let nextPageId ← Cursor.readU64 errors
  let relationCount ← Cursor.readU32 errors
  memory.withCapacity .relation relationCount.toNat
  let relations ← Cursor.readMany (decodeRelation memory) relationCount.toNat
  let extensions ← decodeExtensions memory
  return ⟨nextRelationId, nextPageId, relations, extensions⟩

def decodeCatalog (memory : Memory) (bytes : List UInt8) : DbResult Catalog := Cursor.run (do
  let catalog ← readCatalog memory
  Cursor.finish errors
  return catalog) bytes

/-- The catalog page image for transaction staging and direct writes. -/
def toPage (catalog : Catalog) : DbResult Page := do
  let bytes ← encodeCatalog catalog
  let (_, page) ← Exec.toExcept (Page.insertRecord bytes) (Page.new catalogPageId .catalog)
  return page

/-- The catalog held by page 0. -/
def fromPage (memory : Memory) (page : Page) : DbResult Catalog := do
  let header ← page.header
  failIf (header.pageType ≠ .catalog) (DbResult.corruption "page 0 is not a catalog page")
  let record ← page.readRecord ⟨0⟩
  let bytes ← DbResult.okOr record (DbResult.corruption "catalog record is missing")
  decodeCatalog memory bytes

end Catalog

end Rdbms
