import Mathlib.Data.Sum.Order
import Mathlib.Data.List.Lex
import Rdbms.Codec
import Rdbms.Page.Insert
import Rdbms.Library.BinarySearch
import Rdbms.Library.BPlusTree

/-!
# The persistent B+ tree index

Nodes are stored as index pages with one encoded node in slot 0. The algorithm
does not own a file: it runs over any store that can load, store and allocate
pages. The tree supports an equality lookup and an insert of pairs of a key and a
row address; keys need not be unique.

The recursions follow page ids that come from the pages themselves, so they are
bounded by a number of steps here; a bound that is too small shows as
`Stop.outOfFuel`.
-/

namespace Rdbms

open Library BPlusTree

/-- Maximum separator keys per node. -/
def maxKeys : Nat := 4

/-- Ordered key supported by the index. -/
inductive IndexKey where
  | integer (value : Int64)
  | text (value : String)
  deriving DecidableEq, Repr

/-- Integers come before texts, and texts are compared byte by byte. -/
def IndexKey.rank : IndexKey → Int ⊕ₗ List Nat
  | integer value => toLex (.inl value.toInt)
  | text value => toLex (.inr ((utf8 value).map UInt8.toNat))

theorem IndexKey.rank_injective : Function.Injective IndexKey.rank := by
  intro k l h
  cases k with
  | integer v =>
      cases l with
      | integer w =>
          have hvw := Sum.inl.inj (toLex.injective h)
          rw [Int64.toInt_inj.1 hvw]
      | text t => cases toLex.injective h
  | text s =>
      cases l with
      | integer w => cases toLex.injective h
      | text t =>
          have hst := Sum.inr.inj (toLex.injective h)
          have hbytes := (List.map_injective_iff.2 fun a b => UInt8.toNat_inj.1) hst
          rw [utf8_injective hbytes]

instance : LinearOrder IndexKey := LinearOrder.lift' IndexKey.rank IndexKey.rank_injective

/-- One leaf entry: key plus physical row address. -/
structure IndexEntry where
  key : IndexKey
  rowId : RowId
  deriving DecidableEq, Repr

def compareEntry (left right : IndexEntry) : Ordering :=
  (compare left.key right.key).then (compare left.rowId right.rowId)

/-- A tree node, as it is stored in a page. -/
abbrev BTreeNode := Node IndexKey IndexEntry PageId

/-- Storage boundary used by the algorithm. -/
class BPlusTreePageStore (S : Type) where
  loadPage : PageId → Db S Page
  storePage : Page → Db S Unit
  allocatePage : Db S PageId

/-! ## Node encoding -/

namespace Index

def nodeMagic : List UInt8 := [0x52, 0x44, 0x42, 0x49]

def nodeVersion : UInt16 := 1

def nodeLeaf : UInt8 := 1

def nodeInternal : UInt8 := 2

def keyInteger : UInt8 := 1

def keyText : UInt8 := 2

def errors : CursorErrors Stop :=
  cursorErrors "index node offset overflow" "index node is truncated"
    "index node has trailing bytes"

end Index

open Index

def validateInternalShape (keys : List IndexKey) (children : List PageId) : DbResult Unit :=
  let keyCount := keys.length
  let childCount := children.length
  failIf (childCount ≠ keyCount + 1) (DbResult.corruption
    s!"invalid B+Tree internal node shape: keys={keyCount}, children={childCount}")

def encodeKey : IndexKey → DbResult (List UInt8)
  | .integer value => .ok (keyInteger :: le64 value.toUInt64)
  | .text value => do
      let len ← writeU16Len (utf8 value).length "index text key length"
      return keyText :: (len ++ utf8 value)

def encodeEntry (entry : IndexEntry) : DbResult (List UInt8) := do
  let key ← encodeKey entry.key
  return key ++ (le64 entry.rowId.pageId.val ++ le16 entry.rowId.slotId.val)

def encodeNextLeaf : Option PageId → List UInt8
  | some pageId => 1 :: le64 pageId.val
  | none => 0 :: le64 0

def encodeNode : BTreeNode → DbResult (List UInt8)
  | .leaf nextLeaf entries => do
      let count ← writeU16Len entries.length "leaf entry count"
      let encoded ← entries.mapM encodeEntry
      return nodeMagic ++ (le16 nodeVersion ++ ([nodeLeaf] ++ (encodeNextLeaf nextLeaf ++
        (count ++ encoded.flatten))))
  | .internal keys children => do
      validateInternalShape keys children
      let keyCount ← writeU16Len keys.length "internal key count"
      let encoded ← keys.mapM encodeKey
      let childCount ← writeU16Len children.length "internal child count"
      return nodeMagic ++ (le16 nodeVersion ++ ([nodeInternal] ++ (keyCount ++
        (encoded.flatten ++ (childCount ++ (children.map fun child => le64 child.val).flatten)))))

def decodeKey : Db Cursor IndexKey := do
  let tag ← Cursor.readU8 errors
  if tag = keyInteger then
    let value ← Cursor.readI64 errors
    return .integer value
  else if tag = keyText then
    let len ← Cursor.readU16 errors
    let value ← readText errors len.toNat "index text key is not valid UTF-8"
    return .text value
  else DbResult.corruption s!"unknown index key tag: {tag}"

def decodeEntry : Db Cursor IndexEntry := do
  let key ← decodeKey
  let pageId ← Cursor.readU64 errors
  let slotId ← Cursor.readU16 errors
  return ⟨key, ⟨⟨pageId⟩, ⟨slotId⟩⟩⟩

def decodeNextLeaf : Db Cursor (Option PageId) := do
  let hasNext ← Cursor.readU8 errors
  let nextPageId ← Cursor.readU64 errors
  if hasNext = 0 then return none
  else if hasNext = 1 then return some ⟨nextPageId⟩
  else DbResult.corruption s!"invalid leaf next flag: {hasNext}"

def decodeLeaf : Db Cursor BTreeNode := do
  let nextLeaf ← decodeNextLeaf
  let entryCount ← Cursor.readU16 errors
  let entries ← Cursor.readMany decodeEntry entryCount.toNat
  return .leaf nextLeaf entries

def decodeInternal : Db Cursor BTreeNode := do
  let keyCount ← Cursor.readU16 errors
  let keys ← Cursor.readMany decodeKey keyCount.toNat
  let childCount ← Cursor.readU16 errors
  let children ← Cursor.readMany (do let child ← Cursor.readU64 errors; return PageId.mk child)
    childCount.toNat
  validateInternalShape keys children
  return .internal keys children

/-- The body of a node behind its magic and version. -/
def decodeBody : Db Cursor BTreeNode := do
  let kind ← Cursor.readU8 errors
  if kind = nodeLeaf then decodeLeaf
  else if kind = nodeInternal then decodeInternal
  else DbResult.corruption s!"unknown index node kind: {kind}"

/-- A whole node, up to the check that nothing is left over. -/
def readNode : Db Cursor BTreeNode := do
  let magic ← Cursor.readBytes errors 4
  failIf (magic ≠ nodeMagic) (DbResult.corruption "invalid index node magic")
  let version ← Cursor.readU16 errors
  failIf (version ≠ nodeVersion) (DbResult.corruption s!"unsupported index node version: {version}")
  decodeBody

def decodeNode (bytes : List UInt8) : DbResult BTreeNode := Cursor.run (do
  let node ← readNode
  Cursor.finish errors
  return node) bytes

def nodeToPage (pageId : PageId) (node : BTreeNode) : DbResult Page := do
  let bytes ← encodeNode node
  let (_, page) ← Exec.toExcept (Page.insertRecord bytes) (Page.new pageId .index)
  return page

def nodeFromPage (page : Page) : DbResult BTreeNode := do
  let header ← page.header
  let inHeader := header.pageId.val
  failIf (header.pageType ≠ .index) (DbResult.corruption s!"page {inHeader} is not an index page")
  let record ← page.readRecord ⟨0⟩
  let bytes ← DbResult.okOr record (DbResult.corruption "index node record is missing")
  decodeNode bytes

/-! ## The algorithm -/

/-- A node was split: the new node to the right and the separator before it. -/
structure SplitResult where
  separator : IndexKey
  rightPageId : PageId
  deriving DecidableEq, Repr

def insertLeafEntry (entries : List IndexEntry) (key : IndexKey) (rowId : RowId) :
    List IndexEntry := insertSorted compareEntry ⟨key, rowId⟩ entries

def childIndexForKey (keys : List IndexKey) (key : IndexKey) : Nat :=
  partitionPoint (fun separator => decide (key > separator)) keys

section Algorithm

variable {S : Type} [BPlusTreePageStore S]

open BPlusTreePageStore

/-- Load a page and decode its node. -/
def loadNode (pageId : PageId) : Db S BTreeNode := do
  let page ← loadPage pageId
  nodeFromPage page

/-- Encode a node into its page and store it. -/
def storeNode (pageId : PageId) (node : BTreeNode) : Db S Unit := do
  let page ← nodeToPage pageId node
  storePage page

/-- Create an empty root leaf page. -/
def initializeRoot (rootPageId : PageId) : Db S Unit := storeNode rootPageId (.leaf none [])

/-- Store a leaf that has received an entry, split in two when it is too long. -/
def storeLeaf (pageId : PageId) (nextLeaf : Option PageId) (entries : List IndexEntry) :
    Db S (Option SplitResult) :=
  if entries.length ≤ maxKeys then do
    storeNode pageId (.leaf nextLeaf entries)
    return none
  else do
    let rightPageId ← allocatePage
    let splitAt := entries.length / 2
    let rightEntries := entries.drop splitAt
    let first ← DbResult.index rightEntries 0
    storeNode pageId (.leaf (some rightPageId) (entries.take splitAt))
    storeNode rightPageId (.leaf nextLeaf rightEntries)
    return some ⟨first.key, rightPageId⟩

/-- Store an inner node that has received a child, split in two when it is too
long. The separator in the middle moves up. -/
def storeInternal (pageId : PageId) (keys : List IndexKey) (children : List PageId) :
    Db S (Option SplitResult) :=
  if keys.length ≤ maxKeys then do
    storeNode pageId (.internal keys children)
    return none
  else do
    let promotedIndex := keys.length / 2
    let separator ← DbResult.index keys promotedIndex
    let rightPageId ← allocatePage
    storeNode pageId (.internal (keys.take promotedIndex) (children.take (promotedIndex + 1)))
    storeNode rightPageId
      (.internal (keys.drop (promotedIndex + 1)) (children.drop (promotedIndex + 1)))
    return some ⟨separator, rightPageId⟩

def insertRecursive : Nat → PageId → IndexKey → RowId → Db S (Option SplitResult)
  | 0, _, _, _ => Exec.fail .outOfFuel
  | fuel + 1, pageId, key, rowId => do
      let node ← loadNode pageId
      match node with
      | .leaf nextLeaf entries => storeLeaf pageId nextLeaf (insertLeafEntry entries key rowId)
      | .internal keys children => do
          validateInternalShape keys children
          let childIndex := childIndexForKey keys key
          let childPageId ← DbResult.index children childIndex
          let split ← insertRecursive fuel childPageId key rowId
          match split with
          | some split =>
              storeInternal pageId (keys.insertIdx childIndex split.separator)
                (children.insertIdx (childIndex + 1) split.rightPageId)
          | none => return none

/-- Insert one pair and return the current root page id, which changes only when
the previous root splits. -/
def insert (fuel : Nat) (rootPageId : PageId) (key : IndexKey) (rowId : RowId) :
    Db S PageId := do
  let split ← insertRecursive fuel rootPageId key rowId
  match split with
  | some split => do
      let newRootPageId ← allocatePage
      storeNode newRootPageId (.internal [split.separator] [rootPageId, split.rightPageId])
      return newRootPageId
  | none => return rootPageId

def findLeaf : Nat → PageId → IndexKey → Db S PageId
  | 0, _, _ => Exec.fail .outOfFuel
  | fuel + 1, pageId, key => do
      let node ← loadNode pageId
      match node with
      | .leaf _ _ => return pageId
      | .internal keys children => do
          validateInternalShape keys children
          let childPageId ← DbResult.index children (childIndexForKey keys key)
          findLeaf fuel childPageId key

/-- The rows of the entries with the given key, and whether an entry with a larger
key ends the scan. -/
def collectRows (key : IndexKey) : List IndexEntry → List RowId × Bool
  | [] => ([], false)
  | entry :: entries =>
      match compare entry.key key with
      | .lt => collectRows key entries
      | .eq => (entry.rowId :: (collectRows key entries).1, (collectRows key entries).2)
      | .gt => ([], true)

/-- Follow the chain of leaves. -/
def scanLeaves : Nat → PageId → IndexKey → Db S (List RowId)
  | 0, _, _ => Exec.fail .outOfFuel
  | fuel + 1, leafPageId, key => do
      let node ← loadNode leafPageId
      match node with
      | .internal _ _ => DbResult.corruption "B+Tree lookup reached a non-leaf page"
      | .leaf nextLeaf entries =>
          let (rows, passed) := collectRows key entries
          if passed then return rows
          match nextLeaf with
          | some nextPageId => do
              let rest ← scanLeaves fuel nextPageId key
              return rows ++ rest
          | none => return rows

/-- Look up all row ids equal to `key`. -/
def lookup (fuel : Nat) (rootPageId : PageId) (key : IndexKey) : Db S (List RowId) := do
  let leafPageId ← findLeaf fuel rootPageId key
  scanLeaves fuel leafPageId key

end Algorithm

end Rdbms
