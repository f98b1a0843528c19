import Rdbms.Core
import Rdbms.Library.Slice
import Rdbms.Library.LittleEndian

/-!
# Slotted pages

A page is a buffer of 4096 bytes: a header of 34 bytes, a directory of six-byte
slots growing upwards, and record bytes packed downwards from the end. The
operations below are the ones of the engine, byte for byte. An operation that
changes the page in place is a computation over the page; the page it has
reached is kept when it returns an error.
-/

namespace Rdbms

open Library

@[simp] abbrev pageSize : Nat := 4096

/-- Read a little-endian word, with the bounds check of a slice access. -/
def readU16 (bytes : List UInt8) (offset : Nat) : DbResult UInt16 :=
  if offset + 2 ≤ bytes.length then .ok (u16LE (slice bytes offset 2)) else DbResult.panicked

def readU32 (bytes : List UInt8) (offset : Nat) : DbResult UInt32 :=
  if offset + 4 ≤ bytes.length then .ok (u32LE (slice bytes offset 4)) else DbResult.panicked

def readU64 (bytes : List UInt8) (offset : Nat) : DbResult UInt64 :=
  if offset + 8 ≤ bytes.length then .ok (u64LE (slice bytes offset 8)) else DbResult.panicked

section ReadField

variable {bytes back : List UInt8} {offset : Nat}

/-- A field of a buffer that is written out as what stands before it, its own
bytes and the rest. -/
theorem readU16_of_eq (front : List UInt8) {v : UInt16} (h : bytes = front ++ (le16 v ++ back))
    (hoff : front.length = offset) : readU16 bytes offset = .ok v := by
  subst h hoff
  rw [readU16, if_pos (by simp), slice_middle _ _ _ rfl (length_le16 v), u16LE_le16]

theorem readU32_of_eq (front : List UInt8) {v : UInt32} (h : bytes = front ++ (le32 v ++ back))
    (hoff : front.length = offset) : readU32 bytes offset = .ok v := by
  subst h hoff
  rw [readU32, if_pos (by simp), slice_middle _ _ _ rfl (length_le32 v), u32LE_le32]

theorem readU64_of_eq (front : List UInt8) {v : UInt64} (h : bytes = front ++ (le64 v ++ back))
    (hoff : front.length = offset) : readU64 bytes offset = .ok v := by
  subst h hoff
  rw [readU64, if_pos (by simp), slice_middle _ _ _ rfl (length_le64 v), u64LE_le64]

end ReadField

/-- Known page kinds. -/
inductive PageType where
  | fileHeader
  | heap
  | catalog
  | freeMap
  | index
  deriving DecidableEq, Repr

namespace PageType

def toU16 : PageType → UInt16
  | fileHeader => 1
  | heap => 2
  | catalog => 3
  | freeMap => 4
  | index => 5

def fromU16 (value : UInt16) : DbResult PageType :=
  if value = 1 then .ok fileHeader
  else if value = 2 then .ok heap
  else if value = 3 then .ok catalog
  else if value = 4 then .ok freeMap
  else if value = 5 then .ok index
  else DbResult.corruption s!"unknown page type: {value}"

end PageType

/-- Parsed page header. -/
structure PageHeader where
  pageId : PageId
  pageLsn : Lsn
  pageType : PageType
  freeStart : UInt16
  freeEnd : UInt16
  slotCount : UInt16
  checksum : UInt32
  deriving DecidableEq, Repr

structure SlotEntry where
  offset : UInt16
  len : UInt16
  flags : UInt16
  deriving DecidableEq, Repr

/-- Fixed-size page buffer. -/
structure Page where
  bytes : List UInt8
  size_eq : bytes.length = pageSize
  deriving DecidableEq

namespace SlotEntry

def unusedFlag : UInt16 := 0

def liveFlag : UInt16 := 1

def deadFlag : UInt16 := 2

def isLive (slot : SlotEntry) : Bool := slot.flags == liveFlag

def isDead (slot : SlotEntry) : Bool := slot.flags == deadFlag

end SlotEntry

namespace Page

def pageMagic : UInt32 := 0x52444250

def pageVersion : UInt16 := 1

@[simp] abbrev headerSize : Nat := 34

@[simp] abbrev slotSize : Nat := 6

@[simp] abbrev offMagic : Nat := 0

@[simp] abbrev offVersion : Nat := 4

@[simp] abbrev offPageType : Nat := 6

@[simp] abbrev offPageId : Nat := 8

@[simp] abbrev offPageLsn : Nat := 16

@[simp] abbrev offFreeStart : Nat := 24

@[simp] abbrev offFreeEnd : Nat := 26

@[simp] abbrev offSlotCount : Nat := 28

@[simp] abbrev offChecksum : Nat := 30

/-- The page with the window at `offset` overwritten; a window that does not fit
leaves the page as it is. -/
def put (p : Page) (offset : Nat) (data : List UInt8) : Page :=
  if h : offset + data.length ≤ p.bytes.length then
    ⟨splice p.bytes offset data, by rw [length_splice h, p.size_eq]⟩
  else p

/-- Overwrite a window of the page, with the bounds check of a slice access. -/
def writeBytes (offset : Nat) (data : List UInt8) : Db Page Unit := fun p =>
  if offset + data.length ≤ p.bytes.length then (.ok (), p.put offset data)
  else (.error .panicked, p)

def writeU16 (offset : Nat) (value : UInt16) : Db Page Unit := writeBytes offset (le16 value)

def writeU32 (offset : Nat) (value : UInt32) : Db Page Unit := writeBytes offset (le32 value)

def writeU64 (offset : Nat) (value : UInt64) : Db Page Unit := writeBytes offset (le64 value)

/-- Additive checksum of arbitrary bytes, modulo `2 ^ 32`. -/
def checksum (bytes : List UInt8) : UInt32 :=
  bytes.foldl (fun acc byte => acc + byte.toUInt32) 0

def validateChecksum (bytes : List UInt8) (expected : UInt32) : DbResult Unit :=
  let actual := checksum bytes
  if actual = expected then .ok ()
  else DbResult.corruption s!"page checksum mismatch: expected {expected}, got {actual}"

/-- Validate the checksum embedded in a formatted page. -/
def validatePageChecksum (p : Page) : DbResult Unit := do
  let expected ← readU32 p.bytes offChecksum
  validateChecksum (p.put offChecksum (le32 0)).bytes expected

/-- Recompute and store the page checksum. -/
def refreshChecksum : Db Page Unit := do
  writeU32 offChecksum 0
  let p ← Exec.get
  writeU32 offChecksum (checksum p.bytes)

def zeroed : Page := ⟨List.replicate pageSize 0, List.length_replicate⟩

/-- The writes that turn a zeroed page into an empty slotted page. -/
def format (pageId : PageId) (pageType : PageType) : Db Page Unit := do
  writeU32 offMagic pageMagic
  writeU16 offVersion pageVersion
  writeU16 offPageType pageType.toU16
  writeU64 offPageId pageId.val
  writeU64 offPageLsn 0
  writeU16 offFreeStart (UInt16.ofNat headerSize)
  writeU16 offFreeEnd (UInt16.ofNat pageSize)
  writeU16 offSlotCount 0
  refreshChecksum

/-- Create a formatted slotted page. -/
def new (pageId : PageId) (pageType : PageType) : Page := (format pageId pageType zeroed).2

/-- Parsed header fields after the basic shape of the header has been checked. -/
def header (p : Page) : DbResult PageHeader := do
  failIf ((← readU32 p.bytes offMagic) ≠ pageMagic) (DbResult.corruption "invalid page magic")
  let version ← readU16 p.bytes offVersion
  failIf (version ≠ pageVersion) (DbResult.corruption s!"unsupported page version: {version}")
  let freeStart ← readU16 p.bytes offFreeStart
  let freeEnd ← readU16 p.bytes offFreeEnd
  let slotCount ← readU16 p.bytes offSlotCount
  let minFreeStart := headerSize + slotCount.toNat * slotSize
  failIf (freeStart.toNat ≠ minFreeStart) (DbResult.corruption
    s!"invalid free_start: expected {minFreeStart}, got {freeStart}")
  failIf (freeStart > freeEnd ∨ freeEnd.toNat > pageSize) (DbResult.corruption
    s!"invalid free space boundaries: free_start={freeStart}, free_end={freeEnd}")
  return {
    pageId := ⟨← readU64 p.bytes offPageId⟩
    pageLsn := ⟨← readU64 p.bytes offPageLsn⟩
    pageType := ← PageType.fromU16 (← readU16 p.bytes offPageType)
    freeStart
    freeEnd
    slotCount
    checksum := ← readU32 p.bytes offChecksum }

def slotOffset (slotIndex : UInt16) : DbResult Nat :=
  let offset := headerSize + slotIndex.toNat * slotSize
  if offset + slotSize > pageSize then
    DbResult.corruption s!"slot {slotIndex} is outside page"
  else .ok offset

def slotEntry (p : Page) (slotIndex : UInt16) : DbResult SlotEntry := do
  let offset ← slotOffset slotIndex
  return {
    offset := ← readU16 p.bytes offset
    len := ← readU16 p.bytes (offset + 2)
    flags := ← readU16 p.bytes (offset + 4) }

def writeSlotEntry (slotIndex : UInt16) (slot : SlotEntry) : Db Page Unit := do
  let offset ← slotOffset slotIndex
  writeU16 offset slot.offset
  writeU16 (offset + 2) slot.len
  writeU16 (offset + 4) slot.flags

/-- The range `0..count` over slot indexes. -/
def slotIndexes (count : UInt16) : List UInt16 := (List.range count.toNat).map UInt16.ofNat

/-- The checks `validate` makes on one slot. -/
def validateSlot (p : Page) (freeEnd : UInt16) (slotIndex : UInt16) : DbResult Unit := do
  let slot ← p.slotEntry slotIndex
  let flags := slot.flags
  failIf (flags ≠ SlotEntry.unusedFlag ∧ flags ≠ SlotEntry.liveFlag ∧ flags ≠ SlotEntry.deadFlag)
    (DbResult.corruption s!"invalid slot flags at slot {slotIndex}: {flags}")
  let start := slot.offset.toNat
  let last := start + slot.len.toNat
  failIf (slot.isLive ∧ (start < freeEnd.toNat ∨ last > pageSize))
    (DbResult.corruption s!"slot {slotIndex} points outside record area")

/-- Validate header, checksum and every live slot boundary. -/
def validate (p : Page) : DbResult Unit := do
  let header ← p.header
  p.validatePageChecksum
  (slotIndexes header.slotCount).forM (p.validateSlot header.freeEnd)

/-- Parse and validate a page copied from storage. -/
def fromBytes (p : Page) : DbResult Page := do
  p.validate
  return p

/-- The first dead slot among the given indexes. -/
def findDeadSlot (p : Page) : List UInt16 → DbResult (Option UInt16)
  | [] => .ok none
  | slotIndex :: rest => do
      if (← p.slotEntry slotIndex).isDead then return some slotIndex
      findDeadSlot p rest

/-- Insert variable-size record bytes and return a stable slot id. -/
def insertRecord (record : List UInt8) : Db Page SlotId := do
  failIf (record.length > 65535) (DbResult.user "record is larger than u16 length limit")
  let p ← Exec.get
  let header ← p.header
  let reusableSlot ← p.findDeadSlot (slotIndexes header.slotCount)
  let slotBytes := if reusableSlot.isNone then slotSize else 0
  let needed := record.length + slotBytes
  -- the difference of two machine words; the header check rules out the overflow
  failIf (header.freeEnd < header.freeStart) DbResult.panicked
  let freeBytes := (header.freeEnd - header.freeStart).toNat
  failIf (needed > freeBytes)
    (DbResult.user s!"not enough free page space: need {needed}, have {freeBytes}")
  failIf (header.freeEnd.toNat < record.length) DbResult.panicked
  let newOffset := header.freeEnd.toNat - record.length
  writeBytes newOffset record
  writeU16 offFreeEnd (UInt16.ofNat newOffset)
  let slotIndex ← match reusableSlot with
    | some index => pure index
    | none => do
        let index := header.slotCount
        failIf (index.toNat + 1 > 65535) (DbResult.user "page slot count overflow")
        let newSlotCount := index + 1
        writeU16 offSlotCount newSlotCount
        failIf (headerSize + newSlotCount.toNat * slotSize > 65535) DbResult.panicked
        writeU16 offFreeStart (UInt16.ofNat (headerSize + newSlotCount.toNat * slotSize))
        pure index
  writeSlotEntry slotIndex {
    offset := UInt16.ofNat newOffset
    len := UInt16.ofNat record.length
    flags := SlotEntry.liveFlag }
  refreshChecksum
  return ⟨slotIndex⟩

/-- Read a record by slot id. Dead or unused slots give `none`. -/
def readRecord (p : Page) (slotId : SlotId) : DbResult (Option (List UInt8)) := do
  let header ← p.header
  let slotIndex := slotId.val
  failIf (slotIndex ≥ header.slotCount) (DbResult.user s!"slot {slotIndex} is out of range")
  let slot ← p.slotEntry slotIndex
  if !slot.isLive then return none
  let start := slot.offset.toNat
  let last := start + slot.len.toNat
  failIf (last > pageSize) (DbResult.corruption "slot points past page end")
  return some (slice p.bytes start slot.len.toNat)

/-- Mark a slot as dead. Returns `false` if the slot was already dead or unused. -/
def deleteRecord (slotId : SlotId) : Db Page Bool := do
  let p ← Exec.get
  let header ← p.header
  let slotIndex := slotId.val
  failIf (slotIndex ≥ header.slotCount) (DbResult.user s!"slot {slotIndex} is out of range")
  let slot ← p.slotEntry slotIndex
  if !slot.isLive then return false
  writeSlotEntry slotIndex { slot with flags := SlotEntry.deadFlag }
  refreshChecksum
  return true

/-- The live records among the given slots, with their slot indexes. -/
def liveRecords (p : Page) : List UInt16 → DbResult (List (UInt16 × List UInt8))
  | [] => .ok []
  | slotIndex :: rest => do
      if (← p.slotEntry slotIndex).isLive then
        let data ← DbResult.okOr (← p.readRecord ⟨slotIndex⟩)
          (DbResult.corruption "live slot without data")
        let records ← p.liveRecords rest
        return (slotIndex, data) :: records
      else p.liveRecords rest

/-- Place records one after the other below `freeEnd`, and give where the last one
starts. -/
def repack (freeEnd : Nat) : List (UInt16 × List UInt8) → Db Page Nat
  | [] => return freeEnd
  | (slotIndex, data) :: rest => do
      failIf (freeEnd < data.length) DbResult.panicked
      writeBytes (freeEnd - data.length) data
      writeSlotEntry slotIndex {
        offset := UInt16.ofNat (freeEnd - data.length)
        len := UInt16.ofNat data.length
        flags := SlotEntry.liveFlag }
      repack (freeEnd - data.length) rest

/-- Repack live record bytes while keeping live slot ids unchanged. -/
def compact : Db Page Unit := do
  let p ← Exec.get
  let header ← p.header
  let records ← p.liveRecords (slotIndexes header.slotCount)
  let freeStart := headerSize + header.slotCount.toNat * slotSize
  failIf (freeStart > pageSize) DbResult.panicked
  writeBytes freeStart (List.replicate (pageSize - freeStart) 0)
  let freeEnd ← repack pageSize records
  writeU16 offFreeEnd (UInt16.ofNat freeEnd)
  refreshChecksum

/-- Count the live slots among the given ones. -/
def countLive (p : Page) (count : UInt16) : List UInt16 → DbResult UInt16
  | [] => .ok count
  | slotIndex :: rest => do
      if (← p.slotEntry slotIndex).isLive then
        failIf (count.toNat + 1 > 65535) DbResult.panicked
        p.countLive (count + 1) rest
      else p.countLive count rest

/-- Number of live records currently stored in the page. -/
def liveRecordCount (p : Page) : DbResult UInt16 := do
  let header ← p.header
  p.countLive 0 (slotIndexes header.slotCount)

/-- Free bytes available without compaction. -/
def freeSpace (p : Page) : DbResult Nat := do
  let header ← p.header
  failIf (header.freeEnd < header.freeStart) DbResult.panicked
  return (header.freeEnd - header.freeStart).toNat

end Page

end Rdbms
