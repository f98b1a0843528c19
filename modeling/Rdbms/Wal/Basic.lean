import Rdbms.Wal.Record
import Rdbms.Vfs.PageFile

/-!
# Appending to, scanning and replaying the log

The writer takes the offset of the next record from an allocator that it sets to
the length of the file when it is opened. The reader scans the file from its
start and insists that every byte belongs to a record whose sequence number is
its own offset. Replaying hands every page image of a committed transaction to a
sink.
-/

namespace Rdbms

open Library Wal

/-- Monotonic allocator of log sequence numbers. -/
structure LsnAllocator where
  next : Lsn
  deriving DecidableEq

/-- Allocate `encodedLen` bytes and return the sequence number of their start. -/
def LsnAllocator.allocate (encodedLen : Nat) : Db LsnAllocator Lsn := do
  let allocator ← Exec.get
  let lsn := allocator.next
  failIf (lsn.val.toNat + encodedLen ≥ 2 ^ 64) (DbResult.user "wal lsn overflow")
  Exec.modify fun a => { a with next := ⟨UInt64.ofNat (lsn.val.toNat + encodedLen)⟩ }
  return lsn

/-- Append-only log writer. -/
structure WalWriter (F : Type) where
  file : F
  allocator : LsnAllocator

namespace WalWriter

variable {W F : Type} [VfsFile W F]

/-- Open a writer at the current end of `file`. -/
def new (file : F) : Db W (WalWriter F) := do
  let len ← VfsFile.len file
  return ⟨file, ⟨⟨len⟩⟩⟩

/-- Append one record kind, with a sequence number from the allocator. The
allocator has moved on already when the write fails. -/
def append (kind : WalRecordKind) : Db (WalWriter F × W) Lsn := do
  let lsn ← Exec.onPart WalWriter.allocator (fun w a => { w with allocator := a })
    (Exec.zoom Prod.fst (fun s a => (a, s.2)) (LsnAllocator.allocate kind.encodedLen))
  let record : WalRecord := ⟨lsn, kind⟩
  let bytes ← record.encode
  let (writer, _) ← Exec.get
  Exec.onRight (VfsFile.writeAllAt writer.file lsn.val bytes)
  return lsn

def syncData (writer : WalWriter F) : Db W Unit := VfsFile.syncData writer.file

end WalWriter

def truncatedWal {α : Type} (offset remaining : Nat) : DbResult α :=
  DbResult.corruption s!"truncated wal record at offset {offset}: remaining bytes={remaining}"

namespace WalReader

variable {W F : Type} [VfsFile W F]

/-- Read the payload behind a record header; an empty payload is not read at all. -/
def readPayload (file : F) (offset payloadLen : Nat) : Db W (List UInt8) :=
  if payloadLen > 0 then
    VfsFile.readExactAt file (UInt64.ofNat (offset + headerSize)) payloadLen
  else pure []

/-- Read and validate the records from `offset` to the end of the file. -/
def readFrom (file : F) (len offset : Nat) : Db W (List WalRecord) :=
  if offset < len then do
    let remaining := len - offset
    failIf (remaining < headerSize) (truncatedWal offset remaining)
    let header ← VfsFile.readExactAt file (UInt64.ofNat offset) headerSize
    let payloadLen ← readU32 header offPayloadLen
    let recordLen := headerSize + payloadLen.toNat
    failIf (remaining < recordLen) (truncatedWal offset remaining)
    let payload ← readPayload file offset payloadLen.toNat
    let record ← WalRecord.decode (header ++ payload)
    let recordLsn := record.lsn.val
    failIf (record.lsn ≠ ⟨UInt64.ofNat offset⟩) (DbResult.corruption
      s!"wal lsn mismatch: offset={offset}, record_lsn={recordLsn}")
    let rest ← readFrom file len (offset + recordLen)
    return record :: rest
  else return []
termination_by len - offset

/-- Read and validate every record of the file. -/
def readAll (file : F) : Db W (List WalRecord) := do
  let len ← VfsFile.len file
  readFrom file len.toNat 0

end WalReader

/-- Receiver of the page images that are redone. -/
class PageImageRedo (σ : Type) where
  redoPageImage : Lsn → TxId → PageId → Page → Db σ Unit

/-- The transactions with a commit marker in the log. -/
def committedIds (records : List WalRecord) : List TxId :=
  records.filterMap fun record =>
    match record.kind with
    | .commitTx txId => some txId
    | _ => none

/-- The transactions with an abort marker in the log. -/
def abortedIds (records : List WalRecord) : List TxId :=
  records.filterMap fun record =>
    match record.kind with
    | .abortTx txId => some txId
    | _ => none

/-- Replay one record, given the two sets built from the whole log. -/
def redoRecord {σ : Type} [PageImageRedo σ] (committed aborted : List TxId)
    (record : WalRecord) : Db σ Unit :=
  match record.kind with
  | .pageImage txId pageId image =>
      if txId ∈ committed ∧ txId ∉ aborted then do
        let page ← image.fromBytes
        let header ← page.header
        let inRecord := pageId.val
        let inImage := header.pageId.val
        failIf (header.pageId ≠ pageId) (DbResult.corruption
          s!"wal page image id mismatch: record={inRecord}, image={inImage}")
        PageImageRedo.redoPageImage record.lsn txId pageId image
      else pure ()
  | _ => pure ()

/-- Replay page-image records whose transaction has a commit marker and no abort
marker. -/
def redoCommittedPageImages {σ : Type} [PageImageRedo σ] (records : List WalRecord) :
    Db σ Unit :=
  records.forM (redoRecord (committedIds records) (abortedIds records))

end Rdbms
