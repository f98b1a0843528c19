import Rdbms.Memory
import Rdbms.Vfs.PageFile

/-!
# A disk with two files

The world the engine runs in: a data file and a log file that behave as growable
byte arrays, a schedule of faults, and the trace of every operation performed so
far. The `n`-th operation of a run consults the schedule at `n`: without a fault
it succeeds (a read may still run past the end of the file), with a fault it
returns an I/O error, and a faulty write may have stored a part of its buffer.

A disk without faults is `FaultFree`. A crash after `n` operations is the
schedule `crashAfter n`: every later operation fails and stores nothing, so the
files at the end of the run are the files at the moment of the crash.
-/

namespace Rdbms

open Library

/-- The two files of a database. -/
inductive FileId where
  | data
  | wal
  deriving DecidableEq, Repr

/-- The bytes of a file; its length is a machine word. -/
structure ByteFile where
  bytes : List UInt8
  length_lt : bytes.length < 2 ^ 64

namespace ByteFile

def empty : ByteFile := ⟨[], by decide⟩

/-- Overwrite the file at `offset`, filling a gap with zeros. A buffer that would
end past the largest file length is not written. -/
def write (f : ByteFile) (offset : Nat) (data : List UInt8) : ByteFile :=
  if h : data ≠ [] ∧ offset + data.length < 2 ^ 64 then
    ⟨writeAt f.bytes offset data, by
      rw [length_writeAt h.1]
      exact max_lt h.2 f.length_lt⟩
  else f

theorem bytes_write (f : ByteFile) {offset : Nat} {data : List UInt8}
    (h : offset + data.length < 2 ^ 64) :
    (f.write offset data).bytes = writeAt f.bytes offset data := by
  by_cases hnil : data = []
  · simp [write, hnil, writeAt]
  · rw [write, dif_pos ⟨hnil, h⟩]

@[simp] theorem write_nil (f : ByteFile) (offset : Nat) : f.write offset [] = f := by
  simp [write]

end ByteFile

/-- One operation on a file, as the VFS sees it. -/
inductive VfsOp where
  | read (offset : UInt64) (len : Nat)
  | write (offset : UInt64) (data : List UInt8)
  | len
  | sync
  deriving DecidableEq

/-- An operation on one of the files and whether it succeeded. -/
structure Event where
  file : FileId
  op : VfsOp
  ok : Bool
  deriving DecidableEq

/-- A fault: the error returned and how much of a written buffer is stored. -/
structure Fault where
  kind : ErrorKind
  written : Nat
  deriving DecidableEq

/-- The two files, the length of the log covered by its last sync, the schedule of
faults and the operations performed so far, and the memory of the machine. -/
structure Disk where
  data : ByteFile
  wal : ByteFile
  walSynced : Nat
  faults : Nat → Option Fault
  trace : List Event
  memory : Memory

instance : HasMemory Disk := ⟨Disk.memory⟩

namespace Disk

def file (d : Disk) : FileId → ByteFile
  | .data => d.data
  | .wal => d.wal

def setFile (d : Disk) : FileId → ByteFile → Disk
  | .data, f => { d with data := f }
  | .wal, f => { d with wal := f }

def record (d : Disk) (e : Event) : Disk := { d with trace := d.trace ++ [e] }

/-- The fault scheduled for the next operation. -/
def nextFault (d : Disk) : Option Fault := d.faults d.trace.length

def readExactAt (fileId : FileId) (offset : UInt64) (len : Nat) : Db Disk (List UInt8) := fun d =>
  match d.nextFault with
  | some fault => (DbResult.io fault.kind, d.record ⟨fileId, .read offset len, false⟩)
  | none =>
      if len = 0 ∨ offset.toNat + len ≤ (d.file fileId).bytes.length then
        (.ok (slice (d.file fileId).bytes offset.toNat len),
          d.record ⟨fileId, .read offset len, true⟩)
      else (DbResult.io .unexpectedEof, d.record ⟨fileId, .read offset len, false⟩)

def writeAllAt (fileId : FileId) (offset : UInt64) (data : List UInt8) : Db Disk Unit := fun d =>
  match d.nextFault with
  | some fault =>
      (DbResult.io fault.kind,
        (d.setFile fileId ((d.file fileId).write offset.toNat (data.take fault.written))).record
          ⟨fileId, .write offset data, false⟩)
  | none =>
      if offset.toNat + data.length < 2 ^ 64 then
        (.ok (), (d.setFile fileId ((d.file fileId).write offset.toNat data)).record
          ⟨fileId, .write offset data, true⟩)
      else (DbResult.io .invalidInput, d.record ⟨fileId, .write offset data, false⟩)

def len (fileId : FileId) : Db Disk UInt64 := fun d =>
  match d.nextFault with
  | some fault => (DbResult.io fault.kind, d.record ⟨fileId, .len, false⟩)
  | none => (.ok (UInt64.ofNat (d.file fileId).bytes.length), d.record ⟨fileId, .len, true⟩)

/-- What a successful sync covers is remembered for the log only. -/
def synced (d : Disk) : FileId → Disk
  | .data => d
  | .wal => { d with walSynced := d.wal.bytes.length }

def syncData (fileId : FileId) : Db Disk Unit := fun d =>
  match d.nextFault with
  | some fault => (DbResult.io fault.kind, d.record ⟨fileId, .sync, false⟩)
  | none => (.ok (), (d.synced fileId).record ⟨fileId, .sync, true⟩)

instance : VfsFile Disk FileId := ⟨readExactAt, writeAllAt, len, syncData⟩

@[simp] theorem vfs_readExactAt (fileId : FileId) (offset : UInt64) (n : Nat) :
    (VfsFile.readExactAt fileId offset n : Db Disk (List UInt8)) = readExactAt fileId offset n :=
  rfl

@[simp] theorem vfs_writeAllAt (fileId : FileId) (offset : UInt64) (data : List UInt8) :
    (VfsFile.writeAllAt fileId offset data : Db Disk Unit) = writeAllAt fileId offset data := rfl

@[simp] theorem vfs_len (fileId : FileId) : (VfsFile.len fileId : Db Disk UInt64) = len fileId :=
  rfl

@[simp] theorem vfs_syncData (fileId : FileId) :
    (VfsFile.syncData fileId : Db Disk Unit) = syncData fileId := rfl

/-- No operation from here on meets a fault. -/
def FaultFree (d : Disk) : Prop := ∀ n, d.faults n = none

/-- The machine stops after `n` operations. -/
def crashAfter (n : Nat) : Nat → Option Fault := fun i =>
  if i < n then none else some ⟨.other, 0⟩

/-- A disk holding the given files, with nothing done yet, in a machine with no more memory
than there always is. -/
def holding (data wal : ByteFile) (faults : Nat → Option Fault) : Disk :=
  ⟨data, wal, wal.bytes.length, faults, [], .least⟩

@[simp] theorem data_holding (data wal : ByteFile) (faults : Nat → Option Fault) :
    (holding data wal faults).data = data := rfl

@[simp] theorem wal_holding (data wal : ByteFile) (faults : Nat → Option Fault) :
    (holding data wal faults).wal = wal := rfl

/-- Two empty files, and no fault to come. -/
def fresh : Disk := holding .empty .empty fun _ => none

/-- The disk with no fault left in its schedule. -/
def healed (d : Disk) : Disk := { d with faults := fun _ => none }

theorem healed_faultFree (d : Disk) : FaultFree d.healed := fun _ => rfl

theorem fresh_faultFree : FaultFree fresh := fun _ => rfl

@[simp] theorem file_healed (d : Disk) (fileId : FileId) : d.healed.file fileId = d.file fileId := by
  cases fileId <;> rfl

@[simp] theorem file_record (d : Disk) (e : Event) (fileId : FileId) :
    (d.record e).file fileId = d.file fileId := by
  cases fileId <;> rfl

@[simp] theorem file_setFile_self (d : Disk) (fileId : FileId) (f : ByteFile) :
    (d.setFile fileId f).file fileId = f := by
  cases fileId <;> rfl

@[simp] theorem setFile_file (d : Disk) (fileId : FileId) :
    d.setFile fileId (d.file fileId) = d := by
  cases fileId <;> rfl

@[simp] theorem faults_record (d : Disk) (e : Event) : (d.record e).faults = d.faults := rfl

@[simp] theorem faults_setFile (d : Disk) (fileId : FileId) (f : ByteFile) :
    (d.setFile fileId f).faults = d.faults := by
  cases fileId <;> rfl

@[simp] theorem trace_record (d : Disk) (e : Event) : (d.record e).trace = d.trace ++ [e] := rfl

@[simp] theorem trace_setFile (d : Disk) (fileId : FileId) (f : ByteFile) :
    (d.setFile fileId f).trace = d.trace := by
  cases fileId <;> rfl

@[simp] theorem data_record (d : Disk) (e : Event) : (d.record e).data = d.data := rfl

@[simp] theorem wal_record (d : Disk) (e : Event) : (d.record e).wal = d.wal := rfl

@[simp] theorem walSynced_record (d : Disk) (e : Event) : (d.record e).walSynced = d.walSynced :=
  rfl

@[simp] theorem data_setFile_wal (d : Disk) (f : ByteFile) : (d.setFile .wal f).data = d.data := rfl

@[simp] theorem wal_setFile_wal (d : Disk) (f : ByteFile) : (d.setFile .wal f).wal = f := rfl

@[simp] theorem walSynced_setFile_wal (d : Disk) (f : ByteFile) :
    (d.setFile .wal f).walSynced = d.walSynced := rfl

/-- Two disks that hold the same files under the same schedule; only the trace
may differ. -/
structure SameFiles (d e : Disk) : Prop where
  data : e.data = d.data
  wal : e.wal = d.wal
  walSynced : e.walSynced = d.walSynced
  faults : e.faults = d.faults

theorem SameFiles.refl (d : Disk) : SameFiles d d := ⟨rfl, rfl, rfl, rfl⟩

theorem SameFiles.trans {c d e : Disk} (h : SameFiles c d) (h' : SameFiles d e) : SameFiles c e :=
  ⟨h'.data.trans h.data, h'.wal.trans h.wal, h'.walSynced.trans h.walSynced,
    h'.faults.trans h.faults⟩

theorem SameFiles.file {d e : Disk} (h : SameFiles d e) (fileId : FileId) :
    e.file fileId = d.file fileId := by
  cases fileId with
  | data => exact h.data
  | wal => exact h.wal

theorem SameFiles.faultFree {d e : Disk} (h : SameFiles d e) (hd : FaultFree d) : FaultFree e := by
  intro n
  rw [h.faults]
  exact hd n

theorem sameFiles_record (d : Disk) (e : Event) : SameFiles d (d.record e) := ⟨rfl, rfl, rfl, rfl⟩

theorem FaultFree.nextFault {d : Disk} (hd : FaultFree d) : d.nextFault = none := hd _

theorem readExactAt_of_faultFree {d : Disk} (hd : FaultFree d) (fileId : FileId) {offset : UInt64}
    {n : Nat} (h : offset.toNat + n ≤ (d.file fileId).bytes.length) :
    readExactAt fileId offset n d = (.ok (slice (d.file fileId).bytes offset.toNat n),
      d.record ⟨fileId, .read offset n, true⟩) := by
  simp only [readExactAt, hd.nextFault, if_pos (Or.inr h)]

theorem len_of_faultFree {d : Disk} (hd : FaultFree d) (fileId : FileId) :
    len fileId d = (.ok (UInt64.ofNat (d.file fileId).bytes.length),
      d.record ⟨fileId, .len, true⟩) := by
  simp only [len, hd.nextFault]

theorem toNat_ofNat_length (f : ByteFile) :
    (UInt64.ofNat f.bytes.length).toNat = f.bytes.length := by
  have := f.length_lt
  rw [UInt64.toNat_ofNat']
  omega

/-! ## Operations that only look -/

/-- An operation that only looks at a file. -/
def VfsOp.isRead : VfsOp → Bool
  | .read _ _ => true
  | .len => true
  | .write _ _ => false
  | .sync => false

/-- The disk has only been looked at. -/
structure OnlyReads (d e : Disk) : Prop where
  files : SameFiles d e
  trace : ∃ events, e.trace = d.trace ++ events ∧ ∀ ev ∈ events, VfsOp.isRead ev.op

theorem OnlyReads.refl (d : Disk) : OnlyReads d d := ⟨SameFiles.refl d, [], by simp, by simp⟩

theorem OnlyReads.trans {c d e : Disk} (h : OnlyReads c d) (h' : OnlyReads d e) :
    OnlyReads c e := by
  obtain ⟨xs, hxs, hall⟩ := h.trace
  obtain ⟨ys, hys, hall'⟩ := h'.trace
  refine ⟨h.files.trans h'.files, xs ++ ys, by rw [hys, hxs, List.append_assoc], ?_⟩
  intro ev hev
  rcases List.mem_append.1 hev with hev | hev
  · exact hall ev hev
  · exact hall' ev hev

instance : IsPreorder Disk OnlyReads where
  refl := OnlyReads.refl
  trans _ _ _ := OnlyReads.trans

theorem onlyReads_record (d : Disk) {e : Event} (h : VfsOp.isRead e.op) :
    OnlyReads d (d.record e) := ⟨sameFiles_record d e, [e], rfl, by simpa using h⟩

theorem readExactAt_onlyReads (fileId : FileId) (offset : UInt64) (n : Nat) :
    Exec.Preserves OnlyReads (readExactAt fileId offset n) := by
  intro d
  unfold readExactAt
  split
  · exact onlyReads_record d rfl
  · split
    · exact onlyReads_record d rfl
    · exact onlyReads_record d rfl

theorem len_onlyReads (fileId : FileId) : Exec.Preserves OnlyReads (len fileId) := by
  intro d
  unfold len
  split
  · exact onlyReads_record d rfl
  · exact onlyReads_record d rfl

end Disk

end Rdbms
