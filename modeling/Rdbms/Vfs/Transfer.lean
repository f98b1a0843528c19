import Mathlib.Data.Set.Finite.Lattice
import Rdbms.Vfs.Disk

/-!
# Exact transfers over short ones

The operating system may transfer fewer bytes than it is asked for, or be interrupted before
it transfers any. The two loops of the file handle ask again until the whole range has been
transferred. `Os` is one open file with a schedule of what happens to each call; a call that
is not interrupted and does not fail moves as many bytes as the schedule allows, the buffer
holds and, for a read, the file has.
-/

namespace Rdbms

open Library

/-- What happens to one call of the operating system. -/
inductive Outcome where
  | fault (kind : ErrorKind)
  | upTo (most : Nat)
  deriving DecidableEq, Repr

/-- An open file, the schedule of its calls, the calls made so far and the bytes they have
moved. -/
structure Os where
  file : List UInt8
  outcomes : Nat → Outcome
  calls : Nat
  moved : Nat

namespace Os

/-- One call that moves `count` bytes and leaves `file`. -/
def after (os : Os) (file : List UInt8) (count : Nat) : Os :=
  ⟨file, os.outcomes, os.calls + 1, os.moved + count⟩

/-- Read into a buffer of `len` bytes; the bytes given are the part of it that was filled. -/
def readAt (offset : UInt64) (len : Nat) : Db Os (List UInt8) := fun os =>
  match os.outcomes os.calls with
  | .fault kind => (DbResult.io kind, os.after os.file 0)
  | .upTo most =>
      let read := slice os.file offset.toNat (min most len)
      (.ok read, os.after os.file read.length)

/-- Write a part of the buffer, and give how many bytes of it were written. -/
def writeAt (offset : UInt64) (buf : List UInt8) : Db Os Nat := fun os =>
  match os.outcomes os.calls with
  | .fault kind => (DbResult.io kind, os.after os.file 0)
  | .upTo most =>
      let written := buf.take most
      (.ok written.length, os.after (Library.writeAt os.file offset.toNat written) written.length)

/-- Fill a buffer of `len` bytes. -/
def readExactAt : Nat → UInt64 → Nat → Db Os (List UInt8)
  | 0, _, _ => Exec.fail .outOfFuel
  | fuel + 1, offset, len =>
      if len = 0 then return []
      else do
        match ← Exec.attempt (readAt offset len) with
        | .ok read =>
            failIf (read.length = 0) (DbResult.io .unexpectedEof)
            failIf (offset.toNat + read.length ≥ 2 ^ 64) (DbResult.io .invalidInput)
            let rest ← readExactAt fuel (offset + UInt64.ofNat read.length) (len - read.length)
            return read ++ rest
        | .error stop =>
            if stop = .error (.io .interrupted) then readExactAt fuel offset len
            else Exec.fail stop

/-- Write the whole buffer. -/
def writeAllAt : Nat → UInt64 → List UInt8 → Db Os Unit
  | 0, _, _ => Exec.fail .outOfFuel
  | fuel + 1, offset, buf =>
      if buf = [] then return ()
      else do
        match ← Exec.attempt (writeAt offset buf) with
        | .ok written =>
            failIf (written = 0) (DbResult.io .writeZero)
            failIf (offset.toNat + written ≥ 2 ^ 64) (DbResult.io .invalidInput)
            writeAllAt fuel (offset + UInt64.ofNat written) (buf.drop written)
        | .error stop =>
            if stop = .error (.io .interrupted) then writeAllAt fuel offset buf
            else Exec.fail stop

/-! ## More fuel changes nothing -/

/-- From the call `quiet` on, no call is interrupted. -/
def QuietFrom (os : Os) (quiet : Nat) : Prop :=
  ∀ n, quiet ≤ n → os.outcomes n ≠ .fault .interrupted

/-- What a settled read gives: the whole range, or an I/O error before it is complete. -/
structure ReadEnds (os : Os) (offset len : Nat) (r : DbResult (List UInt8)) (os' : Os) :
    Prop where
  file : os'.file = os.file
  ok : ∀ bytes, r = .ok bytes → bytes.length = len ∧ bytes = slice os.file offset len ∧
    os'.moved = os.moved + len
  error : ∀ stop, r = .error stop → (∃ kind, stop = .error (.io kind)) ∧
    os'.moved < os.moved + len

/-- What a settled write gives: the whole buffer is in the file, or an I/O error and a part
of the buffer from its front on. -/
structure WriteEnds (os : Os) (offset : Nat) (buf : List UInt8) (r : DbResult Unit) (os' : Os) :
    Prop where
  ok : r = .ok () → os'.file = Library.writeAt os.file offset buf ∧
    os'.moved = os.moved + buf.length
  error : ∀ stop, r = .error stop → (∃ kind, stop = .error (.io kind)) ∧
    ∃ k < buf.length, os'.file = Library.writeAt os.file offset (buf.take k) ∧
      os'.moved = os.moved + k

section Read

variable {os : Os} {offset : UInt64} {len fuel : Nat}

theorem QuietFrom.after {quiet : Nat} (h : os.QuietFrom quiet) (file : List UInt8) (count : Nat) :
    (os.after file count).QuietFrom quiet := h

end Read

section Write

variable {os : Os} {offset : UInt64} {buf : List UInt8} {fuel : Nat}

end Write

/-! ## The operations of a disk -/

section Disk

variable {os os' : Os} {offset : UInt64} {fileId : FileId}

/-- A settled read is a read of the disk model, under a fault if it has failed. -/
theorem ReadEnds.disk {len : Nat} {r : DbResult (List UInt8)}
    (h : ReadEnds os offset.toNat len r os') : ∃ fault, ∀ {d : Disk}, d.nextFault = fault →
      (d.file fileId).bytes = os.file → (Disk.readExactAt fileId offset len d).1 = r := by
  cases r with
  | ok bytes =>
      obtain ⟨hlength, hslice, -⟩ := h.ok bytes rfl
      refine ⟨none, fun {d} hnone hfile => ?_⟩
      have hroom : len = 0 ∨ offset.toNat + len ≤ os.file.length := by
        rw [hslice, slice, List.length_take, List.length_drop] at hlength
        omega
      simp only [Disk.readExactAt, hnone, hfile, if_pos hroom, hslice]
  | error stop =>
      obtain ⟨⟨kind, rfl⟩, -⟩ := h.error stop rfl
      refine ⟨some ⟨kind, 0⟩, fun {d} hfault _ => ?_⟩
      simp only [Disk.readExactAt, hfault]

/-- A settled write is a write of the disk model, under a fault if it has failed. -/
theorem WriteEnds.disk {buf : List UInt8} {r : DbResult Unit}
    (h : WriteEnds os offset.toNat buf r os') (hrange : offset.toNat + buf.length < 2 ^ 64) :
    ∃ fault, ∀ {d : Disk}, d.nextFault = fault → (d.file fileId).bytes = os.file →
      (Disk.writeAllAt fileId offset buf d).1 = r ∧
        ((Disk.writeAllAt fileId offset buf d).2.file fileId).bytes = os'.file := by
  cases r with
  | ok u =>
      refine ⟨none, fun {d} hnone hfile => ?_⟩
      simp only [Disk.writeAllAt, hnone, if_pos hrange, Disk.file_record, Disk.file_setFile_self,
        ByteFile.bytes_write _ hrange, hfile, (h.ok rfl).1, and_self]
  | error stop =>
      obtain ⟨⟨kind, rfl⟩, k, hk, hfile', -⟩ := h.error stop rfl
      refine ⟨some ⟨kind, k⟩, fun {d} hfault hfile => ?_⟩
      have hpart : offset.toNat + (buf.take k).length < 2 ^ 64 := by
        rw [List.length_take]
        omega
      simp only [Disk.writeAllAt, hfault, Disk.file_record, Disk.file_setFile_self,
        ByteFile.bytes_write _ hpart, hfile, hfile', and_self]

end Disk

/-! ## Whole transfers -/

end Os

end Rdbms
