import Rdbms.Library.Lockstep
import Rdbms.Vfs.Crash

/-!
# A machine that stops

A disk on which the machine stops at some operation is compared with the same disk without
faults. Until the machine has stopped, the operations give the same on both disks and leave
the same files.
-/

namespace Rdbms

open Library

namespace Disk

/-- An operation has met a fault. -/
def HasStopped (d : Disk) : Prop := ∃ i < d.trace.length, (d.faults i).isSome

/-- The disk on which the machine stops, against the one without faults. -/
def stopping : Comparison Disk where
  Related d e := CrashOnly d ∧ e = d.healed
  Stopped d := CrashOnly d ∧ HasStopped d
  Keeps := SameFiles
  keeps_refl := SameFiles.refl
  keeps_trans := SameFiles.trans

variable {d : Disk} {α : Type} {m : Db Disk α}

theorem HasStopped.down (h : HasStopped d) (hd : CrashOnly d) : Down d := by
  obtain ⟨i, hi, hfault⟩ := h
  have hall : ∀ n, i ≤ n → (d.faults n).isSome := by
    intro n hn
    induction n, hn using Nat.le_induction with
    | base => exact hfault
    | succ n _ ih =>
        obtain ⟨fault, hfault⟩ := Option.isSome_iff_exists.1 ih
        exact (hd n fault hfault).2
  exact hall _ hi.le

theorem hasStopped_record (h : d.nextFault.isSome) (ev : Event) : HasStopped (d.record ev) := by
  refine ⟨d.trace.length, ?_, h⟩
  rw [trace_record, List.length_append]
  exact Nat.lt_add_of_pos_right Nat.one_pos

/-- An operation that a fault turns into a failure, and that does the same on the disk
without faults otherwise. -/
theorem lockstep_of_operation
    (hfault : ∀ d fault, d.nextFault = some fault → fault.written = 0 →
      ∃ r ev, m d = (r, d.record ev))
    (hnone : ∀ d, d.nextFault = none → m d.healed = ((m d).1, (m d).2.healed) ∧
      (m d).2.faults = d.faults) : Lockstep stopping m where
  stays d h := by
    obtain ⟨hcrash, hstopped⟩ := h
    obtain ⟨fault, hnext⟩ := Option.isSome_iff_exists.1 (hstopped.down hcrash)
    obtain ⟨r, ev, hrun⟩ := hfault d fault hnext (hcrash _ _ hnext).1
    rw [hrun]
    refine ⟨⟨hcrash.congr rfl, hasStopped_record ?_ ev⟩, sameFiles_record d ev⟩
    rw [hnext]
    rfl
  agree d e h := by
    obtain ⟨hcrash, rfl⟩ := h
    rcases hnext : d.nextFault with _ | fault
    · obtain ⟨hsame, hfaults⟩ := hnone d hnext
      rw [hsame]
      exact Or.inr ⟨rfl, hcrash.congr hfaults, rfl⟩
    · obtain ⟨r, ev, hrun⟩ := hfault d fault hnext (hcrash _ _ hnext).1
      rw [hrun]
      refine Or.inl ⟨hcrash.congr rfl, hasStopped_record ?_ ev⟩
      rw [hnext]
      rfl

theorem readExactAt_lockstep (fileId : FileId) (offset : UInt64) (n : Nat) :
    Lockstep stopping (readExactAt fileId offset n) := by
  refine lockstep_of_operation (fun d fault hnext _ => ?_) fun d hnext => ?_
  · simp only [readExactAt, hnext]
    exact ⟨_, _, rfl⟩
  · have hhealed : d.healed.nextFault = none := rfl
    simp only [readExactAt, hnext, hhealed, file_healed]
    split_ifs
    · exact ⟨rfl, rfl⟩
    · exact ⟨rfl, rfl⟩

theorem writeAllAt_lockstep (fileId : FileId) (offset : UInt64) (bytes : List UInt8) :
    Lockstep stopping (writeAllAt fileId offset bytes) := by
  refine lockstep_of_operation (fun d fault hnext hwritten => ?_) fun d hnext => ?_
  · simp only [writeAllAt, hnext, hwritten, List.take_zero, ByteFile.write_nil, setFile_file]
    exact ⟨_, _, rfl⟩
  · have hhealed : d.healed.nextFault = none := rfl
    simp only [writeAllAt, hnext, hhealed, file_healed]
    split_ifs
    · cases fileId <;> exact ⟨rfl, rfl⟩
    · exact ⟨rfl, rfl⟩

theorem syncData_lockstep (fileId : FileId) : Lockstep stopping (syncData fileId) := by
  refine lockstep_of_operation (fun d fault hnext _ => ?_) fun d hnext => ?_
  · simp only [syncData, hnext]
    exact ⟨_, _, rfl⟩
  · have hhealed : d.healed.nextFault = none := rfl
    simp only [syncData, hnext, hhealed]
    cases fileId <;> exact ⟨rfl, rfl⟩

end Disk

open Disk

variable (pageFile : PageFile FileId)

theorem readPage_lockstep (pageId : PageId) : Lockstep stopping (pageFile.readPage pageId) := by
  refine Lockstep.bind (Lockstep.liftM _) fun offset => ?_
  refine Lockstep.bind (readExactAt_lockstep _ _ _) fun bytes => ?_
  refine Lockstep.bind (Lockstep.liftM _) fun raw => ?_
  refine Lockstep.bind (Lockstep.liftM _) fun page => ?_
  refine Lockstep.bind (Lockstep.liftM _) fun header => ?_
  exact Lockstep.bind (Lockstep.liftM _) fun _ => Lockstep.pure page

end Rdbms
