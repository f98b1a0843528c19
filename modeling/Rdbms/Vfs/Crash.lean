import Rdbms.Vfs.Pages

/-!
# Disks that only crash

A schedule that is `CrashOnly` has no fault up to some operation and nothing but
faults that store nothing from there on, as `crashAfter n` and the empty schedule
do. On such a disk an operation either has its full effect, or the machine is
down and nothing changes any more.
-/

namespace Rdbms

open Library

namespace Disk

/-- Once there is a fault, every later operation fails too, and no failing write
stores anything. -/
def CrashOnly (d : Disk) : Prop :=
  ∀ i fault, d.faults i = some fault → fault.written = 0 ∧ (d.faults (i + 1)).isSome

/-- The machine has stopped. -/
def Down (d : Disk) : Prop := d.nextFault.isSome

variable {d e : Disk}

theorem crashOnly_crashAfter {n : Nat} (h : d.faults = crashAfter n) : CrashOnly d := by
  intro i fault hfault
  rw [h] at hfault ⊢
  simp only [crashAfter] at hfault ⊢
  split at hfault
  · cases hfault
  · cases hfault
    rw [if_neg (by omega)]
    exact ⟨rfl, rfl⟩

theorem FaultFree.crashOnly (h : FaultFree d) : CrashOnly d := by
  intro i fault hfault
  rw [h i] at hfault
  cases hfault

theorem FaultFree.not_down (h : FaultFree d) : ¬ Down d := by
  rw [Down, h.nextFault]
  simp

theorem CrashOnly.congr (h : CrashOnly d) (he : e.faults = d.faults) : CrashOnly e := by
  intro i fault hfault
  rw [he] at hfault ⊢
  exact h i fault hfault

theorem down_of_fault {fault : Fault} (h : d.nextFault = some fault) : Down d := by
  rw [Down, h]
  rfl

theorem Down.record (h : Down d) (hd : CrashOnly d) (ev : Event) : Down (d.record ev) := by
  obtain ⟨fault, hfault⟩ := Option.isSome_iff_exists.1 h
  have hnext := (hd _ _ hfault).2
  rw [Down, nextFault, trace_record, List.length_append, List.length_singleton, faults_record]
  exact hnext

/-- A machine that is down stays down. -/
theorem Down.later (h : Down d) (hd : CrashOnly d) (he : e.faults = d.faults)
    (hlen : d.trace.length ≤ e.trace.length) : Down e := by
  have hall : ∀ n, d.trace.length ≤ n → (d.faults n).isSome := by
    intro n hn
    induction n, hn using Nat.le_induction with
    | base => exact h
    | succ n _ ih =>
        obtain ⟨fault, hfault⟩ := Option.isSome_iff_exists.1 ih
        exact (hd n fault hfault).2
  rw [Down, nextFault, he]
  exact hall _ hlen

/-- Everything but the data file is the same. -/
structure SameButData (d e : Disk) : Prop where
  wal : e.wal = d.wal
  walSynced : e.walSynced = d.walSynced
  faults : e.faults = d.faults

theorem SameButData.trans {c d e : Disk} (h : SameButData c d) (h' : SameButData d e) :
    SameButData c e :=
  ⟨h'.wal.trans h.wal, h'.walSynced.trans h.walSynced, h'.faults.trans h.faults⟩

instance : IsPreorder Disk SameButData where
  refl _ := ⟨rfl, rfl, rfl⟩
  trans _ _ _ := SameButData.trans

/-- A write to the data file touches nothing else, whatever fault it meets. -/
theorem writeAllAt_sameButData (offset : UInt64) (bytes : List UInt8) :
    Exec.Preserves SameButData (writeAllAt .data offset bytes) := by
  intro d
  unfold writeAllAt
  split
  · exact ⟨rfl, rfl, rfl⟩
  · split
    · exact ⟨rfl, rfl, rfl⟩
    · exact ⟨rfl, rfl, rfl⟩

theorem SameFiles.sameButData (h : SameFiles d e) : SameButData d e :=
  ⟨h.wal, h.walSynced, h.faults⟩

/-- A write to the data file has its full effect, or changes nothing: the machine is
down, or the buffer ends past the largest file length. -/
theorem writeAllAt_data (hd : CrashOnly d) (offset : UInt64) (bytes : List UInt8) :
    (offset.toNat + bytes.length < 2 ^ 64 ∧ ∃ e, writeAllAt .data offset bytes d = (.ok (), e) ∧
      e.data = d.data.write offset.toNat bytes ∧ SameButData d e) ∨
    (∃ stop e, writeAllAt .data offset bytes d = (.error stop, e) ∧ SameFiles d e ∧
      (offset.toNat + bytes.length < 2 ^ 64 → Down e)) := by
  cases hfault : d.nextFault with
  | none =>
      by_cases hoff : offset.toNat + bytes.length < 2 ^ 64
      · refine Or.inl ⟨hoff, (d.setFile .data (d.data.write offset.toNat bytes)).record
          ⟨.data, .write offset bytes, true⟩, ?_, rfl, rfl, rfl, rfl⟩
        simp only [writeAllAt, hfault, if_pos hoff]
        rfl
      · refine Or.inr ⟨.error (.io .invalidInput), d.record ⟨.data, .write offset bytes, false⟩, ?_,
          sameFiles_record d _, fun h => absurd h hoff⟩
        simp only [writeAllAt, hfault, if_neg hoff]
  | some fault =>
      refine Or.inr ⟨.error (.io fault.kind), d.record ⟨.data, .write offset bytes, false⟩, ?_,
        sameFiles_record d _, fun _ => (down_of_fault hfault).record hd _⟩
      simp only [writeAllAt, hfault, (hd _ _ hfault).1, List.take_zero, ByteFile.write_nil,
        setFile_file]

theorem syncData_data (hd : CrashOnly d) :
    (∃ e, syncData .data d = (.ok (), e) ∧ SameFiles d e) ∨
    (∃ stop e, syncData .data d = (.error stop, e) ∧ SameFiles d e ∧ Down e) := by
  cases hfault : d.nextFault with
  | none =>
      refine Or.inl ⟨d.record ⟨.data, .sync, true⟩, ?_, sameFiles_record d _⟩
      simp only [syncData, hfault, synced]
  | some fault =>
      refine Or.inr ⟨.error (.io fault.kind), d.record ⟨.data, .sync, false⟩, ?_, sameFiles_record d _,
        (down_of_fault hfault).record hd _⟩
      simp only [syncData, hfault]

/-- A sync of the log covers what the log holds. -/
theorem syncData_wal (hd : CrashOnly d) :
    (∃ e, syncData .wal d = (.ok (), e) ∧ e.wal = d.wal ∧ e.data = d.data ∧
      e.faults = d.faults ∧ e.walSynced = d.wal.bytes.length) ∨
    (∃ stop e, syncData .wal d = (.error stop, e) ∧ SameFiles d e ∧ Down e) := by
  cases hfault : d.nextFault with
  | none =>
      refine Or.inl ⟨(d.synced .wal).record ⟨.wal, .sync, true⟩, ?_, rfl, rfl, rfl, rfl⟩
      simp only [syncData, hfault]
  | some fault =>
      refine Or.inr ⟨.error (.io fault.kind), d.record ⟨.wal, .sync, false⟩, ?_, sameFiles_record d _,
        (down_of_fault hfault).record hd _⟩
      simp only [syncData, hfault]

end Disk

open Disk ByteFile

variable {d : Disk} {pageFile : PageFile FileId}

/-- A page write has its full effect, or changes nothing. -/
theorem writePage_crashOnly (hfile : pageFile.file = .data) (hd : CrashOnly d) {page : Page}
    (hpage : ∃ pageId, page.ValidAs pageId) :
    (Fits page.number ∧ ∃ e, pageFile.writePage page d = (.ok (), e) ∧
      e.data = d.data.putPage page.number page ∧ SameButData d e) ∨
    (∃ stop e, pageFile.writePage page d = (.error stop, e) ∧ SameFiles d e ∧
      (Fits page.number → Down e)) := by
  obtain ⟨pageId, hvalid⟩ := hpage
  rw [hvalid.number]
  by_cases hoff : pageId.val.toNat * pageSize < 2 ^ 64
  · have hnat : (UInt64.ofNat (pageId.val.toNat * pageSize)).toNat =
        pageId.val.toNat * pageSize := by
      rw [UInt64.toNat_ofNat', Nat.mod_eq_of_lt hoff]
    rw [pageFile.writePage_of_validAs hvalid hoff, hfile, vfs_writeAllAt]
    have h := writeAllAt_data hd (UInt64.ofNat (pageId.val.toNat * pageSize)) page.bytes
    rw [hnat, page_end] at h
    rcases h with ⟨hend, e, he, hdata, hsame⟩ | ⟨stop, e, he, hsame, hdown⟩
    · exact Or.inl ⟨fits_of_end_lt hend, e, he, hdata, hsame⟩
    · exact Or.inr ⟨stop, e, he, hsame, fun hfits => hdown hfits.end_lt⟩
  · exact Or.inr ⟨_, d, pageFile.writePage_of_overflow hvalid hoff d, SameFiles.refl d,
      fun hfits => absurd hfits.offset_lt hoff⟩

/-- The page writes of a commit, up to the first that fails. -/
theorem forM_writePage_crashOnly (hfile : pageFile.file = .data) {pages : List Page} :
    ∀ {d : Disk}, CrashOnly d → (∀ page ∈ pages, ∃ pageId, page.ValidAs pageId) →
    ∃ r e k, pages.forM pageFile.writePage d = (r, e) ∧ e.data = d.data.putPages (pages.take k) ∧
      (∀ page ∈ pages.take k, Fits page.number) ∧ SameButData d e ∧
      (r = .ok () → pages.take k = pages) ∧
      ((∀ page ∈ pages, Fits page.number) → r = .ok () ∨ Down e) := by
  induction pages with
  | nil =>
      intro d _ _
      exact ⟨.ok (), d, 0, rfl, rfl, by simp, ⟨rfl, rfl, rfl⟩, fun _ => rfl, fun _ => Or.inl rfl⟩
  | cons page pages ih =>
      intro d hd hpages
      rw [List.forall_mem_cons] at hpages
      rcases writePage_crashOnly hfile hd hpages.1 with ⟨hfits, e, he, hdata, hsame⟩ |
        ⟨stop, e, he, hsame, hdown⟩
      · obtain ⟨r, e', k, he', hdata', hfits', hsame', hall, hend⟩ :=
          ih (hd.congr hsame.faults) hpages.2
        refine ⟨r, e', k + 1, (Exec.bind_of_ok he).trans he', ?_, ?_, hsame.trans hsame', ?_, ?_⟩
        · rw [hdata', hdata]
          rfl
        · rw [List.take_succ_cons]
          exact List.forall_mem_cons.2 ⟨hfits, hfits'⟩
        · intro hr
          rw [List.take_succ_cons, hall hr]
        · intro hfit
          exact hend (List.forall_mem_cons.1 hfit).2
      · exact ⟨.error stop, e, 0, Exec.bind_of_error he, hsame.data, by simp, hsame.sameButData, nofun,
          fun hfit => Or.inr (hdown (List.forall_mem_cons.1 hfit).1)⟩

end Rdbms
