import Rdbms.Wal.Log

/-!
# Appending under write faults

An append takes its sequence number before it writes. When the write fails and
stores nothing, the allocator stays ahead of the end of the file, so the next
append that succeeds leaves a gap of zeros behind it, and a scan stops at the
gap. The log survives a sequence of appends exactly when no append succeeds
after one that failed.
-/

namespace Rdbms

open Library Wal Disk

/-! ## One append -/

section Append

variable {w : WalWriter FileId} {d : Disk} {kind : WalRecordKind}

/-- The writer after it has allocated `n` bytes. -/
def WalWriter.advanced (w : WalWriter FileId) (n : Nat) : WalWriter FileId :=
  { w with allocator := ⟨⟨UInt64.ofNat (w.allocator.next.val.toNat + n)⟩⟩ }

theorem toNat_next_advanced {n : Nat} (h : w.allocator.next.val.toNat + n < 2 ^ 64) :
    (w.advanced n).allocator.next.val.toNat = w.allocator.next.val.toNat + n :=
  toNat_ofNat_of_le le_rfl h

/-- The allocator has room: the append hands the record's bytes to the file. -/
theorem append_eq (hroom : w.allocator.next.val.toNat + kind.encodedLen < 2 ^ 64) :
    WalWriter.append kind (w, d) =
      match writeAllAt w.file w.allocator.next.val
        (WalRecord.bytes ⟨w.allocator.next, kind⟩) d with
      | (.ok _, e) => (.ok w.allocator.next, (w.advanced kind.encodedLen, e))
      | (.error stop, e) => (.error stop, (w.advanced kind.encodedLen, e)) := by
  have hfit : ¬ w.allocator.next.val.toNat + kind.encodedLen ≥ 2 ^ 64 := by omega
  simp only [WalWriter.append, LsnAllocator.allocate, Exec.bind_apply, Exec.onPart_apply,
    Exec.zoom_apply, Exec.get_apply, Exec.liftM_apply, failIf_of_not hfit, Exec.modify_apply,
    Exec.pure_apply, WalRecord.encode_eq, Exec.onRight_apply, vfs_writeAllAt, WalWriter.advanced]
  rcases writeAllAt w.file w.allocator.next.val
    (WalRecord.bytes ⟨w.allocator.next, kind⟩) d with ⟨⟨stop⟩ | ⟨⟨⟩⟩, e⟩
  · rfl
  · rfl

/-- The allocator is used up: nothing happens. -/
theorem append_of_full (hroom : ¬ w.allocator.next.val.toNat + kind.encodedLen < 2 ^ 64) :
    WalWriter.append kind (w, d) = (DbResult.user "wal lsn overflow", (w, d)) := by
  have hfull : w.allocator.next.val.toNat + kind.encodedLen ≥ 2 ^ 64 := by omega
  simp only [WalWriter.append, LsnAllocator.allocate, Exec.bind_apply, Exec.onPart_apply,
    Exec.zoom_apply, Exec.get_apply, Exec.liftM_apply, failIf_of hfull]

theorem append_of_noFault (hroom : w.allocator.next.val.toNat + kind.encodedLen < 2 ^ 64)
    (hfault : d.nextFault = none) :
    WalWriter.append kind (w, d) =
      (.ok w.allocator.next, (w.advanced kind.encodedLen,
        (d.setFile w.file ((d.file w.file).write w.allocator.next.val.toNat
          (WalRecord.bytes ⟨w.allocator.next, kind⟩))).record
            ⟨w.file, .write w.allocator.next.val (WalRecord.bytes ⟨w.allocator.next, kind⟩),
              true⟩)) := by
  have hlen := WalRecord.length_bytes ⟨w.allocator.next, kind⟩
  rw [append_eq hroom]
  simp only [writeAllAt, hfault, hlen, if_pos hroom]

/-- The write fails and stores nothing: the files are unchanged, but the allocator
has moved. -/
theorem append_of_fault (hroom : w.allocator.next.val.toNat + kind.encodedLen < 2 ^ 64)
    {fault : Fault} (hfault : d.nextFault = some fault) (hstored : fault.written = 0) :
    WalWriter.append kind (w, d) =
      (DbResult.io fault.kind, (w.advanced kind.encodedLen, d.record
        ⟨w.file, .write w.allocator.next.val (WalRecord.bytes ⟨w.allocator.next, kind⟩),
          false⟩)) := by
  rw [append_eq hroom]
  simp only [writeAllAt, hfault, hstored, List.take_zero, ByteFile.write_nil, setFile_file]

end Append

/-! ## A gap in the log -/

/-- A record's worth of zeros where a record should start. -/
def Gapped (records : List WalRecord) (bytes : List UInt8) : Prop :=
  ∃ zeros tail, headerSize ≤ zeros ∧
    bytes = encodeLog records ++ (List.replicate zeros 0 ++ tail)

theorem readU32_zeros (n offset : Nat) (h : offset + 4 ≤ n) (tail : List UInt8) :
    readU32 (List.replicate n 0 ++ tail) offset = .ok 0 := by
  have hsplit : List.replicate n (0 : UInt8) =
      List.replicate offset 0 ++ (le32 0 ++ List.replicate (n - offset - 4) 0) := by
    rw [show n = offset + (4 + (n - offset - 4)) by omega, List.replicate_add, List.replicate_add]
    simp only [Nat.add_sub_cancel_left]
    rfl
  have hbytes : List.replicate n 0 ++ tail = List.replicate offset 0 ++
      (le32 0 ++ (List.replicate (n - offset - 4) 0 ++ tail)) := by
    rw [hsplit, List.append_assoc, List.append_assoc]
  exact readU32_of_eq _ hbytes List.length_replicate

theorem decode_zeros : WalRecord.decode (List.replicate headerSize 0) =
    DbResult.corruption "invalid wal magic" := by
  have hlen : ¬ (List.replicate headerSize (0 : UInt8)).length < headerSize := by simp
  have hmagic : readU32 (List.replicate headerSize 0) offMagic = .ok 0 := by
    have := readU32_zeros headerSize offMagic (by simp) []
    rwa [List.append_nil] at this
  have hne : (0 : UInt32) ≠ walMagic := by decide
  rw [WalRecord.decode, failIf_of_not hlen]
  simp only [bind, Except.bind, hmagic, failIf_of hne]

/-- A scan that comes to a header without a payload that is no record. -/
theorem readFrom_bad_header {d : Disk} (fileId : FileId) (hd : FaultFree d)
    {front header tail : List UInt8} {stop : Stop} (hlen : header.length = headerSize)
    (hbytes : (d.file fileId).bytes = front ++ (header ++ tail))
    (hpayLen : readU32 header offPayloadLen = .ok 0) (hdecode : WalRecord.decode header = .error stop) :
    ∃ e, WalReader.readFrom fileId (d.file fileId).bytes.length front.length d =
      (.error stop, e) := by
  have htotal : (d.file fileId).bytes.length = front.length + (headerSize + tail.length) := by
    rw [hbytes, List.length_append, List.length_append, hlen]
  have hfront : (UInt64.ofNat front.length).toNat = front.length :=
    toNat_ofNat_of_le (by omega) (d.file fileId).length_lt
  have hslice : slice (front ++ (header ++ tail)) front.length headerSize = header := by
    have h := slice_append_right front (header ++ tail) 0 headerSize
    rw [Nat.add_zero] at h
    rw [h, slice_append_left (by omega), slice, List.drop_zero, List.take_of_length_le hlen.le]
  have hheader : readExactAt fileId (UInt64.ofNat front.length) headerSize d =
      (.ok header, d.record ⟨fileId, .read (UInt64.ofNat front.length) headerSize, true⟩) := by
    rw [readExactAt_of_faultFree hd fileId (by omega), hfront, hbytes, hslice]
  have hroom : ¬ (d.file fileId).bytes.length - front.length < headerSize := by omega
  refine ⟨d.record ⟨fileId, .read (UInt64.ofNat front.length) headerSize, true⟩, ?_⟩
  rw [WalReader.readFrom, if_pos (by simp only [headerSize] at htotal; omega)]
  simp only [Exec.bind_apply, Exec.liftM_apply, failIf_of_not hroom, vfs_readExactAt, hheader,
    hpayLen, UInt32.toNat_zero, Nat.add_zero, WalReader.readPayload, lt_irrefl, if_false, gt_iff_lt,
    Exec.pure_apply, List.append_nil, hdecode]

/-- A scan that comes to a gap of zeros is refused. -/
theorem readFrom_zeros {d : Disk} (fileId : FileId) (hd : FaultFree d)
    (front : List UInt8) {tail : List UInt8} {zeros : Nat} (hzeros : headerSize ≤ zeros)
    (hbytes : (d.file fileId).bytes = front ++ (List.replicate zeros 0 ++ tail)) :
    ∃ e, WalReader.readFrom fileId (d.file fileId).bytes.length front.length d =
      (DbResult.corruption "invalid wal magic", e) := by
  have hsplit : List.replicate zeros (0 : UInt8) ++ tail =
      List.replicate headerSize 0 ++ (List.replicate (zeros - headerSize) 0 ++ tail) := by
    rw [← List.append_assoc, List.replicate_append_replicate, Nat.add_sub_cancel' hzeros]
  have hpayLen : readU32 (List.replicate headerSize 0) offPayloadLen = .ok 0 := by
    have := readU32_zeros headerSize offPayloadLen (by simp) []
    rwa [List.append_nil] at this
  rw [hsplit] at hbytes
  exact readFrom_bad_header fileId hd List.length_replicate hbytes hpayLen decode_zeros

theorem Gapped.readAll {records : List WalRecord} {d : Disk} (fileId : FileId) (hd : FaultFree d)
    (hlog : LogFrom 0 records) (hgap : Gapped records (d.file fileId).bytes) :
    (WalReader.readAll fileId d).1 = DbResult.corruption "invalid wal magic" := by
  obtain ⟨zeros, tail, hzeros, hbytes⟩ := hgap
  obtain ⟨d', hdd', hall⟩ := readAll_eq fileId hd
  have hbytes' : (d'.file fileId).bytes =
      [] ++ (encodeLog records ++ (List.replicate zeros 0 ++ tail)) := by
    rw [hdd'.file, hbytes, List.nil_append]
  obtain ⟨e, hde, hread⟩ := readFrom_append fileId [] (hdd'.faultFree hd) hbytes' hlog
  obtain ⟨e', hzero⟩ := readFrom_zeros fileId (hde.faultFree (hdd'.faultFree hd))
    (encodeLog records) hzeros (by rw [hde.file, hbytes']; rfl)
  rw [hde.file] at hzero
  rw [List.length_nil, Nat.zero_add] at hread
  rw [hall, hread, Exec.bind_of_error hzero]

/-- A write past the end of a log leaves a gap. -/
theorem gapped_writeAt {records : List WalRecord} {data : List UInt8} {offset : Nat}
    (hoff : (encodeLog records).length + headerSize ≤ offset) (hdata : data ≠ []) :
    Gapped records (writeAt (encodeLog records) offset data) :=
  ⟨offset - (encodeLog records).length, data, by omega, writeAt_of_ge hdata (by omega)⟩

/-- A gap is not filled by writing behind the end of the file. -/
theorem Gapped.writeAt {records : List WalRecord} {bytes data : List UInt8} {offset : Nat}
    (hgap : Gapped records bytes) (hoff : bytes.length ≤ offset) (hdata : data ≠ []) :
    Gapped records (Library.writeAt bytes offset data) := by
  obtain ⟨zeros, tail, hzeros, hbytes⟩ := hgap
  refine ⟨zeros, tail ++ (List.replicate (offset - bytes.length) 0 ++ data), hzeros, ?_⟩
  rw [writeAt_of_ge hdata hoff, hbytes]
  simp only [List.append_assoc]

/-! ## A sequence of appends -/

/-- Append every kind in turn, going on after a failure. The result lists the
records whose append succeeded. -/
def appendEach : List WalRecordKind → Db (WalWriter FileId × Disk) (List WalRecord)
  | [] => pure []
  | kind :: kinds => do
      let outcome ← Exec.attempt (WalWriter.append kind)
      let rest ← appendEach kinds
      match outcome with
      | .ok lsn => return ⟨lsn, kind⟩ :: rest
      | .error _ => return rest

section Run

variable {d : Disk} {w : WalWriter FileId} {records : List WalRecord}

/-- The schedule never stores a part of a buffer. -/
def StoresNothing (d : Disk) : Prop := ∀ n fault, d.faults n = some fault → fault.written = 0

/-- The bytes that the allocator will have handed out at the end. -/
def totalLen (kinds : List WalRecordKind) : Nat := (kinds.map WalRecordKind.encodedLen).sum

/-- The faults that the next `n` operations meet. -/
def schedule (d : Disk) (n : Nat) : List (Option Fault) :=
  (List.range n).map fun i => d.faults (d.trace.length + i)

theorem schedule_succ {d e : Disk} (hfaults : e.faults = d.faults)
    (htrace : e.trace.length = d.trace.length + 1) (n : Nat) :
    schedule d (n + 1) = d.nextFault :: schedule e n := by
  rw [schedule, List.range_succ_eq_map, List.map_cons, List.map_map, schedule, hfaults, htrace]
  simp only [Nat.add_zero, nextFault, List.cons.injEq, true_and]
  apply List.map_congr_left
  intro i _
  simp only [Function.comp_apply]
  congr 1
  omega

/-- What one append can do when its buffer is stored as a whole or not at all. -/
theorem append_cases (kind : WalRecordKind) (hd : StoresNothing d)
    (hroom : w.allocator.next.val.toNat + kind.encodedLen < 2 ^ 64) :
    ∃ e, e.faults = d.faults ∧ e.trace.length = d.trace.length + 1 ∧
      ((d.nextFault = none ∧
          WalWriter.append kind (w, d) =
            (.ok w.allocator.next, (w.advanced kind.encodedLen, e)) ∧
          (e.file w.file).bytes = writeAt (d.file w.file).bytes w.allocator.next.val.toNat
            (WalRecord.bytes ⟨w.allocator.next, kind⟩)) ∨
        (d.nextFault ≠ none ∧
          (∃ stop, WalWriter.append kind (w, d) =
            (.error stop, (w.advanced kind.encodedLen, e))) ∧
          (e.file w.file).bytes = (d.file w.file).bytes)) := by
  cases hfault : d.nextFault with
  | none =>
      refine ⟨_, ?_, ?_, Or.inl ⟨rfl, append_of_noFault hroom hfault, ?_⟩⟩
      · simp
      · simp
      · rw [file_record, file_setFile_self, ByteFile.bytes_write]
        rw [WalRecord.length_bytes]
        exact hroom
  | some fault =>
      have hstored := hd _ fault hfault
      refine ⟨_, ?_, ?_, Or.inr ⟨by simp, ⟨_, append_of_fault hroom hfault hstored⟩, ?_⟩⟩
      · simp
      · simp
      · rw [file_record]

theorem storesNothing_of_faults {d e : Disk} (h : e.faults = d.faults) (hd : StoresNothing d) :
    StoresNothing e := by
  intro n fault hn
  rw [h] at hn
  exact hd n fault hn

/-- How a run goes on after an append that succeeded or failed. -/
theorem appendEach_cons_of_ok {kind : WalRecordKind} {kinds : List WalRecordKind} {lsn : Lsn}
    {s : WalWriter FileId × Disk} {rest : List WalRecord} {t : WalWriter FileId × Disk}
    (happend : WalWriter.append kind (w, d) = (.ok lsn, s))
    (hrest : appendEach kinds s = (.ok rest, t)) :
    appendEach (kind :: kinds) (w, d) = (.ok (⟨lsn, kind⟩ :: rest), t) := by
  rw [appendEach, Exec.bind_of_ok (Exec.attempt_apply _ _), happend, Exec.bind_of_ok hrest]
  rfl

theorem appendEach_cons_of_error {kind : WalRecordKind} {kinds : List WalRecordKind} {stop : Stop}
    {s : WalWriter FileId × Disk} {rest : List WalRecord} {t : WalWriter FileId × Disk}
    (happend : WalWriter.append kind (w, d) = (.error stop, s))
    (hrest : appendEach kinds s = (.ok rest, t)) :
    appendEach (kind :: kinds) (w, d) = (.ok rest, t) := by
  rw [appendEach, Exec.bind_of_ok (Exec.attempt_apply _ _), happend, Exec.bind_of_ok hrest]
  rfl

theorem totalLen_cons (kind : WalRecordKind) (kinds : List WalRecordKind) :
    totalLen (kind :: kinds) = kind.encodedLen + totalLen kinds := by
  rw [totalLen, List.map_cons, List.sum_cons, totalLen]

/-- Behind a gap every append keeps the gap. -/
theorem gapped_appendEach (records : List WalRecord) (kinds : List WalRecordKind) : ∀ {d : Disk} {w : WalWriter FileId},
    StoresNothing d → Gapped records (d.file w.file).bytes →
    (d.file w.file).bytes.length ≤ w.allocator.next.val.toNat →
    w.allocator.next.val.toNat + totalLen kinds < 2 ^ 64 →
    ∃ appended w' e, appendEach kinds (w, d) = (.ok appended, (w', e)) ∧
      Gapped records (e.file w.file).bytes := by
  induction kinds with
  | nil =>
      intro d w _ hgap _ _
      exact ⟨[], w, d, rfl, hgap⟩
  | cons kind kinds ih =>
      intro d w hd hgap hle hroom
      rw [totalLen_cons] at hroom
      have hnext := toNat_next_advanced (w := w) (n := kind.encodedLen) (by omega)
      obtain ⟨e, hfaults, htrace, hcases⟩ := append_cases (w := w) kind hd (by omega)
      have he := storesNothing_of_faults hfaults hd
      rcases hcases with ⟨-, happend, hbytes⟩ | ⟨-, ⟨stop, happend⟩, hbytes⟩
      · have hlen : (e.file w.file).bytes.length =
            w.allocator.next.val.toNat + kind.encodedLen := by
          rw [hbytes, length_writeAt (bytes_ne_nil _), WalRecord.length_bytes]
          exact max_eq_left (hle.trans (Nat.le_add_right _ _))
        obtain ⟨appended, w', e', hrun, hgap'⟩ := ih (w := w.advanced kind.encodedLen) he
          (by rw [WalWriter.advanced, hbytes]; exact hgap.writeAt hle (bytes_ne_nil _))
          (by rw [hnext]; exact hlen.le) (by omega)
        exact ⟨_, w', e', appendEach_cons_of_ok happend hrun, hgap'⟩
      · obtain ⟨appended, w', e', hrun, hgap'⟩ := ih (w := w.advanced kind.encodedLen) he
          (by rw [WalWriter.advanced, hbytes]; exact hgap)
          (by rw [hnext, WalWriter.advanced, hbytes]; omega) (by omega)
        exact ⟨_, w', e', appendEach_cons_of_error happend hrun, hgap'⟩

/-- The allocator is a record or more ahead of the end of the log: the log stays
readable as long as every append fails. -/
theorem appendEach_of_ahead (hlog : LogFrom 0 records) (kinds : List WalRecordKind) :
    ∀ {d : Disk} {w : WalWriter FileId}, StoresNothing d →
    (d.file w.file).bytes = encodeLog records →
    (encodeLog records).length + headerSize ≤ w.allocator.next.val.toNat →
    w.allocator.next.val.toNat + totalLen kinds < 2 ^ 64 →
    ∃ appended w' e, appendEach kinds (w, d) = (.ok appended, (w', e)) ∧
      ((WalReader.readAll w.file e.healed).1 = .ok (records ++ appended) ↔
        ∀ fault ∈ schedule d kinds.length, fault ≠ none) := by
  induction kinds with
  | nil =>
      intro d w _ hbytes _ _
      refine ⟨[], w, d, rfl, ?_⟩
      obtain ⟨e, -, hread⟩ := readAll_encodeLog w.file (healed_faultFree d)
        (by rw [file_healed]; exact hbytes) hlog
      simp [hread, schedule]
  | cons kind kinds ih =>
      intro d w hd hbytes hahead hroom
      rw [totalLen_cons] at hroom
      have hnext := toNat_next_advanced (w := w) (n := kind.encodedLen) (by omega)
      obtain ⟨e, hfaults, htrace, hcases⟩ := append_cases (w := w) kind hd (by omega)
      have he := storesNothing_of_faults hfaults hd
      rw [List.length_cons, schedule_succ hfaults htrace]
      rcases hcases with ⟨hnone, happend, hbytes'⟩ | ⟨hsome, ⟨stop, happend⟩, hbytes'⟩
      · rw [hbytes] at hbytes'
        have hlen : (e.file w.file).bytes.length =
            w.allocator.next.val.toNat + kind.encodedLen := by
          rw [hbytes', length_writeAt (bytes_ne_nil _), WalRecord.length_bytes]
          exact max_eq_left (by simp only; omega)
        obtain ⟨appended, w', e', hrun, hgap⟩ := gapped_appendEach records kinds
          (w := w.advanced kind.encodedLen) he
          (by rw [WalWriter.advanced, hbytes']; exact gapped_writeAt hahead (bytes_ne_nil _))
          (by rw [hnext]; exact hlen.le) (by omega)
        refine ⟨_, w', e', appendEach_cons_of_ok happend hrun, ?_⟩
        have hread := Gapped.readAll w.file (healed_faultFree e') hlog
          (by rw [file_healed]; exact hgap)
        simp [hread, hnone]
      · obtain ⟨appended, w', e', hrun, hiff⟩ := ih (w := w.advanced kind.encodedLen) he
          (by rw [WalWriter.advanced, hbytes']; exact hbytes) (by omega) (by omega)
        refine ⟨_, w', e', appendEach_cons_of_error happend hrun, ?_⟩
        rw [List.forall_mem_cons, and_iff_right hsome]
        exact hiff

/-- The schedule under which a log survives: no success behind a failure. -/
def FailuresLast (faults : List (Option Fault)) : Prop :=
  faults.Pairwise fun earlier later => earlier ≠ none → later ≠ none

/-- The allocator is at the end of the log. -/
theorem appendEach_of_synced (kinds : List WalRecordKind) :
    ∀ {records : List WalRecord} {d : Disk} {w : WalWriter FileId}, LogFrom 0 records →
    StoresNothing d → (d.file w.file).bytes = encodeLog records →
    w.allocator.next.val.toNat = (encodeLog records).length →
    w.allocator.next.val.toNat + totalLen kinds < 2 ^ 64 →
    ∃ appended w' e, appendEach kinds (w, d) = (.ok appended, (w', e)) ∧
      ((WalReader.readAll w.file e.healed).1 = .ok (records ++ appended) ↔
        FailuresLast (schedule d kinds.length)) := by
  induction kinds with
  | nil =>
      intro records d w hlog _ hbytes _ _
      refine ⟨[], w, d, rfl, ?_⟩
      obtain ⟨e, -, hread⟩ := readAll_encodeLog w.file (healed_faultFree d)
        (by rw [file_healed]; exact hbytes) hlog
      simp [hread, schedule, FailuresLast]
  | cons kind kinds ih =>
      intro records d w hlog hd hbytes hsync hroom
      rw [totalLen_cons] at hroom
      have hnext := toNat_next_advanced (w := w) (n := kind.encodedLen) (by omega)
      obtain ⟨e, hfaults, htrace, hcases⟩ := append_cases (w := w) kind hd (by omega)
      have he := storesNothing_of_faults hfaults hd
      rw [List.length_cons, schedule_succ hfaults htrace, FailuresLast, List.pairwise_cons]
      rcases hcases with ⟨hnone, happend, hbytes'⟩ | ⟨hsome, ⟨stop, happend⟩, hbytes'⟩
      · have hgrown : (e.file w.file).bytes =
            encodeLog (records ++ [⟨w.allocator.next, kind⟩]) := by
          rw [hbytes', hbytes, hsync, writeAt_append, encodeLog_append]
          simp [encodeLog]
        have hlog' : LogFrom 0 (records ++ [⟨w.allocator.next, kind⟩]) :=
          logFrom_append.2 ⟨hlog, by rw [Nat.zero_add]; exact ⟨hsync, trivial⟩⟩
        have hlen : (encodeLog (records ++ [⟨w.allocator.next, kind⟩])).length =
            (encodeLog records).length + kind.encodedLen := by
          simp [encodeLog, WalRecord.length_bytes]
        obtain ⟨appended, w', e', hrun, hiff⟩ := ih (w := w.advanced kind.encodedLen) hlog' he
          hgrown (by rw [hnext, hlen, hsync]) (by omega)
        refine ⟨_, w', e', appendEach_cons_of_ok happend hrun, ?_⟩
        rw [List.append_assoc] at hiff
        simp only [hnone, ne_eq, not_true_eq_false, false_implies, implies_true, true_and]
        exact hiff
      · have hle := headerSize_le_encodedLen kind
        obtain ⟨appended, w', e', hrun, hiff⟩ := appendEach_of_ahead hlog kinds
          (w := w.advanced kind.encodedLen) he (by rw [WalWriter.advanced, hbytes']; exact hbytes)
          (by omega) (by omega)
        refine ⟨_, w', e', appendEach_cons_of_error happend hrun, hiff.trans ?_⟩
        constructor
        · intro hall
          refine ⟨fun later hlater _ => hall later hlater, ?_⟩
          exact List.pairwise_of_forall_mem_list fun _ _ later hlater _ => hall later hlater
        · rintro ⟨hfirst, -⟩ later hlater
          exact hfirst later hlater hsome

/-- After the appends a scan of the whole file gives the records that were there
followed by the ones whose append succeeded. -/
def LogSurvives (d : Disk) (w : WalWriter FileId) (records : List WalRecord)
    (kinds : List WalRecordKind) : Prop :=
  ∃ appended w' e, appendEach kinds (w, d) = (.ok appended, (w', e)) ∧
    (WalReader.readAll w.file e.healed).1 = .ok (records ++ appended)

theorem logSurvives_iff_of_synced {kinds : List WalRecordKind} (hlog : LogFrom 0 records)
    (hd : StoresNothing d) (hbytes : (d.file w.file).bytes = encodeLog records)
    (hopened : w.allocator.next.val.toNat = (d.file w.file).bytes.length)
    (hroom : w.allocator.next.val.toNat + totalLen kinds < 2 ^ 64) :
    LogSurvives d w records kinds ↔ FailuresLast (schedule d kinds.length) := by
  rw [hbytes] at hopened
  obtain ⟨appended, w', e, hrun, hiff⟩ := appendEach_of_synced kinds hlog hd hbytes hopened hroom
  rw [← hiff]
  constructor
  · rintro ⟨appended', w'', e', hrun', hread⟩
    rw [hrun] at hrun'
    cases hrun'
    exact hread
  · intro hread
    exact ⟨appended, w', e, hrun, hread⟩

/-- The log survives a sequence of appends, some of which fail without storing
anything, exactly when no append succeeds after one that failed. -/
theorem log_survives_iff_failures_last {kinds : List WalRecordKind} (hlog : LogFrom 0 records)
    (hd : StoresNothing d) (hbytes : (d.file w.file).bytes = encodeLog records)
    (hopened : w.allocator.next.val.toNat = (d.file w.file).bytes.length)
    (hroom : w.allocator.next.val.toNat + totalLen kinds < 2 ^ 64) :
    LogSurvives d w records kinds ↔ FailuresLast (schedule d kinds.length) :=
  logSurvives_iff_of_synced hlog hd hbytes hopened hroom

end Run

/-- A disk with empty files whose first operation fails. -/
def firstWriteFails : Disk :=
  holding .empty .empty fun n => if n = 0 then some ⟨.other, 0⟩ else none

/-- A writer on the empty log. -/
def emptyWriter : WalWriter FileId := ⟨.wal, ⟨⟨0⟩⟩⟩

theorem firstWriteFails_storesNothing : StoresNothing firstWriteFails := by
  intro n fault h
  simp only [firstWriteFails, holding] at h
  split_ifs at h
  cases h
  rfl

/-- One append that fails. -/
theorem log_survives_single_append :
    LogSurvives firstWriteFails emptyWriter [] [.beginTx ⟨1⟩] ↔
      FailuresLast (schedule firstWriteFails 1) :=
  log_survives_iff_failures_last (logFrom_nil 0) firstWriteFails_storesNothing rfl rfl
    (by decide)

/-- A failed append followed by a successful one makes the log unreadable. -/
theorem failed_append_breaks_log :
    ¬ ∀ (d : Disk) (w : WalWriter FileId) (records : List WalRecord) (kinds : List WalRecordKind),
      LogFrom 0 records → StoresNothing d → (d.file w.file).bytes = encodeLog records →
      w.allocator.next.val.toNat = (d.file w.file).bytes.length →
      w.allocator.next.val.toNat + totalLen kinds < 2 ^ 64 → LogSurvives d w records kinds := by
  intro hall
  have hroom : emptyWriter.allocator.next.val.toNat + totalLen [.beginTx ⟨1⟩, .beginTx ⟨2⟩] <
      2 ^ 64 := by decide
  have hsurvives := hall firstWriteFails emptyWriter [] [.beginTx ⟨1⟩, .beginTx ⟨2⟩] trivial
    firstWriteFails_storesNothing rfl rfl hroom
  have hlast := (logSurvives_iff_of_synced (logFrom_nil 0) firstWriteFails_storesNothing rfl rfl
    hroom).1 hsurvives
  have hschedule : schedule firstWriteFails 2 = [some ⟨.other, 0⟩, none] := rfl
  simp [hschedule, FailuresLast] at hlast

end Rdbms
