import Rdbms.Wal.Append

/-!
# Writing a log and reading it back

A log grows through one writer after another, each opened at the end of the file
that the one before it left. As long as every append succeeds, the file is the
encoding of all records in the order of the appends, and a scan gives them back.
A log that is cut off is read as the records before the cut when the cut falls
between two records, and is rejected otherwise.
-/

namespace Rdbms

open Library Wal Disk ByteFile

/-- The sequence number of the next record. -/
def WalWriter.nextLsn (w : WalWriter FileId) : Lsn := w.allocator.next

/-- Append record kinds one after the other; the first failure ends it. -/
def appendAll : List WalRecordKind → Db (WalWriter FileId × Disk) (List Lsn)
  | [] => return []
  | kind :: kinds => do
      let lsn ← WalWriter.append kind
      let lsns ← appendAll kinds
      return lsn :: lsns

/-- What one writer has given back: the sequence numbers of its appends, and its
next one at the end. -/
structure Written where
  lsns : List Lsn
  nextLsn : Lsn

/-- Open a writer on the file and append through it. -/
def writeThrough (fileId : FileId) (kinds : List WalRecordKind) : Db Disk Written := do
  let writer ← WalWriter.new fileId
  let (lsns, writer) ← Exec.withLocal writer (appendAll kinds)
  return ⟨lsns, writer.nextLsn⟩

/-- Append through one writer after another. -/
def writeThroughEach (fileId : FileId) : List (List WalRecordKind) → Db Disk (List Written)
  | [] => return []
  | kinds :: rest => do
      let written ← writeThrough fileId kinds
      let later ← writeThroughEach fileId rest
      return written :: later

/-- The records that a list of appends has made, from what the appends returned. -/
def recordsOf (lsns : List Lsn) (kinds : List WalRecordKind) : List WalRecord :=
  List.zipWith WalRecord.mk lsns kinds

/-! ## Appending at the end of a log -/

/-- The file is the log of `records`. -/
structure HoldsLog (fileId : FileId) (records : List WalRecord) (d : Disk) : Prop where
  bytes : (d.file fileId).bytes = encodeLog records
  log : LogFrom 0 records

/-- A writer that stands at the end of the log. -/
structure AtEnd (fileId : FileId) (records : List WalRecord) (w : WalWriter FileId)
    (d : Disk) : Prop extends HoldsLog fileId records d where
  file : w.file = fileId
  next : w.allocator.next.val.toNat = (d.file fileId).bytes.length

section Writing

variable {fileId : FileId} {records : List WalRecord} {w w' : WalWriter FileId} {d e : Disk}

theorem writeAllAt_eq_ok {offset : UInt64} {data : List UInt8} {u : Unit}
    (h : writeAllAt fileId offset data d = (.ok u, e)) :
    d.nextFault = none ∧ offset.toNat + data.length < 2 ^ 64 := by
  rw [writeAllAt] at h
  cases hfault : d.nextFault with
  | some fault =>
      rw [hfault] at h
      cases h
  | none =>
      refine ⟨rfl, ?_⟩
      by_contra hfit
      simp only [hfault, if_neg hfit] at h
      cases h

/-- An append that succeeds adds its record at the end of the log. -/
theorem AtEnd.append (h : AtEnd fileId records w d) {kind : WalRecordKind} {lsn : Lsn}
    (happend : WalWriter.append kind (w, d) = (.ok lsn, (w', e))) :
    AtEnd fileId (records ++ [⟨lsn, kind⟩]) w' e := by
  by_cases hroom : w.allocator.next.val.toNat + kind.encodedLen < 2 ^ 64
  case neg =>
    rw [append_of_full hroom] at happend
    cases happend
  have hfault : d.nextFault = none := by
    rw [append_eq hroom] at happend
    rcases hwrite : writeAllAt w.file w.allocator.next.val
      (WalRecord.bytes ⟨w.allocator.next, kind⟩) d with ⟨stop | u, d'⟩
    · rw [hwrite] at happend
      cases happend
    · exact (writeAllAt_eq_ok hwrite).1
  rw [append_of_noFault hroom hfault, h.file] at happend
  cases happend
  have hlen : (WalRecord.bytes ⟨w.allocator.next, kind⟩).length = kind.encodedLen :=
    WalRecord.length_bytes _
  have hbytes : ((d.file fileId).write w.allocator.next.val.toNat
      (WalRecord.bytes ⟨w.allocator.next, kind⟩)).bytes =
        encodeLog (records ++ [⟨w.allocator.next, kind⟩]) := by
    rw [bytes_write _ (by rw [hlen]; exact hroom), h.next, writeAt_append, h.bytes,
      encodeLog_append]
    simp [encodeLog]
  refine ⟨⟨?_, ?_⟩, h.file, ?_⟩
  · rw [file_record, file_setFile_self, hbytes]
  · refine logFrom_append.2 ⟨h.log, ?_, trivial⟩
    rw [Nat.zero_add, h.next, h.bytes]
  · rw [file_record, file_setFile_self, hbytes, toNat_next_advanced hroom, h.next, h.bytes,
      encodeLog_append, List.length_append, encodeLog, encodeLog, List.flatMap_singleton, hlen]

theorem AtEnd.appendAll {kinds : List WalRecordKind} : ∀ {records w d lsns},
    AtEnd fileId records w d → Rdbms.appendAll kinds (w, d) = (.ok lsns, (w', e)) →
    lsns.length = kinds.length ∧ AtEnd fileId (records ++ recordsOf lsns kinds) w' e := by
  induction kinds with
  | nil =>
      intro records w d lsns h hrun
      cases hrun
      rw [recordsOf, List.zipWith_nil_left, List.append_nil]
      exact ⟨rfl, h⟩
  | cons kind kinds ih =>
      intro records w d lsns h hrun
      rw [Rdbms.appendAll, Exec.bind_eq_ok] at hrun
      obtain ⟨lsn, ⟨w₁, d₁⟩, happend, hrest⟩ := hrun
      rw [Exec.bind_eq_ok] at hrest
      obtain ⟨later, ⟨w₂, d₂⟩, hlater, hpure⟩ := hrest
      cases hpure
      obtain ⟨hlen, hat⟩ := ih (h.append happend) hlater
      refine ⟨by rw [List.length_cons, List.length_cons, hlen], ?_⟩
      rwa [List.append_assoc] at hat

/-- A writer is opened at the end of the file. -/
theorem HoldsLog.new (h : HoldsLog fileId records d)
    (hnew : WalWriter.new fileId d = (.ok w, e)) : AtEnd fileId records w e := by
  rw [WalWriter.new, vfs_len, Exec.bind_eq_ok] at hnew
  obtain ⟨n, d', hlen, hpure⟩ := hnew
  cases hpure
  rw [len] at hlen
  cases hfault : d.nextFault with
  | some fault =>
      rw [hfault] at hlen
      cases hlen
  | none =>
      rw [hfault] at hlen
      cases hlen
      refine ⟨⟨by rw [file_record]; exact h.bytes, h.log⟩, rfl, ?_⟩
      rw [file_record]
      exact toNat_ofNat_length _

theorem HoldsLog.writeThrough (h : HoldsLog fileId records d) {kinds : List WalRecordKind}
    {written : Written} (hrun : Rdbms.writeThrough fileId kinds d = (.ok written, e)) :
    written.lsns.length = kinds.length ∧
      HoldsLog fileId (records ++ recordsOf written.lsns kinds) e ∧
      written.nextLsn.val.toNat = (e.file fileId).bytes.length := by
  rw [Rdbms.writeThrough, Exec.bind_eq_ok] at hrun
  obtain ⟨w, d₁, hnew, hrun⟩ := hrun
  rw [Exec.bind_eq_ok] at hrun
  obtain ⟨⟨lsns, w'⟩, d₂, happends, hpure⟩ := hrun
  cases hpure
  rw [Exec.withLocal] at happends
  rcases hall : Rdbms.appendAll kinds (w, d₁) with ⟨stop | lsns', w'', d₃⟩
  · rw [hall] at happends
    cases happends
  · rw [hall] at happends
    cases happends
    obtain ⟨hlen, hat⟩ := (h.new hnew).appendAll hall
    exact ⟨hlen, hat.toHoldsLog, hat.next⟩

theorem HoldsLog.writeThroughEach {sessions : List (List WalRecordKind)} :
    ∀ {records d written}, HoldsLog fileId records d →
    Rdbms.writeThroughEach fileId sessions d = (.ok written, e) →
    List.Forall₂ (fun (out : Written) kinds => out.lsns.length = kinds.length) written sessions ∧
      HoldsLog fileId (records ++ recordsOf (written.flatMap Written.lsns) sessions.flatten) e ∧
      ∀ out ∈ written.getLast?, out.nextLsn.val.toNat = (e.file fileId).bytes.length := by
  induction sessions with
  | nil =>
      intro records d written h hrun
      cases hrun
      refine ⟨List.Forall₂.nil, ?_, nofun⟩
      rwa [List.flatMap_nil, recordsOf, List.zipWith_nil_left, List.append_nil]
  | cons kinds sessions ih =>
      intro records d written h hrun
      rw [Rdbms.writeThroughEach, Exec.bind_eq_ok] at hrun
      obtain ⟨first, d₁, hfirst, hrun⟩ := hrun
      rw [Exec.bind_eq_ok] at hrun
      obtain ⟨later, d₂, hlater, hpure⟩ := hrun
      cases hpure
      obtain ⟨hlen, hholds, hnext⟩ := h.writeThrough hfirst
      obtain ⟨hlens, hholds', hnext'⟩ := ih hholds hlater
      refine ⟨List.Forall₂.cons hlen hlens, ?_, ?_⟩
      · rw [List.flatMap_cons, List.flatten_cons, recordsOf, List.zipWith_append hlen]
        rwa [List.append_assoc] at hholds'
      · cases later with
        | nil =>
            cases hlens
            cases hlater
            intro out hout
            cases hout
            exact hnext
        | cons next later =>
            rw [List.getLast?_cons_cons]
            exact hnext'

end Writing

/-! ## Where the records stand -/

theorem LogFrom.lsn_eq {offset : Nat} {front back : List WalRecord} {record : WalRecord}
    (h : LogFrom offset (front ++ record :: back)) :
    record.lsn.val.toNat = offset + (encodeLog front).length := (logFrom_append.1 h).2.1

theorem LogFrom.le_lsn {offset : Nat} {records : List WalRecord} (h : LogFrom offset records) :
    ∀ record ∈ records, offset ≤ record.lsn.val.toNat := by
  intro record hmem
  obtain ⟨front, back, rfl⟩ := List.append_of_mem hmem
  rw [h.lsn_eq]
  exact Nat.le_add_right _ _

theorem LogFrom.strictlyIncreasing {offset : Nat} {records : List WalRecord}
    (h : LogFrom offset records) :
    records.Pairwise fun earlier later => earlier.lsn.val < later.lsn.val := by
  induction records generalizing offset with
  | nil => exact List.Pairwise.nil
  | cons record records ih =>
      refine List.pairwise_cons.2 ⟨?_, ih h.2⟩
      intro later hlater
      have hle := h.2.le_lsn later hlater
      have hpos := headerSize_le_encodedLen record.kind
      have hlsn := h.1
      rw [headerSize] at hpos
      rw [UInt64.lt_iff_toNat_lt]
      omega

/-- A log that grew through any number of writers, every append succeeding: a scan
gives the old records followed by the new ones, each under the sequence number its
append returned, which is the offset at which its bytes start; and the last writer
stands at the end of the file. -/
theorem log_round_trip {fileId : FileId} {records : List WalRecord} {d e : Disk}
    {sessions : List (List WalRecordKind)} {written : List Written}
    (hold : HoldsLog fileId records d)
    (hrun : writeThroughEach fileId sessions d = (.ok written, e)) :
    List.Forall₂ (fun (out : Written) kinds => out.lsns.length = kinds.length)
        written sessions ∧
      (∀ r, FaultFree r → r.file fileId = e.file fileId → (WalReader.readAll fileId r).1 =
        .ok (records ++ recordsOf (written.flatMap Written.lsns) sessions.flatten)) ∧
      (∀ front record back,
        records ++ recordsOf (written.flatMap Written.lsns) sessions.flatten =
          front ++ record :: back →
        slice (e.file fileId).bytes record.lsn.val.toNat record.kind.encodedLen = record.bytes ∧
          record.lsn.val.toNat = (encodeLog front).length) ∧
      (records ++ recordsOf (written.flatMap Written.lsns) sessions.flatten).Pairwise
        (fun earlier later => earlier.lsn.val < later.lsn.val) ∧
      ∀ out ∈ written.getLast?, out.nextLsn.val.toNat = (e.file fileId).bytes.length := by
  obtain ⟨hlens, hnew, hnext⟩ := hold.writeThroughEach hrun
  refine ⟨hlens, ?_, ?_, hnew.log.strictlyIncreasing, hnext⟩
  · intro r hr hfile
    obtain ⟨r', -, hread⟩ := readAll_encodeLog fileId hr (by rw [hfile, hnew.bytes]) hnew.log
    rw [hread]
  · intro front record back hsplit
    have hlsn := (hsplit ▸ hnew.log).lsn_eq
    rw [Nat.zero_add] at hlsn
    refine ⟨?_, hlsn⟩
    have hlen := record.length_bytes
    rw [hnew.bytes, hsplit, encodeLog_append, hlsn, encodeLog, encodeLog, List.flatMap_cons,
      ← Nat.add_zero (List.flatMap _ front).length, slice_append_right,
      slice_append_left (by omega), slice, List.drop_zero, ← hlen, List.take_length]

/-- Two writers, one record each. -/
theorem log_round_trip_two_writers :
    writeThroughEach .wal [[.beginTx ⟨1⟩], [.commitTx ⟨1⟩]] fresh =
        (.ok [⟨[⟨0⟩], ⟨40⟩⟩, ⟨[⟨40⟩], ⟨80⟩⟩],
          (writeThroughEach .wal [[.beginTx ⟨1⟩], [.commitTx ⟨1⟩]] fresh).2) ∧
      (WalReader.readAll FileId.wal
        (writeThroughEach .wal [[.beginTx ⟨1⟩], [.commitTx ⟨1⟩]] fresh).2).1 =
          .ok [⟨⟨0⟩, .beginTx ⟨1⟩⟩, ⟨⟨40⟩, .commitTx ⟨1⟩⟩] := by
  have hold : HoldsLog .wal [] fresh := ⟨rfl, trivial⟩
  have hrun : writeThroughEach .wal [[.beginTx ⟨1⟩], [.commitTx ⟨1⟩]] fresh =
      (.ok [⟨[⟨0⟩], ⟨40⟩⟩, ⟨[⟨40⟩], ⟨80⟩⟩],
        (writeThroughEach .wal [[.beginTx ⟨1⟩], [.commitTx ⟨1⟩]] fresh).2) := rfl
  exact ⟨hrun, (log_round_trip hold hrun).2.1 _ (fun _ => rfl) rfl⟩

/-! ## Logs that are cut off -/

section Cut

variable {fileId : FileId} {records : List WalRecord} {d : Disk}

/-- The offset falls between two records, or on the start or the end of the log. -/
def IsBoundary (records : List WalRecord) (n : Nat) : Prop :=
  ∃ front back, records = front ++ back ∧ n = (encodeLog front).length

/-- The records that end at or before an offset. -/
def endingBy (records : List WalRecord) (n : Nat) : List WalRecord :=
  records.filter fun record => record.lsn.val.toNat + record.kind.encodedLen ≤ n

theorem length_encodeLog_cons (record : WalRecord) (rest : List WalRecord) :
    (encodeLog (record :: rest)).length = record.kind.encodedLen + (encodeLog rest).length := by
  rw [← record.length_bytes, encodeLog, List.flatMap_cons, List.length_append, encodeLog]

theorem endingBy_boundary {offset : Nat} {front back : List WalRecord}
    (h : LogFrom offset (front ++ back)) :
    endingBy (front ++ back) (offset + (encodeLog front).length) = front := by
  obtain ⟨hfront, hback⟩ := logFrom_append.1 h
  rw [endingBy, List.filter_append, List.filter_eq_self.2, List.filter_eq_nil_iff.2,
    List.append_nil]
  · intro record hmem
    have hle := hback.le_lsn record hmem
    have hpos := headerSize_le_encodedLen record.kind
    rw [headerSize] at hpos
    rw [decide_eq_true_iff]
    omega
  · intro record hmem
    obtain ⟨before, after, rfl⟩ := List.append_of_mem hmem
    have hlsn := hfront.lsn_eq
    have hlen := length_encodeLog_cons record after
    rw [encodeLog_append, List.length_append, decide_eq_true_iff]
    omega

/-- An offset inside the log that is no boundary falls inside one record. -/
theorem inside_of_not_boundary {n : Nat} (hn : n ≤ (encodeLog records).length)
    (hcut : ¬ IsBoundary records n) :
    ∃ front record back, records = front ++ record :: back ∧
      (encodeLog front).length < n ∧ n < (encodeLog front).length + record.kind.encodedLen := by
  induction records generalizing n with
  | nil =>
      refine absurd ⟨[], [], rfl, ?_⟩ hcut
      exact Nat.le_zero.1 hn
  | cons record records ih =>
      have hlen := length_encodeLog_cons record records
      rcases lt_or_ge n record.kind.encodedLen with hlt | hge
      · refine ⟨[], record, records, rfl, ?_, by simpa [encodeLog] using hlt⟩
        refine Nat.pos_of_ne_zero ?_
        rintro rfl
        exact hcut ⟨[], record :: records, rfl, rfl⟩
      · have hcut' : ¬ IsBoundary records (n - record.kind.encodedLen) := by
          rintro ⟨front, back, rfl, hfront⟩
          refine hcut ⟨record :: front, back, rfl, ?_⟩
          rw [length_encodeLog_cons]
          omega
        obtain ⟨front, inside, back, rfl, hlo, hhi⟩ := ih (by omega) hcut'
        refine ⟨record :: front, inside, back, rfl, ?_, ?_⟩
        · rw [length_encodeLog_cons]
          omega
        · rw [length_encodeLog_cons]
          omega

/-- A scan that meets the beginning of a record and then the end of the file. -/
theorem readFrom_cut (hd : FaultFree d) {front : List UInt8} {record : WalRecord} {m : Nat}
    (hbytes : (d.file fileId).bytes = front ++ record.bytes.take m) (hpos : 0 < m)
    (hm : m < record.kind.encodedLen) :
    (WalReader.readFrom fileId (d.file fileId).bytes.length front.length d).1 =
      truncatedWal front.length m := by
  have hrec : record.bytes.length = headerSize + record.kind.payload.length := record.length_bytes
  have henc : record.kind.encodedLen = headerSize + record.kind.payload.length := rfl
  have htake : (record.bytes.take m).length = m := by
    rw [List.length_take]
    omega
  have htotal : (d.file fileId).bytes.length = front.length + m := by
    rw [hbytes, List.length_append, htake]
  have hremaining : (d.file fileId).bytes.length - front.length = m := by omega
  have hfront : (UInt64.ofNat front.length).toNat = front.length :=
    toNat_ofNat_of_le (by omega) (d.file fileId).length_lt
  rw [WalReader.readFrom, if_pos (by omega)]
  by_cases hshort : m < headerSize
  · simp only [Exec.bind_apply, Exec.liftM_apply, hremaining, failIf_of hshort, truncatedWal,
      DbResult.corruption]
  · have hheader : readExactAt fileId (UInt64.ofNat front.length) headerSize d =
        (.ok (slice record.bytes 0 headerSize),
          d.record ⟨fileId, .read (UInt64.ofNat front.length) headerSize, true⟩) := by
      rw [readExactAt_of_faultFree hd fileId (by omega), hfront, hbytes,
        ← Nat.add_zero front.length, slice_append_right, slice, slice, List.drop_zero,
        List.drop_zero, List.take_take, Nat.min_eq_left (by omega)]
    have hpayLen := WalRecord.payloadLen_toNat record.kind
    have hlong : m < headerSize + record.kind.payload.length := by omega
    simp only [Exec.bind_apply, Exec.liftM_apply, hremaining, failIf_of_not hshort,
      vfs_readExactAt, hheader, readU32_header, hpayLen, failIf_of hlong, truncatedWal,
      DbResult.corruption]

/-- A scan of a log that is cut off inside a record. -/
theorem readAll_cut (hd : FaultFree d) {front : List WalRecord} {record : WalRecord} {m : Nat}
    (hbytes : (d.file fileId).bytes = encodeLog front ++ record.bytes.take m)
    (hlog : LogFrom 0 front) (hpos : 0 < m) (hm : m < record.kind.encodedLen) :
    (WalReader.readAll fileId d).1 = truncatedWal (encodeLog front).length m := by
  obtain ⟨d', hdd', hall⟩ := readAll_eq fileId hd
  obtain ⟨e, hde, hread⟩ := readFrom_append fileId (d := d') [] (hdd'.faultFree hd)
    (by rw [hdd'.file, hbytes, List.nil_append]) hlog
  have hfile : e.file fileId = d'.file fileId := hde.file fileId
  have hcut := readFrom_cut (d := e) (hde.faultFree (hdd'.faultFree hd))
    (by rw [hfile, hdd'.file]; exact hbytes) hpos hm
  rw [List.length_nil, Nat.zero_add] at hread
  rw [hfile] at hcut
  rw [hall, hread, Exec.bind_apply]
  rcases hrest : WalReader.readFrom fileId (d'.file fileId).bytes.length (encodeLog front).length e
    with ⟨stop | rest, e'⟩
  · rw [hrest] at hcut
    cases hcut
    rfl
  · rw [hrest] at hcut
    cases hcut

/-- The log that any number of writers have written into an empty file, cut off at
any offset: read as the records that end by then when the cut falls on a boundary,
and rejected as corrupt everywhere else. -/
theorem cut_log_classified {d₀ e : Disk} {sessions : List (List WalRecordKind)}
    {written : List Written} (hempty : (d₀.file fileId).bytes = [])
    (hrun : writeThroughEach fileId sessions d₀ = (.ok written, e)) {n : Nat}
    (hn : n ≤ (e.file fileId).bytes.length) {r : Disk} (hr : FaultFree r)
    (hcut : (r.file fileId).bytes = (e.file fileId).bytes.take n) :
    (IsBoundary (recordsOf (written.flatMap Written.lsns) sessions.flatten) n →
      (WalReader.readAll fileId r).1 =
        .ok (endingBy (recordsOf (written.flatMap Written.lsns) sessions.flatten) n)) ∧
    (¬ IsBoundary (recordsOf (written.flatMap Written.lsns) sessions.flatten) n →
      ∃ message, (WalReader.readAll fileId r).1 = DbResult.corruption message) := by
  have hold : HoldsLog fileId [] d₀ := ⟨hempty, logFrom_nil 0⟩
  obtain ⟨-, hnew, -⟩ := hold.writeThroughEach hrun
  rw [List.nil_append] at hnew
  generalize recordsOf (written.flatMap Written.lsns) sessions.flatten = records at hnew ⊢
  rw [hnew.bytes] at hn hcut
  constructor
  · rintro ⟨front, back, rfl, rfl⟩
    have hending := endingBy_boundary hnew.log
    rw [Nat.zero_add] at hending
    rw [encodeLog_append, List.take_left] at hcut
    obtain ⟨r', -, hread⟩ := readAll_encodeLog fileId hr hcut (logFrom_append.1 hnew.log).1
    rw [hending, hread]
  · intro hinside
    obtain ⟨front, record, back, rfl, hlo, hhi⟩ := inside_of_not_boundary hn hinside
    have hlen := record.length_bytes
    obtain ⟨m, rfl⟩ := Nat.exists_eq_add_of_lt hlo
    have htake : (encodeLog (front ++ record :: back)).take ((encodeLog front).length + m + 1) =
        encodeLog front ++ record.bytes.take (m + 1) := by
      rw [encodeLog_append, List.take_append, List.take_of_length_le (by omega), Nat.add_assoc,
        Nat.add_sub_cancel_left]
      conv_lhs => rw [encodeLog.eq_def (record :: back), List.flatMap_cons]
      rw [List.take_append_of_le_length (by omega)]
    rw [htake] at hcut
    exact ⟨_, readAll_cut hr hcut (logFrom_append.1 hnew.log).1 (Nat.succ_pos m) (by omega)⟩

/-- The log of one append, cut off inside its record. -/
theorem cut_log_one_record :
    ∃ r : Disk, (r.file .wal).bytes =
        ((writeThroughEach .wal [[.beginTx ⟨1⟩]] fresh).2.file .wal).bytes.take 7 ∧
      ∃ message, (WalReader.readAll FileId.wal r).1 = DbResult.corruption message := by
  have hrun : writeThroughEach .wal [[.beginTx ⟨1⟩]] fresh =
      (.ok [⟨[⟨0⟩], ⟨40⟩⟩], (writeThroughEach .wal [[.beginTx ⟨1⟩]] fresh).2) := rfl
  have hlen : ((writeThroughEach .wal [[.beginTx ⟨1⟩]] fresh).2.file .wal).bytes.length = 40 := rfl
  refine ⟨holding .empty ⟨((writeThroughEach .wal [[.beginTx ⟨1⟩]] fresh).2.file .wal).bytes.take 7,
    by rw [List.length_take, hlen]; decide⟩ fun _ => none, rfl, ?_⟩
  refine (cut_log_classified rfl hrun (by rw [hlen]; decide) (fun _ => rfl) rfl).2 ?_
  rintro ⟨front, back, hsplit, hfront⟩
  cases front with
  | nil => cases hfront
  | cons record front =>
      have hlen' := length_encodeLog_cons record front
      have hle := headerSize_le_encodedLen record.kind
      rw [headerSize] at hle
      omega

end Cut

end Rdbms
