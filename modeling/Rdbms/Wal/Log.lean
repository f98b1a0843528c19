import Rdbms.Wal.Basic
import Rdbms.Vfs.Disk

/-!
# Logs on a disk

`encodeLog records` is the log file that holds `records`, and `LogFrom n records`
says that their sequence numbers are the offsets at which they start when the
first one starts at `n`. A scan of such a file gives the records back. A file
with a gap of zeros where a record should start is rejected.
-/

namespace Rdbms

open Library Wal Disk

/-- The bytes of consecutive records. -/
def encodeLog (records : List WalRecord) : List UInt8 := records.flatMap WalRecord.bytes

/-- The sequence numbers are the offsets of the records, starting at `offset`. -/
def LogFrom : Nat → List WalRecord → Prop
  | _, [] => True
  | offset, record :: rest =>
      record.lsn.val.toNat = offset ∧ LogFrom (offset + record.kind.encodedLen) rest

theorem logFrom_nil (offset : Nat) : LogFrom offset [] := trivial

theorem encodeLog_append (xs ys : List WalRecord) :
    encodeLog (xs ++ ys) = encodeLog xs ++ encodeLog ys := List.flatMap_append

theorem logFrom_append {offset : Nat} {xs ys : List WalRecord} :
    LogFrom offset (xs ++ ys) ↔
      LogFrom offset xs ∧ LogFrom (offset + (encodeLog xs).length) ys := by
  induction xs generalizing offset with
  | nil => simp [LogFrom, encodeLog]
  | cons x xs ih =>
      have hlen : offset + (encodeLog (x :: xs)).length =
          offset + x.kind.encodedLen + (encodeLog xs).length := by
        rw [← x.length_bytes, encodeLog, List.flatMap_cons, List.length_append, encodeLog]
        omega
      rw [List.cons_append, LogFrom, LogFrom, ih, hlen, and_assoc]

theorem headerSize_le_encodedLen (kind : WalRecordKind) : headerSize ≤ kind.encodedLen :=
  Nat.le_add_right _ _

theorem bytes_ne_nil (record : WalRecord) : record.bytes ≠ [] := by
  intro h
  have hlen := record.length_bytes
  rw [h, WalRecordKind.encodedLen] at hlen
  simp only [List.length_nil, headerSize] at hlen
  omega

section Scan

variable {d : Disk} {fileId : FileId}

/-- The header of a record whose bytes start at `offset`. -/
theorem slice_record (record : WalRecord) (front back : List UInt8) :
    slice (front ++ (record.bytes ++ back)) front.length headerSize =
      slice record.bytes 0 headerSize := by
  have hlen := record.length_bytes
  have hle := headerSize_le_encodedLen record.kind
  have h := slice_append_right front (record.bytes ++ back) 0 headerSize
  rw [Nat.add_zero] at h
  rw [h, slice_append_left (by omega)]

theorem readU32_header (record : WalRecord) :
    readU32 (slice record.bytes 0 headerSize) offPayloadLen =
      .ok (UInt32.ofNat record.kind.payload.length) := by
  have hlen := record.length_bytes
  have hle := headerSize_le_encodedLen record.kind
  have hread : readU32 record.bytes offPayloadLen =
      .ok (UInt32.ofNat record.kind.payload.length) := WalRecord.readU32_payloadLen record _ _
  rw [readU32, if_pos (by rw [hlen]; simp only [headerSize] at hle; simp; omega)] at hread
  rw [readU32, if_pos (by rw [length_slice (by omega)]; simp), ← hread, slice_slice (by simp),
    Nat.zero_add]

/-- Where one record ends and the next one starts can be read off the bytes. -/
theorem bytes_append_inj {x y : WalRecord} {xs ys : List UInt8}
    (h : x.bytes ++ xs = y.bytes ++ ys) : x = y ∧ xs = ys := by
  have hheader : slice x.bytes 0 headerSize = slice y.bytes 0 headerSize := by
    rw [← slice_record x [] xs, ← slice_record y [] ys, h]
  have hlen : x.kind.payload.length = y.kind.payload.length := by
    have hread := readU32_header x
    rw [hheader, readU32_header y] at hread
    rw [← WalRecord.payloadLen_toNat x.kind, ← WalRecord.payloadLen_toNat y.kind,
      Except.ok.inj hread]
  obtain ⟨hbytes, hrest⟩ := List.append_inj h (by
    rw [x.length_bytes, y.length_bytes, WalRecordKind.encodedLen, WalRecordKind.encodedLen, hlen])
  refine ⟨?_, hrest⟩
  have hdecode := WalRecord.decode_bytes x
  rw [hbytes, WalRecord.decode_bytes y] at hdecode
  exact (Except.ok.inj hdecode).symm

/-- A log file holds one list of records only. -/
theorem encodeLog_injective : Function.Injective encodeLog
  | [], [], _ => rfl
  | [], y :: _, h => absurd (List.append_eq_nil_iff.1 h.symm).1 (bytes_ne_nil y)
  | x :: _, [], h => absurd (List.append_eq_nil_iff.1 h).1 (bytes_ne_nil x)
  | x :: xs, y :: ys, h => by
      obtain ⟨rfl, hrest⟩ := bytes_append_inj h
      rw [encodeLog_injective hrest]

theorem slice_header_append_payload (record : WalRecord) :
    slice record.bytes 0 headerSize ++ record.kind.payload = record.bytes := by
  have hdrop : record.bytes.drop headerSize = record.kind.payload := WalRecord.drop_layout record _ _
  rw [← hdrop, slice, List.drop_zero, List.take_append_drop]

theorem toNat_ofNat_of_le {n m : Nat} (h : n ≤ m) (hm : m < 2 ^ 64) :
    (UInt64.ofNat n).toNat = n := by
  rw [UInt64.toNat_ofNat']
  omega

theorem readPayload_record (hd : FaultFree d) {front back : List UInt8} (record : WalRecord)
    (hbytes : (d.file fileId).bytes = front ++ (record.bytes ++ back)) :
    ∃ e, SameFiles d e ∧
      WalReader.readPayload fileId front.length record.kind.payload.length d =
        (.ok record.kind.payload, e) := by
  by_cases hzero : record.kind.payload.length > 0
  · have hrec : record.bytes.length = headerSize + record.kind.payload.length :=
      record.length_bytes
    have hdrop : record.bytes.drop headerSize = record.kind.payload :=
      WalRecord.drop_layout record _ _
    have htotal : (d.file fileId).bytes.length =
        front.length + (record.bytes.length + back.length) := by
      rw [hbytes, List.length_append, List.length_append]
    have hoff : (UInt64.ofNat (front.length + headerSize)).toNat = front.length + headerSize :=
      toNat_ofNat_of_le (by omega) (d.file fileId).length_lt
    have hread : WalReader.readPayload fileId front.length record.kind.payload.length d =
        (.ok record.kind.payload, d.record ⟨fileId,
          .read (UInt64.ofNat (front.length + headerSize)) record.kind.payload.length, true⟩) := by
      rw [WalReader.readPayload, if_pos hzero, vfs_readExactAt,
        readExactAt_of_faultFree hd fileId (by omega), hoff, hbytes, slice_append_right,
        slice_append_left (by omega), slice, hdrop, List.take_length]
    exact ⟨_, sameFiles_record d _, hread⟩
  · have hnil : record.kind.payload = [] := List.eq_nil_of_length_eq_zero (by omega)
    refine ⟨d, SameFiles.refl d, ?_⟩
    rw [WalReader.readPayload, if_neg hzero, hnil]
    rfl

/-- One round of the scan over a record that stands at its own offset. -/
theorem readFrom_record (hd : FaultFree d) {front back : List UInt8} {record : WalRecord}
    (hbytes : (d.file fileId).bytes = front ++ (record.bytes ++ back))
    (hlsn : record.lsn.val.toNat = front.length) :
    ∃ e, SameFiles d e ∧
      WalReader.readFrom fileId (d.file fileId).bytes.length front.length d =
        (do
          let rest ← WalReader.readFrom fileId (d.file fileId).bytes.length
            (front.length + record.kind.encodedLen)
          return record :: rest : Db Disk (List WalRecord)) e := by
  have hrec : record.bytes.length = headerSize + record.kind.payload.length := record.length_bytes
  have htotal : (d.file fileId).bytes.length =
      front.length + (record.bytes.length + back.length) := by
    rw [hbytes, List.length_append, List.length_append]
  have hfront : (UInt64.ofNat front.length).toNat = front.length :=
    toNat_ofNat_of_le (by omega) (d.file fileId).length_lt
  have hpayLen := WalRecord.payloadLen_toNat record.kind
  have hlsn' : ¬ record.lsn ≠ ⟨UInt64.ofNat front.length⟩ := by
    have hval : record.lsn.val = UInt64.ofNat front.length :=
      UInt64.toNat_inj.1 (hlsn.trans hfront.symm)
    rw [not_not, ← hval]
  set e := d.record ⟨fileId, .read (UInt64.ofNat front.length) headerSize, true⟩ with he
  have hde : SameFiles d e := sameFiles_record d _
  have hheader : readExactAt fileId (UInt64.ofNat front.length) headerSize d =
      (.ok (slice record.bytes 0 headerSize), e) := by
    rw [readExactAt_of_faultFree hd fileId (by omega), hfront, hbytes, slice_record]
  have hroom : ¬ (d.file fileId).bytes.length - front.length < headerSize := by omega
  have hroom' : ¬ (d.file fileId).bytes.length - front.length <
      headerSize + record.kind.payload.length := by omega
  obtain ⟨e', hee', hpayload⟩ := readPayload_record (hde.faultFree hd) record
    (by rw [hde.file]; exact hbytes)
  refine ⟨e', hde.trans hee', ?_⟩
  have hlt : front.length < (d.file fileId).bytes.length := by
    simp only [headerSize] at hrec
    omega
  rw [WalReader.readFrom, if_pos hlt]
  simp only [Exec.bind_apply, Exec.liftM_apply, failIf_of_not hroom, vfs_readExactAt, hheader,
    readU32_header, hpayLen, failIf_of_not hroom', hpayload, slice_header_append_payload,
    WalRecord.decode_bytes, failIf_of_not hlsn', WalRecordKind.encodedLen]

/-- A scan reads the records that stand at their own offsets and goes on behind
them. -/
theorem readFrom_append (fileId : FileId) {records : List WalRecord} :
    ∀ {d : Disk} (front : List UInt8) {back : List UInt8}, FaultFree d →
    (d.file fileId).bytes = front ++ (encodeLog records ++ back) → LogFrom front.length records →
    ∃ e, SameFiles d e ∧
      WalReader.readFrom fileId (d.file fileId).bytes.length front.length d =
        (do
          let rest ← WalReader.readFrom fileId (d.file fileId).bytes.length
            (front.length + (encodeLog records).length)
          return records ++ rest : Db Disk (List WalRecord)) e := by
  induction records with
  | nil =>
      intro d front back _ _ _
      refine ⟨d, SameFiles.refl d, ?_⟩
      rw [Exec.bind_pure_nil_append]
      rfl
  | cons record records ih =>
      intro d front back hd hbytes hlog
      rw [encodeLog, List.flatMap_cons, List.append_assoc] at hbytes
      obtain ⟨e, hde, hread⟩ := readFrom_record hd hbytes hlog.1
      have hfront : (front ++ record.bytes).length = front.length + record.kind.encodedLen := by
        rw [List.length_append, record.length_bytes]
      obtain ⟨e', hee', hrest⟩ := ih (front ++ record.bytes)
        (hde.faultFree hd) (by rw [hde.file, hbytes, List.append_assoc]; rfl)
        (by rw [hfront]; exact hlog.2)
      refine ⟨e', hde.trans hee', ?_⟩
      have hlen : front.length + (encodeLog (record :: records)).length =
          front.length + record.kind.encodedLen + (encodeLog records).length := by
        rw [encodeLog, List.flatMap_cons, List.length_append, record.length_bytes, ← encodeLog]
        omega
      rw [hfront, hde.file] at hrest
      rw [hread, Exec.bind_apply, hrest, hlen, Exec.bind_apply, Exec.bind_apply]
      rcases WalReader.readFrom fileId (d.file fileId).bytes.length
        (front.length + record.kind.encodedLen + (encodeLog records).length) e'
        with ⟨stop | rest, e''⟩
      · rfl
      · rfl

theorem readFrom_end (d : Disk) (n : Nat) :
    WalReader.readFrom fileId n n d = (.ok [], d) := by
  rw [WalReader.readFrom, if_neg (lt_irrefl _)]
  rfl

/-- Reading the whole file is a scan of its bytes from the start. -/
theorem readAll_eq (fileId : FileId) (hd : FaultFree d) :
    ∃ e, SameFiles d e ∧ WalReader.readAll fileId d =
      WalReader.readFrom fileId (e.file fileId).bytes.length 0 e := by
  refine ⟨d.record ⟨fileId, .len, true⟩, sameFiles_record d _, ?_⟩
  rw [WalReader.readAll, vfs_len, Exec.bind_of_ok (len_of_faultFree hd fileId),
    toNat_ofNat_length, file_record]

/-- A scan of consecutive records gives the records back. -/
theorem readAll_encodeLog (fileId : FileId) {records : List WalRecord} (hd : FaultFree d)
    (hbytes : (d.file fileId).bytes = encodeLog records) (hlog : LogFrom 0 records) :
    ∃ e, SameFiles d e ∧ WalReader.readAll fileId d = (.ok records, e) := by
  obtain ⟨d', hdd', hall⟩ := readAll_eq fileId hd
  obtain ⟨e, hde, hread⟩ := readFrom_append fileId (d := d') [] (hdd'.faultFree hd)
    (by rw [hdd'.file, hbytes]; exact (List.append_nil _).symm) hlog
  refine ⟨e, hdd'.trans hde, ?_⟩
  rw [List.length_nil, Nat.zero_add] at hread
  rw [hall, hread, hdd'.file, hbytes, Exec.bind_of_ok (readFrom_end e _), List.append_nil]
  rfl

end Scan

/-! ## What holds of a scan because it holds of its reads -/

section Closed

variable {fileId : FileId} (P : ∀ {α : Type}, Db Disk α → Prop)
  (hbind : ∀ {α β : Type} {m : Db Disk α} {f : α → Db Disk β}, P m → (∀ a, P (f a)) → P (m >>= f))
  (hpure : ∀ {α : Type} (a : α), P (pure a : Db Disk α))
  (hlift : ∀ {α : Type} (r : DbResult α), P (liftM r : Db Disk α))
  (hread : ∀ offset n, P (readExactAt fileId offset n))

include hbind hpure hlift hread

theorem readFrom_closed (len offset : Nat) : P (WalReader.readFrom fileId len offset) := by
  induction hk : len - offset using Nat.strong_induction_on generalizing offset with
  | _ k ih =>
      subst hk
      rw [WalReader.readFrom]
      split
      · refine hbind (hlift _) fun _ => ?_
        refine hbind (hread _ _) fun header => ?_
        refine hbind (hlift _) fun payloadLen => ?_
        refine hbind (hlift _) fun _ => ?_
        refine hbind ?_ fun payload => ?_
        · rw [WalReader.readPayload]
          split
          · exact hread _ _
          · exact hpure []
        refine hbind (hlift _) fun record => ?_
        refine hbind (hlift _) fun _ => ?_
        refine hbind (ih _ ?_ _ rfl) fun rest => hpure _
        rw [headerSize]
        omega
      · exact hpure []

theorem readAll_closed (hlen : P (Disk.len fileId)) : P (WalReader.readAll fileId) :=
  hbind hlen fun len => readFrom_closed P hbind hpure hlift hread len.toNat 0

end Closed

end Rdbms
