import Rdbms.Page.Corruption
import Rdbms.Wal.Record

/-!
# Every change of one byte of a log record is detected

The decoder reports what it does not accept as corrupt, and it accepts a record only if
the checksum field holds the sum of the other bytes. Which check refuses a record with one
changed byte depends on the field; that one of them does follows from the sum alone.
-/

namespace Rdbms

open Library Wal

/-! ## The checksum -/

theorem Wal.walChecksumFrom_of_ge {index : Nat} (h : offChecksum + 4 ≤ index) (acc : UInt32)
    (bytes : List UInt8) : walChecksumFrom index acc bytes = acc + byteSum bytes := by
  induction bytes generalizing index acc with
  | nil => exact (add_zero acc).symm
  | cons byte bytes ih =>
      rw [walChecksumFrom, if_neg (by omega), ih (by omega), byteSum_cons, add_assoc]

theorem Wal.walChecksumFrom_of_le {index : Nat} {bytes : List UInt8}
    (h : index + bytes.length ≤ offChecksum) (acc : UInt32) :
    walChecksumFrom index acc bytes = acc + byteSum bytes := by
  induction bytes generalizing index acc with
  | nil => exact (add_zero acc).symm
  | cons byte bytes ih =>
      rw [List.length_cons] at h
      rw [walChecksumFrom, if_neg (by omega), ih (by omega), byteSum_cons, add_assoc]

/-- The checksum of a record is the sum of the bytes outside its field. -/
theorem Wal.walChecksum_eq_outerSum {bytes : List UInt8} (h : headerSize ≤ bytes.length) :
    walChecksum bytes = outerSum offChecksum bytes := by
  have hsplit : bytes = bytes.take 36 ++ (slice bytes 36 4 ++ bytes.drop 40) := by
    rw [slice, show 40 = 36 + 4 from rfl, ← List.drop_drop, List.take_append_drop,
      List.take_append_drop]
  have hfront : (bytes.take 36).length = 36 := by
    rw [List.length_take]
    exact min_eq_left (Nat.le_of_lt (lt_of_lt_of_le (by decide) h))
  have hfield : (slice bytes 36 4).length = 4 := length_slice h
  conv_lhs => rw [hsplit]
  rw [walChecksum, WalRecord.walChecksumFrom_append 0 0 _ _ (by rw [hfront]),
    WalRecord.walChecksumFrom_skip _ _ _ _ (by rw [hfront]) (by rw [hfront, hfield]),
    hfront, hfield, walChecksumFrom_of_ge (by simp),
    walChecksumFrom_of_le (by rw [hfront]), zero_add]
  rfl

namespace WalRecord

/-! ## What the decoder accepts -/

section Decode

variable {bytes : List UInt8}

theorem requireEmptyPayload_failsIn (payload : List UInt8) (recordName : String) :
    FailsIn Stop.IsCorruption (requireEmptyPayload payload recordName) := by
  unfold requireEmptyPayload
  dsimp only
  split
  · exact FailsIn.ok _
  · exact FailsIn.error ⟨_, rfl⟩

theorem decodeKind_failsIn (kind : UInt16) (txId : TxId) (pageId : PageId)
    (payload : List UInt8) : FailsIn Stop.IsCorruption (decodeKind kind txId pageId payload) := by
  unfold decodeKind
  dsimp only
  split_ifs
  · exact (requireEmptyPayload_failsIn _ _).bind fun _ _ => FailsIn.ok _
  · exact FailsIn.ok _
  · exact FailsIn.error ⟨_, rfl⟩
  · exact (requireEmptyPayload_failsIn _ _).bind fun _ _ => FailsIn.ok _
  · exact (requireEmptyPayload_failsIn _ _).bind fun _ _ => FailsIn.ok _
  · exact (requireEmptyPayload_failsIn _ _).bind fun _ _ => FailsIn.ok _
  · exact FailsIn.error ⟨_, rfl⟩

/-- Bytes that do not decode are reported as corrupt. -/
theorem decode_failsIn (bytes : List UInt8) : FailsIn Stop.IsCorruption (decode bytes) := by
  refine FailsIn.failIf_bind (fun _ => ⟨_, rfl⟩) fun hheader => ?_
  simp only [headerSize, not_lt] at hheader
  refine (readU32_failsIn (by simp; omega)).bind fun magic _ => ?_
  refine FailsIn.failIf_bind (fun _ => ⟨_, rfl⟩) fun _ => ?_
  refine (readU16_failsIn (by simp; omega)).bind fun version _ => ?_
  refine FailsIn.failIf_bind (fun _ => ⟨_, rfl⟩) fun _ => ?_
  refine (readU32_failsIn (by simp; omega)).bind fun payloadLen _ => ?_
  refine FailsIn.failIf_bind (fun _ => ⟨_, rfl⟩) fun _ => ?_
  refine (readU32_failsIn (by simp; omega)).bind fun storedChecksum _ => ?_
  refine FailsIn.failIf_bind (fun _ => ⟨_, rfl⟩) fun _ => ?_
  refine (readU64_failsIn (by simp; omega)).bind fun lsn _ => ?_
  refine (readU64_failsIn (by simp; omega)).bind fun txId _ => ?_
  refine (readU64_failsIn (by simp; omega)).bind fun pageId _ => ?_
  refine (readU16_failsIn (by simp; omega)).bind fun code _ => ?_
  exact (decodeKind_failsIn code _ _ _).bind fun kind _ => FailsIn.ok _

/-- A record that decodes holds the sum of its other bytes in its checksum field. -/
theorem outerSum_of_decode {record : WalRecord} (h : decode bytes = .ok record) :
    headerSize ≤ bytes.length ∧
      u32LE (slice bytes offChecksum 4) = outerSum offChecksum bytes := by
  obtain ⟨⟨⟩, hheader, h⟩ := except_bind_eq_ok.1 h
  have hlen := not_lt.1 (failIf_eq_ok.1 hheader)
  obtain ⟨magic, -, h⟩ := except_bind_eq_ok.1 h
  obtain ⟨⟨⟩, -, h⟩ := except_bind_eq_ok.1 h
  obtain ⟨version, -, h⟩ := except_bind_eq_ok.1 h
  obtain ⟨⟨⟩, -, h⟩ := except_bind_eq_ok.1 h
  obtain ⟨payloadLen, -, h⟩ := except_bind_eq_ok.1 h
  obtain ⟨⟨⟩, -, h⟩ := except_bind_eq_ok.1 h
  obtain ⟨stored, hstored, h⟩ := except_bind_eq_ok.1 h
  obtain ⟨⟨⟩, hsum, -⟩ := except_bind_eq_ok.1 h
  have hfield : u32LE (slice bytes offChecksum 4) = stored := by
    rw [readU32, if_pos hlen] at hstored
    exact Except.ok.inj hstored
  have heq := not_not.1 (failIf_eq_ok.1 hsum)
  exact ⟨hlen, hfield.trans (heq.trans (walChecksum_eq_outerSum hlen))⟩

end Decode

/-- One changed byte, in whatever field it is, makes the decoder report corruption. -/
theorem decode_of_changed_byte {record : WalRecord} {original changed : List UInt8}
    (hencode : record.encode = .ok original) (hchanged : DifferOnce original changed) :
    ∃ message, decode changed = DbResult.corruption message := by
  cases (encode_eq record).symm.trans hencode
  obtain ⟨hlen, horiginal⟩ := outerSum_of_decode (decode_bytes record)
  have hsum := checksum_detects hlen hchanged horiginal
  have hnot : ∀ other, decode changed ≠ .ok other := fun other h => hsum (outerSum_of_decode h).2
  obtain ⟨stop, hstop, message, rfl⟩ := (decode_failsIn changed).exists_of_not_ok hnot
  exact ⟨message, hstop⟩

/-- The kind of a commit record is changed into that of an abort record. -/
theorem decode_of_changed_kind : ∃ message,
    decode (splice (bytes ⟨⟨1⟩, .commitTx ⟨1⟩⟩) offKind [4]) = DbResult.corruption message := by
  refine @decode_of_changed_byte ⟨⟨1⟩, .commitTx ⟨1⟩⟩ _ _ (encode_eq _) ?_
  exact differOnce_splice (x := 3) (by decide) (by decide)

end WalRecord

end Rdbms
