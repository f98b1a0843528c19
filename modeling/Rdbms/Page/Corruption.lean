import Rdbms.Library.Checksum
import Rdbms.Library.Failure
import Rdbms.Page.Insert

/-!
# Every change of one byte is detected

Whatever the bytes of a page are, the checks of `validate` refuse it as corrupt or accept
it: no field of the header or of the directory leads them out of the page. The header
checks run first, and a page they let through is compared with its checksum. A valid page
with one byte changed does not survive both.
-/

namespace Rdbms

open Library

/-! ## The checks fail as corrupt only -/

section ReadField

variable {bytes : List UInt8} {E : Stop → Prop} {offset : Nat}

theorem readU16_failsIn (h : offset + 2 ≤ bytes.length) : FailsIn E (readU16 bytes offset) := by
  rw [readU16, if_pos h]
  exact FailsIn.ok _

theorem readU32_failsIn (h : offset + 4 ≤ bytes.length) : FailsIn E (readU32 bytes offset) := by
  rw [readU32, if_pos h]
  exact FailsIn.ok _

theorem readU64_failsIn (h : offset + 8 ≤ bytes.length) : FailsIn E (readU64 bytes offset) := by
  rw [readU64, if_pos h]
  exact FailsIn.ok _

end ReadField

namespace Page

theorem fromU16_failsIn (value : UInt16) : FailsIn Stop.IsCorruption (PageType.fromU16 value) := by
  unfold PageType.fromU16
  split_ifs
  all_goals first
    | exact FailsIn.ok _
    | exact FailsIn.error ⟨_, rfl⟩

/-- The header of any page parses or is corrupt. -/
theorem header_failsIn (p : Page) : FailsIn Stop.IsCorruption p.header := by
  refine (readU32_failsIn (by simp [p.size_eq])).bind fun magic _ => ?_
  refine FailsIn.failIf_bind (fun _ => ⟨_, rfl⟩) fun _ => ?_
  refine (readU16_failsIn (by simp [p.size_eq])).bind fun version _ => ?_
  refine FailsIn.failIf_bind (fun _ => ⟨_, rfl⟩) fun _ => ?_
  refine (readU16_failsIn (by simp [p.size_eq])).bind fun freeStart _ => ?_
  refine (readU16_failsIn (by simp [p.size_eq])).bind fun freeEnd _ => ?_
  refine (readU16_failsIn (by simp [p.size_eq])).bind fun slotCount _ => ?_
  refine FailsIn.failIf_bind (fun _ => ⟨_, rfl⟩) fun _ => ?_
  refine FailsIn.failIf_bind (fun _ => ⟨_, rfl⟩) fun _ => ?_
  refine (readU64_failsIn (by simp [p.size_eq])).bind fun pageId _ => ?_
  refine (readU64_failsIn (by simp [p.size_eq])).bind fun pageLsn _ => ?_
  refine (readU16_failsIn (by simp [p.size_eq])).bind fun word _ => ?_
  refine (fromU16_failsIn word).bind fun pageType _ => ?_
  exact (readU32_failsIn (by simp [p.size_eq])).bind fun checksum _ => FailsIn.ok _

theorem slotOffset_failsIn (i : UInt16) : FailsIn Stop.IsCorruption (slotOffset i) := by
  unfold slotOffset
  dsimp only
  split
  · exact FailsIn.error ⟨_, rfl⟩
  · exact FailsIn.ok _

theorem offset_le_of_slotOffset {i : UInt16} {offset : Nat} (h : slotOffset i = .ok offset) :
    offset + slotSize ≤ pageSize := by
  unfold slotOffset at h
  dsimp only at h
  split at h
  · cases h
  · cases h
    omega

/-- A slot whose offset is inside the page has its three words inside the page. -/
theorem slotEntry_failsIn (p : Page) (i : UInt16) : FailsIn Stop.IsCorruption (p.slotEntry i) := by
  refine (slotOffset_failsIn i).bind fun offset h => ?_
  have hroom := offset_le_of_slotOffset h
  simp only [slotSize, pageSize] at hroom
  refine (readU16_failsIn (by rw [p.size_eq]; simp; omega)).bind fun _ _ => ?_
  refine (readU16_failsIn (by rw [p.size_eq]; simp; omega)).bind fun _ _ => ?_
  exact (readU16_failsIn (by rw [p.size_eq]; simp; omega)).bind fun _ _ => FailsIn.ok _

theorem validateSlot_failsIn (p : Page) (freeEnd i : UInt16) :
    FailsIn Stop.IsCorruption (p.validateSlot freeEnd i) := by
  refine (slotEntry_failsIn p i).bind fun slot _ => ?_
  refine FailsIn.failIf_bind (fun _ => ⟨_, rfl⟩) fun _ => ?_
  exact FailsIn.failIf fun _ => FailsIn.error ⟨_, rfl⟩

theorem validatePageChecksum_failsIn (p : Page) :
    FailsIn Stop.IsCorruption p.validatePageChecksum := by
  refine (readU32_failsIn (by simp [p.size_eq])).bind fun expected _ => ?_
  unfold validateChecksum
  dsimp only
  split
  · exact FailsIn.ok _
  · exact FailsIn.error ⟨_, rfl⟩

/-- A page that `validate` does not accept is reported as corrupt. -/
theorem validate_failsIn (p : Page) : FailsIn Stop.IsCorruption p.validate := by
  refine (header_failsIn p).bind fun header _ => ?_
  refine (validatePageChecksum_failsIn p).bind fun _ _ => ?_
  exact FailsIn.forM fun i _ => validateSlot_failsIn p header.freeEnd i

theorem fromBytes_failsIn (p : Page) : FailsIn Stop.IsCorruption p.fromBytes :=
  (validate_failsIn p).bind fun _ _ => FailsIn.ok p

/-! ## The checksum -/

/-- The checksum of a page is the sum of the bytes outside its field. -/
theorem checksum_eq_outerSum (p : Page) :
    checksum (p.put offChecksum (le32 0)).bytes = outerSum offChecksum p.bytes := by
  have hput : (p.put offChecksum (le32 0)).bytes = splice p.bytes offChecksum (le32 0) :=
    bytes_put p (by simp)
  have hzero : byteSum (le32 0) = 0 := by decide
  rw [hput, splice]
  change byteSum _ = _
  rw [byteSum_append, byteSum_append, hzero, length_le32, zero_add]
  rfl

/-- `validate` accepts a page only if its field holds the sum of the other bytes. -/
theorem Valid.outerSum_eq {p : Page} {h : PageHeader} (hv : Valid p h) :
    u32LE (slice p.bytes offChecksum 4) = outerSum offChecksum p.bytes := by
  rw [← checksum_eq_outerSum, hv.checksum_eq]
  exact hv.checksum

/-- One changed byte, wherever it is, makes `from_bytes` report the page as corrupt. -/
theorem fromBytes_of_changed_byte {p q : Page} (haccepted : p.validate = .ok ())
    (hchanged : DifferOnce p.bytes q.bytes) :
    ∃ message, q.fromBytes = DbResult.corruption message := by
  obtain ⟨h, hp⟩ := (validate_eq_ok_iff p).1 haccepted
  have hsum := checksum_detects (by rw [p.size_eq]; simp) hchanged hp.outerSum_eq
  have hnot : ∀ r, q.fromBytes ≠ .ok r := by
    intro r hr
    obtain ⟨⟨⟩, hvalidate, -⟩ := except_bind_eq_ok.1 hr
    obtain ⟨h', hq⟩ := (validate_eq_ok_iff q).1 hvalidate
    exact hsum hq.outerSum_eq
  obtain ⟨stop, hstop, message, rfl⟩ := (fromBytes_failsIn q).exists_of_not_ok hnot
  exact ⟨message, hstop⟩

/-- An empty heap page whose first magic byte has been cleared. -/
theorem fromBytes_of_cleared_magic : ∃ message,
    ((new ⟨1⟩ .heap).put offMagic [0]).fromBytes = DbResult.corruption message := by
  have hvalid := new_valid ⟨1⟩ .heap
  have hmagic : slice (new ⟨1⟩ .heap).bytes offMagic 4 = le32 pageMagic := by
    rw [← hvalid.magic, u32At, window]
    exact (le32_u32LE (length_slice (by rw [Page.size_eq]; decide))).symm
  have hfirst : (new ⟨1⟩ .heap).bytes[offMagic]? = some 0x50 := by
    have hat := congrArg (fun bytes : List UInt8 => bytes[0]?) hmagic
    rwa [getElem?_slice, if_pos (by decide)] at hat
  refine fromBytes_of_changed_byte ((validate_eq_ok_iff _).2 ⟨_, hvalid⟩) ?_
  rw [bytes_put _ (by simp)]
  exact differOnce_splice hfirst (by decide)

end Page

end Rdbms
