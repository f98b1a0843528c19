import Rdbms.Page.Basic

/-!
# The slot directory of a page

`Shape p h` says in terms of windows of the buffer when the header of a page
parses as `h`, and `Valid p h` adds the checksum and the slot boundaries, that is
what `validate` accepts. Every operation on a valid page is then described by
what it does to `recordAt`, the record that a slot of the directory holds.
-/

namespace Rdbms

open Library

namespace Page

/-- The window of the buffer at `offset`. -/
def window (p : Page) (offset len : Nat) : List UInt8 := slice p.bytes offset len

def u16At (p : Page) (offset : Nat) : UInt16 := u16LE (p.window offset 2)

def u32At (p : Page) (offset : Nat) : UInt32 := u32LE (p.window offset 4)

def u64At (p : Page) (offset : Nat) : UInt64 := u64LE (p.window offset 8)

theorem readU16_eq (p : Page) {offset : Nat} (h : offset + 2 ≤ pageSize) :
    readU16 p.bytes offset = .ok (p.u16At offset) := by
  rw [readU16, if_pos (by rw [p.size_eq]; exact h)]
  rfl

theorem readU32_eq (p : Page) {offset : Nat} (h : offset + 4 ≤ pageSize) :
    readU32 p.bytes offset = .ok (p.u32At offset) := by
  rw [readU32, if_pos (by rw [p.size_eq]; exact h)]
  rfl

theorem readU64_eq (p : Page) {offset : Nat} (h : offset + 8 ≤ pageSize) :
    readU64 p.bytes offset = .ok (p.u64At offset) := by
  rw [readU64, if_pos (by rw [p.size_eq]; exact h)]
  rfl

/-! ## Writing one window -/

theorem bytes_put (p : Page) {offset : Nat} {data : List UInt8}
    (h : offset + data.length ≤ pageSize) :
    (p.put offset data).bytes = splice p.bytes offset data := by
  rw [put, dif_pos (by rw [p.size_eq]; exact h)]

theorem writeBytes_apply (p : Page) {offset : Nat} {data : List UInt8}
    (h : offset + data.length ≤ pageSize) :
    writeBytes offset data p = (.ok (), p.put offset data) := by
  rw [writeBytes, if_pos (by rw [p.size_eq]; exact h)]

theorem window_put_self (p : Page) {offset : Nat} (data : List UInt8)
    (h : offset + data.length ≤ pageSize) :
    (p.put offset data).window offset data.length = data := by
  rw [window, bytes_put p h, slice_splice_self (by rw [p.size_eq]; omega)]

theorem window_put_of_disjoint (p : Page) {offset i n : Nat} {data : List UInt8}
    (h : i + n ≤ offset ∨ offset + data.length ≤ i) :
    (p.put offset data).window i n = p.window i n := by
  by_cases hfit : offset + data.length ≤ pageSize
  · rw [window, bytes_put p hfit]
    have hoff : offset ≤ p.bytes.length := by rw [p.size_eq]; omega
    rcases h with h | h
    · rw [slice_splice_of_le hoff h]
      rfl
    · rw [slice_splice_of_ge hoff h]
      rfl
  · rw [put, dif_neg (by rw [p.size_eq]; exact hfit)]

theorem ext_bytes {p q : Page} (h : p.bytes = q.bytes) : p = q := by
  cases p
  cases q
  cases h
  rfl

theorem put_put_same (p : Page) {offset : Nat} {xs ys : List UInt8}
    (hlen : xs.length = ys.length) : (p.put offset xs).put offset ys = p.put offset ys := by
  by_cases hfit : offset + xs.length ≤ pageSize
  · apply ext_bytes
    rw [bytes_put _ (by omega), bytes_put _ hfit, bytes_put _ (by omega),
      splice_splice_same (by rw [p.size_eq]; exact hfit) hlen]
  · rw [put.eq_def p offset xs, dif_neg (by rw [p.size_eq]; exact hfit)]

section Words

variable (p : Page) {offset i : Nat}

theorem u16At_put_self {v : UInt16} (h : offset + 2 ≤ pageSize) :
    (p.put offset (le16 v)).u16At offset = v := by
  have := window_put_self p (le16 v) (by simpa using h : offset + (le16 v).length ≤ pageSize)
  rw [length_le16] at this
  rw [u16At, this, u16LE_le16]

theorem u32At_put_self {v : UInt32} (h : offset + 4 ≤ pageSize) :
    (p.put offset (le32 v)).u32At offset = v := by
  have := window_put_self p (le32 v) (by simpa using h : offset + (le32 v).length ≤ pageSize)
  rw [length_le32] at this
  rw [u32At, this, u32LE_le32]

theorem u64At_put_self {v : UInt64} (h : offset + 8 ≤ pageSize) :
    (p.put offset (le64 v)).u64At offset = v := by
  have := window_put_self p (le64 v) (by simpa using h : offset + (le64 v).length ≤ pageSize)
  rw [length_le64] at this
  rw [u64At, this, u64LE_le64]

theorem u16At_put_of_disjoint {data : List UInt8}
    (h : i + 2 ≤ offset ∨ offset + data.length ≤ i) :
    (p.put offset data).u16At i = p.u16At i := by
  rw [u16At, window_put_of_disjoint p h, u16At]

theorem u32At_put_of_disjoint {data : List UInt8}
    (h : i + 4 ≤ offset ∨ offset + data.length ≤ i) :
    (p.put offset data).u32At i = p.u32At i := by
  rw [u32At, window_put_of_disjoint p h, u32At]

theorem u64At_put_of_disjoint {data : List UInt8}
    (h : i + 8 ≤ offset ∨ offset + data.length ≤ i) :
    (p.put offset data).u64At i = p.u64At i := by
  rw [u64At, window_put_of_disjoint p h, u64At]

end Words

/-! ## The header -/

theorem fromU16_eq_ok_iff (value : UInt16) (t : PageType) :
    PageType.fromU16 value = .ok t ↔ value = t.toU16 := by
  constructor
  · intro h
    simp only [PageType.fromU16, DbResult.corruption] at h
    split_ifs at h <;> cases h <;> assumption
  · rintro rfl
    cases t <;> rfl

/-- The header of `p` parses as `h`. -/
structure Shape (p : Page) (h : PageHeader) : Prop where
  magic : p.u32At offMagic = pageMagic
  version : p.u16At offVersion = pageVersion
  pageType : p.u16At offPageType = h.pageType.toU16
  pageId : p.u64At offPageId = h.pageId.val
  pageLsn : p.u64At offPageLsn = h.pageLsn.val
  freeStart : p.u16At offFreeStart = h.freeStart
  freeEnd : p.u16At offFreeEnd = h.freeEnd
  slotCount : p.u16At offSlotCount = h.slotCount
  checksum : p.u32At offChecksum = h.checksum
  freeStart_eq : h.freeStart.toNat = headerSize + h.slotCount.toNat * slotSize
  freeStart_le : h.freeStart.toNat ≤ h.freeEnd.toNat
  freeEnd_le : h.freeEnd.toNat ≤ pageSize

theorem header_eq_ok_iff (p : Page) (h : PageHeader) : p.header = .ok h ↔ Shape p h := by
  obtain ⟨pageId, pageLsn, pageType, freeStart, freeEnd, slotCount, checksum⟩ := h
  have hchecks : p.header = .ok ⟨pageId, pageLsn, pageType, freeStart, freeEnd, slotCount,
      checksum⟩ ↔
      p.u32At 0 = pageMagic ∧ p.u16At 4 = pageVersion ∧
        (p.u16At 24).toNat = 34 + (p.u16At 28).toNat * 6 ∧
        (p.u16At 24 ≤ p.u16At 26 ∧ (p.u16At 26).toNat ≤ 4096) ∧
        PageType.fromU16 (p.u16At 6) = .ok pageType ∧ ⟨p.u64At 8⟩ = pageId ∧
        ⟨p.u64At 16⟩ = pageLsn ∧ p.u16At 24 = freeStart ∧ p.u16At 26 = freeEnd ∧
        p.u16At 28 = slotCount ∧ p.u32At 30 = checksum := by
    simp [header, readU16_eq, readU32_eq, readU64_eq, except_bind_eq_ok, failIf_eq_ok]
  rw [hchecks, fromU16_eq_ok_iff]
  constructor
  · rintro ⟨h₁, h₂, h₃, ⟨h₄, h₅⟩, h₆, rfl, rfl, rfl, rfl, rfl, rfl⟩
    exact ⟨h₁, h₂, h₆, rfl, rfl, rfl, rfl, rfl, rfl, h₃, h₄, h₅⟩
  · rintro ⟨h₁, h₂, h₃, h₄, h₅, h₆, h₇, h₈, h₉, h₁₀, h₁₁, h₁₂⟩
    dsimp only at h₃ h₄ h₅ h₆ h₇ h₈ h₉ h₁₀ h₁₁ h₁₂
    subst h₆ h₇ h₈ h₉
    exact ⟨h₁, h₂, h₁₀, ⟨h₁₁, h₁₂⟩, h₃, by rw [h₄], by rw [h₅], rfl, rfl, rfl, rfl⟩

/-! ## Slots -/

/-- The slot entry as the directory spells it. -/
def slotAt (p : Page) (i : Nat) : SlotEntry where
  offset := p.u16At (headerSize + i * slotSize)
  len := p.u16At (headerSize + i * slotSize + 2)
  flags := p.u16At (headerSize + i * slotSize + 4)

theorem slotOffset_eq {i : UInt16} (h : headerSize + (i.toNat + 1) * slotSize ≤ pageSize) :
    slotOffset i = .ok (headerSize + i.toNat * slotSize) := by
  rw [slotOffset, if_neg (by simp at h ⊢; omega)]

theorem slotEntry_eq (p : Page) {i : UInt16}
    (h : headerSize + (i.toNat + 1) * slotSize ≤ pageSize) :
    p.slotEntry i = .ok (p.slotAt i.toNat) := by
  simp only [headerSize, slotSize, pageSize] at h
  rw [slotEntry, slotOffset_eq (by simpa using h)]
  simp only [headerSize, slotSize, bind, Except.bind]
  rw [readU16_eq p (by simp; omega), readU16_eq p (by simp; omega), readU16_eq p (by simp; omega)]
  rfl

/-- What `validate` asks of one slot: a known flag and, when the slot is live, a
record inside the record area. -/
def SlotOk (slot : SlotEntry) (freeEnd : UInt16) : Prop :=
  (slot.flags = SlotEntry.unusedFlag ∨ slot.flags = SlotEntry.liveFlag ∨
    slot.flags = SlotEntry.deadFlag) ∧
  (slot.isLive → freeEnd.toNat ≤ slot.offset.toNat ∧
    slot.offset.toNat + slot.len.toNat ≤ pageSize)

theorem validateSlot_eq_ok_iff (p : Page) {freeEnd i : UInt16}
    (h : headerSize + (i.toNat + 1) * slotSize ≤ pageSize) :
    p.validateSlot freeEnd i = .ok () ↔ SlotOk (p.slotAt i.toNat) freeEnd := by
  have hchecks : p.validateSlot freeEnd i = .ok () ↔
      ¬ ((p.slotAt i.toNat).flags ≠ SlotEntry.unusedFlag ∧
        (p.slotAt i.toNat).flags ≠ SlotEntry.liveFlag ∧
        (p.slotAt i.toNat).flags ≠ SlotEntry.deadFlag) ∧
      ¬ ((p.slotAt i.toNat).isLive ∧ ((p.slotAt i.toNat).offset.toNat < freeEnd.toNat ∨
        (p.slotAt i.toNat).offset.toNat + (p.slotAt i.toNat).len.toNat > pageSize)) := by
    simp only [validateSlot, slotEntry_eq p h, except_bind_eq_ok, failIf_eq_ok, Except.ok.injEq,
      exists_eq_left', exists_const]
  rw [hchecks, SlotOk]
  generalize p.slotAt i.toNat = slot
  constructor
  · rintro ⟨hflags, hlive⟩
    refine ⟨by tauto, ?_⟩
    intro hl
    by_contra hc
    exact hlive ⟨hl, by omega⟩
  · rintro ⟨hflags, hlive⟩
    refine ⟨by tauto, ?_⟩
    rintro ⟨hl, hc⟩
    have := hlive hl
    omega

theorem mem_slotIndexes {count i : UInt16} : i ∈ slotIndexes count ↔ i.toNat < count.toNat := by
  simp only [slotIndexes, List.mem_map, List.mem_range]
  constructor
  · rintro ⟨n, hn, rfl⟩
    rw [UInt16.toNat_ofNat']
    exact lt_of_le_of_lt (Nat.mod_le _ _) hn
  · intro hi
    exact ⟨i.toNat, hi, UInt16.ofNat_toNat⟩

/-- A page that `validate` accepts, with its header. -/
structure Valid (p : Page) (h : PageHeader) : Prop extends Shape p h where
  checksum_eq : Page.checksum (p.put offChecksum (le32 0)).bytes = h.checksum
  slots : ∀ i < h.slotCount.toNat, SlotOk (p.slotAt i) h.freeEnd

/-- A valid page whose header carries the id `pageId`. -/
def ValidAs (p : Page) (pageId : PageId) : Prop := ∃ h, Valid p h ∧ h.pageId = pageId

theorem validatePageChecksum_eq_ok_iff (p : Page) :
    p.validatePageChecksum = .ok () ↔
      Page.checksum (p.put offChecksum (le32 0)).bytes = p.u32At offChecksum := by
  rw [validatePageChecksum, readU32_eq p (by simp)]
  simp only [bind, Except.bind, validateChecksum]
  split <;> simp [*]

/-- The directory of a page with a parsed header lies inside the page. -/
theorem Shape.slot_le {p : Page} {h : PageHeader} (hs : Shape p h) {i : Nat}
    (hi : i < h.slotCount.toNat) : headerSize + (i + 1) * slotSize ≤ h.freeStart.toNat := by
  have := hs.freeStart_eq
  simp only [headerSize, slotSize] at this ⊢
  omega

theorem validate_eq_ok_iff (p : Page) : p.validate = .ok () ↔ ∃ h, Valid p h := by
  simp only [validate, except_bind_eq_ok, except_forM_eq_ok, mem_slotIndexes,
    header_eq_ok_iff]
  refine exists_congr fun h => ?_
  constructor
  · rintro ⟨hs, ⟨⟩, hc, hslots⟩
    rw [validatePageChecksum_eq_ok_iff] at hc
    refine ⟨hs, hc.trans hs.checksum, ?_⟩
    intro i hi
    have hcount : h.slotCount.toNat < 65536 := h.slotCount.toNat_lt
    have htoNat : (UInt16.ofNat i).toNat = i := by
      rw [UInt16.toNat_ofNat']
      omega
    have hle := hs.slot_le hi
    have hroom : headerSize + ((UInt16.ofNat i).toNat + 1) * slotSize ≤ pageSize := by
      rw [htoNat]
      exact (hle.trans hs.freeStart_le).trans hs.freeEnd_le
    have hslot := (validateSlot_eq_ok_iff p hroom).1 (hslots (UInt16.ofNat i) (by rwa [htoNat]))
    rwa [htoNat] at hslot
  · intro hv
    refine ⟨hv.toShape, (), ?_, ?_⟩
    · rw [validatePageChecksum_eq_ok_iff, hv.checksum_eq, hv.checksum]
    · intro i hi
      have hroom := ((hv.toShape.slot_le hi).trans hv.freeStart_le).trans hv.freeEnd_le
      exact (validateSlot_eq_ok_iff p hroom).2 (hv.slots i.toNat hi)

theorem fromBytes_of_valid {p : Page} {h : PageHeader} (hv : Valid p h) : p.fromBytes = .ok p := by
  rw [fromBytes, (validate_eq_ok_iff p).2 ⟨h, hv⟩]
  rfl

theorem Shape.unique {p : Page} {h h' : PageHeader} (hs : Shape p h) (hs' : Shape p h') :
    h = h' := by
  have h₁ := (header_eq_ok_iff p h).2 hs
  have h₂ := (header_eq_ok_iff p h').2 hs'
  exact Except.ok.inj (h₁.symm.trans h₂)

/-- The record a slot holds, if the slot is live. -/
def recordAt (p : Page) (i : Nat) : Option (List UInt8) :=
  if (p.slotAt i).isLive then
    some (p.window (p.slotAt i).offset.toNat (p.slotAt i).len.toNat)
  else none

theorem readRecord_eq {p : Page} {h : PageHeader} (hv : Valid p h) {slotId : SlotId}
    (hi : slotId.val.toNat < h.slotCount.toNat) :
    p.readRecord slotId = .ok (p.recordAt slotId.val.toNat) := by
  have hroom := ((hv.toShape.slot_le hi).trans hv.freeStart_le).trans hv.freeEnd_le
  have hrange : ¬ slotId.val ≥ h.slotCount := by
    rw [ge_iff_le, UInt16.le_iff_toNat_le]
    omega
  rw [readRecord, (header_eq_ok_iff p h).2 hv.toShape]
  simp only [bind, Except.bind, failIf_of_not hrange, slotEntry_eq p hroom]
  by_cases hl : (p.slotAt slotId.val.toNat).isLive
  · have hslot := (hv.slots _ hi).2 hl
    rw [recordAt, if_pos hl]
    simp only [hl, Bool.not_true, Bool.false_eq_true, if_false]
    rw [failIf_of_not (by omega)]
    rfl
  · rw [recordAt, if_neg hl]
    simp [hl]

end Page

end Rdbms
