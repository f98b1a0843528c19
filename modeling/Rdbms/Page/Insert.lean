import Rdbms.Page.Slots

/-!
# Inserting a record

`new_valid` and `insertRecord_spec` are the two facts the layers above use: a
fresh page is valid and holds nothing, and inserting a record into a valid page
either fails with a user error and leaves the page alone, or makes exactly one
slot that was not live hold exactly that record.
-/

namespace Rdbms

open Library

namespace Page

/-! ## Sealing a page with its checksum -/

/-- The page with its checksum stored. -/
def sealed (p : Page) : Page :=
  (p.put offChecksum (le32 0)).put offChecksum
    (le32 (Page.checksum (p.put offChecksum (le32 0)).bytes))

theorem refreshChecksum_apply (p : Page) : refreshChecksum p = (.ok (), p.sealed) := by
  simp [refreshChecksum, Exec.bind_apply, writeU32, writeBytes_apply, sealed]

theorem sealed_put_zero (p : Page) :
    p.sealed.put offChecksum (le32 0) = p.put offChecksum (le32 0) := by
  rw [sealed, put_put_same _ (by simp), put_put_same _ (by simp)]

theorem u32At_sealed (p : Page) :
    p.sealed.u32At offChecksum = Page.checksum (p.sealed.put offChecksum (le32 0)).bytes := by
  rw [sealed_put_zero, sealed, u32At_put_self _ (by simp)]

theorem window_sealed (p : Page) {i n : Nat} (h : i + n ≤ offChecksum ∨ offChecksum + 4 ≤ i) :
    p.sealed.window i n = p.window i n := by
  rw [sealed, window_put_of_disjoint _ (by simpa using h),
    window_put_of_disjoint _ (by simpa using h)]

theorem u16At_sealed (p : Page) {i : Nat} (h : i + 2 ≤ offChecksum ∨ offChecksum + 4 ≤ i) :
    p.sealed.u16At i = p.u16At i := by
  rw [u16At, window_sealed p h, u16At]

theorem slotAt_sealed (p : Page) (i : Nat) : p.sealed.slotAt i = p.slotAt i := by
  simp only [slotAt]
  rw [u16At_sealed p (by simp), u16At_sealed p (by simp; omega), u16At_sealed p (by simp; omega)]

/-- Sealing a page whose other header fields parse makes the whole header parse
and its checksum match. -/
theorem Shape.of_sealed {p : Page} {h : PageHeader} (hs : Shape p h) :
    Shape p.sealed { h with checksum := p.sealed.u32At offChecksum } where
  magic := by
    rw [u32At, window_sealed p (by simp)]
    exact hs.magic
  version := by
    rw [u16At_sealed p (by simp)]
    exact hs.version
  pageType := by
    rw [u16At_sealed p (by simp)]
    exact hs.pageType
  pageId := by
    rw [u64At, window_sealed p (by simp)]
    exact hs.pageId
  pageLsn := by
    rw [u64At, window_sealed p (by simp)]
    exact hs.pageLsn
  freeStart := by
    rw [u16At_sealed p (by simp)]
    exact hs.freeStart
  freeEnd := by
    rw [u16At_sealed p (by simp)]
    exact hs.freeEnd
  slotCount := by
    rw [u16At_sealed p (by simp)]
    exact hs.slotCount
  checksum := rfl
  freeStart_eq := hs.freeStart_eq
  freeStart_le := hs.freeStart_le
  freeEnd_le := hs.freeEnd_le

theorem Shape.valid_sealed {p : Page} {h : PageHeader} (hs : Shape p h)
    (hslots : ∀ i < h.slotCount.toNat, SlotOk (p.slotAt i) h.freeEnd) :
    Valid p.sealed { h with checksum := p.sealed.u32At offChecksum } where
  toShape := hs.of_sealed
  checksum_eq := (u32At_sealed p).symm
  slots := by
    intro i hi
    rw [slotAt_sealed]
    exact hslots i hi

/-! ## A fresh page -/

/-- The writes of `format` up to the checksum. -/
def formatted (p : Page) (pageId : PageId) (pageType : PageType) : Page :=
  (((((((p.put offMagic (le32 pageMagic)).put offVersion (le16 pageVersion)).put offPageType
    (le16 pageType.toU16)).put offPageId (le64 pageId.val)).put offPageLsn (le64 0)).put
    offFreeStart (le16 34)).put offFreeEnd (le16 4096)).put offSlotCount (le16 0)

theorem format_apply (p : Page) (pageId : PageId) (pageType : PageType) :
    format pageId pageType p = (.ok (), (p.formatted pageId pageType).sealed) := by
  simp [format, Exec.bind_apply, writeU16, writeU32, writeU64, writeBytes_apply,
    refreshChecksum_apply, formatted]

/-- The header of a fresh page. -/
def newHeader (pageId : PageId) (pageType : PageType) : PageHeader where
  pageId
  pageLsn := ⟨0⟩
  pageType
  freeStart := 34
  freeEnd := 4096
  slotCount := 0
  checksum := (new pageId pageType).u32At offChecksum

theorem new_eq (pageId : PageId) (pageType : PageType) :
    new pageId pageType = (zeroed.formatted pageId pageType).sealed := by
  rw [new, format_apply]

theorem formatted_shape (p : Page) (pageId : PageId) (pageType : PageType) :
    Shape (p.formatted pageId pageType) { newHeader pageId pageType with
      checksum := (p.formatted pageId pageType).u32At offChecksum } where
  magic := by
    simp [formatted, u32At_put_self, u32At_put_of_disjoint]
  version := by
    simp [formatted, u16At_put_self, u16At_put_of_disjoint]
  pageType := by
    simp [formatted, u16At_put_self, u16At_put_of_disjoint, newHeader]
  pageId := by
    simp [formatted, u64At_put_self, u64At_put_of_disjoint, newHeader]
  pageLsn := by
    simp [formatted, u64At_put_self, u64At_put_of_disjoint, newHeader]
  freeStart := by
    simp [formatted, u16At_put_self, u16At_put_of_disjoint, newHeader]
  freeEnd := by
    simp [formatted, u16At_put_self, u16At_put_of_disjoint, newHeader]
  slotCount := by
    simp [formatted, u16At_put_self, newHeader]
  checksum := rfl
  freeStart_eq := rfl
  freeStart_le := by simp [newHeader]
  freeEnd_le := by simp [newHeader]

theorem new_valid (pageId : PageId) (pageType : PageType) :
    Valid (new pageId pageType) (newHeader pageId pageType) := by
  have hv := (formatted_shape zeroed pageId pageType).valid_sealed (by
    intro i hi
    simp [newHeader] at hi)
  rw [← new_eq] at hv
  exact hv

/-! ## Inserting into a valid page -/

theorem findDeadSlot_spec {p : Page} {h : PageHeader} (hs : Shape p h) (is : List UInt16)
    (his : ∀ i ∈ is, i.toNat < h.slotCount.toNat) :
    ∃ r, p.findDeadSlot is = .ok r ∧
      (∀ i, r = some i → i ∈ is ∧ (p.slotAt i.toNat).isDead) ∧
      (r = none → ∀ i ∈ is, ¬ (p.slotAt i.toNat).isDead) := by
  induction is with
  | nil => exact ⟨none, rfl, by simp, by simp⟩
  | cons i is ih =>
      have hi := his i (List.mem_cons_self ..)
      have hroom := ((hs.slot_le hi).trans hs.freeStart_le).trans hs.freeEnd_le
      obtain ⟨r, hr, hsome, hnone⟩ := ih fun j hj => his j (List.mem_cons_of_mem _ hj)
      rw [findDeadSlot, slotEntry_eq p hroom]
      simp only [bind, Except.bind]
      by_cases hd : (p.slotAt i.toNat).isDead
      · refine ⟨some i, by simp [hd], ?_, by simp⟩
        rintro j ⟨⟩
        exact ⟨List.mem_cons_self .., hd⟩
      · refine ⟨r, by simpa [hd] using hr, ?_, ?_⟩
        · intro j hj
          exact ⟨List.mem_cons_of_mem _ (hsome j hj).1, (hsome j hj).2⟩
        · intro hn j hj
          rcases List.mem_cons.1 hj with rfl | hj
          · exact hd
          · exact hnone hn j hj

/-- Writing behind the header leaves the header alone. -/
theorem Shape.put_of_ge {p : Page} {h : PageHeader} (hs : Shape p h) {offset : Nat}
    (hoff : headerSize ≤ offset) (data : List UInt8) : Shape (p.put offset data) h where
  magic := by
    rw [u32At_put_of_disjoint p (by simp at hoff ⊢; omega)]
    exact hs.magic
  version := by
    rw [u16At_put_of_disjoint p (by simp at hoff ⊢; omega)]
    exact hs.version
  pageType := by
    rw [u16At_put_of_disjoint p (by simp at hoff ⊢; omega)]
    exact hs.pageType
  pageId := by
    rw [u64At_put_of_disjoint p (by simp at hoff ⊢; omega)]
    exact hs.pageId
  pageLsn := by
    rw [u64At_put_of_disjoint p (by simp at hoff ⊢; omega)]
    exact hs.pageLsn
  freeStart := by
    rw [u16At_put_of_disjoint p (by simp at hoff ⊢; omega)]
    exact hs.freeStart
  freeEnd := by
    rw [u16At_put_of_disjoint p (by simp at hoff ⊢; omega)]
    exact hs.freeEnd
  slotCount := by
    rw [u16At_put_of_disjoint p (by simp at hoff ⊢; omega)]
    exact hs.slotCount
  checksum := by
    rw [u32At_put_of_disjoint p (by simp at hoff ⊢; omega)]
    exact hs.checksum
  freeStart_eq := hs.freeStart_eq
  freeStart_le := hs.freeStart_le
  freeEnd_le := hs.freeEnd_le

theorem Shape.put_freeEnd {p : Page} {h : PageHeader} (hs : Shape p h) {v : UInt16}
    (hlo : h.freeStart.toNat ≤ v.toNat) (hhi : v.toNat ≤ pageSize) :
    Shape (p.put offFreeEnd (le16 v)) { h with freeEnd := v } where
  magic := by
    rw [u32At_put_of_disjoint p (by simp)]
    exact hs.magic
  version := by
    rw [u16At_put_of_disjoint p (by simp)]
    exact hs.version
  pageType := by
    rw [u16At_put_of_disjoint p (by simp)]
    exact hs.pageType
  pageId := by
    rw [u64At_put_of_disjoint p (by simp)]
    exact hs.pageId
  pageLsn := by
    rw [u64At_put_of_disjoint p (by simp)]
    exact hs.pageLsn
  freeStart := by
    rw [u16At_put_of_disjoint p (by simp)]
    exact hs.freeStart
  freeEnd := u16At_put_self p (by simp)
  slotCount := by
    rw [u16At_put_of_disjoint p (by simp)]
    exact hs.slotCount
  checksum := by
    rw [u32At_put_of_disjoint p (by simp)]
    exact hs.checksum
  freeStart_eq := hs.freeStart_eq
  freeStart_le := hlo
  freeEnd_le := hhi

theorem Shape.put_slotCount {p : Page} {h : PageHeader} (hs : Shape p h) {count start : UInt16}
    (heq : start.toNat = headerSize + count.toNat * slotSize)
    (hle : start.toNat ≤ h.freeEnd.toNat) :
    Shape ((p.put offSlotCount (le16 count)).put offFreeStart (le16 start))
      { h with slotCount := count, freeStart := start } where
  magic := by
    rw [u32At_put_of_disjoint _ (by simp), u32At_put_of_disjoint _ (by simp)]
    exact hs.magic
  version := by
    rw [u16At_put_of_disjoint _ (by simp), u16At_put_of_disjoint _ (by simp)]
    exact hs.version
  pageType := by
    rw [u16At_put_of_disjoint _ (by simp), u16At_put_of_disjoint _ (by simp)]
    exact hs.pageType
  pageId := by
    rw [u64At_put_of_disjoint _ (by simp), u64At_put_of_disjoint _ (by simp)]
    exact hs.pageId
  pageLsn := by
    rw [u64At_put_of_disjoint _ (by simp), u64At_put_of_disjoint _ (by simp)]
    exact hs.pageLsn
  freeStart := u16At_put_self _ (by simp)
  freeEnd := by
    rw [u16At_put_of_disjoint _ (by simp), u16At_put_of_disjoint _ (by simp)]
    exact hs.freeEnd
  slotCount := by
    rw [u16At_put_of_disjoint _ (by simp), u16At_put_self _ (by simp)]
  checksum := by
    rw [u32At_put_of_disjoint _ (by simp), u32At_put_of_disjoint _ (by simp)]
    exact hs.checksum
  freeStart_eq := heq
  freeStart_le := hle
  freeEnd_le := hs.freeEnd_le

/-- The page with one slot entry of its directory overwritten. -/
def withSlot (p : Page) (i : Nat) (slot : SlotEntry) : Page :=
  ((p.put (headerSize + i * slotSize) (le16 slot.offset)).put (headerSize + i * slotSize + 2)
    (le16 slot.len)).put (headerSize + i * slotSize + 4) (le16 slot.flags)

theorem writeSlotEntry_apply (p : Page) {i : UInt16} (slot : SlotEntry)
    (h : headerSize + (i.toNat + 1) * slotSize ≤ pageSize) :
    writeSlotEntry i slot p = (.ok (), p.withSlot i.toNat slot) := by
  have hroom := h
  simp only [headerSize, slotSize, pageSize] at h
  rw [writeSlotEntry, slotOffset_eq hroom]
  simp only [Exec.bind_apply, Exec.liftM_apply, writeU16]
  rw [writeBytes_apply _ (by simp; omega)]
  dsimp only
  rw [writeBytes_apply _ (by simp; omega)]
  dsimp only
  rw [writeBytes_apply _ (by simp; omega)]
  rfl

theorem slotAt_withSlot_self (p : Page) {i : Nat} (slot : SlotEntry)
    (h : headerSize + (i + 1) * slotSize ≤ pageSize) : (p.withSlot i slot).slotAt i = slot := by
  simp only [headerSize, slotSize, pageSize] at h
  obtain ⟨offset, len, flags⟩ := slot
  simp only [withSlot, slotAt, SlotEntry.mk.injEq]
  refine ⟨?_, ?_, ?_⟩
  · rw [u16At_put_of_disjoint _ (by simp), u16At_put_of_disjoint _ (by simp),
      u16At_put_self _ (by simp; omega)]
  · rw [u16At_put_of_disjoint _ (by simp), u16At_put_self _ (by simp; omega)]
  · rw [u16At_put_self _ (by simp; omega)]

theorem slotAt_withSlot_of_ne (p : Page) {i j : Nat} (slot : SlotEntry) (h : j ≠ i) :
    (p.withSlot i slot).slotAt j = p.slotAt j := by
  have hdis : j * 6 + 6 ≤ i * 6 ∨ i * 6 + 6 ≤ j * 6 := by omega
  simp only [withSlot, slotAt, SlotEntry.mk.injEq]
  refine ⟨?_, ?_, ?_⟩
  all_goals
    rw [u16At_put_of_disjoint _ (by simp; omega), u16At_put_of_disjoint _ (by simp; omega),
      u16At_put_of_disjoint _ (by simp; omega)]

theorem window_withSlot (p : Page) {i j n : Nat} (slot : SlotEntry)
    (h : headerSize + (i + 1) * slotSize ≤ j) : (p.withSlot i slot).window j n = p.window j n := by
  simp only [headerSize, slotSize] at h
  rw [withSlot, window_put_of_disjoint _ (by simp; omega), window_put_of_disjoint _ (by simp; omega),
    window_put_of_disjoint _ (by simp; omega)]

theorem Shape.withSlot {p : Page} {h : PageHeader} (hs : Shape p h) (i : Nat) (slot : SlotEntry) :
    Shape (p.withSlot i slot) h :=
  ((hs.put_of_ge (by simp) _).put_of_ge (by simp; omega) _).put_of_ge (by simp; omega) _

/-- What a successful insert of `record` into the slot `i` does: the page `p` with
the header `h` becomes `q` with the header `k`. The slot is either the first slot
that was dead or a new one at the end of the directory. -/
structure Inserted (p : Page) (h : PageHeader) (record : List UInt8) (i : UInt16)
    (q : Page) (k : PageHeader) : Prop where
  valid : Valid q k
  pageId : k.pageId = h.pageId
  pageLsn : k.pageLsn = h.pageLsn
  pageType : k.pageType = h.pageType
  slot : (i.toNat < h.slotCount.toNat ∧ (p.slotAt i.toNat).isDead ∧
      k.slotCount.toNat = h.slotCount.toNat) ∨
    (i.toNat = h.slotCount.toNat ∧ (∀ j < h.slotCount.toNat, ¬ (p.slotAt j).isDead) ∧
      k.slotCount.toNat = h.slotCount.toNat + 1)
  freeEnd : k.freeEnd.toNat + record.length = h.freeEnd.toNat
  recordAt_self : q.recordAt i.toNat = some record
  slotAt_other : ∀ j < h.slotCount.toNat, j ≠ i.toNat → q.slotAt j = p.slotAt j
  recordAt_other : ∀ j < h.slotCount.toNat, j ≠ i.toNat → q.recordAt j = p.recordAt j

/-- The directory entry of a record of the given length at the given offset. -/
def liveEntry (newOffset len : Nat) : SlotEntry where
  offset := UInt16.ofNat newOffset
  len := UInt16.ofNat len
  flags := SlotEntry.liveFlag

/-- The page with a live slot entry written and its checksum stored. -/
def recorded (q : Page) (i : UInt16) (newOffset len : Nat) : Page :=
  (q.withSlot i.toNat (liveEntry newOffset len)).sealed

/-- The last part of every insert: once the record has been copied below the old
`freeEnd` and the header updated to `k`, writing the slot entry and the checksum
gives a page that holds the record in the slot `i` and the old records elsewhere. -/
theorem inserted_of_placed {p q : Page} {h k : PageHeader} (record : List UInt8) (i : UInt16)
    (hv : Valid p h) (hs : Shape q k) (hid : k.pageId = h.pageId) (hlsn : k.pageLsn = h.pageLsn)
    (htype : k.pageType = h.pageType)
    (hend : k.freeEnd.toNat + record.length = h.freeEnd.toNat)
    (hslot : (i.toNat < h.slotCount.toNat ∧ (p.slotAt i.toNat).isDead ∧
        k.slotCount.toNat = h.slotCount.toNat) ∨
      (i.toNat = h.slotCount.toNat ∧ (∀ j < h.slotCount.toNat, ¬ (p.slotAt j).isDead) ∧
        k.slotCount.toNat = h.slotCount.toNat + 1))
    (hrecord : q.window k.freeEnd.toNat record.length = record)
    (hdir : ∀ j < h.slotCount.toNat, q.slotAt j = p.slotAt j)
    (hold : ∀ j n, h.freeEnd.toNat ≤ j → q.window j n = p.window j n) :
    ∃ k', Inserted p h record i (q.recorded i k.freeEnd.toNat record.length) k' := by
  have hend' := hv.freeEnd_le
  have hik : i.toNat < k.slotCount.toNat := by omega
  have hdirEnd := hs.slot_le hik
  have hroom : headerSize + (i.toNat + 1) * slotSize ≤ k.freeEnd.toNat :=
    hdirEnd.trans hs.freeStart_le
  have hpage : headerSize + (i.toNat + 1) * slotSize ≤ pageSize := hroom.trans hs.freeEnd_le
  have hlen : (UInt16.ofNat record.length).toNat = record.length := by
    rw [UInt16.toNat_ofNat']
    simp only [pageSize] at hend'
    omega
  set entry := liveEntry k.freeEnd.toNat record.length with hentry
  have hoffset : entry.offset.toNat = k.freeEnd.toNat := by
    rw [hentry, liveEntry, UInt16.ofNat_toNat]
  have hself : (q.withSlot i.toNat entry).sealed.slotAt i.toNat = entry := by
    rw [slotAt_sealed, slotAt_withSlot_self q entry hpage]
  have hother : ∀ j, j ≠ i.toNat →
      (q.withSlot i.toNat entry).sealed.slotAt j = q.slotAt j := by
    intro j hj
    rw [slotAt_sealed, slotAt_withSlot_of_ne q entry hj]
  have hwindow : ∀ j n, k.freeEnd.toNat ≤ j →
      (q.withSlot i.toNat entry).sealed.window j n = q.window j n := by
    intro j n hj
    simp only [headerSize, slotSize] at hroom
    rw [window_sealed _ (by simp; omega), window_withSlot q entry (hroom.trans hj)]
  rw [recorded, ← hentry]
  refine ⟨{ k with checksum := (q.withSlot i.toNat entry).sealed.u32At offChecksum },
    ?_, hid, hlsn, htype, hslot, hend, ?_, ?_, ?_⟩
  · refine (hs.withSlot i.toNat entry).valid_sealed ?_
    intro j hj
    by_cases hji : j = i.toNat
    · subst hji
      rw [slotAt_withSlot_self q entry hpage]
      refine ⟨Or.inr (Or.inl rfl), fun _ => ⟨hoffset.ge, ?_⟩⟩
      rw [hoffset, hentry, liveEntry, hlen]
      omega
    · rw [slotAt_withSlot_of_ne q entry hji, hdir j (by omega)]
      have hok := hv.slots j (by omega)
      exact ⟨hok.1, fun hl => ⟨by have := (hok.2 hl).1; omega, (hok.2 hl).2⟩⟩
  · rw [recordAt, hself, if_pos (by rfl), hoffset]
    have hl : entry.len.toNat = record.length := hlen
    rw [hl, hwindow _ _ le_rfl, hrecord]
  · intro j hj hji
    rw [hother j hji, hdir j hj]
  · intro j hj hji
    have hslotj : (q.withSlot i.toNat entry).sealed.slotAt j = p.slotAt j := by
      rw [hother j hji, hdir j hj]
    rw [recordAt, recordAt, hslotj]
    by_cases hl : (p.slotAt j).isLive
    · have hok := (hv.slots j hj).2 hl
      rw [if_pos hl, if_pos hl, hwindow _ _ (by omega), hold _ _ hok.1]
    · rw [if_neg hl, if_neg hl]

/-- The bytes an insert takes from the free area besides the record itself. -/
def slotCost (reusable : Option UInt16) : Nat := if reusable.isNone then slotSize else 0

section InsertRecord

variable {p : Page} {h : PageHeader} {record : List UInt8} {r : Option UInt16}

theorem freeBytes_eq (hs : Shape p h) :
    (h.freeEnd - h.freeStart).toNat = h.freeEnd.toNat - h.freeStart.toNat :=
  UInt16.toNat_sub_of_le _ _ (UInt16.le_iff_toNat_le.2 hs.freeStart_le)

theorem insertRecord_of_not_fits (hv : Valid p h)
    (hr : p.findDeadSlot (slotIndexes h.slotCount) = .ok r)
    (hfit : h.freeEnd.toNat - h.freeStart.toNat < record.length + slotCost r) :
    ∃ message, insertRecord record p = (.error (.error (.user message)), p) := by
  by_cases hlong : record.length > 65535
  · refine ⟨"record is larger than u16 length limit", ?_⟩
    rw [insertRecord, failIf_of hlong]
    exact Exec.bind_of_error rfl
  · have hsub : ¬ h.freeEnd < h.freeStart := by
      rw [UInt16.lt_iff_toNat_lt]
      exact not_lt.2 hv.freeStart_le
    have hneed : record.length + slotCost r > (h.freeEnd - h.freeStart).toNat := by
      rw [freeBytes_eq hv.toShape]
      exact hfit
    rw [slotCost] at hneed
    simp only [insertRecord, failIf_of_not hlong, Exec.bind_apply, Exec.liftM_apply,
      Exec.get_apply, (header_eq_ok_iff p h).2 hv.toShape, hr, failIf_of_not hsub, failIf_of hneed]
    exact ⟨_, rfl⟩

theorem insertRecord_of_fits (hv : Valid p h)
    (hr : p.findDeadSlot (slotIndexes h.slotCount) = .ok r)
    (hfit : record.length + slotCost r ≤ h.freeEnd.toNat - h.freeStart.toNat) :
    ∃ i q k, insertRecord record p = (.ok ⟨i⟩, q) ∧ Inserted p h record i q k := by
  have hend := hv.freeEnd_le
  have hle := hv.freeStart_le
  have hstart := hv.freeStart_eq
  simp only [headerSize, slotSize, pageSize] at hend hstart
  have hlong : ¬ record.length > 65535 := by omega
  have hsub : ¬ h.freeEnd < h.freeStart := by
    rw [UInt16.lt_iff_toNat_lt]
    exact not_lt.2 hv.freeStart_le
  have hneed : ¬ record.length + slotCost r > (h.freeEnd - h.freeStart).toNat := by
    rw [freeBytes_eq hv.toShape]
    exact not_lt.2 hfit
  have hroom : ¬ h.freeEnd.toNat < record.length := by omega
  set off := h.freeEnd.toNat - record.length with hoff
  have hoffset : (UInt16.ofNat off).toNat = off := by
    rw [UInt16.toNat_ofNat']
    omega
  obtain ⟨r', hr', hsome, hnone⟩ := findDeadSlot_spec hv.toShape (slotIndexes h.slotCount)
    fun i hi => mem_slotIndexes.1 hi
  obtain rfl : r = r' := Except.ok.inj (hr.symm.trans hr')
  -- the record goes below the old `freeEnd`, above the directory
  have hs₁ : Shape ((p.put off record).put offFreeEnd (le16 (UInt16.ofNat off)))
      { h with freeEnd := UInt16.ofNat off } := by
    refine (hv.toShape.put_of_ge (by simp; omega) record).put_freeEnd ?_ ?_
    · rw [hoffset]
      omega
    · rw [hoffset]
      simp
      omega
  set q₁ := (p.put off record).put offFreeEnd (le16 (UInt16.ofNat off)) with hq₁
  have hrecord : q₁.window off record.length = record := by
    rw [hq₁, window_put_of_disjoint _ (by simp; omega), window_put_self p record (by simp; omega)]
  have hdir : ∀ j < h.slotCount.toNat, q₁.slotAt j = p.slotAt j := by
    intro j hj
    simp only [slotAt, SlotEntry.mk.injEq]
    refine ⟨?_, ?_, ?_⟩
    all_goals
      rw [hq₁, u16At_put_of_disjoint _ (by simp; omega), u16At_put_of_disjoint _ (by simp; omega)]
  have hold : ∀ j n, h.freeEnd.toNat ≤ j → q₁.window j n = p.window j n := by
    intro j n hj
    rw [hq₁, window_put_of_disjoint _ (by simp; omega), window_put_of_disjoint _ (by omega)]
  have hw₁ : writeBytes off record p = (.ok (), p.put off record) :=
    writeBytes_apply p (by simp; omega)
  have hw₂ : writeBytes offFreeEnd (le16 (UInt16.ofNat off)) (p.put off record) = (.ok (), q₁) :=
    writeBytes_apply _ (by simp)
  rw [slotCost] at hneed
  cases r with
  | some i =>
      have hi := hsome i rfl
      have hcount := mem_slotIndexes.1 hi.1
      have hpage : headerSize + (i.toNat + 1) * slotSize ≤ pageSize := by simp; omega
      obtain ⟨k, hk⟩ := inserted_of_placed record i hv hs₁ rfl rfl rfl
        (by dsimp only; omega) (Or.inl ⟨hcount, hi.2, rfl⟩)
        (by dsimp only; rw [hoffset]; exact hrecord) hdir hold
      refine ⟨i, _, k, ?_, hk⟩
      simp only [insertRecord, failIf_of_not hlong, Exec.bind_apply, Exec.liftM_apply,
        Exec.get_apply, (header_eq_ok_iff p h).2 hv.toShape, hr, failIf_of_not hsub,
        failIf_of_not hneed, failIf_of_not hroom, writeU16, ← hoff, hw₁, hw₂, Exec.pure_apply,
        writeSlotEntry_apply q₁ _ hpage, refreshChecksum_apply, recorded, liveEntry, hoffset]
  | none =>
      have hnodead : ∀ j < h.slotCount.toNat, ¬ (p.slotAt j).isDead := by
        intro j hj
        have hj' : (UInt16.ofNat j).toNat = j := by
          rw [UInt16.toNat_ofNat']
          omega
        have := hnone rfl (UInt16.ofNat j) (mem_slotIndexes.2 (by rwa [hj']))
        rwa [hj'] at this
      simp only [slotCost, Option.isNone_none, if_true, slotSize] at hfit
      have hcount : ¬ h.slotCount.toNat + 1 > 65535 := by omega
      have hnext : (h.slotCount + 1).toNat = h.slotCount.toNat + 1 := by
        rw [UInt16.toNat_add]
        simp
        omega
      have hdirEnd : ¬ headerSize + (h.slotCount + 1).toNat * slotSize > 65535 := by
        rw [hnext]
        simp
        omega
      set start := UInt16.ofNat (headerSize + (h.slotCount + 1).toNat * slotSize) with hstart'
      have hstartNat : start.toNat = headerSize + (h.slotCount + 1).toNat * slotSize := by
        rw [hstart', UInt16.toNat_ofNat']
        omega
      have hs₂ := hs₁.put_slotCount hstartNat (by
        rw [hstartNat, hnext]
        dsimp only
        simp only [headerSize, slotSize]
        omega)
      set q₂ := (q₁.put offSlotCount (le16 (h.slotCount + 1))).put offFreeStart (le16 start)
        with hq₂
      have hw₃ : writeBytes offSlotCount (le16 (h.slotCount + 1)) q₁ =
          (.ok (), q₁.put offSlotCount (le16 (h.slotCount + 1))) := writeBytes_apply _ (by simp)
      have hw₄ : writeBytes offFreeStart (le16 start)
          (q₁.put offSlotCount (le16 (h.slotCount + 1))) = (.ok (), q₂) :=
        writeBytes_apply _ (by simp)
      have hdir₂ : ∀ j < h.slotCount.toNat, q₂.slotAt j = p.slotAt j := by
        intro j hj
        rw [← hdir j hj]
        simp only [slotAt, SlotEntry.mk.injEq]
        refine ⟨?_, ?_, ?_⟩
        all_goals
          rw [hq₂, u16At_put_of_disjoint _ (by simp; omega), u16At_put_of_disjoint _ (by simp; omega)]
      have hold₂ : ∀ j n, h.freeEnd.toNat ≤ j → q₂.window j n = p.window j n := by
        intro j n hj
        rw [hq₂, window_put_of_disjoint _ (by simp; omega),
          window_put_of_disjoint _ (by simp; omega), hold j n hj]
      have hrecord₂ : q₂.window off record.length = record := by
        rw [hq₂, window_put_of_disjoint _ (by simp; omega),
          window_put_of_disjoint _ (by simp; omega), hrecord]
      have hpage : headerSize + (h.slotCount.toNat + 1) * slotSize ≤ pageSize := by simp; omega
      obtain ⟨k, hk⟩ := inserted_of_placed record h.slotCount hv hs₂ rfl rfl rfl
        (by dsimp only; omega) (Or.inr ⟨rfl, hnodead, hnext⟩)
        (by dsimp only; rw [hoffset]; exact hrecord₂) hdir₂ hold₂
      refine ⟨h.slotCount, _, k, ?_, hk⟩
      simp only [insertRecord, failIf_of_not hlong, Exec.bind_apply, Exec.liftM_apply,
        Exec.get_apply, (header_eq_ok_iff p h).2 hv.toShape, hr, failIf_of_not hsub,
        failIf_of_not hneed, failIf_of_not hroom, writeU16, ← hoff, hw₁, hw₂, Exec.pure_apply,
        failIf_of_not hcount, hw₃, failIf_of_not hdirEnd, ← hstart', hw₄,
        writeSlotEntry_apply q₂ _ hpage, refreshChecksum_apply, recorded, liveEntry, hoffset]

/-- Inserting into a valid page fails with a user error and leaves the page alone,
or puts the record into a slot that was not live. -/
theorem insertRecord_spec (hv : Valid p h) (record : List UInt8) :
    (∃ message, insertRecord record p = (.error (.error (.user message)), p)) ∨
      ∃ i q k, insertRecord record p = (.ok ⟨i⟩, q) ∧ Inserted p h record i q k := by
  obtain ⟨r, hr, -, -⟩ := findDeadSlot_spec hv.toShape (slotIndexes h.slotCount)
    fun i hi => mem_slotIndexes.1 hi
  by_cases hfit : record.length + slotCost r ≤ h.freeEnd.toNat - h.freeStart.toNat
  · exact Or.inr (insertRecord_of_fits hv hr hfit)
  · exact Or.inl (insertRecord_of_not_fits hv hr (not_le.1 hfit))

end InsertRecord

/-! ## Pages with one record -/

/-- A page of the given id and type whose only slot holds `record`. The catalog
page and the index pages have this form. -/
structure Single (p : Page) (pageId : PageId) (pageType : PageType) (record : List UInt8) :
    Prop where
  valid : ∃ h, Valid p h ∧ h.pageId = pageId ∧ h.pageType = pageType
  readRecord : p.readRecord ⟨0⟩ = .ok (some record)

theorem length_le_of_readRecord {p : Page} {slotId : SlotId} {record : List UInt8}
    (h : p.readRecord slotId = .ok (some record)) : record.length ≤ pageSize := by
  simp only [readRecord, except_bind_eq_ok] at h
  obtain ⟨header, -, ⟨⟩, -, slot, -, h⟩ := h
  split at h
  · cases h
  · obtain ⟨⟨⟩, -, h⟩ := except_bind_eq_ok.1 h
    cases h
    rw [slice, List.length_take, List.length_drop, p.size_eq]
    omega

theorem single_of_inserted {pageId : PageId} {pageType : PageType} {record : List UInt8}
    {i : UInt16} {q : Page} {k : PageHeader}
    (hins : Inserted (new pageId pageType) (newHeader pageId pageType) record i q k) :
    i = 0 ∧ Single q pageId pageType record := by
  have hslot := hins.slot
  simp only [newHeader] at hslot
  have hi : i = 0 := by
    apply UInt16.toNat_inj.1
    rcases hslot with ⟨hlt, -⟩ | ⟨heq, -⟩
    · simp at hlt
    · simpa using heq
  subst hi
  have hcount : (0 : UInt16).toNat < k.slotCount.toNat := by
    rcases hslot with ⟨hlt, -⟩ | ⟨-, -, hk⟩
    · simp at hlt
    · rw [hk]
      simp
  refine ⟨rfl, ⟨k, hins.valid, hins.pageId, hins.pageType⟩, ?_⟩
  rw [readRecord_eq hins.valid hcount, hins.recordAt_self]

/-- The largest record a fresh page takes. -/
def maxRecord : Nat := pageSize - headerSize - slotSize

theorem insertRecord_new_of_fits (pageId : PageId) (pageType : PageType) {record : List UInt8}
    (h : record.length ≤ maxRecord) :
    ∃ q, insertRecord record (new pageId pageType) = (.ok ⟨0⟩, q) ∧
      Single q pageId pageType record := by
  have hr : (new pageId pageType).findDeadSlot
      (slotIndexes (newHeader pageId pageType).slotCount) = .ok none := rfl
  have hfit : record.length + slotCost none ≤
      (newHeader pageId pageType).freeEnd.toNat - (newHeader pageId pageType).freeStart.toNat := by
    simp only [maxRecord, pageSize, headerSize, slotSize] at h
    simp [slotCost, newHeader]
    omega
  obtain ⟨i, q, k, hrun, hins⟩ := insertRecord_of_fits (new_valid pageId pageType) hr hfit
  obtain ⟨rfl, hsingle⟩ := single_of_inserted hins
  exact ⟨q, hrun, hsingle⟩

theorem insertRecord_new (pageId : PageId) (pageType : PageType) (record : List UInt8) :
    (∃ message, insertRecord record (new pageId pageType) =
      (.error (.error (.user message)), new pageId pageType)) ∨
    ∃ q, insertRecord record (new pageId pageType) = (.ok ⟨0⟩, q) ∧
      Single q pageId pageType record := by
  rcases insertRecord_spec (new_valid pageId pageType) record with hfail | ⟨i, q, k, hrun, hins⟩
  · exact Or.inl hfail
  · obtain ⟨rfl, hsingle⟩ := single_of_inserted hins
    exact Or.inr ⟨q, hrun, hsingle⟩

theorem insertRecord_new_fits {pageId : PageId} {pageType : PageType} {record : List UInt8}
    {slotId : SlotId} {q : Page} (h : insertRecord record (new pageId pageType) = (.ok slotId, q)) :
    record.length ≤ maxRecord := by
  have hr : (new pageId pageType).findDeadSlot
      (slotIndexes (newHeader pageId pageType).slotCount) = .ok none := rfl
  by_contra hlong
  have hfit : (newHeader pageId pageType).freeEnd.toNat -
      (newHeader pageId pageType).freeStart.toNat < record.length + slotCost none := by
    simp only [maxRecord, pageSize, headerSize, slotSize] at hlong
    simp [slotCost, newHeader]
    omega
  obtain ⟨message, hfail⟩ := insertRecord_of_not_fits (new_valid pageId pageType) hr hfit
  rw [hfail] at h
  cases h

/-- A record does not fit into a fresh page for one reason only. -/
theorem insertRecord_new_onlyUser (pageId : PageId) (pageType : PageType) (record : List UInt8) :
    DbResult.OnlyUser (Exec.toExcept (insertRecord record) (new pageId pageType)) := by
  intro stop hstop
  obtain ⟨page, hrun⟩ := Exec.toExcept_eq_error.1 hstop
  rcases insertRecord_new pageId pageType record with ⟨message, hfail⟩ | ⟨q, hok, -⟩
  · rw [hfail] at hrun
    cases hrun
    exact ⟨message, rfl⟩
  · rw [hok] at hrun
    cases hrun

end Page

end Rdbms
