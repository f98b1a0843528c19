import Rdbms.Page.Compaction

/-!
# A slotted page as a map of slots

What a slotted page is for: it maps slot ids to records. `Slotted p h records` says
that the page `p` with the header `h` is valid, that its slots hold exactly
`records`, where a dead slot holds nothing, and that the records of live slots take
no more than the area behind the free one. The last part is what compaction needs
to have room for every record.
-/

namespace Rdbms

open Library

namespace Page

/-- The slots of a page in order: the record of a live slot, nothing for a dead one. -/
abbrev SlotMap := List (Option (List UInt8))

/-- The bytes taken by the records of live slots. -/
def SlotMap.liveBytes (slots : SlotMap) : Nat := (slots.map fun r => (r.getD []).length).sum

/-- The page holds the given slots. -/
structure Slotted (p : Page) (h : PageHeader) (records : SlotMap) : Prop extends Valid p h where
  records_eq : records = (List.range h.slotCount.toNat).map p.recordAt
  flags : ∀ i < h.slotCount.toNat, (p.slotAt i).isLive ∨ (p.slotAt i).isDead
  room : records.liveBytes + h.freeEnd.toNat ≤ pageSize

/-! ## Reading the slots -/

section Read

variable {p : Page} {h : PageHeader} {records : SlotMap}

theorem Slotted.length_eq (hs : Slotted p h records) : records.length = h.slotCount.toNat := by
  rw [hs.records_eq, List.length_map, List.length_range]

theorem Slotted.getElem?_eq (hs : Slotted p h records) {i : Nat} (hi : i < h.slotCount.toNat) :
    records[i]? = some (p.recordAt i) := by
  rw [hs.records_eq, List.getElem?_map, List.getElem?_range hi]
  rfl

/-- The flag words of live and dead slots differ. -/
theorem not_isDead_of_isLive {slot : SlotEntry} (hlive : slot.isLive) : ¬ slot.isDead := by
  intro hdead
  simp only [SlotEntry.isLive, SlotEntry.isDead, beq_iff_eq] at hlive hdead
  rw [hlive] at hdead
  cases hdead

theorem Slotted.isDead_iff (hs : Slotted p h records) {i : Nat} (hi : i < h.slotCount.toNat) :
    (p.slotAt i).isDead ↔ p.recordAt i = none := by
  rw [recordAt]
  by_cases hlive : (p.slotAt i).isLive
  · rw [if_pos hlive]
    exact ⟨fun hdead => absurd hdead (not_isDead_of_isLive hlive), fun hnone => by cases hnone⟩
  · rw [if_neg hlive]
    exact ⟨fun _ => rfl, fun _ => (hs.flags i hi).resolve_left hlive⟩

/-- A slot is out of range exactly when the directory has no entry for it. -/
theorem readRecord_of_ge (hv : Valid p h) {slotId : SlotId}
    (hi : h.slotCount.toNat ≤ slotId.val.toNat) :
    p.readRecord slotId = DbResult.user s!"slot {slotId.val} is out of range" := by
  have hrange : slotId.val ≥ h.slotCount := by
    rw [ge_iff_le, UInt16.le_iff_toNat_le]
    exact hi
  rw [readRecord, (header_eq_ok_iff p h).2 hv.toShape]
  simp only [bind, Except.bind, failIf_of hrange]

theorem Slotted.readRecord_eq (hs : Slotted p h records) (slotId : SlotId) :
    p.readRecord slotId =
      match records[slotId.val.toNat]? with
      | some record => .ok record
      | none => DbResult.user s!"slot {slotId.val} is out of range" := by
  by_cases hi : slotId.val.toNat < h.slotCount.toNat
  · rw [hs.getElem?_eq hi, Page.readRecord_eq hs.toValid hi]
  · rw [List.getElem?_eq_none (by rw [hs.length_eq]; omega),
      readRecord_of_ge hs.toValid (not_lt.1 hi)]

/-- Counting from `count` adds the number of live slots. -/
theorem countLive_eq (hs : Shape p h) (is : List UInt16)
    (his : ∀ i ∈ is, i.toNat < h.slotCount.toNat) : ∀ count : UInt16,
    count.toNat + is.length ≤ 65535 →
    ∃ total, p.countLive count is = .ok total ∧
      total.toNat = count.toNat + is.countP fun i => (p.recordAt i.toNat).isSome := by
  induction is with
  | nil =>
      intro count _
      exact ⟨count, rfl, rfl⟩
  | cons i is ih =>
      intro count hcount
      rw [List.forall_mem_cons] at his
      rw [List.length_cons] at hcount
      rw [countLive, slotEntry_eq p (slot_room hs his.1), List.countP_cons, recordAt]
      simp only [bind, Except.bind]
      by_cases hlive : (p.slotAt i.toNat).isLive
      · have hnext : (count + 1).toNat = count.toNat + 1 := by
          rw [UInt16.toNat_add]
          simp
          omega
        obtain ⟨total, htotal, hsum⟩ := ih his.2 (count + 1) (by omega)
        rw [if_pos hlive, if_pos hlive, failIf_of_not (by omega)]
        refine ⟨total, htotal, ?_⟩
        simp only [Option.isSome_some, if_true]
        omega
      · obtain ⟨total, htotal, hsum⟩ := ih his.2 count (by omega)
        rw [if_neg hlive, if_neg hlive]
        exact ⟨total, htotal, by simpa using hsum⟩

theorem Slotted.liveRecordCount_eq (hs : Slotted p h records) :
    ∃ count, p.liveRecordCount = .ok count ∧ count.toNat = records.countP Option.isSome := by
  have hcount := h.slotCount.toNat_lt
  have hlen : (slotIndexes h.slotCount).length = h.slotCount.toNat := by
    rw [← List.length_map UInt16.toNat, map_toNat_slotIndexes, List.length_range]
  obtain ⟨count, hrun, hcount⟩ := countLive_eq hs.toShape (slotIndexes h.slotCount)
    (fun i hi => mem_slotIndexes.1 hi) 0 (by rw [hlen]; simp; omega)
  refine ⟨count, ?_, ?_⟩
  · rw [liveRecordCount, (header_eq_ok_iff p h).2 hs.toShape]
    exact hrun
  · rw [hcount, hs.records_eq, List.countP_map, ← map_toNat_slotIndexes, List.countP_map]
    simp [Function.comp_def]

theorem Slotted.freeSpace_eq (hs : Slotted p h records) :
    p.freeSpace = .ok (h.freeEnd.toNat - h.freeStart.toNat) := by
  have hsub : ¬ h.freeEnd < h.freeStart := by
    rw [UInt16.lt_iff_toNat_lt]
    exact not_lt.2 hs.freeStart_le
  rw [freeSpace, (header_eq_ok_iff p h).2 hs.toShape]
  simp only [bind, Except.bind, failIf_of_not hsub, freeBytes_eq hs.toShape]
  rfl

end Read

/-! ## Inserting -/

section Insert

variable {p q : Page} {h k : PageHeader} {records : SlotMap} {record : List UInt8} {i : UInt16}

theorem liveBytes_append (xs ys : SlotMap) :
    SlotMap.liveBytes (xs ++ ys) = xs.liveBytes + ys.liveBytes := by
  rw [SlotMap.liveBytes, List.map_append, List.sum_append]
  rfl

/-- Filling a slot that held nothing. -/
theorem liveBytes_set_some {records : SlotMap} {i : Nat} (hi : records[i]? = some none)
    (record : List UInt8) :
    SlotMap.liveBytes (records.set i (some record)) = records.liveBytes + record.length := by
  induction records generalizing i with
  | nil => cases hi
  | cons r records ih =>
      cases i with
      | zero =>
          rw [List.getElem?_cons_zero, Option.some.injEq] at hi
          subst hi
          simp [SlotMap.liveBytes]
          omega
      | succ i =>
          have := ih hi
          simp only [SlotMap.liveBytes] at this
          simp only [SlotMap.liveBytes, List.set_cons_succ, List.map_cons, List.sum_cons, this]
          omega

theorem liveBytes_set_none (records : SlotMap) (i : Nat) :
    SlotMap.liveBytes (records.set i none) ≤ records.liveBytes := by
  induction records generalizing i with
  | nil => exact le_rfl
  | cons r records ih =>
      cases i with
      | zero => simp [SlotMap.liveBytes]
      | succ i =>
          have := ih i
          simp only [SlotMap.liveBytes] at this
          simp only [SlotMap.liveBytes, List.set_cons_succ, List.map_cons, List.sum_cons]
          omega

/-- The slots after an insert into the slot `i`. -/
def SlotMap.put (records : SlotMap) (i : Nat) (record : List UInt8) : SlotMap :=
  if i < records.length then records.set i (some record) else records ++ [some record]

theorem map_range_set {n i : Nat} {f g : Nat → Option (List UInt8)}
    (h : ∀ j < n, j ≠ i → g j = f j) :
    (List.range n).map g = ((List.range n).map f).set i (g i) := by
  apply List.ext_getElem?
  intro j
  rw [List.getElem?_set, List.getElem?_map, List.getElem?_map, List.length_map, List.length_range]
  by_cases hj : j < n
  · rw [List.getElem?_range hj, Option.map_some, Option.map_some]
    by_cases hij : i = j
    · rw [if_pos hij, if_pos (by omega), hij]
    · rw [if_neg hij, h j hj (Ne.symm hij)]
  · rw [List.getElem?_eq_none (by simpa using hj)]
    by_cases hij : i = j
    · rw [if_pos hij, if_neg (by omega)]
      rfl
    · rw [if_neg hij]
      rfl

theorem Slotted.inserted (hs : Slotted p h records) (hins : Inserted p h record i q k) :
    Slotted q k (records.put i.toNat record) ∧ SameIdentity h k := by
  have hlen := hs.length_eq
  have hfree := hins.freeEnd
  have hroom := hs.room
  refine ⟨⟨hins.valid, ?_, ?_, ?_⟩, hins.pageId, hins.pageLsn, hins.pageType⟩
  · rcases hins.slot with ⟨hi, hdead, hcount⟩ | ⟨hi, hnone, hcount⟩
    · rw [SlotMap.put, if_pos (by omega), hcount, hs.records_eq, map_range_set hins.recordAt_other,
        hins.recordAt_self]
    · rw [SlotMap.put, if_neg (by omega), hcount, hs.records_eq, List.range_succ, List.map_append,
        List.map_singleton, ← hi, hins.recordAt_self]
      refine congrArg (· ++ _) (List.map_congr_left fun j hj => ?_)
      have hj := List.mem_range.1 hj
      exact (hins.recordAt_other j (by omega) (by omega)).symm
  · intro j hj
    by_cases hji : j = i.toNat
    · left
      have hself := hins.recordAt_self
      rw [recordAt] at hself
      split at hself
      · rw [hji]
        assumption
      · cases hself
    · have hjh : j < h.slotCount.toNat := by
        rcases hins.slot with ⟨hi, hdead, hcount⟩ | ⟨hi, hnone, hcount⟩
        · omega
        · omega
      rw [hins.slotAt_other j hjh hji]
      exact hs.flags j hjh
  · rcases hins.slot with ⟨hi, hdead, hcount⟩ | ⟨hi, hnone, hcount⟩
    · have hget : records[i.toNat]? = some none := by
        rw [hs.getElem?_eq hi, (hs.isDead_iff hi).1 hdead]
      rw [SlotMap.put, if_pos (by omega), liveBytes_set_some hget]
      omega
    · rw [SlotMap.put, if_neg (by omega), liveBytes_append]
      simp only [SlotMap.liveBytes, List.map_cons, List.map_nil, List.sum_cons, List.sum_nil,
        Option.getD_some] at hroom ⊢
      omega

/-- The bytes an insert takes besides the record. -/
def SlotMap.slotBytes (records : SlotMap) : Nat := if none ∈ records then 0 else slotSize

theorem Slotted.slotCost_eq (hs : Slotted p h records) {r : Option UInt16}
    (hr : p.findDeadSlot (slotIndexes h.slotCount) = .ok r) : slotCost r = records.slotBytes := by
  obtain ⟨r', hr', hsome, hnone⟩ := findDeadSlot_spec hs.toShape (slotIndexes h.slotCount)
    fun i hi => mem_slotIndexes.1 hi
  obtain rfl : r = r' := Except.ok.inj (hr.symm.trans hr')
  cases r with
  | some i =>
      obtain ⟨hi, hdead⟩ := hsome i rfl
      have hi := mem_slotIndexes.1 hi
      have hmem : none ∈ records := by
        refine @List.mem_of_getElem? _ records i.toNat none ?_
        rw [hs.getElem?_eq hi, (hs.isDead_iff hi).1 hdead]
      rw [SlotMap.slotBytes, if_pos hmem]
      rfl
  | none =>
      have hmem : none ∉ records := by
        intro hmem
        obtain ⟨j, hget⟩ := List.mem_iff_getElem?.1 hmem
        have hj : j < h.slotCount.toNat := by
          rw [← hs.length_eq]
          exact (List.getElem?_eq_some_iff.1 hget).1
        have hcount := h.slotCount.toNat_lt
        have hj' : (UInt16.ofNat j).toNat = j := by
          rw [UInt16.toNat_ofNat']
          omega
        have hnot := hnone rfl (UInt16.ofNat j) (mem_slotIndexes.2 (by rwa [hj']))
        rw [hj', hs.isDead_iff hj] at hnot
        rw [hs.getElem?_eq hj, Option.some.injEq] at hget
        exact hnot hget
      rw [SlotMap.slotBytes, if_neg hmem]
      rfl

/-- An insert succeeds exactly when the free area has room for the record and, when
no slot is dead, a new slot. -/
theorem Slotted.insertRecord (hs : Slotted p h records) (record : List UInt8) :
    (record.length + records.slotBytes ≤ h.freeEnd.toNat - h.freeStart.toNat ∧
      ∃ i q k, insertRecord record p = (.ok ⟨i⟩, q) ∧ Inserted p h record i q k) ∨
    (¬ record.length + records.slotBytes ≤ h.freeEnd.toNat - h.freeStart.toNat ∧
      ∃ message, Page.insertRecord record p = (DbResult.user message, p)) := by
  obtain ⟨r, hr, -, -⟩ := findDeadSlot_spec hs.toShape (slotIndexes h.slotCount)
    fun i hi => mem_slotIndexes.1 hi
  rw [← hs.slotCost_eq hr]
  by_cases hfit : record.length + slotCost r ≤ h.freeEnd.toNat - h.freeStart.toNat
  · exact Or.inl ⟨hfit, insertRecord_of_fits hs.toValid hr hfit⟩
  · exact Or.inr ⟨hfit, insertRecord_of_not_fits hs.toValid hr (not_le.1 hfit)⟩

end Insert

/-! ## Deleting -/

section Delete

variable {p : Page} {h : PageHeader} {records : SlotMap}

theorem deleteRecord_of_ge (hv : Valid p h) {slotId : SlotId}
    (hi : h.slotCount.toNat ≤ slotId.val.toNat) :
    deleteRecord slotId p = (DbResult.user s!"slot {slotId.val} is out of range", p) := by
  have hrange : slotId.val ≥ h.slotCount := by
    rw [ge_iff_le, UInt16.le_iff_toNat_le]
    exact hi
  simp only [deleteRecord, Exec.bind_apply, Exec.liftM_apply, Exec.get_apply,
    (header_eq_ok_iff p h).2 hv.toShape, failIf_of hrange]

/-- The page with the slot `i` marked as dead. -/
def deleted (p : Page) (i : Nat) : Page :=
  (p.withSlot i { p.slotAt i with flags := SlotEntry.deadFlag }).sealed

theorem deleteRecord_of_lt (hv : Valid p h) {slotId : SlotId}
    (hi : slotId.val.toNat < h.slotCount.toNat) :
    deleteRecord slotId p =
      if (p.slotAt slotId.val.toNat).isLive then (.ok true, p.deleted slotId.val.toNat)
      else (.ok false, p) := by
  have hrange : ¬ slotId.val ≥ h.slotCount := by
    rw [ge_iff_le, UInt16.le_iff_toNat_le]
    omega
  have hroom := slot_room hv.toShape hi
  simp only [deleteRecord, Exec.bind_apply, Exec.liftM_apply, Exec.get_apply,
    (header_eq_ok_iff p h).2 hv.toShape, failIf_of_not hrange, slotEntry_eq p hroom]
  by_cases hlive : (p.slotAt slotId.val.toNat).isLive
  · rw [if_pos hlive]
    simp only [hlive, Bool.not_true, Bool.false_eq_true, if_false]
    simp only [Exec.bind_apply, writeSlotEntry_apply p _ hroom, refreshChecksum_apply,
      Exec.pure_apply, deleted]
  · rw [if_neg hlive]
    simp only [hlive, Bool.not_false, if_true, Exec.pure_apply]

theorem slotAt_deleted_of_ne (p : Page) {i j : Nat} (hj : j ≠ i) :
    (p.deleted i).slotAt j = p.slotAt j := by
  rw [Page.deleted, slotAt_sealed, slotAt_withSlot_of_ne p _ hj]

theorem isDead_deleted (hs : Shape p h) {i : Nat} (hi : i < h.slotCount.toNat) :
    ((p.deleted i).slotAt i).isDead := by
  have hroom : headerSize + (i + 1) * slotSize ≤ pageSize :=
    ((hs.slot_le hi).trans hs.freeStart_le).trans hs.freeEnd_le
  rw [Page.deleted, slotAt_sealed, slotAt_withSlot_self p _ hroom]
  rfl

/-- A valid page stays valid, whatever its other slots are, and they hold what they held. -/
theorem Valid.deleted (hv : Valid p h) {i : Nat} (hi : i < h.slotCount.toNat) :
    Valid (p.deleted i) { h with checksum := (p.deleted i).u32At offChecksum } ∧
      ∀ j < h.slotCount.toNat, j ≠ i → (p.deleted i).recordAt j = p.recordAt j := by
  have hroom : headerSize + (i + 1) * slotSize ≤ pageSize :=
    ((hv.toShape.slot_le hi).trans hv.freeStart_le).trans hv.freeEnd_le
  set entry : SlotEntry := { p.slotAt i with flags := SlotEntry.deadFlag } with hentry
  have hnotLive : ¬ entry.isLive := fun hlive => not_isDead_of_isLive hlive rfl
  refine ⟨(hv.toShape.withSlot i entry).valid_sealed ?_, ?_⟩
  · intro j hj
    by_cases hji : j = i
    · subst hji
      rw [slotAt_withSlot_self p entry hroom]
      exact ⟨Or.inr (Or.inr rfl), fun hlive => absurd hlive hnotLive⟩
    · rw [slotAt_withSlot_of_ne p entry hji]
      exact hv.slots j hj
  · intro j hj hji
    rw [recordAt, recordAt, slotAt_deleted_of_ne p hji]
    by_cases hlive : (p.slotAt j).isLive
    · -- the record lies behind the directory
      have hin := ((hv.slots j hj).2 hlive).1
      have hafter := ((hv.toShape.slot_le hi).trans hv.freeStart_le).trans hin
      rw [if_pos hlive, if_pos hlive, Page.deleted,
        window_sealed _ (Or.inr (by simp at hafter ⊢; omega)), window_withSlot p _ hafter]
    · rw [if_neg hlive, if_neg hlive]

theorem Slotted.deleted (hs : Slotted p h records) {i : Nat} (hi : i < h.slotCount.toNat) :
    ∃ k, Slotted (p.deleted i) k (records.set i none) ∧ SameIdentity h k := by
  obtain ⟨hvalid, hrecords⟩ := hs.toValid.deleted hi
  have hdead := isDead_deleted hs.toShape hi
  refine ⟨_, ⟨hvalid, ?_, ?_, ?_⟩, rfl, rfl, rfl⟩
  · have hset := map_range_set hrecords
    have hnone : (p.deleted i).recordAt i = none := by
      rw [recordAt, if_neg fun hlive => not_isDead_of_isLive hlive hdead]
    rw [hnone, ← hs.records_eq] at hset
    exact hset.symm
  · intro j hj
    by_cases hji : j = i
    · exact Or.inr (by rw [hji]; exact hdead)
    · rw [slotAt_deleted_of_ne p hji]
      exact hs.flags j hj
  · have hle := liveBytes_set_none records i
    have hfree := hs.room
    dsimp only
    omega

end Delete

/-! ## Compacting -/

section Compact

variable {p q : Page} {h k : PageHeader} {records : SlotMap}

theorem totalBytes_liveOf (p : Page) (is : List UInt16) :
    totalBytes (p.liveOf is) = SlotMap.liveBytes (is.map fun i => p.recordAt i.toNat) := by
  induction is with
  | nil => rfl
  | cons i is ih =>
      rw [List.map_cons, SlotMap.liveBytes, List.map_cons, List.sum_cons, ← SlotMap.liveBytes, ← ih]
      cases hrecord : p.recordAt i.toNat with
      | none =>
          rw [liveOf_cons_none hrecord]
          exact (Nat.zero_add _).symm
      | some record =>
          rw [liveOf_cons_some hrecord, totalBytes_cons]
          rfl

theorem Slotted.totalBytes_live (hs : Slotted p h records) :
    totalBytes (p.live h) = records.liveBytes := by
  rw [live, totalBytes_liveOf, hs.records_eq, ← map_toNat_slotIndexes, List.map_map]
  rfl

/-- The live records of a slotted page leave room for its directory. -/
theorem Slotted.live_fits (hs : Slotted p h records) :
    h.freeStart.toNat + totalBytes (p.live h) ≤ pageSize := by
  have hroom := hs.room
  have hle := hs.freeStart_le
  rw [hs.totalBytes_live]
  omega

theorem Slotted.of_compacted (hs : Slotted p h records) (hc : Compacted p h q k) :
    Slotted q k records where
  toValid := hc.valid
  records_eq := by
    rw [hs.records_eq, hc.slotCount]
    exact List.map_congr_left fun i hi => (hc.record i (List.mem_range.1 hi)).symm
  flags := by
    intro i hi
    rw [hc.slotCount] at hi
    cases hrecord : p.recordAt i with
    | some record =>
        have hlive := hc.record i hi
        rw [hrecord, recordAt] at hlive
        split at hlive
        · exact Or.inl ‹_›
        · cases hlive
    | none =>
        rw [hc.entry i hi hrecord]
        exact Or.inr ((hs.isDead_iff hi).2 hrecord)
  room := by
    have hfree := hc.freeEnd
    rw [hs.totalBytes_live] at hfree
    omega

theorem Slotted.compacted (hs : Slotted p h records) :
    ∃ k, Compacted p h (p.compacted h) k ∧ Page.compact p = (.ok (), p.compacted h) := by
  obtain ⟨k, hc⟩ := hs.toValid.compacted hs.live_fits
  have hfits := hs.live_fits
  exact ⟨k, hc, compact_of_le hs.toValid (by omega)⟩

/-- Compaction keeps every slot. -/
theorem Slotted.compact (hs : Slotted p h records) :
    ∃ q k, Page.compact p = (.ok (), q) ∧ Slotted q k records ∧ SameIdentity h k := by
  obtain ⟨k, hc, hrun⟩ := hs.compacted
  exact ⟨_, k, hrun, hs.of_compacted hc, hc.identity⟩

end Compact

/-! ## Sequences of operations -/

/-- A call that changes the page. -/
inductive SlotOp where
  | insert (record : List UInt8)
  | delete (slotId : SlotId)
  | compact

/-- What a call gives back. -/
inductive SlotAnswer where
  | inserted (slotId : SlotId)
  | deleted (wasLive : Bool)
  | compacted

def SlotOp.run : SlotOp → Db Page SlotAnswer
  | insert record => do return .inserted (← insertRecord record)
  | delete slotId => do return .deleted (← deleteRecord slotId)
  | compact => do
      Page.compact
      return .compacted

/-- Make the calls one after the other, whether they succeed or not. -/
def runSlotOps : List SlotOp → Db Page (List (DbResult SlotAnswer))
  | [] => return []
  | op :: ops => do
      let answer ← Exec.attempt op.run
      let answers ← runSlotOps ops
      return answer :: answers

/-- The slots after a call with the given answer: the slot an insert names holds its
record, the slot of a delete that found a live record holds nothing, and nothing else
changes any slot. -/
def SlotMap.after (records : SlotMap) : SlotOp × DbResult SlotAnswer → SlotMap
  | (.insert record, .ok (.inserted slotId)) => records.put slotId.val.toNat record
  | (.delete slotId, .ok (.deleted true)) => records.set slotId.val.toNat none
  | _ => records

/-- The slots after calls on a fresh page. -/
def slotsAfter (done : List (SlotOp × DbResult SlotAnswer)) : SlotMap := done.foldl SlotMap.after []

section Run

variable {p : Page} {h : PageHeader} {records : SlotMap}

/-- What one call does: the page holds the slots that the answer says, it keeps its
identity, and an error leaves every byte alone. -/
structure Steps (p : Page) (h : PageHeader) (records : SlotMap) (op : SlotOp) : Prop where
  slotted : ∃ k, Slotted (op.run p).2 k (records.after (op, (op.run p).1)) ∧ SameIdentity h k
  failed : ∀ stop, (op.run p).1 = .error stop → (op.run p).2 = p ∧ ∃ e, stop = .error e

theorem Steps.of_ok {op : SlotOp} {answer : SlotAnswer} {q : Page} {k : PageHeader}
    (hrun : op.run p = (.ok answer, q)) (hs : Slotted q k (records.after (op, .ok answer)))
    (hsame : SameIdentity h k) : Steps p h records op := by
  refine ⟨⟨k, ?_⟩, ?_⟩
  · rw [hrun]
    exact ⟨hs, hsame⟩
  · intro stop hstop
    rw [hrun] at hstop
    cases hstop

theorem Steps.of_error (hs : Slotted p h records) {op : SlotOp} {e : DbError}
    (hrun : op.run p = (.error (.error e), p)) : Steps p h records op := by
  have hafter : records.after (op, .error (.error e)) = records := by
    cases op <;> rfl
  refine ⟨⟨h, ?_⟩, ?_⟩
  · rw [hrun, hafter]
    exact ⟨hs, SameIdentity.refl h⟩
  · intro stop hstop
    rw [hrun] at hstop ⊢
    cases hstop
    exact ⟨rfl, e, rfl⟩

theorem Slotted.step (hs : Slotted p h records) (op : SlotOp) : Steps p h records op := by
  cases op with
  | insert record =>
      rcases hs.insertRecord record with ⟨-, i, q, k, hrun, hins⟩ | ⟨-, message, hrun⟩
      · obtain ⟨hslotted, hsame⟩ := hs.inserted hins
        exact Steps.of_ok (Exec.bind_of_ok hrun) hslotted hsame
      · exact Steps.of_error hs (Exec.bind_of_error hrun)
  | delete slotId =>
      by_cases hi : slotId.val.toNat < h.slotCount.toNat
      · have hrun := deleteRecord_of_lt hs.toValid hi
        by_cases hlive : (p.slotAt slotId.val.toNat).isLive
        · rw [if_pos hlive] at hrun
          obtain ⟨k, hslotted, hsame⟩ := hs.deleted hi
          exact Steps.of_ok (Exec.bind_of_ok hrun) hslotted hsame
        · rw [if_neg hlive] at hrun
          exact Steps.of_ok (Exec.bind_of_ok hrun) hs (SameIdentity.refl h)
      · exact Steps.of_error hs
          (Exec.bind_of_error (deleteRecord_of_ge hs.toValid (not_lt.1 hi)))
  | compact =>
      obtain ⟨q, k, hrun, hslotted, hsame⟩ := hs.compact
      exact Steps.of_ok (Exec.bind_of_ok hrun) hslotted hsame

/-- A delete answers whether the slot was live, and fails when there is no such slot. -/
theorem Slotted.deleteRecord_eq (hs : Slotted p h records) (slotId : SlotId) :
    (deleteRecord slotId p).1 =
      match records[slotId.val.toNat]? with
      | some record => .ok record.isSome
      | none => DbResult.user s!"slot {slotId.val} is out of range" := by
  by_cases hi : slotId.val.toNat < h.slotCount.toNat
  · rw [deleteRecord_of_lt hs.toValid hi, hs.getElem?_eq hi, recordAt]
    by_cases hlive : (p.slotAt slotId.val.toNat).isLive
    · rw [if_pos hlive, if_pos hlive]
      rfl
    · rw [if_neg hlive, if_neg hlive]
      rfl
  · rw [deleteRecord_of_ge hs.toValid (not_lt.1 hi),
      List.getElem?_eq_none (by rw [hs.length_eq]; omega)]

theorem Slotted.run {ops : List SlotOp} : ∀ {p h records}, Slotted p h records →
    ∃ answers q k, runSlotOps ops p = (.ok answers, q) ∧ answers.length = ops.length ∧
      Slotted q k ((ops.zip answers).foldl SlotMap.after records) ∧ SameIdentity h k := by
  induction ops with
  | nil =>
      intro p h records hs
      exact ⟨[], p, h, rfl, rfl, hs, SameIdentity.refl h⟩
  | cons op ops ih =>
      intro p h records hs
      obtain ⟨k, hslotted, hsame⟩ := (hs.step op).slotted
      obtain ⟨answers, q, l, hrun, hlen, hslotted', hsame'⟩ := ih hslotted
      refine ⟨(op.run p).1 :: answers, q, l, ?_, ?_, hslotted', hsame.trans hsame'⟩
      · rw [runSlotOps, Exec.bind_of_ok (Exec.attempt_apply _ _), Exec.bind_of_ok hrun]
        rfl
      · rw [List.length_cons, List.length_cons, hlen]

theorem new_slotted (pageId : PageId) (pageType : PageType) :
    Slotted (new pageId pageType) (newHeader pageId pageType) [] where
  toValid := new_valid pageId pageType
  records_eq := rfl
  flags i hi := absurd hi (Nat.not_lt_zero i)
  room := le_refl 4096

/-- An insert that succeeds: the record is read under the slot, which held nothing live, and
no other slot changes. -/
theorem Slotted.insert_frame (hs : Slotted p h records) {record : List UInt8} {slotId : SlotId}
    {q : Page} (hrun : Page.insertRecord record p = (.ok slotId, q)) :
    q.readRecord slotId = .ok (some record) ∧
      (∀ r, records[slotId.val.toNat]? ≠ some (some r)) ∧
      ∀ other, other ≠ slotId → q.readRecord other = p.readRecord other := by
  rcases hs.insertRecord record with ⟨-, i, q', k, hrun', hins⟩ | ⟨-, message, hrun'⟩
  case inr =>
    rw [hrun] at hrun'
    cases hrun'
  rw [hrun] at hrun'
  cases hrun'
  have hlen := hs.length_eq
  refine ⟨?_, ?_, ?_⟩
  · rw [(hs.inserted hins).1.readRecord_eq, SlotMap.put]
    rcases hins.slot with ⟨hi, -, -⟩ | ⟨hi, -, -⟩
    · rw [if_pos (by omega), List.getElem?_set_self (by omega)]
    · rw [if_neg (by omega), List.getElem?_append_right (by dsimp only; omega),
        List.getElem?_singleton, if_pos (by dsimp only; omega)]
  · intro r hr
    rcases hins.slot with ⟨hi, hdead, -⟩ | ⟨hi, -, -⟩
    · rw [hs.getElem?_eq hi, (hs.isDead_iff hi).1 hdead] at hr
      cases hr
    · rw [List.getElem?_eq_none (by dsimp only; omega)] at hr
      cases hr
  · intro other hne
    have hneNat : other.val.toNat ≠ i.toNat := by
      intro heq
      cases other
      exact hne (congrArg SlotId.mk (UInt16.toNat_inj.1 heq))
    rw [(hs.inserted hins).1.readRecord_eq, hs.readRecord_eq, SlotMap.put]
    by_cases hi : i.toNat < records.length
    · rw [if_pos hi, List.getElem?_set_ne hneNat.symm]
    · have heq : i.toNat = records.length := by
        rcases hins.slot with ⟨hlt, -⟩ | ⟨heq, -⟩
        · omega
        · omega
      rw [if_neg hi, List.getElem?_append, List.getElem?_singleton]
      by_cases hother : other.val.toNat < records.length
      · rw [if_pos hother]
      · rw [if_neg hother, if_neg (by omega), List.getElem?_eq_none (by omega)]

end Run

/-- A slotted page under any sequence of inserts, deletes and compactions is the map of
slots that the answers of the calls describe, and the answers are those of the map: a
delete says whether the slot was live, and a compaction always succeeds. -/
theorem slotted_page_refines_slot_map (pageId : PageId) (pageType : PageType)
    (ops : List SlotOp) :
    ∃ answers p, runSlotOps ops (new pageId pageType) = (.ok answers, p) ∧
      answers.length = ops.length ∧
      p.validate = .ok () ∧
      (∃ h, p.header = .ok h ∧ h.pageId = pageId ∧ h.pageType = pageType ∧ h.pageLsn = ⟨0⟩ ∧
        h.slotCount.toNat = (slotsAfter (ops.zip answers)).length) ∧
      (∀ slotId : SlotId,
        match (slotsAfter (ops.zip answers))[slotId.val.toNat]? with
        | some record => p.readRecord slotId = .ok record
        | none => ∃ e, p.readRecord slotId = .error (.error e)) ∧
      (∀ slotId : SlotId,
        match (slotsAfter (ops.zip answers))[slotId.val.toNat]? with
        | some record => (deleteRecord slotId p).1 = .ok record.isSome
        | none => ∃ e, (deleteRecord slotId p).1 = .error (.error e)) ∧
      (Page.compact p).1 = .ok () ∧
      (∃ count, p.liveRecordCount = .ok count ∧
        count.toNat = (slotsAfter (ops.zip answers)).countP Option.isSome) ∧
      (∃ free, p.freeSpace = .ok free ∧ ∀ record, (insertRecord record p).1.isOk ↔
        record.length + (if none ∈ slotsAfter (ops.zip answers) then 0 else 6) ≤ free) ∧
      (∀ record slotId q, insertRecord record p = (.ok slotId, q) →
        q.readRecord slotId = .ok (some record) ∧
          (∀ r, (slotsAfter (ops.zip answers))[slotId.val.toNat]? ≠ some (some r)) ∧
          ∀ other, other ≠ slotId → q.readRecord other = p.readRecord other) ∧
      ∀ (op : SlotOp) stop, (op.run p).1 = .error stop → (op.run p).2 = p := by
  obtain ⟨answers, p, h, hrun, hlen, hs, hsame⟩ := @Slotted.run ops _ _ _ (new_slotted pageId pageType)
  rw [← slotsAfter] at hs
  obtain ⟨q, k, hcompact, -⟩ := hs.compact
  refine ⟨answers, p, hrun, hlen, (validate_eq_ok_iff p).2 ⟨h, hs.toValid⟩, ?_, ?_, ?_,
    by rw [hcompact], hs.liveRecordCount_eq, ?_, ?_, ?_⟩
  · exact ⟨h, (header_eq_ok_iff p h).2 hs.toShape, hsame.pageId, hsame.pageType, hsame.pageLsn,
      hs.length_eq.symm⟩
  · intro slotId
    have hread := hs.readRecord_eq slotId
    cases hslot : (slotsAfter (ops.zip answers))[slotId.val.toNat]? with
    | some record =>
        rw [hslot] at hread
        exact hread
    | none =>
        rw [hslot] at hread
        exact ⟨_, hread⟩
  · intro slotId
    have hdelete := hs.deleteRecord_eq slotId
    cases hslot : (slotsAfter (ops.zip answers))[slotId.val.toNat]? with
    | some record =>
        rw [hslot] at hdelete
        exact hdelete
    | none =>
        rw [hslot] at hdelete
        exact ⟨_, hdelete⟩
  · refine ⟨_, hs.freeSpace_eq, fun record => ?_⟩
    rcases hs.insertRecord record with ⟨hfit, i, q, k, hins, -⟩ | ⟨hfull, message, hfail⟩
    · rw [hins]
      exact ⟨fun _ => hfit, fun _ => rfl⟩
    · rw [hfail]
      exact ⟨nofun, fun hfit => absurd hfit hfull⟩
  · intro record slotId q hins
    exact hs.insert_frame hins
  · intro op stop hstop
    exact ((hs.step op).failed stop hstop).1

/-- On every page that inserts, deletes and compactions reach, compaction succeeds, no slot
reads differently afterwards, the free area is as large as the live records leave it, and a
second compaction changes no byte. -/
theorem compact_exact_and_idempotent (pageId : PageId) (pageType : PageType)
    (ops : List SlotOp) :
    ∃ answers p q h k live, runSlotOps ops (new pageId pageType) = (.ok answers, p) ∧
      Page.compact p = (.ok (), q) ∧ p.header = .ok h ∧ q.header = .ok k ∧
      (∀ slotId, q.readRecord slotId = p.readRecord slotId) ∧
      k.slotCount = h.slotCount ∧
      (∀ i : UInt16, i < h.slotCount → ∃ slot slot', p.slotEntry i = .ok slot ∧
        q.slotEntry i = .ok slot' ∧ slot'.isLive = slot.isLive ∧ slot'.isDead = slot.isDead) ∧
      p.liveRecords (slotIndexes h.slotCount) = .ok live ∧
      (∃ before after, p.freeSpace = .ok before ∧ q.freeSpace = .ok after ∧
        after + 6 * k.slotCount.toNat + totalBytes live = 4062 ∧ before ≤ after) ∧
      Page.compact q = (.ok (), q) := by
  obtain ⟨answers, p, h, hrun, -, hs, -⟩ := @Slotted.run ops _ _ _ (new_slotted pageId pageType)
  obtain ⟨k, hc, hcompact⟩ := hs.compacted
  have hs' := hs.of_compacted hc
  have hfits := hs.live_fits
  have hstart := hs'.freeStart_eq
  have hfree := hc.freeEnd
  have hcount : k.freeStart.toNat = h.freeStart.toNat := by
    rw [hstart, hs.freeStart_eq, hc.slotCount]
  refine ⟨answers, p, _, h, k, p.live h, hrun, hcompact, (header_eq_ok_iff _ _).2 hs.toShape,
    (header_eq_ok_iff _ _).2 hs'.toShape, ?_, hc.slotCount, ?_,
    liveRecords_eq hs.toValid fun i hi => mem_slotIndexes.1 hi, ?_, ?_⟩
  · intro slotId
    rw [hs.readRecord_eq, hs'.readRecord_eq]
  · intro i hi
    rw [UInt16.lt_iff_toNat_lt] at hi
    refine ⟨_, _, slotEntry_eq p (slot_room hs.toShape hi),
      slotEntry_eq _ (slot_room hs'.toShape (by rwa [hc.slotCount])), ?_⟩
    rcases hs.flags i.toNat hi with hlive | hdead
    · have hrecord := hc.record i.toNat hi
      rw [recordAt, recordAt, if_pos hlive] at hrecord
      have hlive' : ((p.compacted h).slotAt i.toNat).isLive := by
        by_contra hnot
        rw [if_neg hnot] at hrecord
        cases hrecord
      refine ⟨hlive'.trans hlive.symm, ?_⟩
      rw [Bool.eq_false_iff.2 (not_isDead_of_isLive hlive),
        Bool.eq_false_iff.2 (not_isDead_of_isLive hlive')]
    · rw [hc.entry i.toNat hi ((hs.isDead_iff hi).1 hdead)]
      exact ⟨rfl, rfl⟩
  · refine ⟨_, _, hs.freeSpace_eq, hs'.freeSpace_eq, ?_, ?_⟩
    · simp only [headerSize, slotSize, pageSize] at hstart hfree hfits
      omega
    · have hroom := hs.room
      rw [← hs.totalBytes_live] at hroom
      omega
  · have hfits' := hs'.live_fits
    rw [compact_of_le hs'.toValid (by omega), hc.again hs.toValid hfits]

end Page

end Rdbms
