import Rdbms.Library.Hoare
import Rdbms.Page.Corruption
import Rdbms.Page.SlotMap

/-!
# The operations of a page on arbitrary bytes

Nothing that the bytes of a page say leads an operation out of the page or past a machine
word: each ends with a value or with an error. On a page that `from_bytes` accepts, an
insert or a delete that succeeds gives a page that is accepted again and leaves every other
live record as it was, also when the page was not built by these operations (its records may
overlap, and its slots may be unused).
-/

namespace Rdbms

open Library

/-- An exit with an error that the caller sees. -/
def Stop.IsError (stop : Stop) : Prop := ∃ e, stop = .error e

theorem Stop.IsCorruption.isError {stop : Stop} (h : stop.IsCorruption) : stop.IsError := by
  obtain ⟨message, rfl⟩ := h
  exact ⟨.corruption message, rfl⟩

namespace Page

/-! ## Operations that only look -/

section Read

variable (p : Page)

theorem header_isError : FailsIn Stop.IsError p.header :=
  (header_failsIn p).mono fun _ => Stop.IsCorruption.isError

theorem slotEntry_isError (i : UInt16) : FailsIn Stop.IsError (p.slotEntry i) :=
  (slotEntry_failsIn p i).mono fun _ => Stop.IsCorruption.isError

theorem readRecord_isError (slotId : SlotId) : FailsIn Stop.IsError (p.readRecord slotId) := by
  refine (header_isError p).bind fun header _ => ?_
  refine FailsIn.failIf_bind (fun _ => ⟨_, rfl⟩) fun _ => ?_
  refine (slotEntry_isError p slotId.val).bind fun slot _ => ?_
  split
  · exact FailsIn.ok none
  · exact FailsIn.failIf_bind (fun _ => ⟨_, rfl⟩) fun _ => FailsIn.ok _

/-- A header that parses leaves room for the directory: no more slots are counted than a
machine word holds. -/
theorem liveRecordCount_isError : FailsIn Stop.IsError p.liveRecordCount := by
  refine (header_isError p).bind fun header hheader => ?_
  have hs := (header_eq_ok_iff p header).1 hheader
  have hcount := header.slotCount.toNat_lt
  have hlen : (slotIndexes header.slotCount).length = header.slotCount.toNat := by
    rw [slotIndexes, List.length_map, List.length_range]
  obtain ⟨total, htotal, -⟩ := countLive_eq hs (slotIndexes header.slotCount)
    (fun i hi => mem_slotIndexes.1 hi) 0 (by rw [hlen]; simp; omega)
  rw [htotal]
  exact FailsIn.ok total

theorem freeSpace_isError : FailsIn Stop.IsError p.freeSpace := by
  refine (header_isError p).bind fun header hheader => ?_
  have hs := (header_eq_ok_iff p header).1 hheader
  have hsub : ¬ header.freeEnd < header.freeStart := by
    rw [UInt16.lt_iff_toNat_lt]
    exact not_lt.2 hs.freeStart_le
  rw [failIf_of_not hsub]
  exact FailsIn.ok _

theorem findDeadSlot_isError (is : List UInt16) : FailsIn Stop.IsError (p.findDeadSlot is) := by
  induction is with
  | nil => exact FailsIn.ok none
  | cons i is ih =>
      refine (slotEntry_isError p i).bind fun slot _ => ?_
      split
      · exact FailsIn.ok (some i)
      · exact ih

end Read

/-! ## Operations that write -/

section Write

open Exec

variable {E : Stop → Prop} (p : Page)

theorem writeBytes_ensures {offset : Nat} {data : List UInt8}
    (h : offset + data.length ≤ pageSize) :
    Ensures (writeBytes offset data) p E fun _ _ => True :=
  Ensures.of_ok (writeBytes_apply p h) trivial

theorem refreshChecksum_ensures : Ensures refreshChecksum p E fun _ _ => True :=
  Ensures.of_ok (refreshChecksum_apply p) trivial

/-- A slot outside the page is refused before anything is written. -/
theorem writeSlotEntry_ensures (i : UInt16) (slot : SlotEntry) :
    Ensures (writeSlotEntry i slot) p Stop.IsError fun _ _ => True := by
  refine Ensures.bind (Ensures.liftM (fun offset h => ?_) fun stop hstop =>
    (slotOffset_failsIn i stop hstop).isError)
  have hroom := offset_le_of_slotOffset h
  simp only [slotSize, pageSize] at hroom
  refine Ensures.bind ((writeBytes_ensures p (by simp; omega)).imp fun _ q _ => ?_)
  refine Ensures.bind ((writeBytes_ensures q (by simp; omega)).imp fun _ q _ => ?_)
  exact writeBytes_ensures q (by simp; omega)

theorem deleteRecord_ensures (slotId : SlotId) :
    Ensures (deleteRecord slotId) p Stop.IsError fun _ _ => True := by
  refine Ensures.bind (Ensures.get ?_)
  refine Ensures.bind (Ensures.liftM (fun header _ => ?_) (header_isError p))
  refine Ensures.bind (Ensures.liftM (fun _ _ => ?_)
    (FailsIn.failIf fun _ => FailsIn.error ⟨_, rfl⟩))
  refine Ensures.bind (Ensures.liftM (fun slot _ => ?_) (slotEntry_isError p slotId.val))
  split
  · exact Ensures.pure trivial
  · refine Ensures.bind ((writeSlotEntry_ensures p slotId.val _).imp fun _ q _ => ?_)
    exact Ensures.bind ((refreshChecksum_ensures q).imp fun _ _ _ => Ensures.pure trivial)

/-- The differences of machine words that an insert takes are not negative, and the copied
record ends where the free area ends. -/
theorem insertRecord_ensures (record : List UInt8) :
    Ensures (insertRecord record) p Stop.IsError fun _ _ => True := by
  refine Ensures.bind (Ensures.liftM (fun _ hlong => ?_)
    (FailsIn.failIf fun _ => FailsIn.error ⟨_, rfl⟩))
  refine Ensures.bind (Ensures.get ?_)
  refine Ensures.bind (Ensures.liftM (fun header hheader => ?_) (header_isError p))
  have hs := (header_eq_ok_iff p header).1 hheader
  have hend := hs.freeEnd_le
  have hle := hs.freeStart_le
  have hstart := hs.freeStart_eq
  simp only [headerSize, slotSize, pageSize] at hend hstart
  refine Ensures.bind (Ensures.liftM (fun reusable _ => ?_) (findDeadSlot_isError p _))
  have hsub : ¬ header.freeEnd < header.freeStart := by
    rw [UInt16.lt_iff_toNat_lt]
    exact not_lt.2 hle
  rw [failIf_of_not hsub]
  refine Ensures.bind (Ensures.liftM (fun _ _ => ?_) (FailsIn.ok _))
  refine Ensures.bind (Ensures.liftM (fun _ hfit => ?_)
    (FailsIn.failIf fun _ => FailsIn.error ⟨_, rfl⟩))
  have hneed := not_lt.1 (failIf_eq_ok.1 hfit)
  rw [freeBytes_eq hs] at hneed
  rw [failIf_of_not (by omega)]
  refine Ensures.bind (Ensures.liftM (fun _ _ => ?_) (FailsIn.ok _))
  refine Ensures.bind ((writeBytes_ensures p (by simp; omega)).imp fun _ q _ => ?_)
  refine Ensures.bind ((writeBytes_ensures q (by simp)).imp fun _ q _ => ?_)
  have hlast : ∀ (i : UInt16) (q : Page), Ensures (do
      writeSlotEntry i (liveEntry (header.freeEnd.toNat - record.length) record.length)
      refreshChecksum
      return (⟨i⟩ : SlotId)) q Stop.IsError fun _ _ => True := by
    intro i q
    refine Ensures.bind ((writeSlotEntry_ensures q i _).imp fun _ q _ => ?_)
    exact Ensures.bind ((refreshChecksum_ensures q).imp fun _ _ _ => Ensures.pure trivial)
  cases reusable with
  | some i => exact hlast i q
  | none =>
      -- the new directory ends where the record begins, or before
      simp only [Option.isNone_none, if_true, slotSize] at hneed
      have hnext : (header.slotCount + 1).toNat = header.slotCount.toNat + 1 := by
        rw [UInt16.toNat_add]
        simp
        omega
      refine Ensures.bind (Ensures.liftM (fun _ _ => ?_)
        (FailsIn.failIf fun _ => FailsIn.error ⟨_, rfl⟩))
      refine Ensures.bind ((writeBytes_ensures q (by simp)).imp fun _ q _ => ?_)
      rw [failIf_of_not (by rw [hnext]; simp; omega)]
      refine Ensures.bind (Ensures.liftM (fun _ _ => ?_) (FailsIn.ok _))
      refine Ensures.bind ((writeBytes_ensures q (by simp)).imp fun _ q _ => ?_)
      exact hlast header.slotCount q

end Write

/-! ## Valid pages stay valid -/

theorem recordAt_of_readRecord {p : Page} {h : PageHeader} (hv : Valid p h) {slotId : SlotId}
    {data : List UInt8} (hread : p.readRecord slotId = .ok (some data)) :
    slotId.val.toNat < h.slotCount.toNat ∧ p.recordAt slotId.val.toNat = some data := by
  by_cases hi : slotId.val.toNat < h.slotCount.toNat
  · rw [readRecord_eq hv hi] at hread
    exact ⟨hi, Except.ok.inj hread⟩
  · rw [readRecord_of_ge hv (not_lt.1 hi)] at hread
    cases hread

/-- An insert that succeeds used a slot that was not live. -/
theorem insertRecord_keeps {p q : Page} {h : PageHeader} (hv : Valid p h) {record : List UInt8}
    {inserted : SlotId} (hrun : insertRecord record p = (.ok inserted, q)) :
    q.validate = .ok () ∧ ∀ slotId data, p.readRecord slotId = .ok (some data) →
      slotId ≠ inserted ∧ q.readRecord slotId = .ok (some data) := by
  rcases insertRecord_spec hv record with ⟨message, hfail⟩ | ⟨i, q', k, hok, hins⟩
  · rw [hrun] at hfail
    cases hfail
  rw [hrun] at hok
  cases hok
  refine ⟨(validate_eq_ok_iff q).2 ⟨k, hins.valid⟩, ?_⟩
  intro slotId data hread
  obtain ⟨hi, hrecord⟩ := recordAt_of_readRecord hv hread
  have hlive : (p.slotAt slotId.val.toNat).isLive := by
    by_contra hnot
    rw [recordAt, if_neg hnot] at hrecord
    cases hrecord
  have hne : slotId.val.toNat ≠ i.toNat := by
    intro heq
    rcases hins.slot with ⟨-, hdead, -⟩ | ⟨hnew, -⟩
    · exact not_isDead_of_isLive hlive (heq ▸ hdead)
    · omega
  refine ⟨fun heq => hne (by rw [heq]), ?_⟩
  rw [readRecord_eq hins.valid (by rcases hins.slot with h | h <;> omega),
    hins.recordAt_other _ hi hne, hrecord]

theorem deleteRecord_keeps {p q : Page} {h : PageHeader} (hv : Valid p h) {slotId : SlotId}
    {found : Bool} (hrun : deleteRecord slotId p = (.ok found, q)) :
    q.validate = .ok () ∧ ∀ other data, other ≠ slotId →
      p.readRecord other = .ok (some data) → q.readRecord other = .ok (some data) := by
  by_cases hi : slotId.val.toNat < h.slotCount.toNat
  case neg =>
    rw [deleteRecord_of_ge hv (not_lt.1 hi)] at hrun
    cases hrun
  rw [deleteRecord_of_lt hv hi] at hrun
  split at hrun
  · cases hrun
    obtain ⟨hvalid, hothers⟩ := hv.deleted hi
    refine ⟨(validate_eq_ok_iff _).2 ⟨_, hvalid⟩, ?_⟩
    intro other data hother hread
    obtain ⟨hj, hrecord⟩ := recordAt_of_readRecord hv hread
    have hne : other.val.toNat ≠ slotId.val.toNat := by
      intro heq
      cases other
      cases slotId
      exact hother (congrArg SlotId.mk (UInt16.toNat_inj.1 heq))
    rw [readRecord_eq hvalid hj, hothers _ hj hne, hrecord]
  · cases hrun
    exact ⟨(validate_eq_ok_iff _).2 ⟨h, hv⟩, fun _ _ _ hread => hread⟩

/-- Every operation on any 4096 bytes ends with a value or an error. If the bytes are
accepted by `from_bytes`, an insert and a delete that succeed give an accepted page in which
every other live slot reads the same. -/
theorem operations_safe (p : Page) (record : List UInt8) (slotId : SlotId) :
    (FailsIn Stop.IsError p.header ∧ FailsIn Stop.IsError p.validate ∧
      FailsIn Stop.IsError (p.readRecord slotId) ∧
      FailsIn Stop.IsError (deleteRecord slotId p).1 ∧
      FailsIn Stop.IsError p.liveRecordCount ∧ FailsIn Stop.IsError p.freeSpace ∧
      FailsIn Stop.IsError (insertRecord record p).1) ∧
    (p.fromBytes = .ok p →
      (∀ inserted q, insertRecord record p = (.ok inserted, q) → q.validate = .ok () ∧
        ∀ other data, p.readRecord other = .ok (some data) →
          other ≠ inserted ∧ q.readRecord other = .ok (some data)) ∧
      ∀ found q, deleteRecord slotId p = (.ok found, q) → q.validate = .ok () ∧
        ∀ other data, other ≠ slotId → p.readRecord other = .ok (some data) →
          q.readRecord other = .ok (some data)) := by
  refine ⟨⟨header_isError p, ?_, readRecord_isError p slotId, ?_, liveRecordCount_isError p,
    freeSpace_isError p, ?_⟩, ?_⟩
  · exact (validate_failsIn p).mono fun _ => Stop.IsCorruption.isError
  · exact (deleteRecord_ensures p slotId).failsIn
  · exact (insertRecord_ensures p record).failsIn
  · intro haccepted
    obtain ⟨⟨⟩, hvalidate, -⟩ := except_bind_eq_ok.1 haccepted
    obtain ⟨h, hv⟩ := (validate_eq_ok_iff p).1 hvalidate
    exact ⟨fun _ _ => insertRecord_keeps hv, fun _ _ => deleteRecord_keeps hv⟩

/-- The record of one byte stays while a second one is inserted and deleted. -/
theorem operations_safe_two_records : ∃ q r,
    insertRecord [8, 9] oneRecord = (.ok ⟨1⟩, q) ∧ q.validate = .ok () ∧
    deleteRecord ⟨1⟩ q = (.ok true, r) ∧ r.validate = .ok () ∧
    r.readRecord ⟨0⟩ = .ok (some [7]) := by
  -- the pages are named, so that they are evaluated in these four facts only
  obtain ⟨p, hp⟩ : ∃ p, p = oneRecord := ⟨_, rfl⟩
  obtain ⟨q, hq⟩ : ∃ q, q = (insertRecord [8, 9] p).2 := ⟨_, rfl⟩
  have haccepted : p.fromBytes = .ok p := by rw [hp, oneRecord_accepted]
  have hread : p.readRecord ⟨0⟩ = .ok (some [7]) := by rw [hp]; decide +kernel
  have hinsert : (insertRecord [8, 9] p).1 = .ok ⟨1⟩ := by rw [hp]; decide +kernel
  have hdelete : (deleteRecord ⟨1⟩ q).1 = .ok true := by rw [hq, hp]; decide +kernel
  have hinserted : insertRecord [8, 9] p = (.ok ⟨1⟩, q) := Prod.ext hinsert hq.symm
  have hdeleted : deleteRecord ⟨1⟩ q = (.ok true, (deleteRecord ⟨1⟩ q).2) := Prod.ext hdelete rfl
  obtain ⟨hvalid, hkept⟩ := ((operations_safe p [8, 9] ⟨1⟩).2 haccepted).1 _ _ hinserted
  have haccepted' := fromBytes_of_valid ((validate_eq_ok_iff q).1 hvalid).choose_spec
  obtain ⟨hvalid', hkept'⟩ := ((operations_safe q [8, 9] ⟨1⟩).2 haccepted').2 _ _ hdeleted
  rw [← hp]
  exact ⟨q, _, hinserted, hvalid, hdeleted, hvalid',
    hkept' ⟨0⟩ [7] (by decide) (hkept ⟨0⟩ [7] hread).2⟩

end Page

end Rdbms
