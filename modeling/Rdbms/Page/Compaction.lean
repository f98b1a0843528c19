import Rdbms.Page.Insert
import Mathlib.Order.Interval.Set.Basic

/-!
# Compacting a page

Compaction copies the live records out, clears everything behind the slot directory
and packs the records downwards from the end of the page, one slot entry after the
other. It is described here for every page that `validate` accepts, whatever its
slots point to: `validate` checks each slot on its own, so two of them may claim the
same bytes. `compacted` is the page that compaction reaches when the live records
are no longer than a page. It is what it should be exactly when the records also
leave room for the directory.
-/

namespace Rdbms

open Library

namespace Page

/-- Two headers of one page at different times. -/
structure SameIdentity (h k : PageHeader) : Prop where
  pageId : k.pageId = h.pageId
  pageLsn : k.pageLsn = h.pageLsn
  pageType : k.pageType = h.pageType

theorem SameIdentity.refl (h : PageHeader) : SameIdentity h h := ⟨rfl, rfl, rfl⟩

theorem SameIdentity.trans {h k l : PageHeader} (hk : SameIdentity h k) (kl : SameIdentity k l) :
    SameIdentity h l :=
  ⟨kl.pageId.trans hk.pageId, kl.pageLsn.trans hk.pageLsn, kl.pageType.trans hk.pageType⟩

section Compact

variable {p : Page} {h : PageHeader}

theorem slot_room (hs : Shape p h) {i : UInt16} (hi : i.toNat < h.slotCount.toNat) :
    headerSize + (i.toNat + 1) * slotSize ≤ pageSize :=
  ((hs.slot_le hi).trans hs.freeStart_le).trans hs.freeEnd_le

theorem map_toNat_slotIndexes (count : UInt16) :
    (slotIndexes count).map UInt16.toNat = List.range count.toNat := by
  rw [slotIndexes, List.map_map]
  refine (List.map_congr_left fun i hi => ?_).trans (List.map_id _)
  have hlt := List.mem_range.1 hi
  have hcount := count.toNat_lt
  rw [Function.comp, UInt16.toNat_ofNat']
  exact Nat.mod_eq_of_lt (by omega)

/-- The live records of the given slots. -/
def liveOf (p : Page) (is : List UInt16) : List (UInt16 × List UInt8) :=
  is.filterMap fun i => (p.recordAt i.toNat).map fun record => (i, record)

theorem liveOf_cons_some {i : UInt16} {record : List UInt8}
    (hrecord : p.recordAt i.toNat = some record) (is : List UInt16) :
    p.liveOf (i :: is) = (i, record) :: p.liveOf is :=
  List.filterMap_cons_some (by rw [hrecord]; rfl)

theorem liveOf_cons_none {i : UInt16} (hrecord : p.recordAt i.toNat = none) (is : List UInt16) :
    p.liveOf (i :: is) = p.liveOf is := List.filterMap_cons_none (by rw [hrecord]; rfl)

theorem liveRecords_eq (hv : Valid p h) {is : List UInt16}
    (his : ∀ i ∈ is, i.toNat < h.slotCount.toNat) : p.liveRecords is = .ok (p.liveOf is) := by
  induction is with
  | nil => rfl
  | cons i is ih =>
      rw [List.forall_mem_cons] at his
      have hread : p.readRecord ⟨i⟩ = .ok (p.recordAt i.toNat) := readRecord_eq hv his.1
      rw [liveRecords, slotEntry_eq p (slot_room hv.toShape his.1)]
      simp only [bind, Except.bind, hread, ih his.2]
      by_cases hlive : (p.slotAt i.toNat).isLive
      · have hrecord : p.recordAt i.toNat = some _ := if_pos hlive
        rw [if_pos hlive, liveOf_cons_some hrecord, hrecord]
        rfl
      · rw [if_neg hlive, liveOf_cons_none (if_neg hlive)]

/-- The bytes of the records. -/
def totalBytes (live : List (UInt16 × List UInt8)) : Nat := (live.map fun x => x.2.length).sum

theorem totalBytes_cons (x : UInt16 × List UInt8) (live : List (UInt16 × List UInt8)) :
    totalBytes (x :: live) = x.2.length + totalBytes live := by
  rw [totalBytes, List.map_cons, List.sum_cons, totalBytes]

/-- What repacking does: every record lies below the old cursor and above the new
one, its slot points to it, and nothing above the old cursor has moved. -/
structure Repacked (p q : Page) (h : PageHeader) (freeEnd : Nat)
    (live : List (UInt16 × List UInt8)) : Prop where
  shape : Shape q h
  placed : ∀ x ∈ live, (q.slotAt x.1.toNat).isLive ∧ q.recordAt x.1.toNat = some x.2 ∧
    freeEnd - totalBytes live ≤ (q.slotAt x.1.toNat).offset.toNat ∧
    (q.slotAt x.1.toNat).offset.toNat + (q.slotAt x.1.toNat).len.toNat ≤ freeEnd
  others : ∀ j < h.slotCount.toNat, (∀ x ∈ live, x.1.toNat ≠ j) → q.slotAt j = p.slotAt j
  above : ∀ j n, freeEnd ≤ j → q.window j n = p.window j n

/-- One record placed below the cursor. -/
def placedBelow (p : Page) (freeEnd : Nat) (i : UInt16) (data : List UInt8) : Page :=
  (p.put (freeEnd - data.length) data).withSlot i.toNat
    (liveEntry (freeEnd - data.length) data.length)

/-- A page with room for the record `data` between the directory and the cursor. -/
structure HasRoom (p : Page) (h : PageHeader) (freeEnd : Nat) (i : UInt16) (data : List UInt8) :
    Prop where
  shape : Shape p h
  index : i.toNat < h.slotCount.toNat
  fits : h.freeStart.toNat + data.length ≤ freeEnd
  inside : freeEnd ≤ pageSize

section Place

variable {freeEnd : Nat} {i : UInt16} {data : List UInt8}

theorem HasRoom.dir (hr : HasRoom p h freeEnd i data) {j : Nat} (hj : j < h.slotCount.toNat) :
    headerSize + (j + 1) * slotSize ≤ freeEnd - data.length := by
  have hle := hr.shape.slot_le hj
  have hfits := hr.fits
  omega

theorem HasRoom.page (hr : HasRoom p h freeEnd i data) :
    headerSize + (i.toNat + 1) * slotSize ≤ pageSize := by
  have hdir := hr.dir hr.index
  have hin := hr.inside
  omega

theorem HasRoom.slotAt_self (hr : HasRoom p h freeEnd i data) :
    (p.placedBelow freeEnd i data).slotAt i.toNat =
      liveEntry (freeEnd - data.length) data.length := by
  rw [placedBelow, slotAt_withSlot_self _ _ hr.page]

theorem HasRoom.slotAt_of_ne (hr : HasRoom p h freeEnd i data) {j : Nat}
    (hj : j < h.slotCount.toNat) (hne : j ≠ i.toNat) :
    (p.placedBelow freeEnd i data).slotAt j = p.slotAt j := by
  have hdir := hr.dir hj
  simp only [headerSize, slotSize] at hdir
  rw [placedBelow, slotAt_withSlot_of_ne _ _ hne]
  simp only [slotAt, SlotEntry.mk.injEq]
  refine ⟨?_, ?_, ?_⟩
  all_goals rw [u16At_put_of_disjoint _ (by simp; omega)]

theorem HasRoom.window_self (hr : HasRoom p h freeEnd i data) :
    (p.placedBelow freeEnd i data).window (freeEnd - data.length) data.length = data := by
  have hfits := hr.fits
  have hin := hr.inside
  rw [placedBelow, window_withSlot _ _ (hr.dir hr.index), window_put_self p data (by omega)]

theorem HasRoom.window_of_ge (hr : HasRoom p h freeEnd i data) {j : Nat} (hj : freeEnd ≤ j)
    (n : Nat) : (p.placedBelow freeEnd i data).window j n = p.window j n := by
  have hfits := hr.fits
  have hdir := hr.dir hr.index
  rw [placedBelow, window_withSlot _ _ (by omega), window_put_of_disjoint _ (by omega)]

theorem HasRoom.shape_placed (hr : HasRoom p h freeEnd i data) :
    Shape (p.placedBelow freeEnd i data) h := by
  have hdir := hr.dir hr.index
  exact (hr.shape.put_of_ge (by simp at hdir ⊢; omega) data).withSlot _ _

theorem HasRoom.entry_toNat (hr : HasRoom p h freeEnd i data) :
    (liveEntry (freeEnd - data.length) data.length).offset.toNat = freeEnd - data.length ∧
      (liveEntry (freeEnd - data.length) data.length).len.toNat = data.length := by
  have hin := hr.inside
  have hfits := hr.fits
  simp only [pageSize] at hin
  rw [liveEntry, UInt16.toNat_ofNat', UInt16.toNat_ofNat']
  exact ⟨Nat.mod_eq_of_lt (by omega), Nat.mod_eq_of_lt (by omega)⟩

end Place

/-- The records placed one after the other below the cursor. -/
def repacked : Nat → List (UInt16 × List UInt8) → Page → Page
  | _, [], p => p
  | freeEnd, (i, data) :: rest, p =>
      repacked (freeEnd - data.length) rest (p.placedBelow freeEnd i data)

/-- Placing the records works as long as they are no longer than what lies below the
cursor. -/
theorem repack_apply {live : List (UInt16 × List UInt8)} : ∀ {p : Page} {freeEnd : Nat},
    (∀ x ∈ live, headerSize + (x.1.toNat + 1) * slotSize ≤ pageSize) →
    totalBytes live ≤ freeEnd → freeEnd ≤ pageSize →
    repack freeEnd live p = (.ok (freeEnd - totalBytes live), repacked freeEnd live p) := by
  induction live with
  | nil =>
      intro p freeEnd _ _ _
      rfl
  | cons x live ih =>
      intro p freeEnd hindex hfits hin
      obtain ⟨i, data⟩ := x
      rw [List.forall_mem_cons] at hindex
      rw [totalBytes_cons] at hfits ⊢
      dsimp only at hindex hfits ⊢
      have hwrite : writeBytes (freeEnd - data.length) data p =
          (.ok (), p.put (freeEnd - data.length) data) := writeBytes_apply p (by omega)
      have hslot := writeSlotEntry_apply (p.put (freeEnd - data.length) data)
        (liveEntry (freeEnd - data.length) data.length) hindex.1
      have hrun := @ih (p.placedBelow freeEnd i data) (freeEnd - data.length) hindex.2 (by omega)
        (by omega)
      rw [placedBelow] at hrun
      rw [liveEntry] at hslot hrun
      rw [repack, failIf_of_not (by omega), repacked, placedBelow, liveEntry]
      simp only [Exec.bind_apply, Exec.liftM_apply, hwrite, hslot, hrun]
      congr 2
      omega

/-- Records that are longer than what lies below the cursor make it run below zero. -/
theorem repack_of_lt {live : List (UInt16 × List UInt8)} : ∀ {p : Page} {freeEnd : Nat},
    (∀ x ∈ live, headerSize + (x.1.toNat + 1) * slotSize ≤ pageSize) →
    freeEnd < totalBytes live → freeEnd ≤ pageSize →
    ∃ q, repack freeEnd live p = (.error .panicked, q) := by
  induction live with
  | nil =>
      intro p freeEnd _ hlt _
      exact absurd hlt (Nat.not_lt_zero _)
  | cons x live ih =>
      intro p freeEnd hindex hlt hin
      obtain ⟨i, data⟩ := x
      rw [List.forall_mem_cons] at hindex
      rw [totalBytes_cons] at hlt
      dsimp only at hindex hlt
      rw [repack]
      by_cases hdata : freeEnd < data.length
      · rw [failIf_of hdata]
        exact ⟨p, rfl⟩
      · have hwrite : writeBytes (freeEnd - data.length) data p =
            (.ok (), p.put (freeEnd - data.length) data) := writeBytes_apply p (by omega)
        have hslot := writeSlotEntry_apply (p.put (freeEnd - data.length) data)
          (liveEntry (freeEnd - data.length) data.length) hindex.1
        obtain ⟨q, hrun⟩ := @ih (p.placedBelow freeEnd i data) (freeEnd - data.length) hindex.2
          (by omega) (by omega)
        rw [placedBelow] at hrun
        rw [liveEntry] at hslot hrun
        rw [failIf_of_not hdata]
        simp only [Exec.bind_apply, Exec.liftM_apply, hwrite, hslot, hrun]
        exact ⟨q, rfl⟩

/-- Repacking records of different slots that fit between the directory and the
cursor. -/
theorem repacked_spec {live : List (UInt16 × List UInt8)} : ∀ {q : Page} {freeEnd : Nat},
    Shape q h → (∀ x ∈ live, x.1.toNat < h.slotCount.toNat) →
    live.Pairwise (fun x y => x.1.toNat ≠ y.1.toNat) →
    h.freeStart.toNat + totalBytes live ≤ freeEnd → freeEnd ≤ pageSize →
    Repacked q (repacked freeEnd live q) h freeEnd live := by
  induction live with
  | nil =>
      intro q freeEnd hshape _ _ _ _
      exact ⟨hshape, nofun, fun _ _ _ => rfl, fun _ _ _ => rfl⟩
  | cons x live ih =>
      intro q freeEnd hshape hindex hdistinct hfits hin
      obtain ⟨i, data⟩ := x
      rw [List.forall_mem_cons] at hindex
      rw [List.pairwise_cons] at hdistinct
      rw [totalBytes_cons] at hfits
      dsimp only at hindex hdistinct hfits
      have hr : HasRoom q h freeEnd i data := ⟨hshape, hindex.1, by omega, hin⟩
      have hq' := ih hr.shape_placed hindex.2 hdistinct.2
        (by omega : h.freeStart.toNat + totalBytes live ≤ freeEnd - data.length) (by omega)
      have hself : (repacked freeEnd ((i, data) :: live) q).slotAt i.toNat =
          liveEntry (freeEnd - data.length) data.length := by
        rw [repacked, hq'.others i.toNat hindex.1 fun y hy => (hdistinct.1 y hy).symm,
          hr.slotAt_self]
      obtain ⟨hoffset, hlen⟩ := hr.entry_toNat
      refine ⟨hq'.shape, ?_, ?_, ?_⟩
      · refine List.forall_mem_cons.2 ⟨⟨?_, ?_, ?_, ?_⟩, ?_⟩
        · rw [hself]
          rfl
        · rw [recordAt, hself, if_pos (by rfl), hoffset, hlen, repacked, hq'.above _ _ le_rfl,
            hr.window_self]
        · rw [hself, hoffset, totalBytes_cons]
          dsimp only
          omega
        · rw [hself, hoffset, hlen]
          omega
        · intro y hy
          obtain ⟨hlive, hrecord, hlo, hhi⟩ := hq'.placed y hy
          refine ⟨hlive, hrecord, ?_, by rw [repacked]; omega⟩
          rw [totalBytes_cons, repacked]
          dsimp only
          omega
      · intro j hj hne
        rw [List.forall_mem_cons] at hne
        rw [repacked, hq'.others j hj hne.2, hr.slotAt_of_ne hj hne.1.symm]
      · intro j n hj
        rw [repacked, hq'.above j n (by omega), hr.window_of_ge hj]

/-- Repacking stays out of the header as long as the records leave room for it. -/
theorem window_repacked {live : List (UInt16 × List UInt8)} {i n : Nat} (hin : i + n ≤ headerSize) :
    ∀ {p : Page} {freeEnd : Nat}, headerSize + totalBytes live ≤ freeEnd →
      (repacked freeEnd live p).window i n = p.window i n := by
  induction live with
  | nil =>
      intro p freeEnd _
      rfl
  | cons x live ih =>
      intro p freeEnd hfits
      obtain ⟨j, data⟩ := x
      rw [totalBytes_cons] at hfits
      dsimp only [headerSize] at hfits hin
      rw [repacked, ih (by dsimp only [headerSize]; omega), placedBelow, withSlot,
        window_put_of_disjoint _ (by simp; omega), window_put_of_disjoint _ (by simp; omega),
        window_put_of_disjoint _ (by simp; omega), window_put_of_disjoint _ (by omega)]

/-- The page with everything from the offset `start` on zeroed. -/
def cleared (p : Page) (start : Nat) : Page :=
  p.put start (List.replicate (pageSize - start) 0)

theorem Shape.clear (hs : Shape p h) : Shape (p.cleared h.freeStart.toNat) h := by
  have hstart := hs.freeStart_eq
  exact hs.put_of_ge (by omega) _

theorem slotAt_clear (hs : Shape p h) {i : Nat} (hi : i < h.slotCount.toNat) :
    (p.cleared h.freeStart.toNat).slotAt i = p.slotAt i := by
  have hle := hs.slot_le hi
  simp only [headerSize, slotSize] at hle
  simp only [cleared, slotAt, SlotEntry.mk.injEq]
  refine ⟨?_, ?_, ?_⟩
  all_goals rw [u16At_put_of_disjoint _ (by simp; omega)]

theorem pairwise_liveOf (p : Page) (count : UInt16) :
    (p.liveOf (slotIndexes count)).Pairwise fun x y => x.1.toNat ≠ y.1.toNat := by
  have hnodup : ((slotIndexes count).map UInt16.toNat).Nodup := by
    rw [map_toNat_slotIndexes]
    exact List.nodup_range
  rw [List.Nodup, List.pairwise_map] at hnodup
  refine List.Pairwise.filterMap _ (fun i j hne x hx y hy => ?_) hnodup
  obtain ⟨-, -, rfl⟩ := Option.map_eq_some_iff.1 hx
  obtain ⟨-, -, rfl⟩ := Option.map_eq_some_iff.1 hy
  exact hne

theorem mem_liveOf {count i : UInt16} {record : List UInt8} :
    (i, record) ∈ p.liveOf (slotIndexes count) ↔
      i.toNat < count.toNat ∧ p.recordAt i.toNat = some record := by
  rw [liveOf, List.mem_filterMap]
  constructor
  · rintro ⟨j, hj, hrecord⟩
    obtain ⟨r, hr, heq⟩ := Option.map_eq_some_iff.1 hrecord
    cases heq
    exact ⟨mem_slotIndexes.1 hj, hr⟩
  · rintro ⟨hi, hrecord⟩
    exact ⟨i, mem_slotIndexes.2 hi, by rw [hrecord]; rfl⟩

/-- The live records of a page. -/
abbrev live (p : Page) (h : PageHeader) : List (UInt16 × List UInt8) :=
  p.liveOf (slotIndexes h.slotCount)

/-- The page that compaction reaches: the records repacked on a cleared page, then the
new end of the free area and the checksum. -/
def compacted (p : Page) (h : PageHeader) : Page :=
  ((repacked pageSize (p.live h) (p.cleared h.freeStart.toNat)).put offFreeEnd
    (le16 (UInt16.ofNat (pageSize - totalBytes (p.live h))))).sealed

theorem live_room (hs : Shape p h) :
    ∀ x ∈ p.live h, headerSize + (x.1.toNat + 1) * slotSize ≤ pageSize :=
  fun _ hx => slot_room hs (mem_liveOf.1 hx).1

/-- How a compaction starts. -/
theorem compact_eq (hv : Valid p h) :
    Page.compact p = (do
      let freeEnd ← repack pageSize (p.live h)
      writeU16 offFreeEnd (UInt16.ofNat freeEnd)
      refreshChecksum : Db Page Unit) (p.cleared h.freeStart.toNat) := by
  have hstart := hv.freeStart_eq
  have hle := hv.freeStart_le.trans hv.freeEnd_le
  have hclear : writeBytes h.freeStart.toNat
      (List.replicate (pageSize - h.freeStart.toNat) 0) p = (.ok (), p.cleared h.freeStart.toNat) :=
    writeBytes_apply p (by rw [List.length_replicate]; omega)
  simp only [Page.compact, Exec.bind_apply, Exec.liftM_apply, Exec.get_apply,
    (header_eq_ok_iff p h).2 hv.toShape,
    liveRecords_eq hv fun i hi => mem_slotIndexes.1 hi, ← hstart,
    failIf_of_not (by omega : ¬ h.freeStart.toNat > pageSize), hclear]

theorem compact_of_le (hv : Valid p h) (hfits : totalBytes (p.live h) ≤ pageSize) :
    Page.compact p = (.ok (), p.compacted h) := by
  have hrepack := @repack_apply _ (p.cleared h.freeStart.toNat) _ (live_room hv.toShape) hfits le_rfl
  have hwrite := @writeBytes_apply (repacked pageSize (p.live h) (p.cleared h.freeStart.toNat))
    offFreeEnd (le16 (UInt16.ofNat (pageSize - totalBytes (p.live h)))) (by simp)
  rw [compact_eq hv]
  simp only [Exec.bind_apply, hrepack, writeU16, hwrite, refreshChecksum_apply, compacted]

/-- Live records that together are longer than a page make the cursor run below zero. -/
theorem compact_of_lt (hv : Valid p h) (hlong : pageSize < totalBytes (p.live h)) :
    ∃ q, Page.compact p = (.error .panicked, q) := by
  obtain ⟨q, hrepack⟩ := @repack_of_lt _ (p.cleared h.freeStart.toNat) _ (live_room hv.toShape) hlong
    le_rfl
  rw [compact_eq hv, Exec.bind_of_error hrepack]
  exact ⟨q, rfl⟩

theorem freeEnd_toNat (live : List (UInt16 × List UInt8)) :
    (UInt16.ofNat (pageSize - totalBytes live)).toNat = pageSize - totalBytes live := by
  rw [UInt16.toNat_ofNat']
  exact Nat.mod_eq_of_lt (by simp only [pageSize]; omega)

/-- The page `q` is the page `p` compacted: its slots hold what they held, and the free
area reaches down to the live records. -/
structure Compacted (p : Page) (h : PageHeader) (q : Page) (k : PageHeader) : Prop where
  valid : Valid q k
  identity : SameIdentity h k
  slotCount : k.slotCount = h.slotCount
  freeEnd : k.freeEnd.toNat + totalBytes (p.live h) = pageSize
  record : ∀ i < h.slotCount.toNat, q.recordAt i = p.recordAt i
  entry : ∀ i < h.slotCount.toNat, p.recordAt i = none → q.slotAt i = p.slotAt i

/-- Compaction is what it should be when the live records leave room for the directory. -/
theorem Valid.compacted (hv : Valid p h)
    (hroom : h.freeStart.toNat + totalBytes (p.live h) ≤ pageSize) :
    ∃ k, Compacted p h (p.compacted h) k := by
  have hstart := hv.freeStart_eq
  have hq : Repacked (p.cleared h.freeStart.toNat)
      (repacked pageSize (p.live h) (p.cleared h.freeStart.toNat)) h pageSize (p.live h) :=
    repacked_spec hv.toShape.clear (fun x hx => (mem_liveOf.1 hx).1)
      (pairwise_liveOf p h.slotCount) hroom le_rfl
  have hnat := freeEnd_toNat (p.live h)
  rw [Page.compacted]
  generalize repacked pageSize (p.live h) (p.cleared h.freeStart.toNat) = q at hq
  generalize UInt16.ofNat (pageSize - totalBytes (p.live h)) = freeEnd at hnat
  have hlo : h.freeStart.toNat ≤ freeEnd.toNat := by omega
  have hshape := hq.shape.put_freeEnd hlo (by omega)
  have hslot : ∀ i, (q.put offFreeEnd (le16 freeEnd)).slotAt i = q.slotAt i := by
    intro i
    simp only [slotAt, SlotEntry.mk.injEq]
    refine ⟨?_, ?_, ?_⟩
    all_goals rw [u16At_put_of_disjoint _ (by simp; omega)]
  have hwindow : ∀ i n, headerSize ≤ i →
      (q.put offFreeEnd (le16 freeEnd)).sealed.window i n = q.window i n := by
    intro i n hi
    simp only [headerSize] at hi
    rw [window_sealed _ (by simp; omega), window_put_of_disjoint _ (by simp; omega)]
  -- a slot is live with its record repacked, or keeps its old entry
  have hcases : ∀ i < h.slotCount.toNat,
      ((q.slotAt i).isLive ∧ q.recordAt i = p.recordAt i ∧
        freeEnd.toNat ≤ (q.slotAt i).offset.toNat ∧
        (q.slotAt i).offset.toNat + (q.slotAt i).len.toNat ≤ pageSize) ∨
      (p.recordAt i = none ∧ q.slotAt i = p.slotAt i) := by
    intro i hi
    have hcount := h.slotCount.toNat_lt
    have hi16 : (UInt16.ofNat i).toNat = i := by
      rw [UInt16.toNat_ofNat']
      omega
    cases hrecord : p.recordAt i with
    | some record =>
        have hmem : (UInt16.ofNat i, record) ∈ p.live h := by
          rw [mem_liveOf, hi16]
          exact ⟨hi, hrecord⟩
        obtain ⟨hlive, hplaced, hlower, hupper⟩ := hq.placed _ hmem
        dsimp only at hlive hplaced hlower hupper
        rw [hi16] at hlive hplaced hlower hupper
        exact Or.inl ⟨hlive, hplaced, by omega, hupper⟩
    | none =>
        refine Or.inr ⟨rfl, ?_⟩
        rw [hq.others i hi ?_, slotAt_clear hv.toShape hi]
        rintro ⟨j, record⟩ hmem rfl
        rw [(mem_liveOf.1 hmem).2] at hrecord
        cases hrecord
  have hnotLive : ∀ i, p.recordAt i = none → ¬ (p.slotAt i).isLive := by
    intro i hnone hlive
    rw [recordAt, if_pos hlive] at hnone
    cases hnone
  refine ⟨_, hshape.valid_sealed ?_, ⟨rfl, rfl, rfl⟩, rfl, ?_, ?_, ?_⟩
  · intro i hi
    rw [hslot]
    rcases hcases i hi with ⟨hlive, -, hlower, hupper⟩ | ⟨hnone, hsame⟩
    · exact ⟨Or.inr (Or.inl (by simpa [SlotEntry.isLive] using hlive)), fun _ => ⟨hlower, hupper⟩⟩
    · rw [hsame]
      exact ⟨(hv.slots i hi).1, fun hlive => absurd hlive (hnotLive i hnone)⟩
  · dsimp only
    omega
  · intro i hi
    have hsealed : (q.put offFreeEnd (le16 freeEnd)).sealed.slotAt i = q.slotAt i := by
      rw [slotAt_sealed, hslot]
    rcases hcases i hi with ⟨hlive, hrecord, hlower, -⟩ | ⟨hnone, hsame⟩
    · rw [← hrecord, recordAt, recordAt, hsealed, hwindow _ _ (by omega)]
    · rw [hnone, recordAt, hsealed, hsame, if_neg (hnotLive i hnone)]
  · intro i hi hnone
    rw [slotAt_sealed, hslot]
    rcases hcases i hi with ⟨hlive, hrecord, -⟩ | ⟨-, hsame⟩
    · rw [hnone, recordAt, if_pos hlive] at hrecord
      cases hrecord
    · exact hsame

/-- When they do not, the end of the free area ends up inside the directory, and the
page does not validate any more. -/
theorem not_valid_compacted (hv : Valid p h) (hfits : totalBytes (p.live h) ≤ pageSize)
    (hroom : pageSize < h.freeStart.toNat + totalBytes (p.live h)) (k : PageHeader) :
    ¬ Valid (p.compacted h) k := by
  intro hk
  have hnat := freeEnd_toNat (p.live h)
  have hend : k.freeEnd = UInt16.ofNat (pageSize - totalBytes (p.live h)) := by
    rw [← hk.freeEnd, Page.compacted, u16At_sealed _ (by simp), u16At_put_self _ (by simp)]
  have hle := hk.freeStart_le
  have hstart := hk.freeStart_eq
  rw [hend, hnat] at hle
  simp only [headerSize] at hstart
  have hsame : k.freeStart = h.freeStart := by
    rw [← hk.freeStart, ← hv.freeStart, Page.compacted, u16At_sealed _ (by simp),
      u16At_put_of_disjoint _ (by simp), u16At,
      window_repacked (by simp) (by simp only [headerSize, pageSize] at *; omega), cleared]
    have hstart := hv.freeStart_eq
    exact u16At_put_of_disjoint p (by simp only [headerSize] at hstart; simp; omega)
  rw [hsame] at hle
  omega

end Compact

/-! ## Compacting twice -/

section Agree

variable {p q r : Page} {s t : Set Nat}

/-- The pages agree at every byte outside of the set. -/
def AgreeOff (s : Set Nat) (p q : Page) : Prop := ∀ j ∉ s, p.bytes[j]? = q.bytes[j]?

theorem AgreeOff.refl (s : Set Nat) (p : Page) : AgreeOff s p p := fun _ _ => rfl

theorem AgreeOff.mono (h : AgreeOff s p q) (hst : s ⊆ t) : AgreeOff t p q :=
  fun j hj => h j fun hs => hj (hst hs)

theorem AgreeOff.trans (hpq : AgreeOff s p q) (hqr : AgreeOff s q r) : AgreeOff s p r :=
  fun j hj => (hpq j hj).trans (hqr j hj)

/-- The bytes of a slot entry. -/
def entryBytes (i : Nat) : Set Nat :=
  Set.Ico (headerSize + i * slotSize) (headerSize + (i + 1) * slotSize)

/-- A write changes no byte outside of its window. -/
theorem agreeOff_put (p : Page) {offset : Nat} {data : List UInt8}
    (hs : Set.Ico offset (offset + data.length) ⊆ s) : AgreeOff s p (p.put offset data) := by
  intro j hj
  have hout : ¬ (offset ≤ j ∧ j < offset + data.length) := fun hin => hj (hs hin)
  by_cases hfit : offset + data.length ≤ pageSize
  · rw [bytes_put p hfit, getElem?_splice (by rw [p.size_eq]; omega)]
    by_cases hlo : j < offset
    · rw [if_pos hlo]
    · rw [if_neg hlo, if_neg (by omega)]
  · rw [put, dif_neg (by rw [p.size_eq]; exact hfit)]

/-- The same write on two pages makes them agree on its window as well. -/
theorem AgreeOff.put (h : AgreeOff s p q) {offset : Nat} {data : List UInt8}
    (hfit : offset + data.length ≤ pageSize) :
    AgreeOff (s \ Set.Ico offset (offset + data.length)) (p.put offset data)
      (q.put offset data) := by
  intro j hj
  rw [bytes_put p hfit, bytes_put q hfit, getElem?_splice (by rw [p.size_eq]; omega),
    getElem?_splice (by rw [q.size_eq]; omega)]
  by_cases hlo : j < offset
  · rw [if_pos hlo, if_pos hlo]
    exact h j fun hs => hj ⟨hs, fun hin => absurd hin.1 (not_le.2 hlo)⟩
  · rw [if_neg hlo, if_neg hlo]
    by_cases hhi : j < offset + data.length
    · rw [if_pos hhi, if_pos hhi]
    · rw [if_neg hhi, if_neg hhi]
      exact h j fun hs => hj ⟨hs, fun hin => absurd hin.2 hhi⟩

theorem agreeOff_withSlot (p : Page) (i : Nat) (slot : SlotEntry) :
    AgreeOff (entryBytes i) p (p.withSlot i slot) := by
  have hsub : ∀ k, k + 2 ≤ 6 →
      Set.Ico (headerSize + i * slotSize + k) (headerSize + i * slotSize + k + 2) ⊆ entryBytes i := by
    intro k hk j hj
    simp only [entryBytes, Set.mem_Ico, headerSize, slotSize] at hj ⊢
    omega
  refine ((agreeOff_put _ ?_).trans (agreeOff_put _ ?_)).trans (agreeOff_put _ ?_)
  · exact hsub 0 (by omega)
  · exact hsub 2 (by omega)
  · exact hsub 4 (by omega)

theorem AgreeOff.withSlot (h : AgreeOff s p q) {i : Nat} (slot : SlotEntry)
    (hfit : headerSize + (i + 1) * slotSize ≤ pageSize) :
    AgreeOff (s \ entryBytes i) (p.withSlot i slot) (q.withSlot i slot) := by
  simp only [headerSize, slotSize, pageSize] at hfit
  have h₁ := @AgreeOff.put p q s h (headerSize + i * slotSize) (le16 slot.offset)
    (by simp; omega)
  have h₂ := @AgreeOff.put _ _ _ h₁ (headerSize + i * slotSize + 2) (le16 slot.len)
    (by simp; omega)
  have h₃ := @AgreeOff.put _ _ _ h₂ (headerSize + i * slotSize + 4) (le16 slot.flags)
    (by simp; omega)
  refine h₃.mono ?_
  intro j hj
  simp only [Set.mem_sdiff, Set.mem_Ico, length_le16, headerSize, slotSize, entryBytes] at hj ⊢
  refine ⟨hj.1.1.1, ?_⟩
  have h₁ := hj.1.1.2
  have h₂ := hj.1.2
  have h₃ := hj.2
  omega

/-- The bytes of the slot entries that repacking writes. -/
def entriesOf (live : List (UInt16 × List UInt8)) : Set Nat :=
  {j | ∃ x ∈ live, j ∈ entryBytes x.1.toNat}

theorem agreeOff_repacked {live : List (UInt16 × List UInt8)} {start : Nat} : ∀ {p : Page}
    {freeEnd : Nat}, start + totalBytes live ≤ freeEnd →
    AgreeOff (entriesOf live ∪ Set.Ici start) p (repacked freeEnd live p) := by
  induction live with
  | nil =>
      intro p freeEnd _
      exact AgreeOff.refl _ p
  | cons x live ih =>
      intro p freeEnd hfits
      obtain ⟨i, data⟩ := x
      rw [totalBytes_cons] at hfits
      dsimp only at hfits
      have hput : AgreeOff (entriesOf ((i, data) :: live) ∪ Set.Ici start) p
          (p.put (freeEnd - data.length) data) := by
        refine agreeOff_put p fun j hj => Or.inr ?_
        simp only [Set.mem_Ico, Set.mem_Ici] at hj ⊢
        omega
      refine (hput.trans ((agreeOff_withSlot _ i.toNat _).mono fun j hj => ?_)).trans
        ((@ih (p.placedBelow freeEnd i data) (freeEnd - data.length) (by omega)).mono ?_)
      · exact Or.inl ⟨_, List.mem_cons_self, hj⟩
      · rintro j (⟨x, hx, hj⟩ | hj)
        · exact Or.inl ⟨x, List.mem_cons_of_mem _ hx, hj⟩
        · exact Or.inr hj

theorem AgreeOff.repacked {live : List (UInt16 × List UInt8)} : ∀ {s : Set Nat} {p q : Page}
    {freeEnd : Nat}, AgreeOff s p q →
    (∀ x ∈ live, headerSize + (x.1.toNat + 1) * slotSize ≤ pageSize) →
    totalBytes live ≤ freeEnd → freeEnd ≤ pageSize →
    AgreeOff (s \ entriesOf live) (repacked freeEnd live p) (Page.repacked freeEnd live q) := by
  induction live with
  | nil =>
      intro s p q freeEnd h _ _ _
      refine h.mono fun j hj => ⟨hj, ?_⟩
      rintro ⟨x, hx, -⟩
      cases hx
  | cons x live ih =>
      intro s p q freeEnd h hindex hfits hin
      obtain ⟨i, data⟩ := x
      rw [List.forall_mem_cons] at hindex
      rw [totalBytes_cons] at hfits
      dsimp only at hindex hfits
      have hput := @AgreeOff.put p q s h (freeEnd - data.length) data (by omega)
      have hslot := hput.withSlot (liveEntry (freeEnd - data.length) data.length) hindex.1
      refine (@ih _ _ _ (freeEnd - data.length) hslot hindex.2 (by omega) (by omega)).mono ?_
      rintro j ⟨⟨⟨hs, -⟩, hself⟩, hrest⟩
      refine ⟨hs, ?_⟩
      rintro ⟨x, hx, hj⟩
      rcases List.mem_cons.1 hx with rfl | hx
      · exact hself hj
      · exact hrest ⟨x, hx, hj⟩

/-- Pages that differ in their checksum only are the same once it is stored. -/
theorem AgreeOff.sealed (h : AgreeOff (Set.Ico offChecksum (offChecksum + 4)) p q) :
    p.sealed = q.sealed := by
  have hput := @AgreeOff.put _ _ _ h offChecksum (le32 0) (by simp)
  rw [length_le32, Set.sdiff_self] at hput
  have hzero : p.put offChecksum (le32 0) = q.put offChecksum (le32 0) := by
    refine ext_bytes (List.ext_getElem? fun j => ?_)
    exact hput j (Set.notMem_empty j)
  rw [Page.sealed, Page.sealed, hzero]

theorem agreeOff_sealed (p : Page) : AgreeOff (Set.Ico offChecksum (offChecksum + 4)) p p.sealed :=
  (agreeOff_put p (by simp)).trans (agreeOff_put _ (by simp))

theorem live_eq_of_record {h k : PageHeader} (hcount : k.slotCount = h.slotCount)
    (hrecord : ∀ i < h.slotCount.toNat, q.recordAt i = p.recordAt i) : q.live k = p.live h := by
  rw [live, live, hcount, liveOf, liveOf]
  refine List.filterMap_congr fun i hi => ?_
  rw [hrecord i.toNat (mem_slotIndexes.1 hi)]

/-- A compacted page has nothing left to compact: the header, the directory and the
records are rewritten as they are. -/
theorem Compacted.again {h k : PageHeader} (hv : Valid p h)
    (hroom : h.freeStart.toNat + totalBytes (p.live h) ≤ pageSize)
    (hc : Compacted p h (p.compacted h) k) :
    (p.compacted h).compacted k = p.compacted h := by
  have hlive : (p.compacted h).live k = p.live h := live_eq_of_record hc.slotCount hc.record
  have hstart : k.freeStart.toNat = h.freeStart.toNat := by
    rw [hc.valid.freeStart_eq, hv.freeStart_eq, hc.slotCount]
  -- what the first compaction has touched
  have htouched : AgreeOff (Set.Ico offFreeEnd (offFreeEnd + 2) ∪
      Set.Ico offChecksum (offChecksum + 4) ∪
      (entriesOf (p.live h) ∪ Set.Ici h.freeStart.toNat)) p (p.compacted h) := by
    have hclear : AgreeOff (Set.Ici h.freeStart.toNat) p (p.cleared h.freeStart.toNat) :=
      agreeOff_put p fun j hj => hj.1
    have hrepack := @agreeOff_repacked _ _ (p.cleared h.freeStart.toNat) _ hroom
    have hend := @agreeOff_put (Set.Ico offFreeEnd (offFreeEnd + 2))
      (repacked pageSize (p.live h) (p.cleared h.freeStart.toNat)) offFreeEnd
      (le16 (UInt16.ofNat (pageSize - totalBytes (p.live h)))) (by simp)
    refine (((hclear.mono ?_).trans (hrepack.mono ?_)).trans (hend.mono ?_)).trans
      ((agreeOff_sealed _).mono ?_)
    · exact fun j hj => Or.inr (Or.inr hj)
    · exact fun j hj => Or.inr hj
    · exact fun j hj => Or.inl (Or.inl hj)
    · exact fun j hj => Or.inl (Or.inr hj)
  have hle := hv.freeStart_le.trans hv.freeEnd_le
  have hclear := @AgreeOff.put _ _ _ htouched h.freeStart.toNat
    (List.replicate (pageSize - h.freeStart.toNat) 0) (by rw [List.length_replicate]; omega)
  have hrepack := @AgreeOff.repacked _ _ _ _ pageSize hclear (live_room hv.toShape) (by omega) le_rfl
  have hend := @AgreeOff.put _ _ _ hrepack offFreeEnd
    (le16 (UInt16.ofNat (pageSize - totalBytes (p.live h)))) (by simp)
  conv_lhs => rw [Page.compacted, hlive, hstart]
  rw [Page.compacted]
  refine (AgreeOff.sealed ?_).symm
  have hsame : ∀ {s : Set Nat} {a b : Page}, AgreeOff s a b →
      AgreeOff (s ∩ Set.Iio pageSize) a b := by
    intro s a b hab j hj
    by_cases hlt : j < pageSize
    · exact hab j fun hs => hj ⟨hs, hlt⟩
    · rw [List.getElem?_eq_none (by rw [a.size_eq]; omega),
        List.getElem?_eq_none (by rw [b.size_eq]; omega)]
  refine (hsame hend).mono ?_
  rintro j ⟨⟨⟨⟨(⟨hfree | hsum⟩ | hentry | hback), hclear⟩, hrepack⟩, hend⟩, hlt⟩
  · exact absurd (by rwa [length_le16]) hend
  · exact hsum
  · exact absurd hentry hrepack
  · refine absurd ?_ hclear
    rw [List.length_replicate]
    simp only [Set.mem_Ici, Set.mem_Iio, Set.mem_Ico] at hback hlt ⊢
    omega

end Agree

/-! ## Compacting any page that `validate` accepts -/

section Safe

variable {p : Page} {h : PageHeader}

/-- What a compaction is asked for: it fails and changes nothing, or it succeeds with a
page that `validate` accepts and where every live slot reads as before. -/
def CompactSafe (p : Page) : Prop :=
  match Page.compact p with
  | (.ok (), q) => q.validate = .ok () ∧
      ∀ slotId record, p.readRecord slotId = .ok (some record) →
        q.readRecord slotId = .ok (some record)
  | (.error (.error _), q) => q = p
  | (.error .panicked, _) => False
  | (.error .aborted, _) => False
  | (.error .outOfFuel, _) => False

/-- The sum of the lengths that the live slots of the directory claim. -/
def liveLengths (p : Page) (count : UInt16) : Nat :=
  ((List.range count.toNat).map fun i =>
    if (p.slotAt i).isLive then (p.slotAt i).len.toNat else 0).sum

theorem totalBytes_liveOf_eq (hv : Valid p h) {is : List UInt16}
    (his : ∀ i ∈ is, i.toNat < h.slotCount.toNat) :
    totalBytes (p.liveOf is) = ((is.map UInt16.toNat).map fun i =>
      if (p.slotAt i).isLive then (p.slotAt i).len.toNat else 0).sum := by
  induction is with
  | nil => rfl
  | cons i is ih =>
      rw [List.forall_mem_cons] at his
      rw [List.map_cons, List.map_cons, List.sum_cons, ← ih his.2]
      by_cases hlive : (p.slotAt i.toNat).isLive
      · have hrecord : p.recordAt i.toNat = some _ := if_pos hlive
        have hin := ((hv.slots _ his.1).2 hlive).2
        rw [if_pos hlive, liveOf_cons_some hrecord, totalBytes_cons, window,
          length_slice (by rw [p.size_eq]; exact hin)]
      · rw [if_neg hlive, liveOf_cons_none (if_neg hlive), Nat.zero_add]

theorem totalBytes_live (hv : Valid p h) : totalBytes (p.live h) = p.liveLengths h.slotCount := by
  rw [live, totalBytes_liveOf_eq hv fun i hi => mem_slotIndexes.1 hi, map_toNat_slotIndexes,
    liveLengths]

theorem Compacted.readRecord_eq {q : Page} {k : PageHeader} (hv : Valid p h)
    (hc : Compacted p h q k) {slotId : SlotId} {record : List UInt8}
    (hread : p.readRecord slotId = .ok (some record)) :
    q.readRecord slotId = .ok (some record) := by
  by_cases hi : slotId.val.toNat < h.slotCount.toNat
  · rw [Page.readRecord_eq hv hi] at hread
    rw [Page.readRecord_eq hc.valid (by rwa [hc.slotCount]), hc.record _ hi, hread]
  · have hrange : slotId.val ≥ h.slotCount := by
      rw [ge_iff_le, UInt16.le_iff_toNat_le]
      omega
    rw [readRecord, (header_eq_ok_iff p h).2 hv.toShape] at hread
    simp only [bind, Except.bind, failIf_of hrange] at hread
    cases hread

/-- Compacting a page that `validate` accepts is safe exactly when its directory and the
records that its live slots claim fit into the page together. -/
theorem compact_safe_iff {p : Page} (haccepted : p.fromBytes = .ok p) :
    CompactSafe p ↔ ∃ h, p.header = .ok h ∧
      headerSize + h.slotCount.toNat * slotSize + p.liveLengths h.slotCount ≤ pageSize := by
  have hvalid : p.validate = .ok () := by
    rw [fromBytes, except_bind_eq_ok] at haccepted
    exact haccepted.choose_spec.1
  obtain ⟨h, hv⟩ := (validate_eq_ok_iff p).1 hvalid
  have hheader := (header_eq_ok_iff p h).2 hv.toShape
  have hcond : (∃ h, p.header = .ok h ∧
      headerSize + h.slotCount.toNat * slotSize + p.liveLengths h.slotCount ≤ pageSize) ↔
      h.freeStart.toNat + totalBytes (p.live h) ≤ pageSize := by
    rw [totalBytes_live hv, hv.freeStart_eq]
    constructor
    · rintro ⟨h', hh', hle⟩
      obtain rfl : h = h' := Except.ok.inj (hheader.symm.trans hh')
      exact hle
    · exact fun hle => ⟨h, hheader, hle⟩
  rw [hcond, CompactSafe]
  by_cases hfits : totalBytes (p.live h) ≤ pageSize
  · rw [compact_of_le hv hfits]
    constructor
    · rintro ⟨hvalid, -⟩
      by_contra hroom
      obtain ⟨k, hk⟩ := (validate_eq_ok_iff _).1 hvalid
      exact not_valid_compacted hv hfits (by omega) k hk
    · intro hroom
      obtain ⟨k, hc⟩ := hv.compacted hroom
      exact ⟨(validate_eq_ok_iff _).2 ⟨k, hc.valid⟩, fun _ _ hread => hc.readRecord_eq hv hread⟩
  · obtain ⟨q, hrun⟩ := compact_of_lt hv (not_le.1 hfits)
    rw [hrun]
    exact ⟨False.elim, fun hroom => absurd hroom (by omega)⟩

/-- A page whose two live slots claim the same 3000 bytes. -/
def aliased : Page :=
  (((((new ⟨1⟩ .heap).put offFreeStart (le16 46)).put offFreeEnd (le16 1096)).put offSlotCount
    (le16 2)).withSlot 0 (liveEntry 1096 3000)).withSlot 1 (liveEntry 1096 3000) |>.sealed

theorem validate_aliased : aliased.validate = .ok () := by
  decide +kernel

theorem compact_aliased : (Page.compact aliased).1 = .error .panicked := by
  decide +kernel

theorem not_compactSafe_of_panicked (hrun : (Page.compact p).1 = .error .panicked) :
    ¬ CompactSafe p := by
  intro hsafe
  rw [CompactSafe] at hsafe
  split at hsafe
  · rename_i heq
    rw [heq] at hrun
    cases hrun
  · rename_i heq
    rw [heq] at hrun
    cases hrun
  · exact hsafe
  · exact hsafe
  · exact hsafe

/-- `validate` accepts the page, and compacting it runs the cursor below zero. -/
theorem aliased_not_compact_safe : aliased.fromBytes = .ok aliased ∧ ¬ CompactSafe aliased :=
  ⟨fromBytes_of_valid ((validate_eq_ok_iff _).1 validate_aliased).choose_spec,
    not_compactSafe_of_panicked compact_aliased⟩

/-- A page with a record of one byte. -/
def oneRecord : Page := (insertRecord [7] (new ⟨1⟩ .heap)).2

theorem oneRecord_accepted : oneRecord.fromBytes = .ok oneRecord := by
  have hvalid : oneRecord.validate = .ok () := by decide +kernel
  exact fromBytes_of_valid ((validate_eq_ok_iff _).1 hvalid).choose_spec

theorem exists_of_any_toOption {α : Type} {result : DbResult α} {p : α → Prop} [DecidablePred p]
    (h : (result.toOption.any fun a => p a) = true) : ∃ a, result = .ok a ∧ p a := by
  cases result with
  | error stop => cases h
  | ok a => exact ⟨a, rfl, of_decide_eq_true h⟩

theorem compact_safe_one_record : CompactSafe oneRecord := by
  have hfits : (oneRecord.header.toOption.any fun h =>
      headerSize + h.slotCount.toNat * slotSize + oneRecord.liveLengths h.slotCount ≤ pageSize) =
        true := by
    decide +kernel
  rw [compact_safe_iff oneRecord_accepted]
  exact exists_of_any_toOption hfits

end Safe

end Page

end Rdbms
