import Mathlib.Data.List.Nodup
import Mathlib.Data.List.ReduceOption
import Rdbms.Catalog.Store
import Rdbms.Page.SlotMap

/-!
# The rows of a heap

The live rows of a heap page are the records of its live slots. A heap is a list of
such pages; scanning it gives their rows in order, and an insert into one of the
pages adds one row and keeps all others.
-/

namespace Rdbms

open Library

/-- The rows in the live slots of a page. -/
def rowsIn (pageId : PageId) (page : Page) (header : PageHeader) : List HeapRow :=
  (page.liveOf (Page.slotIndexes header.slotCount)).map fun x => ⟨⟨pageId, ⟨x.1⟩⟩, x.2⟩

/-- A heap page and the rows it holds. -/
def HeapPage (pageId : PageId) (page : Page) (rows : List HeapRow) : Prop :=
  ∃ header, page.Valid header ∧ header.pageId = pageId ∧ header.pageType = .heap ∧
    rows = rowsIn pageId page header

section Page

variable {pageId : PageId} {page : Page} {header : PageHeader} {rows : List HeapRow}

theorem heapRows_eq (hv : page.Valid header) (htype : header.pageType = .heap) :
    heapRows pageId page = .ok (rowsIn pageId page header) := by
  have hread : (Page.slotIndexes header.slotCount).mapM (fun slotIndex => do
        let record ← page.readRecord ⟨slotIndex⟩
        return record.map fun bytes => HeapRow.mk ⟨pageId, ⟨slotIndex⟩⟩ bytes) =
      .ok ((Page.slotIndexes header.slotCount).map fun slotIndex =>
        (page.recordAt slotIndex.toNat).map fun bytes =>
          HeapRow.mk ⟨pageId, ⟨slotIndex⟩⟩ bytes) := by
    rw [except_mapM_eq_ok, List.forall₂_map_right_iff, List.forall₂_same]
    intro i hi
    rw [Page.readRecord_eq hv (Page.mem_slotIndexes.1 hi)]
    rfl
  rw [heapRows, (Page.header_eq_ok_iff page header).2 hv.toShape]
  simp only [bind, Except.bind, ensureHeapPage, failIf_of_not (not_not.2 htype)]
  simp only [bind, Except.bind] at hread
  rw [hread]
  simp only [pure, Except.pure, rowsIn, Page.liveOf, List.reduceOption, List.map_filterMap,
    List.filterMap_map]
  congr 2
  funext i
  rw [Function.comp, id]
  cases page.recordAt i.toNat with
  | none => rfl
  | some bytes => rfl

theorem HeapPage.heapRows_eq (h : HeapPage pageId page rows) : heapRows pageId page = .ok rows := by
  obtain ⟨header, hv, -, htype, rfl⟩ := h
  exact Rdbms.heapRows_eq hv htype

theorem HeapPage.validAs (h : HeapPage pageId page rows) : page.ValidAs pageId := by
  obtain ⟨header, hv, hid, -, -⟩ := h
  exact ⟨header, hv, hid⟩

theorem heapPage_new (pageId : PageId) : HeapPage pageId (Page.new pageId .heap) [] :=
  ⟨_, Page.new_valid pageId .heap, rfl, rfl, rfl⟩

theorem mem_rowsIn {row : HeapRow} :
    row ∈ rowsIn pageId page header ↔ row.rowId.pageId = pageId ∧
      row.rowId.slotId.val.toNat < header.slotCount.toNat ∧
      page.recordAt row.rowId.slotId.val.toNat = some row.bytes := by
  obtain ⟨⟨rowPage, ⟨i⟩⟩, bytes⟩ := row
  rw [rowsIn, List.mem_map]
  constructor
  · rintro ⟨⟨j, record⟩, hmem, heq⟩
    cases heq
    exact ⟨rfl, Page.mem_liveOf.1 hmem⟩
  · rintro ⟨rfl, hlive⟩
    exact ⟨(i, bytes), Page.mem_liveOf.2 hlive, rfl⟩

theorem nodup_rowIds_rowsIn (pageId : PageId) (page : Page) (header : PageHeader) :
    ((rowsIn pageId page header).map HeapRow.rowId).Nodup := by
  rw [rowsIn, List.map_map, List.Nodup, List.pairwise_map]
  refine (Page.pairwise_liveOf page header.slotCount).imp ?_
  rintro ⟨i, r⟩ ⟨j, q⟩ hne heq
  cases heq
  exact hne rfl

/-- A row of the page is read back under its id. -/
theorem HeapPage.readRecord (h : HeapPage pageId page rows) {row : HeapRow} (hrow : row ∈ rows) :
    page.readRecord row.rowId.slotId = .ok (some row.bytes) := by
  obtain ⟨header, hv, -, -, rfl⟩ := h
  obtain ⟨-, hi, hrecord⟩ := mem_rowsIn.1 hrow
  rw [Page.readRecord_eq hv hi, hrecord]

theorem HeapPage.pageId_eq (h : HeapPage pageId page rows) {row : HeapRow} (hrow : row ∈ rows) :
    row.rowId.pageId = pageId := by
  obtain ⟨header, -, -, -, rfl⟩ := h
  exact (mem_rowsIn.1 hrow).1

theorem HeapPage.nodup (h : HeapPage pageId page rows) : (rows.map HeapRow.rowId).Nodup := by
  obtain ⟨header, -, -, -, rfl⟩ := h
  exact nodup_rowIds_rowsIn pageId page header

/-- The slot that an insert fills held no row before. -/
theorem recordAt_of_inserted {record : List UInt8} {i : UInt16} {q : Page} {k : PageHeader}
    (hins : Page.Inserted page header record i q k) (hi : i.toNat < header.slotCount.toNat) :
    page.recordAt i.toNat = none := by
  rcases hins.slot with ⟨-, hdead, -⟩ | ⟨heq, -, -⟩
  · rw [Page.recordAt, if_neg fun hlive => Page.not_isDead_of_isLive hlive hdead]
  · omega

/-- An insert adds one row to the page. -/
theorem rowsIn_inserted {record : List UInt8} {i : UInt16} {q : Page} {k : PageHeader}
    (hins : Page.Inserted page header record i q k) :
    (rowsIn pageId q k).Perm (⟨⟨pageId, ⟨i⟩⟩, record⟩ :: rowsIn pageId page header) := by
  have hfresh : (⟨⟨pageId, ⟨i⟩⟩, record⟩ : HeapRow) ∉ rowsIn pageId page header := by
    intro hmem
    obtain ⟨-, hi, hrecord⟩ := mem_rowsIn.1 hmem
    rw [recordAt_of_inserted hins hi] at hrecord
    cases hrecord
  rw [List.perm_ext_iff_of_nodup (List.Nodup.of_map _ (nodup_rowIds_rowsIn pageId q k))
    (List.nodup_cons.2 ⟨hfresh, List.Nodup.of_map _ (nodup_rowIds_rowsIn pageId page header)⟩)]
  rintro ⟨⟨rowPage, ⟨j⟩⟩, bytes⟩
  have hcount : k.slotCount.toNat = header.slotCount.toNat ∨
      k.slotCount.toNat = header.slotCount.toNat + 1 ∧ i.toNat = header.slotCount.toNat := by
    rcases hins.slot with ⟨-, -, hk⟩ | ⟨hi, -, hk⟩
    · exact Or.inl hk
    · exact Or.inr ⟨hk, hi⟩
  have hslot : i.toNat < k.slotCount.toNat := by
    rcases hins.slot with ⟨hi, -, hk⟩ | ⟨hi, -, hk⟩ <;> omega
  rw [List.mem_cons, mem_rowsIn, mem_rowsIn]
  by_cases hij : j = i
  · subst hij
    simp only [hins.recordAt_self, hslot, true_and, Option.some.injEq]
    constructor
    · rintro ⟨rfl, rfl⟩
      exact Or.inl rfl
    · rintro (heq | ⟨-, hj, hrecord⟩)
      · cases heq
        exact ⟨rfl, rfl⟩
      · rw [recordAt_of_inserted hins hj] at hrecord
        cases hrecord
  · have hne : j.toNat ≠ i.toNat := fun heq => hij (UInt16.toNat_inj.1 heq)
    have hrow : (⟨⟨rowPage, ⟨j⟩⟩, bytes⟩ : HeapRow) ≠ ⟨⟨pageId, ⟨i⟩⟩, record⟩ := by
      rintro ⟨⟩
      exact hij rfl
    have hlt : j.toNat < k.slotCount.toNat ↔ j.toNat < header.slotCount.toNat := by omega
    simp only [hrow, false_or, hlt]
    refine and_congr_right fun _ => and_congr_right fun hj => ?_
    rw [hins.recordAt_other _ hj hne]

/-- An insert into a heap page finds no room, or adds one row. -/
theorem HeapPage.insertRecord (h : HeapPage pageId page rows) (record : List UInt8) :
    (∃ message, Page.insertRecord record page = (DbResult.user message, page)) ∨
    ∃ slotId q rows', Page.insertRecord record page = (.ok slotId, q) ∧ HeapPage pageId q rows' ∧
      rows'.Perm (⟨⟨pageId, slotId⟩, record⟩ :: rows) := by
  obtain ⟨header, hv, hid, htype, rfl⟩ := h
  rcases Page.insertRecord_spec hv record with ⟨message, hfail⟩ | ⟨i, q, k, hok, hins⟩
  · exact Or.inl ⟨message, hfail⟩
  · exact Or.inr ⟨⟨i⟩, q, rowsIn pageId q k, hok,
      ⟨k, hins.valid, hins.pageId.trans hid, hins.pageType.trans htype, rfl⟩, rowsIn_inserted hins⟩

end Page

/-! ## Lists of pages -/

/-- The pages of a heap, as far as they are stored, hold the rows. -/
def HeapAt (pages : PageId → Option Page) : List PageId → List HeapRow → Prop
  | [], rows => rows = []
  | pageId :: pageIds, rows =>
      ∃ page rows₁ rows₂, pages pageId = some page ∧ HeapPage pageId page rows₁ ∧
        HeapAt pages pageIds rows₂ ∧ rows = rows₁ ++ rows₂

section Heap

variable {pages pages' : PageId → Option Page} {pageIds : List PageId} {rows : List HeapRow}

theorem HeapAt.mono (h : HeapAt pages pageIds rows)
    (hpages : ∀ i ∈ pageIds, ∀ page, pages i = some page → pages' i = some page) :
    HeapAt pages' pageIds rows := by
  induction pageIds generalizing rows with
  | nil => exact h
  | cons pageId pageIds ih =>
      obtain ⟨page, rows₁, rows₂, hpage, hheap, hrest, rfl⟩ := h
      rw [List.forall_mem_cons] at hpages
      exact ⟨page, rows₁, rows₂, hpages.1 page hpage, hheap, ih hrest hpages.2, rfl⟩

theorem HeapAt.append {pageIds' : List PageId} {rows' : List HeapRow}
    (h : HeapAt pages pageIds rows) (h' : HeapAt pages pageIds' rows') :
    HeapAt pages (pageIds ++ pageIds') (rows ++ rows') := by
  induction pageIds generalizing rows with
  | nil =>
      rw [HeapAt] at h
      rwa [h]
  | cons pageId pageIds ih =>
      obtain ⟨page, rows₁, rows₂, hpage, hheap, hrest, rfl⟩ := h
      exact ⟨page, rows₁, rows₂ ++ rows', hpage, hheap, ih hrest, List.append_assoc _ _ _⟩

/-- Every page of the heap is a heap page. -/
theorem HeapAt.page (h : HeapAt pages pageIds rows) {pageId : PageId} (hmem : pageId ∈ pageIds) :
    ∃ page rows', pages pageId = some page ∧ HeapPage pageId page rows' := by
  induction pageIds generalizing rows with
  | nil => cases hmem
  | cons first pageIds ih =>
      obtain ⟨page, rows₁, rows₂, hpage, hheap, hrest, rfl⟩ := h
      rcases List.mem_cons.1 hmem with rfl | hmem
      · exact ⟨page, rows₁, hpage, hheap⟩
      · exact ih hrest hmem

/-- A row of the heap is one of its page. -/
theorem HeapAt.mem_page (h : HeapAt pages pageIds rows) {row : HeapRow} (hrow : row ∈ rows)
    {page : Page} {rows' : List HeapRow} (hpage : pages row.rowId.pageId = some page)
    (hheap : HeapPage row.rowId.pageId page rows') : row ∈ rows' := by
  induction pageIds generalizing rows with
  | nil =>
      rw [HeapAt] at h
      rw [h] at hrow
      cases hrow
  | cons first pageIds ih =>
      obtain ⟨page₁, rows₁, rows₂, hpage₁, hheap₁, hrest, rfl⟩ := h
      rcases List.mem_append.1 hrow with hrow | hrow
      · obtain rfl := hheap₁.pageId_eq hrow
        rw [hpage] at hpage₁
        cases hpage₁
        rw [← Except.ok.inj (hheap.heapRows_eq.symm.trans hheap₁.heapRows_eq)] at hrow
        exact hrow
      · exact ih hrest hrow

theorem HeapAt.mem_pageIds (h : HeapAt pages pageIds rows) {row : HeapRow} (hrow : row ∈ rows) :
    row.rowId.pageId ∈ pageIds := by
  induction pageIds generalizing rows with
  | nil =>
      rw [HeapAt] at h
      rw [h] at hrow
      cases hrow
  | cons pageId pageIds ih =>
      obtain ⟨page, rows₁, rows₂, hpage, hheap, hrest, rfl⟩ := h
      rcases List.mem_append.1 hrow with hrow | hrow
      · rw [hheap.pageId_eq hrow]
        exact List.mem_cons_self
      · exact List.mem_cons_of_mem _ (ih hrest hrow)

/-- The rows of a heap without repeated pages have different ids. -/
theorem HeapAt.nodup (h : HeapAt pages pageIds rows) (hids : pageIds.Nodup) :
    (rows.map HeapRow.rowId).Nodup := by
  induction pageIds generalizing rows with
  | nil =>
      rw [HeapAt] at h
      rw [h]
      exact List.nodup_nil
  | cons pageId pageIds ih =>
      obtain ⟨page, rows₁, rows₂, hpage, hheap, hrest, rfl⟩ := h
      obtain ⟨hnot, hids⟩ := List.nodup_cons.1 hids
      rw [List.map_append, List.nodup_append]
      refine ⟨hheap.nodup, ih hrest hids, ?_⟩
      intro a ha b hb hab
      obtain ⟨row, hrow, rfl⟩ := List.mem_map.1 ha
      obtain ⟨row', hrow', rfl⟩ := List.mem_map.1 hb
      refine hnot ?_
      rw [← hheap.pageId_eq hrow, hab]
      exact hrest.mem_pageIds hrow'

/-- Scanning the pages gives the rows in order. -/
theorem HeapAt.scanHeap {σ : Type} {load : PageId → Db σ Page} {P : σ → Prop}
    (hload : ∀ {s pageId page}, P s → pages pageId = some page →
      ∃ t, load pageId s = (.ok page, t) ∧ P t) :
    ∀ {pageIds rows s}, HeapAt pages pageIds rows → P s →
      ∃ t, Rdbms.scanHeap load pageIds s = (.ok rows, t) ∧ P t := by
  intro pageIds
  induction pageIds with
  | nil =>
      intro rows s h hs
      rw [HeapAt] at h
      rw [h]
      exact ⟨s, rfl, hs⟩
  | cons pageId pageIds ih =>
      intro rows s h hs
      obtain ⟨page, rows₁, rows₂, hpage, hheap, hrest, rfl⟩ := h
      obtain ⟨t, hrun, ht⟩ := hload hs hpage
      obtain ⟨u, hscan, hu⟩ := ih hrest ht
      refine ⟨u, ?_, hu⟩
      simp only [Rdbms.scanHeap, Exec.bind_apply, hrun, Exec.liftM_apply, hheap.heapRows_eq, hscan,
        Exec.pure_apply]

end Heap

end Rdbms
