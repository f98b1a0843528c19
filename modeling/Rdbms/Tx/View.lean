import Rdbms.Catalog.Layout
import Rdbms.Tx.History
import Rdbms.Vfs.PageMap

/-!
# The pages a transaction sees

On a disk without faults, loading a page inside a transaction gives the staged
version of it or the one in the data file. This makes the active transaction a
page store in the sense of the index algorithm, and the committed store one that
can only be read. A commit copies what the transaction sees to the data file.
-/

namespace Rdbms

open Library Disk ByteFile

/-! ## The data file -/

theorem dataFile_file : dataFile.file = .data := rfl

/-- The page that the data file holds under an id. -/
def Disk.storedPage (d : Disk) (pageId : PageId) : Option Page :=
  (dataFile.readPage pageId d.healed).1.toOption

section Stored

variable {d e : Disk} {pageId : PageId} {page : Page}

theorem storedPage_eq_some :
    d.storedPage pageId = some page ↔
      d.data.Holds pageId.val.toNat page ∧ page.ValidAs pageId := by
  constructor
  · intro h
    rcases hread : dataFile.readPage pageId d.healed with ⟨stop | page', u⟩
    · rw [storedPage, hread] at h
      cases h
    · rw [storedPage, hread] at h
      cases h
      have hholds : d.healed.data.Holds pageId.val.toNat page :=
        holds_of_readPage dataFile_file hread
      exact ⟨hholds, readPage_eq_ok hread⟩
  · rintro ⟨hholds, hvalid⟩
    obtain ⟨u, hread, -⟩ := readPage_of_holds dataFile_file d.healed_faultFree hholds hvalid
    rw [storedPage, hread]
    rfl

theorem storedPage_congr (h : e.data = d.data) : e.storedPage pageId = d.storedPage pageId := by
  apply Option.ext
  intro page
  rw [storedPage_eq_some, storedPage_eq_some, h]

theorem readPage_of_stored (hd : FaultFree d) (h : d.storedPage pageId = some page) :
    ∃ e, dataFile.readPage pageId d = (.ok page, e) ∧ OnlyReads d e := by
  obtain ⟨hholds, hvalid⟩ := storedPage_eq_some.1 h
  obtain ⟨e, hread, -⟩ := readPage_of_holds dataFile_file hd hholds hvalid
  exact ⟨e, hread, (readPage_onlyReads _ _).rel hread⟩

theorem Disk.OnlyReads.faultFree (h : OnlyReads d e) (hd : FaultFree d) : FaultFree e :=
  h.files.faultFree hd

theorem Disk.OnlyReads.storedPage (h : OnlyReads d e) : e.storedPage pageId = d.storedPage pageId :=
  storedPage_congr h.files.data

end Stored

/-! ## The active transaction -/

namespace Transaction

/-- The page that a transaction sees under an id. -/
def visible (s : Transaction FileId × Disk) (pageId : PageId) : Option Page :=
  match s.1.dirtyPages[pageId]? with
  | some page => some page
  | none => s.2.storedPage pageId

variable {s t : Transaction FileId × Disk} {pageId : PageId} {page : Page}

theorem visible_of_staged (h : s.1.dirtyPages[pageId]? = some page) :
    visible s pageId = some page := by
  rw [visible, h]

theorem visible_of_not_staged (h : s.1.dirtyPages[pageId]? = none) :
    visible s pageId = s.2.storedPage pageId := by
  rw [visible, h]

theorem visible_validAs (hs : s.1.StagedValid) (h : visible s pageId = some page) :
    page.ValidAs pageId := by
  cases hget : s.1.dirtyPages[pageId]? with
  | some page' =>
      rw [visible_of_staged hget] at h
      cases h
      exact hs pageId page hget
  | none =>
      rw [visible_of_not_staged hget] at h
      exact (storedPage_eq_some.1 h).2

theorem visible_stage (tx : Transaction FileId) (d : Disk) (pageId : PageId) (page : Page)
    (other : PageId) :
    visible ({ tx with dirtyPages := tx.dirtyPages.insert pageId page }, d) other =
      if other = pageId then some page else visible (tx, d) other := by
  simp only [visible, Std.TreeMap.getElem?_insert]
  by_cases heq : other = pageId
  · rw [if_pos heq, heq, if_pos Std.ReflCmp.compare_self]
  · have hne : ¬ compare pageId other = .eq := fun hcmp =>
      heq (Std.LawfulEqOrd.eq_of_compare hcmp).symm
    rw [if_neg heq, if_neg hne]

theorem loadPage_of_visible (hd : FaultFree s.2) (hfile : s.1.manager.store.pageFile = dataFile)
    (h : visible s pageId = some page) :
    ∃ e, loadPage pageId s = (.ok page, (s.1, e)) ∧ OnlyReads s.2 e := by
  rw [loadPage_apply]
  cases hget : s.1.dirtyPages[pageId]? with
  | some page' =>
      rw [visible_of_staged hget] at h
      cases h
      exact ⟨s.2, rfl, OnlyReads.refl _⟩
  | none =>
      rw [visible_of_not_staged hget] at h
      obtain ⟨e, hread, honly⟩ := readPage_of_stored hd h
      refine ⟨e, ?_, honly⟩
      simp only [Exec.onRight_apply, hfile, hread]

theorem visible_congr (htx : t.1.dirtyPages = s.1.dirtyPages) (hdata : t.2.data = s.2.data) :
    visible t pageId = visible s pageId := by
  rw [visible, visible, htx, storedPage_congr hdata]

theorem onCatalog_eq_ok {α : Type} {m : Db Catalog α} {a : α} :
    onCatalog m s = (.ok a, t) ↔ ∃ c, m s.1.workingCatalog = (.ok a, c) ∧
      t = ({ s.1 with workingCatalog := c }, s.2) := by
  rw [onCatalog, Exec.zoom_apply, Prod.mk.injEq]
  constructor
  · rintro ⟨ha, rfl⟩
    exact ⟨_, Prod.ext ha rfl, rfl⟩
  · rintro ⟨c, hm, rfl⟩
    rw [hm]
    exact ⟨rfl, rfl⟩

/-- Every page that has been staged has been handed out. -/
def StagedAllocated (tx : Transaction FileId) : Prop :=
  ∀ (id : PageId) (page : Page), tx.dirtyPages[id]? = some page → tx.workingCatalog.Allocated id

theorem stagedAllocated_insert {tx : Transaction FileId} (h : tx.StagedAllocated)
    (hid : tx.workingCatalog.Allocated pageId) :
    StagedAllocated { tx with dirtyPages := tx.dirtyPages.insert pageId page } := by
  intro id p hp
  simp only [Std.TreeMap.getElem?_insert] at hp
  split at hp
  · rename_i heq
    rw [← Std.LawfulEqOrd.eq_of_compare heq]
    exact hid
  · exact h id p hp

/-- The active transaction as a page store. The ids that its working catalog has handed
out are in use. -/
def lawful : LawfulPageStore (Transaction FileId × Disk) where
  Good s := FaultFree s.2 ∧ s.1.manager.store.pageFile = dataFile ∧ s.1.StagedAllocated
  pages s := s.1.workingCatalog.only (visible s)
  used s := s.1.workingCatalog.Allocated
  Storable s := s.1.workingCatalog.Allocated
  storable_of_used := fun _ h => h
  used_of_stored := fun _ h => (Catalog.only_eq_some.1 h).1
  load := by
    rintro ⟨tx, d⟩ pageId page ⟨hd, hfile, hstaged⟩ h
    obtain ⟨e, hload, honly⟩ := loadPage_of_visible hd hfile (Catalog.only_eq_some.1 h).2
    refine ⟨(tx, e), hload, ⟨honly.faultFree hd, hfile, hstaged⟩, fun _ hi => hi, ?_⟩
    intro i p hi
    obtain ⟨halloc, hp⟩ := Catalog.only_eq_some.1 hi
    refine Catalog.only_eq_some.2 ⟨halloc, ?_⟩
    have hsame : visible (tx, e) i = visible (tx, d) i := visible_congr rfl honly.files.data
    rw [hsame, hp]
  store := by
    rintro ⟨tx, d⟩ t page header ⟨hd, hfile, hstaged⟩ hheader hid h
    simp only [BPlusTreePageStore.storePage, stage, Exec.bind_apply, Exec.liftM_apply, hheader,
      Exec.modify_apply] at h
    cases h
    refine ⟨⟨hd, hfile, stagedAllocated_insert hstaged hid⟩, Catalog.only_eq_some.2 ⟨hid, ?_⟩, fun _ hi => hi, ?_⟩
    · rw [visible_stage, if_pos rfl]
    · intro i p hne hi
      obtain ⟨halloc, hp⟩ := Catalog.only_eq_some.1 hi
      refine Catalog.only_eq_some.2 ⟨halloc, ?_⟩
      rw [visible_stage, if_neg hne, hp]
  allocate := by
    rintro ⟨tx, d⟩ t pageId ⟨hd, hfile, hstaged⟩ h
    obtain ⟨c, hrun, rfl⟩ := onCatalog_eq_ok.1 h
    obtain ⟨rfl, rfl, hnext⟩ := Catalog.allocatePageId_eq_ok hrun
    have hgrow : ∀ i, tx.workingCatalog.Allocated i → Catalog.Allocated
        { tx.workingCatalog with nextPageId := tx.workingCatalog.nextPageId + 1 } i := by
      intro i hi
      rw [Catalog.Allocated, hnext]
      exact Nat.lt_succ_of_lt hi
    refine ⟨⟨hd, hfile, fun i p hp => hgrow i (hstaged i p hp)⟩, Nat.lt_irrefl _, ?_, hgrow, ?_⟩
    · rw [Catalog.Allocated, hnext]
      exact Nat.lt_succ_self _
    · intro i p hi
      obtain ⟨halloc, hp⟩ := Catalog.only_eq_some.1 hi
      exact Catalog.only_eq_some.2 ⟨hgrow i halloc, hp⟩

end Transaction

/-! ## The committed store -/

/-- The committed store as a page store that nothing is stored into. -/
def TransactionalStore.lawful : LawfulPageStore (CatalogStore FileId × Disk) where
  Good s := FaultFree s.2 ∧ s.1.pageFile = dataFile
  pages s := s.1.catalog.only s.2.storedPage
  used s := s.1.catalog.Allocated
  Storable s := s.1.catalog.Allocated
  storable_of_used := fun _ h => h
  used_of_stored := fun _ h => (Catalog.only_eq_some.1 h).1
  load := by
    rintro ⟨store, d⟩ pageId page ⟨hd, hfile⟩ h
    obtain ⟨e, hread, honly⟩ := readPage_of_stored hd (Catalog.only_eq_some.1 h).2
    refine ⟨(store, e), ?_, ⟨honly.faultFree hd, hfile⟩, fun _ hi => hi, ?_⟩
    · simp only [BPlusTreePageStore.loadPage, Exec.bind_apply, Exec.get_apply, Exec.onRight_apply,
        show store.pageFile = dataFile from hfile, hread]
    · intro i p hi
      obtain ⟨halloc, hp⟩ := Catalog.only_eq_some.1 hi
      exact Catalog.only_eq_some.2 ⟨halloc, honly.storedPage.trans hp⟩
  store := by
    intro s t page header _ _ _ h
    cases h
  allocate := by
    intro s t pageId _ h
    cases h

/-! ## Commit -/

namespace Transaction

variable {tx : Transaction FileId} {d : Disk}

theorem number_of_staged (hstaged : tx.StagedValid) {pageId : PageId} {page : Page}
    (h : tx.dirtyPages[pageId]? = some page) : page.number = pageId.val.toNat :=
  (hstaged pageId page h).number

/-- The staged page of an id is the only one written under its number. -/
theorem lastPage_stagedPages (hstaged : tx.StagedValid) {pageId : PageId} {page : Page}
    (h : tx.dirtyPages[pageId]? = some page) :
    lastPage pageId.val.toNat tx.stagedPages = some page := by
  cases hlast : lastPage pageId.val.toNat tx.stagedPages with
  | none =>
      have hnot := lastPage_eq_none.1 hlast page (mem_stagedPages.2 ⟨pageId, h⟩)
      exact absurd (number_of_staged hstaged h) hnot
  | some page' =>
      have hmem : page' ∈ tx.stagedPages := List.mem_reverse.1 (List.mem_of_find?_eq_some hlast)
      obtain ⟨id, hid⟩ := mem_stagedPages.1 hmem
      have hnumber : page'.number = pageId.val.toNat := by
        simpa using List.find?_some hlast
      have hsame : id = pageId := by
        by_contra hne
        exact PageId.toNat_ne hne ((number_of_staged hstaged hid).symm.trans hnumber)
      rw [hsame, h] at hid
      exact hid.symm

/-- The pages that a transaction sees are those of the data file once its staged pages
have been written. -/
theorem storedPage_of_visible {e : Disk} (hstaged : tx.StagedValid)
    (hfits : ∀ page ∈ tx.stagedPages, Fits page.number)
    (hdata : e.data = d.data.putPages tx.stagedPages) {pageId : PageId} {page : Page}
    (h : visible (tx, d) pageId = some page) : e.storedPage pageId = some page := by
  refine storedPage_eq_some.2 ⟨?_, visible_validAs hstaged h⟩
  rw [hdata]
  cases hget : tx.dirtyPages[pageId]? with
  | some page' =>
      rw [visible_of_staged hget] at h
      cases h
      exact holds_putPages hfits (lastPage_stagedPages hstaged hget)
  | none =>
      rw [visible_of_not_staged hget] at h
      refine (storedPage_eq_some.1 h).1.putPages_of_not_mem hfits ?_
      intro page' hpage'
      obtain ⟨id, hid⟩ := mem_stagedPages.1 hpage'
      rw [number_of_staged hstaged hid]
      refine PageId.toNat_ne ?_
      rintro rfl
      rw [hget] at hid
      cases hid

end Transaction

end Rdbms
