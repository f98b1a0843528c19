import Rdbms.Catalog.Canonical
import Rdbms.Recovery.Clean
import Rdbms.Tx.Unsaved

/-!
# The catalog in memory and the catalog in page 0

Between two transactions the store shows the catalog that opening its files again reads
from page 0, as long as no transaction is committed with unsaved changes. A call that fails
may have changed the working catalog without saving it; a transaction that is committed
after such a call publishes a catalog that page 0 does not hold, unless a later call of the
same transaction has saved it.
-/

namespace Rdbms

open Library Disk ByteFile

/-- Page 0 of the data file holds the catalog. -/
def Disk.HoldsCatalog (d : Disk) (c : Catalog) : Prop :=
  ∃ page, d.storedPage catalogPageId = some page ∧ ∀ memory, Catalog.fromPage memory page = .ok c

/-- When no transaction is active, the catalog of the store is the one that opening the data
file reads. -/
def Session.CatalogStored (s : Session × Disk) : Prop :=
  ∀ store, s.1 = .idle store →
    ∃ e, Catalog.loadOrBootstrap dataFile s.2 = (.ok store.store.catalog, e)

variable {c : Catalog} {d e : Disk}

theorem Disk.HoldsCatalog.congr (h : d.HoldsCatalog c) (hdata : e.data = d.data) :
    e.HoldsCatalog c := by
  obtain ⟨page, hpage, hc⟩ := h
  exact ⟨page, (storedPage_congr hdata).trans hpage, hc⟩

/-! ## Opening the files -/

/-- A file with a catalog in page 0 is opened with that catalog. -/
theorem Disk.HoldsCatalog.loadOrBootstrap (h : d.HoldsCatalog c) (hd : FaultFree d) :
    ∃ e, Catalog.loadOrBootstrap dataFile d = (.ok c, e) ∧ OnlyReads d e := by
  obtain ⟨page, hstored, hc⟩ := h
  have hlong : pageSize ≤ d.data.bytes.length := by
    have hholds := (storedPage_eq_some.1 hstored).1.length_le
    rwa [show catalogPageId.val.toNat = 0 from rfl, Nat.zero_add, Nat.one_mul] at hholds
  have hlen : dataFile.len d = (.ok (UInt64.ofNat d.data.bytes.length), d.record ⟨.data, .len, true⟩) :=
    len_of_faultFree hd .data
  have hreads : OnlyReads d (d.record ⟨.data, .len, true⟩) := (len_onlyReads .data).rel hlen
  have hvalue : (UInt64.ofNat d.data.bytes.length).toNat = d.data.bytes.length :=
    toNat_ofNat_length d.data
  have hnonempty : ¬ UInt64.ofNat d.data.bytes.length = 0 := by
    intro hzero
    rw [hzero] at hvalue
    simp only [pageSize] at hlong
    simp at hvalue
    omega
  have hshort : ¬ (UInt64.ofNat d.data.bytes.length).toNat < pageSize := by
    rw [hvalue]
    exact not_lt.2 hlong
  obtain ⟨e, hread, hreads'⟩ := readPage_of_stored (hreads.faultFree hd)
    (hreads.storedPage.trans hstored)
  refine ⟨e, ?_, hreads.trans hreads'⟩
  rw [Catalog.loadOrBootstrap, Exec.bind_of_ok hlen, if_neg hnonempty]
  simp only [Exec.bind_apply, Exec.liftM_apply, failIf_of_not hshort, hread, Exec.get_apply, hc]

/-- The catalog that has been loaded is in page 0 from then on, also when the file was empty. -/
theorem holdsCatalog_of_loadOrBootstrap (hd : FaultFree d)
    (h : Catalog.loadOrBootstrap dataFile d = (.ok c, e)) : e.HoldsCatalog c := by
  obtain ⟨len, u, hlen, h⟩ := Exec.bind_eq_ok.1 h
  have hreads : OnlyReads d u := (len_onlyReads .data).rel hlen
  split at h
  · obtain ⟨⟨⟩, v, hsave, h⟩ := Exec.bind_eq_ok.1 h
    cases h
    rw [Catalog.save] at hsave
    obtain ⟨page, u', hpage, hwrite⟩ := Exec.bind_eq_ok.1 hsave
    obtain ⟨htoPage, rfl⟩ := Exec.liftM_eq_ok.1 hpage
    have hvalid := Catalog.toPage_validAs htoPage
    have hzero : page.number = 0 := hvalid.number
    have hfits : Fits page.number := by
      rw [hzero]
      exact fits_of_lt (by decide)
    rw [writePage_of_faultFree dataFile_file (hreads.faultFree hd) hvalid hfits] at hwrite
    cases hwrite
    refine ⟨page, storedPage_eq_some.2 ⟨?_, hvalid⟩,
      fun memory => Catalog.fromPage_of_toPage memory htoPage Catalog.empty_heapsNonempty⟩
    change (u.data.putPage page.number page).Holds 0 page
    rw [hzero] at hfits ⊢
    exact holds_putPage_self hfits
  · obtain ⟨⟨⟩, u', hlong, h⟩ := Exec.bind_eq_ok.1 h
    obtain ⟨-, rfl⟩ := Exec.liftM_eq_ok.1 hlong
    obtain ⟨page, hread, hc⟩ := Session.readCatalog_eq_ok h
    have hstored : u.storedPage catalogPageId = some page :=
      storedPage_eq_some.2 ⟨holds_of_readPage dataFile_file hread, readPage_eq_ok hread⟩
    have hreads' := (readPage_onlyReads dataFile catalogPageId).rel hread
    exact ⟨page, hreads'.storedPage.trans hstored, Catalog.fromPage_in_memory hc⟩

/-! ## Sessions -/

namespace Session

/-- What holds of the sessions on files whose page 0 is kept up to date. -/
structure InStep (s : Session × Disk) : Prop where
  good : s.1.Good
  faultFree : FaultFree s.2
  stored : s.2.HoldsCatalog s.1.handle.store.catalog

/-- What is asked of the transaction that a call commits: it sees its working catalog in the
catalog page, and its staged pages have a place in the file. -/
def SavedAt (call : Call) (s : Session × Disk) : Prop :=
  ∀ tx, call = .commit → s.1 = active tx →
    Transaction.SeesCatalog (tx, s.2) ∧ ∀ page ∈ tx.stagedPages, Fits page.number

variable {s t : Session} {tx : Transaction FileId} {store : TransactionalStore FileId}

theorem open_inStep (hd : FaultFree d) (h : openTransactionalStore .data .wal d = (.ok store, e)) :
    InStep (idle store, e) := by
  have hgood := open_good h
  have hfree := open_faultFree hd h
  obtain ⟨catalogStore, u, hopen, h⟩ := Exec.bind_eq_ok.1 h
  obtain ⟨w, v, hwal, h⟩ := Exec.bind_eq_ok.1 h
  cases h
  obtain ⟨catalog, u', hload, hopen⟩ := Exec.bind_eq_ok.1 hopen
  cases hopen
  obtain ⟨len, v', hlen, hwal⟩ := Exec.bind_eq_ok.1 hwal
  cases hwal
  have hreads : OnlyReads u e := (len_onlyReads .wal).rel hlen
  exact ⟨hgood, hfree, (holdsCatalog_of_loadOrBootstrap hd hload).congr hreads.files.data⟩

/-- Neither the data file nor the committed catalog has changed. -/
theorem InStep.kept (h : InStep (s, d)) (hgood : t.Good) (hdisk : SameData d e)
    (hstore : t.handle.store = s.handle.store) : InStep (t, e) where
  good := hgood
  faultFree n := by
    rw [hdisk.faults]
    exact h.faultFree n
  stored := by
    change e.HoldsCatalog t.handle.store.catalog
    rw [hstore]
    exact h.stored.congr hdisk.data

/-- A commit writes its staged pages to a disk without faults. -/
theorem InStep.written (h : InStep (active tx, d)) (hdisk : SameData d e)
    (hfits : ∀ page ∈ tx.stagedPages, Fits page.number) :
    ∃ e', Transaction.writePages tx.manager.store.pageFile tx.stagedPages e = (.ok (), e') ∧
      FaultFree e' ∧ e'.data = d.data.putPages tx.stagedPages := by
  have hfree : FaultFree e := by
    intro n
    rw [hdisk.faults]
    exact h.faultFree n
  have hfile : tx.manager.store.pageFile = dataFile := congrArg PageFile.mk h.good.data
  obtain ⟨e', hwrite, hsame, hdata⟩ :=
    Transaction.writePages_faultFree hfree (h.good.staged tx rfl).validAs hfits
  refine ⟨e', by rw [hfile, hwrite], ?_, by rw [hdata, hdisk.data]⟩
  intro n
  rw [hsame.faults]
  exact hfree n

/-- Once its pages are written, page 0 holds the working catalog of a transaction exactly when
the transaction has seen it there. -/
theorem InStep.holdsCatalog_iff (h : InStep (active tx, d))
    (hfits : ∀ page ∈ tx.stagedPages, Fits page.number)
    (hdata : e.data = d.data.putPages tx.stagedPages) :
    e.HoldsCatalog tx.workingCatalog ↔ Transaction.SeesCatalog (tx, d) := by
  have hstored : ∀ {page}, Transaction.visible (tx, d) catalogPageId = some page →
      e.storedPage catalogPageId = some page :=
    fun hvisible => Transaction.storedPage_of_visible (h.good.staged tx rfl) hfits hdata hvisible
  constructor
  · rintro ⟨page, hpage, hc⟩
    obtain ⟨page', hvisible⟩ : ∃ page', Transaction.visible (tx, d) catalogPageId = some page' := by
      cases hget : tx.dirtyPages[catalogPageId]? with
      | some page' => exact ⟨page', Transaction.visible_of_staged hget⟩
      | none =>
          obtain ⟨page', hpage', -⟩ := h.stored
          exact ⟨page', (Transaction.visible_of_not_staged hget).trans hpage'⟩
    have hsame : some page = some page' := hpage.symm.trans (hstored hvisible)
    cases hsame
    exact ⟨page, hvisible, hc⟩
  · rintro ⟨page, hvisible, hc⟩
    exact ⟨page, hstored hvisible, hc⟩

/-- What a call does keeps the catalogs in step. -/
theorem InStep.does {call : Call} {t : Session × Disk} (h : InStep (s, d)) (hdoes : Does call (s, d) t)
    (hsaved : SavedAt call (s, d)) : InStep t := by
  have hgood := hdoes.good h.good
  have hwal : s.handle.wal.file = .wal := h.good.wal
  cases hdoes with
  | looks hborrowed hreads => exact h.kept hgood hreads.sameData rfl
  | syncs => exact h.kept hgood (storeSync_sameData _ d) rfl
  | starts hroom happend => exact h.kept hgood ((append_leavesData _).rel happend |>.disk hwal) rfl
  | startFails hroom happend => exact h.kept hgood ((append_leavesData _).rel happend |>.disk hwal) rfl
  | stages hcall hstaging =>
      exact h.kept hgood hstaging.disk.sameData (congrArg TransactionalStore.store hstaging.manager)
  | logFails hlog => exact h.kept hgood ((logCommit_leavesData _ _).rel hlog |>.disk hwal) rfl
  | dataFails hlog hdata =>
      have hdisk := (logCommit_leavesData _ _).rel hlog |>.disk hwal
      obtain ⟨e', hwrite, -⟩ := h.written hdisk (hsaved _ rfl rfl).2
      rw [hwrite] at hdata
      cases hdata
  | commits hlog hdata =>
      have hdisk := (logCommit_leavesData _ _).rel hlog |>.disk hwal
      obtain ⟨hsees, hfits⟩ := hsaved _ rfl rfl
      obtain ⟨e', hwrite, hfree, hpages⟩ := h.written hdisk hfits
      rw [hwrite] at hdata
      cases hdata
      exact ⟨hgood, hfree, (h.holdsCatalog_iff hfits hpages).2 hsees⟩
  | rollsBack hlog => exact h.kept hgood ((logAbort_leavesData _).rel hlog |>.disk hwal) rfl
  | drops => exact h.kept hgood (refl_of SameData d) rfl

/-! ## Unsaved changes -/

/-- Whether the working catalog has changes that have not been saved after an operation: a
call that fails leaves the ones it has made, and a call that returns saves them if it always
saves the catalog or has changed it. -/
def leavesUnsaved {α : Type} (saves unsaved : Bool) (s : Transaction FileId × Disk)
    (result : DbResult α × (Transaction FileId × Disk)) : Bool :=
  match result.1 with
  | .ok _ => unsaved && !saves && decide (result.2.1.workingCatalog = s.1.workingCatalog)
  | .error _ => unsaved || decide (result.2.1.workingCatalog ≠ s.1.workingCatalog)

/-- Whether the active transaction has unsaved changes after a call. -/
def unsavedAfter (call : Call) (unsaved : Bool) : Session × Disk → Bool
  | (idle _, _) => false
  | (active tx, d) =>
      match call with
      | .registerExtension name abi kind =>
          leavesUnsaved false unsaved (tx, d) (Transaction.registerExtension name abi kind (tx, d))
      | .createTable name columns =>
          leavesUnsaved true unsaved (tx, d) (Transaction.createTable name columns (tx, d))
      | .createIndex name tableId column =>
          leavesUnsaved true unsaved (tx, d) (Transaction.createIndex name tableId column (tx, d))
      | .insertIndexEntry fuel id key rowId =>
          leavesUnsaved true unsaved (tx, d) (Transaction.insertIndexEntry fuel id key rowId (tx, d))
      | .insertRow relationId bytes =>
          leavesUnsaved false unsaved (tx, d) (Transaction.insertRow relationId bytes (tx, d))
      | .commit => false
      | .rollback => false
      | .drop => false
      | _ => unsaved

theorem sees_of_tracks {α : Type} {saves unsaved : Bool} {s : Transaction FileId × Disk}
    {result : DbResult α × (Transaction FileId × Disk)} (h : Transaction.Tracks saves s result)
    (hs : unsaved = false → Transaction.SeesCatalog s)
    (hsaved : leavesUnsaved saves unsaved s result = false) : Transaction.SeesCatalog result.2 := by
  obtain ⟨outcome, t⟩ := result
  cases outcome with
  | ok a =>
      refine h.done a t rfl ?_
      by_cases hcatalog : t.1.workingCatalog = s.1.workingCatalog
      · cases hunsaved : unsaved with
        | false => exact Or.inr (Or.inr (hs hunsaved))
        | true =>
            cases hsaves : saves with
            | true => exact Or.inl rfl
            | false => simp [leavesUnsaved, hunsaved, hsaves, hcatalog] at hsaved
      · exact Or.inr (Or.inl hcatalog)
  | error stop =>
      simp only [leavesUnsaved, Bool.or_eq_false_iff, decide_eq_false_iff_not, not_not] at hsaved
      exact h.failed stop t rfl hsaved.2 (hs hsaved.1)

/-- The invariant of the sessions whose commits have nothing unsaved. -/
structure Tracked (s : Session × Disk) (unsaved : Bool) : Prop where
  inStep : InStep s
  wellFormed : WellFormed s
  sees : unsaved = false → ∀ tx, s.1 = active tx → Transaction.SeesCatalog (tx, s.2)

/-- A transaction starts with its working catalog in page 0. -/
theorem sees_of_start (h : InStep (start store d)) (hactive : (start store d).1 = active tx) :
    Transaction.SeesCatalog (tx, (start store d).2) := by
  have hdoes := @does_start store d
  generalize start store d = t at h hactive hdoes
  cases hdoes with
  | looks => cases hactive
  | startFails => cases hactive
  | starts hroom happend =>
      cases hactive
      obtain ⟨page, hpage, hc⟩ := h.stored
      exact ⟨page, (Transaction.visible_of_not_staged Std.TreeMap.getElem?_emptyc).trans hpage, hc⟩

/-- Every call after which nothing is unsaved leaves an up-to-date catalog page. -/
theorem Tracked.sees_step {s : Session × Disk} {unsaved : Bool} (h : Tracked s unsaved) (call : Call)
    (hstep : InStep (Session.step call s)) (hsaved : unsavedAfter call unsaved s = false)
    (hactive : (Session.step call s).1 = active tx) :
    Transaction.SeesCatalog (tx, (Session.step call s).2) := by
  obtain ⟨s, d⟩ := s
  cases s with
  | idle store =>
      cases call with
      | begin => exact sees_of_start hstep hactive
      | _ => cases hactive
  | active tx₀ =>
      have hstate := h.inStep.good.state tx₀ rfl
      have hwf := (h.wellFormed.working tx₀ rfl).catalog
      have hfile := h.inStep.good.data
      have hsees := fun hunsaved => h.sees hunsaved tx₀ rfl
      cases call with
      | registerExtension name abi kind =>
          cases hactive
          exact sees_of_tracks
            (Transaction.registerExtension_tracks hstate hwf.heapsNonempty name abi kind) hsees hsaved
      | createTable name columns =>
          cases hactive
          exact sees_of_tracks
            (Transaction.createTable_tracks hstate hwf.heapsNonempty name columns) hsees hsaved
      | createIndex name tableId column =>
          cases hactive
          exact sees_of_tracks
            (Transaction.createIndex_tracks hstate hwf.heapsNonempty name tableId column) hsees hsaved
      | insertIndexEntry fuel id key rowId =>
          cases hactive
          exact sees_of_tracks (Transaction.insertIndexEntry_tracks hstate hwf.heapsNonempty hfile
            fuel id key rowId) hsees hsaved
      | insertRow id bytes =>
          cases hactive
          exact sees_of_tracks (Transaction.insertRow_tracks hstate hwf hfile id bytes) hsees hsaved
      | fullScan id =>
          cases hactive
          have hlooking := Transaction.fullScan_looking id (tx₀, d)
          have hspares : Transaction.Spares (tx₀, d) (Transaction.fullScan id (tx₀, d)).2 :=
            Transaction.Spares.of_visible (by rw [hlooking.handle]) (by rw [hlooking.handle])
              (Transaction.visible_congr (by rw [hlooking.handle]) hlooking.disk.files.data)
          exact hspares.sees (hsees hsaved)
      | commit => cases hactive
      | rollback => cases hactive
      | drop => cases hactive
      | begin =>
          cases hactive
          exact hsees hsaved
      | readRow id rowId =>
          cases hactive
          exact hsees hsaved
      | lookupIndex fuel id key =>
          cases hactive
          exact hsees hsaved
      | syncData =>
          cases hactive
          exact hsees hsaved

end Session

/-- The sessions on a disk without faults that commit nothing unsaved, with the note whether
the active transaction has unsaved changes. The files are empty at first, or hold in page 0
what sessions leave there. Staged pages have a place in the file when they are committed. -/
inductive Saving : Session × Disk → Bool → Prop
  | opened {d₀ d : Disk} {store : TransactionalStore FileId} (hd : FaultFree d₀)
      (hfiles : d₀.data.bytes = [] ∨ d₀.HoldsWellFormed)
      (hopen : openTransactionalStore .data .wal d₀ = (.ok store, d)) : Saving (.idle store, d) false
  | step {s : Session × Disk} {unsaved : Bool} (h : Saving s unsaved) (call : Call)
      (hsaved : call = .commit → unsaved = false)
      (hfits : ∀ tx, call = .commit → s.1 = .active tx → ∀ page ∈ tx.stagedPages, Fits page.number) :
      Saving (Session.step call s) (Session.unsavedAfter call unsaved s)

theorem Saving.tracked {s : Session × Disk} {unsaved : Bool} (h : Saving s unsaved) :
    Session.Tracked s unsaved := by
  induction h with
  | opened hd hfiles hopen =>
      exact ⟨Session.open_inStep hd hopen, Session.open_wellFormed hd.crashOnly hfiles hopen, nofun⟩
  | @step s unsaved h call hsaved hfits ih =>
      have hstep : Session.InStep (Session.step call s) := by
        refine ih.inStep.does (Session.step_does ih.inStep.good call s.2) ?_
        intro tx hcall hactive
        exact ⟨ih.sees (hsaved hcall) tx hactive, hfits tx hcall hactive⟩
      exact ⟨hstep, ih.wellFormed.step call, fun hafter tx => ih.sees_step call hstep hafter⟩

/-- Files that such a session leaves may be opened again. -/
theorem Saving.reopened {s : Session × Disk} {unsaved : Bool} (h : Saving s unsaved)
    {store : TransactionalStore FileId} (hopen : openTransactionalStore .data .wal s.2 = (.ok store, d)) :
    Saving (.idle store, d) false :=
  .opened h.tracked.inStep.faultFree (Or.inr h.tracked.wellFormed.stored) hopen

/-- Between two transactions, opening the data file again gives the catalog in memory. -/
theorem reopening_gives_catalog {s : Session × Disk} {unsaved : Bool} (h : Saving s unsaved) :
    Session.CatalogStored s := by
  obtain ⟨s, d⟩ := s
  rintro store rfl
  obtain ⟨e, hload, -⟩ := h.tracked.inStep.stored.loadOrBootstrap h.tracked.inStep.faultFree
  exact ⟨e, hload⟩

/-- A sequence of calls, with the note of unsaved changes. -/
def Session.track (calls : List Call) (s : (Session × Disk) × Bool) : (Session × Disk) × Bool :=
  calls.foldl (fun s call => (step call s.1, unsavedAfter call s.2 s.1)) s

theorem Session.track_fst (calls : List Call) (s : (Session × Disk) × Bool) :
    (track calls s).1 = run calls s.1 := by
  induction calls generalizing s with
  | nil => rfl
  | cons call calls ih => exact ih _

theorem Saving.run {s : (Session × Disk) × Bool} (h : Saving s.1 s.2) (calls : List Call)
    (hcalls : ∀ call ∈ calls, call ≠ .commit) :
    Saving (Session.track calls s).1 (Session.track calls s).2 := by
  induction calls generalizing s with
  | nil => exact h
  | cons call calls ih =>
      rw [List.forall_mem_cons] at hcalls
      refine ih (s := (_, _)) ?_ hcalls.2
      exact h.step call (fun hcall => absurd hcall hcalls.1) fun _ hcall => absurd hcall hcalls.1

/-- A row that fits no page is refused, and a second table is created. -/
def repairedCalls : List Call := [.begin, .createTable "t" [⟨"a", "INTEGER"⟩],
  .insertRow ⟨1⟩ (List.replicate 5000 0), .createTable "u" [⟨"b", "TEXT"⟩]]

/-- The second table has saved what the refused row has changed. -/
theorem repairedCalls_saved : onFresh (fun store d =>
    match Session.track repairedCalls ((.idle store, d), false) with
    | ((.active tx, _), false) => tx.stagedPages.all fun page => decide (page.number + 1 < 2 ^ 52)
    | _ => false) = true := by
  decide +kernel

theorem reopening_gives_catalog_repaired : ∃ store d,
    openTransactionalStore .data .wal fresh = (.ok store, d) ∧
    Session.CatalogStored (Session.run (repairedCalls ++ [.commit]) (.idle store, d)) := by
  obtain ⟨store, d, hopen, htest⟩ := of_onFresh repairedCalls_saved
  have hcalls : ∀ call ∈ repairedCalls, call ≠ .commit := by
    simp only [repairedCalls, List.forall_mem_cons]
    exact ⟨nofun, nofun, nofun, nofun, nofun⟩
  have hopened : Saving (.idle store, d) false := .opened fresh_faultFree (Or.inl rfl) hopen
  have hrun := hopened.run (s := (_, _)) repairedCalls hcalls
  refine ⟨store, d, hopen, ?_⟩
  rw [Session.run, List.foldl_append]
  change Session.CatalogStored (Session.step .commit (Session.run repairedCalls (.idle store, d)))
  rw [← Session.track_fst repairedCalls ((.idle store, d), false)]
  rcases htrack : Session.track repairedCalls ((.idle store, d), false) with
    ⟨⟨store' | tx, e⟩, hunsaved | hunsaved⟩
  all_goals rw [htrack] at htest hrun
  · cases htest
  · cases htest
  · refine reopening_gives_catalog (hrun.step .commit (fun _ => rfl) ?_)
    rintro _ - ⟨⟩ page hpage
    have hplace : page.number + 1 < 2 ^ 52 := of_decide_eq_true (List.all_eq_true.1 htest page hpage)
    exact hplace
  · cases htest

/-- A row that fits no page is refused, and the transaction is committed. -/
def unsavedCalls : List Call := [.begin, .createTable "t" [⟨"a", "INTEGER"⟩],
  .insertRow ⟨1⟩ (List.replicate 5000 0), .commit]

/-- The refused row has taken a page id in the committed catalog, which page 0 does not know. -/
theorem unsavedCalls_page_ids : onFresh (fun store d =>
    match Session.run unsavedCalls (.idle store, d) with
    | (.idle store', e) =>
        match Catalog.loadOrBootstrap dataFile e with
        | (.ok c, _) => c.nextPageId != store'.store.catalog.nextPageId
        | _ => false
    | _ => false) = true := by
  decide +kernel

theorem refused_row_not_in_step : ∃ store d, openTransactionalStore .data .wal fresh = (.ok store, d) ∧
    ¬ Session.CatalogStored (Session.run unsavedCalls (.idle store, d)) := by
  obtain ⟨store, d, hopen, htest⟩ := of_onFresh unsavedCalls_page_ids
  refine ⟨store, d, hopen, fun hstored => ?_⟩
  rcases hrun : Session.run unsavedCalls (.idle store, d) with ⟨store' | tx, e⟩
  · rw [hrun] at htest hstored
    obtain ⟨e', hload⟩ := hstored store' rfl
    simp only [hload, bne_self_eq_false] at htest
    cases htest
  · rw [hrun] at htest
    cases htest

end Rdbms
