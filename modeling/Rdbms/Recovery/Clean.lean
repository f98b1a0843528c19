import Rdbms.Recovery.Crash
import Rdbms.Recovery.Restart
import Rdbms.Tx.Autocommit
import Rdbms.Tx.Scripts

/-!
# The log and the data file of a session

On a disk without faults, a session keeps its two files in step: the data file is the one
it has found, with the pages written to it that a recovery pass over the log would put
back, in the same order. Recovery after a clean end of the session therefore changes
nothing.
-/

namespace Rdbms

open Library Disk ByteFile

/-! ## One log, one list of records -/

theorem records_unique {xs ys : List WalRecord} {w w' : WalWriter FileId} {d : Disk}
    (hx : LogReady xs w d) (hy : LogReady ys w' d) : ys = xs := by
  obtain ⟨e, -, hread⟩ := readAll_encodeLog .wal hx.faultFree hx.wal.bytes hx.wal.log
  obtain ⟨e', -, hread'⟩ := readAll_encodeLog .wal hy.faultFree hy.wal.bytes hy.wal.log
  rw [hread] at hread'
  cases hread'
  rfl

/-! ## What one call adds -/

namespace Session

/-- The records that a call adds on a disk without faults: a commit that returns logs its
pages and its marker, syncs the log and writes the pages; no other outcome of a call adds
a commit marker or changes the data file, and every image that is added is one of a page that
the transaction has staged. -/
inductive Adds (call : Call) (s t : Session × Disk) (new : List WalRecord) : Prop
  | other (markers : ∀ txId, .commitTx txId ∉ kindsOf new)
      (images : ∀ txId pageId page, .pageImage txId pageId page ∈ kindsOf new → ∃ tx, call = .commit ∧
        s.1 = active tx ∧ .pageImage txId pageId page ∈ imageKinds tx.txId tx.stagedPages)
      (data : t.2.data = s.2.data) (synced : s.2.walSynced ≤ t.2.walSynced) : Adds call s t new
  | commits {tx : Transaction FileId} (commit : call = .commit) (session : s.1 = active tx)
      (kinds : kindsOf new = imageKinds tx.txId tx.stagedPages ++ [.commitTx tx.txId])
      (data : (∀ page ∈ tx.stagedPages, Fits page.number) →
        t.2.data = s.2.data.putPages tx.stagedPages)
      (synced : t.2.walSynced = t.2.wal.bytes.length) : Adds call s t new

variable {records : List WalRecord} {call : Call} {s t : Session × Disk}

theorem adds_nothing {w : WalWriter FileId} (h : LogReady records w t.2)
    (hdata : t.2.data = s.2.data) (hsynced : s.2.walSynced ≤ t.2.walSynced) :
    ∃ new w', LogReady (records ++ new) w' t.2 ∧ Adds call s t new := by
  refine ⟨[], w, ?_, Adds.other nofun nofun hdata hsynced⟩
  rwa [List.append_nil]

/-- A commit whose log part has failed. -/
theorem adds_images {tx : Transaction FileId} {d : Disk} {kinds : List WalRecordKind}
    {w : WalWriter FileId} (h : Logged records d kinds w t.2)
    (hpart : kinds <+: imageKinds tx.txId tx.stagedPages) (hsynced : d.walSynced ≤ t.2.walSynced) :
    ∃ new w', LogReady (records ++ new) w' t.2 ∧ Adds .commit (active tx, d) t new := by
  obtain ⟨⟨new, hready, rfl⟩, hdata⟩ := h
  exact ⟨new, w, hready, Adds.other (commitTx_not_mem_images hpart)
    (fun _ _ _ hmem => ⟨tx, rfl, rfl, hpart.subset hmem⟩) hdata hsynced⟩

/-- A commit whose log part has returned. -/
theorem adds_commit {tx : Transaction FileId} {d e e' : Disk} {r : DbResult Unit}
    {w : WalWriter FileId} {t : Session} (hs : (active tx).Good) (h : LogReady records tx.manager.wal d)
    (hlog : Transaction.logCommit tx.txId tx.stagedPages (tx.manager.wal, d) = (.ok (), (w, e)))
    (hwrite : Transaction.writePages tx.manager.store.pageFile tx.stagedPages e = (r, e')) :
    ∃ new w', LogReady (records ++ new) w' e' ∧ Adds .commit (active tx, d) (t, e') new := by
  have hstaged := hs.staged tx rfl
  obtain ⟨new, hwal, honly, -, hall⟩ := logCommit_walAt hstaged.validAs h.wal hlog
  obtain ⟨hkinds, hsynced⟩ := hall rfl
  have hready : LogReady (records ++ new) w e := ⟨hwal, honly.faultFree h.faultFree⟩
  obtain ⟨hsame, -⟩ := writePages_crashOnly hs.data hwal.crashOnly hstaged.validAs hwrite
  refine ⟨new, w, hready.of_sameButData hsame, Adds.commits rfl rfl hkinds ?_ ?_⟩
  · intro hfits
    have hfile : tx.manager.store.pageFile = dataFile := congrArg PageFile.mk hs.data
    obtain ⟨e'', hrun, -, hdata⟩ :=
      Transaction.writePages_faultFree hready.faultFree hstaged.validAs hfits
    rw [hfile, hrun] at hwrite
    cases hwrite
    rw [hdata, honly.data]
  · rw [hsame.walSynced, hsame.wal, hsynced]

/-- What one call adds to the log. -/
theorem Does.adds (h : Does call s t) (hs : s.1.Good) (hready : LogReady records s.1.handle.wal s.2) :
    ∃ new w, LogReady (records ++ new) w t.2 ∧ Adds call s t new := by
  cases h with
  | @looks _ s d e hcall h =>
      exact adds_nothing (s := (s, d)) (hready.reads h) h.files.data h.files.walSynced.ge
  | @syncs store d =>
      obtain ⟨hwal, honly⟩ := storeSync_walAt hs.data hready.wal
      exact adds_nothing ⟨hwal, honly.faultFree hready.faultFree⟩ honly.data honly.synced
  | @starts store d e lsn w hroom h =>
      have hready : LogReady records store.wal d := hready
      rcases append_walAt hready.wal (.beginTx ⟨store.nextTxId⟩) with
        ⟨lsn', w', e', happend, hwal, honly⟩ | ⟨stop, w', e', happend, -⟩
      · rw [h] at happend
        cases happend
        refine ⟨_, w, ⟨hwal, honly.faultFree hready.faultFree⟩,
          Adds.other (fun txId hmem => ?_) (fun _ _ _ hmem => ?_) honly.data honly.synced⟩
        · cases List.mem_singleton.1 hmem
        · cases List.mem_singleton.1 hmem
      · rw [h] at happend
        cases happend
  | @startFails store d e stop w hroom h =>
      have hready : LogReady records store.wal d := hready
      rcases append_walAt hready.wal (.beginTx ⟨store.nextTxId⟩) with
        ⟨lsn', w', e', happend, -⟩ | ⟨stop', w', e', happend, hwal, honly⟩
      · rw [h] at happend
        cases happend
      · rw [h] at happend
        cases happend
        exact adds_nothing ⟨hwal, honly.faultFree hready.faultFree⟩ honly.data honly.synced
  | @stages _ tx tx' d e hcall h =>
      exact adds_nothing (s := (active tx, d)) (t := (active tx', e)) (hready.reads h.disk)
        h.disk.files.data h.disk.files.walSynced.ge
  | @logFails tx d e stop w h =>
      have hready : LogReady records tx.manager.wal d := hready
      have hstaged := (hs.staged tx rfl).validAs
      obtain ⟨-, -, honly, -⟩ := logCommit_walAt hstaged hready.wal h
      rcases logCommit_logged hstaged hready with ⟨w', e', hlog, -⟩ |
        ⟨message, w', e', hlog, -, kinds, hlogged, hpart⟩
      · rw [hlog] at h
        cases h
      · rw [hlog] at h
        cases h
        exact adds_images hlogged hpart honly.synced
  | dataFails h h' => exact adds_commit hs hready h h'
  | commits h h' => exact adds_commit hs hready h h'
  | @rollsBack tx d e r w h =>
      obtain ⟨new, hwal, honly, hpart⟩ := logAbort_walAt hready.wal h
      refine ⟨new, w, ⟨hwal, honly.faultFree hready.faultFree⟩,
        Adds.other (fun txId hmem => ?_) (fun _ _ _ hmem => ?_) honly.data honly.synced⟩
      · cases List.mem_singleton.1 (hpart.subset hmem)
      · cases List.mem_singleton.1 (hpart.subset hmem)
  | drops => exact adds_nothing hready rfl le_rfl

theorem Adds.image_staged {new : List WalRecord} (h : Adds call s t new) {txId : TxId}
    {pageId : PageId} {page : Page} (hmem : .pageImage txId pageId page ∈ kindsOf new) :
    ∃ tx, call = .commit ∧ s.1 = active tx ∧
      .pageImage txId pageId page ∈ imageKinds tx.txId tx.stagedPages := by
  cases h with
  | other markers images data synced => exact images txId pageId page hmem
  | @commits tx commit session kinds data synced =>
      rw [kinds, List.mem_append] at hmem
      exact ⟨tx, commit, session, hmem.resolve_right fun hmarker => by cases List.mem_singleton.1 hmarker⟩

end Session

/-! ## The files of a session -/

/-- The pages that a pass over the records puts back, in the order of the log. -/
def redone (records : List WalRecord) : List Page := (replayed records).map Prod.snd

/-- The session is on a disk without faults, its commit markers are durable, and the data
file is `base` with the pages written to it that a recovery pass would put back. -/
structure Mirrors (base : ByteFile) (records : List WalRecord) (logs : List TxLog)
    (s : Session × Disk) : Prop where
  history : Session.HasHistory base [] records logs s
  faultFree : FaultFree s.2
  data : SmallRecords records → s.2.data = base.putPages (redone records)
  durable : ∀ txId, .commitTx txId ∈ kindsOf records → Durable [] records s.2 txId

section Mirrors

variable {base : ByteFile} {records new : List WalRecord} {logs logs' : List TxLog}
  {s t : Session × Disk} {tried : List (TxId × List Page)}

theorem Mirrors.ready (h : Mirrors base records logs s) : LogReady records s.1.handle.wal s.2 :=
  ⟨h.history.history.wal, h.faultFree⟩

/-- What a pass over a part of the log puts back. -/
theorem redone_take {store : TransactionalStore FileId} {d : Disk}
    (h : History base [] records logs store d) (k : Nat) :
    redone (records.take k) = committedPages (committedIds (records.take k)) (attempts logs) := by
  rw [redone, replayed_take h, withIds, List.map_map, Function.comp_def, List.map_id',
    survivingPages]

theorem redone_eq {store : TransactionalStore FileId} {d : Disk}
    (h : History base [] records logs store d) :
    redone records = committedPages (committedIds records) (attempts logs) := by
  have hall := redone_take h records.length
  rwa [List.take_length] at hall

theorem committedPages_congr {ids ids' : List TxId} (h : ∀ c ∈ tried, c.1 ∈ ids ↔ c.1 ∈ ids') :
    committedPages ids tried = committedPages ids' tried := by
  rw [committedPages, committedPages]
  congr 1
  exact List.filter_congr fun c hc => decide_eq_decide.2 (h c hc)

theorem committedPages_append (ids : List TxId) (xs ys : List (TxId × List Page)) :
    committedPages ids (xs ++ ys) = committedPages ids xs ++ committedPages ids ys := by
  rw [committedPages, List.filter_append, List.flatMap_append, committedPages, committedPages]

/-- The log has grown by records that do not commit any of the transactions so far. -/
theorem redone_append (h : Session.HasHistory base [] records logs s)
    (h' : Session.HasHistory base [] (records ++ new) logs' t)
    (htried : attempts logs' = attempts logs ++ tried)
    (hnew : ∀ c ∈ attempts logs, .commitTx c.1 ∉ kindsOf new) :
    redone (records ++ new) =
      redone records ++ committedPages (committedIds (records ++ new)) tried := by
  rw [redone_eq h'.history, htried, committedPages_append, redone_eq h.history]
  congr 1
  refine committedPages_congr fun c hc => ?_
  rw [mem_committedIds, mem_committedIds, kindsOf_append, List.mem_append]
  exact ⟨fun hmem => hmem.resolve_right (hnew c hc), Or.inl⟩

theorem mem_attempts_txId {c : TxId × List Page} (h : c ∈ attempts logs) :
    c.1 ∈ logs.map TxLog.txId := by
  obtain ⟨t, ht, htxId, -⟩ := mem_attempts.1 h
  exact List.mem_map.2 ⟨t, ht, htxId⟩

/-- The active transaction is none of those that have come to a commit. -/
theorem Session.HasHistory.txId_not_mem {tx : Transaction FileId} {d : Disk}
    (h : Session.HasHistory base [] records logs (.active tx, d)) :
    ∀ c ∈ attempts logs, c.1 ≠ tx.txId := by
  obtain ⟨hhist, front, rfl⟩ := h
  intro c hc heq
  rw [attempts_append, List.mem_append] at hc
  have hnodup := hhist.nodup
  rw [List.map_append, List.nodup_append] at hnodup
  rcases hc with hc | hc
  · exact hnodup.2.2 _ (mem_attempts_txId hc) _ (List.mem_singleton_self _) heq
  · obtain ⟨t, ht, -, hattempt⟩ := mem_attempts.1 hc
    rw [List.mem_singleton.1 ht] at hattempt
    cases hattempt

/-- The log has no commit marker of the active transaction. -/
theorem Session.HasHistory.not_committed {tx : Transaction FileId} {d : Disk}
    (h : Session.HasHistory base [] records logs (.active tx, d)) :
    .commitTx tx.txId ∉ kindsOf records := by
  obtain ⟨hhist, front, rfl⟩ := h
  rw [hhist.kinds]
  intro hmem
  obtain ⟨t, ht, hkind⟩ := List.mem_flatMap.1 hmem
  have hid : tx.txId = t.txId := Option.some.inj ((hhist.ok t ht).owner hkind)
  have hnodup := hhist.nodup
  rw [List.map_append, List.nodup_append] at hnodup
  rcases List.mem_append.1 ht with hfront | hlast
  · exact hnodup.2.2 _ (List.mem_map_of_mem hfront) _ (List.mem_singleton_self _) hid.symm
  · rw [List.mem_singleton.1 hlast] at hkind
    cases List.mem_singleton.1 hkind

/-- In a log that has been synced as a whole, every commit marker is durable. -/
theorem durable_of_synced {w : WalWriter FileId} {d : Disk} {txId : TxId}
    (h : WalAt records w d) (hsynced : d.walSynced = d.wal.bytes.length)
    (hmem : .commitTx txId ∈ kindsOf records) : Durable [] records d txId := by
  obtain ⟨⟨lsn, kind⟩, hrecord, rfl⟩ := List.mem_map.1 hmem
  obtain ⟨front, back, rfl⟩ := List.append_of_mem hrecord
  refine ⟨front, lsn, back, rfl, ?_⟩
  have hsplit := encodeLog_append (front ++ [⟨lsn, .commitTx txId⟩]) back
  rw [← List.append_cons] at hsplit
  rw [hsynced, h.bytes, hsplit, List.length_append, List.nil_append]
  exact Nat.le_add_right _ _

/-- A commit that a call comes to without logging a marker puts nothing back. -/
theorem committedPages_commitOf {call : Call}
    (h : Session.HasHistory base [] records logs s) (hnew : ∀ txId, .commitTx txId ∉ kindsOf new) :
    committedPages (committedIds (records ++ new)) (Session.commitOf call s.1) = [] := by
  rw [committedPages, List.flatMap_eq_nil_iff]
  intro c hc
  obtain ⟨hc, hmarker⟩ := List.mem_filter.1 hc
  exfalso
  obtain ⟨s, d⟩ := s
  cases s with
  | idle store => cases call <;> cases hc
  | active tx =>
      cases call
      case commit =>
        rw [List.mem_singleton.1 hc, decide_eq_true_eq, mem_committedIds, kindsOf_append,
          List.mem_append] at hmarker
        exact hmarker.elim h.not_committed (hnew _)
      all_goals cases hc

/-- One call of a session. -/
theorem Mirrors.step (h : Mirrors base records logs s) (hs : s.1.Good) (call : Call) :
    ∃ new logs', Mirrors base (records ++ new) logs' (Session.step call s) ∧
      attempts logs' = attempts logs ++ Session.commitOf call s.1 ∧
      ∀ c ∈ attempts logs, .commitTx c.1 ∉ kindsOf new := by
  have hdoes := Session.step_does hs call s.2
  obtain ⟨new, w, hready, hadds⟩ := hdoes.adds hs h.ready
  obtain ⟨new', logs', hhist, htried⟩ := hdoes.continues hs h.history
  rw [show Session.step call s = Session.step call (s.1, s.2) from rfl]
  generalize Session.step call (s.1, s.2) = t at hdoes hready hadds hhist ⊢
  have hsame : new' = new := by
    have hready' : LogReady (records ++ new') t.1.handle.wal t.2 :=
      ⟨hhist.history.wal, hready.faultFree⟩
    exact List.append_cancel_left (records_unique hready hready')
  subst hsame
  cases hadds with
  | other hmarkers _ hdata hsynced =>
      have hnew : ∀ c ∈ attempts logs, .commitTx c.1 ∉ kindsOf new' := fun c _ => hmarkers c.1
      refine ⟨new', logs', ⟨hhist, hready.faultFree, fun hsmall => ?_, ?_⟩, htried, hnew⟩
      · rw [hdata, h.data (smallRecords_append.1 hsmall).1, redone_append h.history hhist htried hnew,
          committedPages_commitOf h.history hmarkers, List.append_nil]
      · intro txId hmem
        rw [kindsOf_append, List.mem_append] at hmem
        exact (h.durable txId (hmem.resolve_right (hmarkers txId))).mono new' hsynced
  | @commits tx hcommit hsession hkinds hdata hsynced =>
      obtain ⟨s, d⟩ := s
      obtain rfl : s = .active tx := hsession
      subst hcommit
      have hnew : ∀ c ∈ attempts logs, .commitTx c.1 ∉ kindsOf new' := by
        intro c hc hmem
        rw [hkinds, List.mem_append] at hmem
        rcases hmem with himage | hmarker
        · exact commitTx_not_mem_images List.prefix_rfl _ himage
        · have hid : c.1 = tx.txId := by simpa using hmarker
          exact h.history.txId_not_mem c hc hid
      refine ⟨new', logs', ⟨hhist, hready.faultFree, fun hsmall => ?_, ?_⟩, htried, hnew⟩
      · have hmarker : tx.txId ∈ committedIds (records ++ new') := by
          rw [mem_committedIds, kindsOf_append, hkinds]
          simp
        have hpages : committedPages (committedIds (records ++ new'))
            (Session.commitOf .commit (.active tx)) = tx.stagedPages := by
          simp [committedPages, Session.commitOf, hmarker]
        have hfits : ∀ page ∈ tx.stagedPages, Fits page.number := by
          intro page hpage
          have himage : .pageImage tx.txId page.id page ∈ kindsOf new' := by
            rw [hkinds]
            exact List.mem_append_left _ (List.mem_map_of_mem hpage)
          exact (smallRecords_append.1 hsmall).2.fits himage
        rw [hdata hfits, h.data (smallRecords_append.1 hsmall).1, redone_append h.history hhist htried hnew, hpages,
          putPages_append]
      · exact fun txId hmem => durable_of_synced hready.wal hsynced hmem

/-- A whole run. -/
theorem Mirrors.run (h : Mirrors base records logs s) (hs : s.1.Good) (calls : List Call) :
    ∃ new logs', Mirrors base (records ++ new) logs' (Session.run calls s) ∧
      attempts logs' = attempts logs ++ Session.commits calls s ∧
      ∀ c ∈ attempts logs, .commitTx c.1 ∉ kindsOf new := by
  induction calls generalizing s records logs with
  | nil =>
      refine ⟨[], logs, ?_, (List.append_nil _).symm, fun c _ hmem => by cases hmem⟩
      rw [List.append_nil]
      exact h
  | cons call calls ih =>
      obtain ⟨new, logs', h', htried, hnew⟩ := h.step hs call
      obtain ⟨new', logs'', h'', htried', hnew'⟩ := ih h' (Session.step_good hs call)
      refine ⟨new ++ new', logs'', ?_, ?_, fun c hc hmem => ?_⟩
      · rw [← List.append_assoc]
        exact h''
      · rw [htried', htried, Session.commits, List.append_assoc]
      · rw [kindsOf_append, List.mem_append] at hmem
        refine hmem.elim (hnew c hc) (hnew' c ?_)
        rw [htried]
        exact List.mem_append_left _ hc

theorem open_faultFree {d₀ d : Disk} {store : TransactionalStore FileId} (hfree : FaultFree d₀)
    (hopen : openTransactionalStore .data .wal d₀ = (.ok store, d)) : FaultFree d := by
  obtain ⟨catalogStore, u, hcatalog, h⟩ := Exec.bind_eq_ok.1 hopen
  obtain ⟨w, u', hwriter, h⟩ := Exec.bind_eq_ok.1 h
  obtain ⟨len, v, hlen, hwriter⟩ := Exec.bind_eq_ok.1 hwriter
  cases hwriter
  cases h
  have hsame := (openCatalog_sameButData ⟨.data⟩ rfl).rel hcatalog
  have hfiles := (len_onlyReads .wal).rel hlen
  intro n
  rw [hfiles.files.faults, hsame.faults]
  exact hfree n

/-- A session that has just been opened on an empty log. -/
theorem mirrors_open {d₀ d : Disk} {store : TransactionalStore FileId} (hfree : FaultFree d₀)
    (hwal : d₀.wal.bytes = []) (hsynced : d₀.walSynced = 0)
    (hopen : openTransactionalStore .data .wal d₀ = (.ok store, d)) :
    Mirrors d.data [] [] (.idle store, d) where
  history := open_history hfree.crashOnly hwal hsynced hopen
  faultFree := open_faultFree hfree hopen
  data := fun _ => rfl
  durable := fun txId hmem => by cases hmem

/-- An image that is put back is one of the log. -/
theorem mem_kindsOf_of_replayed {image : PageId × Page} (h : image ∈ replayed records) :
    ∃ txId, .pageImage txId image.1 image.2 ∈ kindsOf records := by
  obtain ⟨⟨lsn, kind⟩, hrecord, hreplayed⟩ := List.mem_filterMap.1 h
  have hkind : kind ∈ kindsOf records := List.mem_map_of_mem hrecord
  cases kind with
  | pageImage txId pageId page =>
      simp only [replayedImage] at hreplayed
      split at hreplayed
      · cases hreplayed
        exact ⟨txId, hkind⟩
      · cases hreplayed
  | beginTx txId => cases hreplayed
  | commitTx txId => cases hreplayed
  | abortTx txId => cases hreplayed
  | checkpoint => cases hreplayed

/-- The images of a part of the log that are put back are accepted. -/
theorem Mirrors.redoable (h : Mirrors base records logs s) (hsmall : SmallRecords records) (k : Nat) :
    ∀ image ∈ replayed (records.take k), Redoable image := by
  intro image himage
  obtain ⟨txId, hkind⟩ := mem_kindsOf_of_replayed himage
  rw [replayed_take h.history.history] at himage
  obtain ⟨page, hpage, rfl⟩ := List.mem_map.1 himage
  have hmem : .pageImage txId page.id page ∈ kindsOf records :=
    (List.take_subset k records |> List.map_subset WalRecord.kind) hkind
  exact ⟨validAs_of_surviving h.history.history hpage, hsmall.fits hmem⟩

theorem Mirrors.fits (h : Mirrors base records logs s) (hsmall : SmallRecords records) (k : Nat) :
    ∀ page ∈ redone (records.take k), Fits page.number := by
  intro page hpage
  obtain ⟨image, himage, rfl⟩ := List.mem_map.1 hpage
  exact (h.redoable hsmall k image himage).2

end Mirrors

/-- A session on an empty log makes any calls, on a disk without faults. Recovery over the
files that it leaves behind returns, puts back every page that the session has committed,
and changes no byte of either file. -/
theorem recovery_after_clean_end {d₀ d : Disk} {store : TransactionalStore FileId}
    (hfree : FaultFree d₀) (hwal : d₀.wal.bytes = []) (hsynced : d₀.walSynced = 0)
    (hopen : openTransactionalStore .data .wal d₀ = (.ok store, d)) (calls : List Call)
    (hsmall : PageIdsSmall (Session.run calls (.idle store, d)).2) :
    ∃ report e, recoverPageFile ⟨FileId.data⟩ .wal (Session.run calls (.idle store, d)).2 =
        (.ok ⟨⟨.data⟩, report⟩, e) ∧
      e.data = (Session.run calls (.idle store, d)).2.data ∧
      e.wal = (Session.run calls (.idle store, d)).2.wal := by
  obtain ⟨records, logs, h, -, -⟩ := (mirrors_open hfree hwal hsynced hopen).run (open_good hopen) calls
  rw [List.nil_append] at h
  generalize Session.run calls (.idle store, d) = s at h hsmall
  have hrecords := hsmall.smallRecords h.ready
  have hredo := h.redoable hrecords records.length
  have hfits := h.fits hrecords records.length
  rw [List.take_length] at hredo hfits
  obtain ⟨e, hrun, hdata, hlog⟩ := recoverPageFile_eq h.faultFree h.ready.wal.bytes h.ready.wal.log hredo
  refine ⟨_, e, hrun, ?_, hlog⟩
  have hagain : AgreeUpTo (redone records) d.data (d.data.putPages (redone records)) :=
    agree_putPages (fun page hpage => hpage) hfits
  rw [hdata, h.data hrecords]
  exact hagain.putPages hfits

/-! ## The page ids of a careful caller -/

/-- The pages that a commit logs have been handed out by the catalog, if no call has failed. -/
theorem Sound.pageIdsSmall {s : Session × Disk} {b : Book} (h : Sound s b) (hs : s.1.Good)
    (hsmall : PageIdsSmall s.2) (call : Call)
    (hcareful : call = .commit → b.failed = false ∧ s.1.catalog.nextPageId.toNat ≤ 2 ^ 51) :
    PageIdsSmall (Session.step call s).2 := by
  obtain ⟨records, held₀, hcommitted, -⟩ := h.committed
  have hrecords := hsmall.smallRecords hcommitted.log
  obtain ⟨new, w, hready, hadds⟩ := (Session.step_does hs call s.2).adds hs hcommitted.log
  refine pageIdsSmall_of_ready hready (smallRecords_append.2 ⟨hrecords, fun kind hkind => ?_⟩)
  cases kind with
  | pageImage txId pageId page =>
      obtain ⟨tx, hcommit, hsession, hmem⟩ := hadds.image_staged hkind
      obtain ⟨hfailed, hids⟩ := hcareful hcommit
      obtain ⟨held, hsettled, -⟩ := (h.active tx hsession).2 hfailed
      rw [hsession, Session.catalog] at hids
      exact hsettled.small_images hids tx.txId _ (List.mem_append_left _ hmem)
  | beginTx txId => rfl
  | commitTx txId => rfl
  | abortTx txId => rfl
  | checkpoint => rfl

theorem Careful.good {s : Session × Disk} {b : Book} (h : Careful s b) : s.1.Good := by
  induction h with
  | opened hopen => exact open_good hopen
  | step h call careful pageIds ih => exact Session.step_good ih call

theorem Careful.pageIdsSmall {s : Session × Disk} {b : Book} (h : Careful s b) :
    PageIdsSmall s.2 := by
  induction h with
  | opened hopen =>
      obtain ⟨store, d, hfresh, hcommitted, -⟩ := open_fresh
      rw [hfresh] at hopen
      cases hopen
      exact pageIdsSmall_of_ready hcommitted.log nofun
  | step h call careful pageIds ih =>
      exact h.sound.pageIdsSmall h.good ih call fun hcall => ⟨careful hcall, h.pageIds⟩

theorem recovery_after_clean_end_one_table : ∃ store d store' d' report e,
    openTransactionalStore .data .wal fresh = (.ok store, d) ∧
    Session.run indexedCalls (.idle store, d) = (.idle store', d') ∧
    store'.store.catalog = indexedTable ∧
    recoverPageFile ⟨FileId.data⟩ .wal d' = (.ok ⟨⟨.data⟩, report⟩, e) ∧ e.data = d'.data := by
  obtain ⟨store, d, store', d', hopen, hrun, hcareful, hcatalog⟩ := careful_indexed_row
  obtain ⟨report, e, hrecover, hdata, -⟩ :=
    recovery_after_clean_end fresh_faultFree rfl rfl hopen indexedCalls
      (by rw [hrun]; exact hcareful.pageIdsSmall)
  rw [hrun] at hrecover hdata
  exact ⟨store, d, store', d', report, e, hopen, hrun, hcatalog, hrecover, hdata⟩

end Rdbms
