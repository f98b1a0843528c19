import Rdbms.Tx.View

/-!
# Transactions on a disk without faults

Without faults a call of the log can fail in one way only, when the log sequence
numbers are used up, and it then adds nothing. A commit either has its full
effect, or it stops before its marker is logged and leaves the data file alone.
-/

namespace Rdbms

open Library Disk ByteFile

/-- The log of a fault-free disk. -/
structure LogReady (records : List WalRecord) (w : WalWriter FileId) (d : Disk) : Prop where
  wal : WalAt records w d
  faultFree : FaultFree d

/-- The log has been extended by records of the given kinds, and the data file is as
before. -/
structure Logged (records : List WalRecord) (d : Disk) (kinds : List WalRecordKind)
    (w : WalWriter FileId) (e : Disk) : Prop where
  ready : ∃ new, LogReady (records ++ new) w e ∧ kindsOf new = kinds
  data : e.data = d.data

/-- There are not enough sequence numbers left to log the kinds. -/
def Full (records : List WalRecord) (kinds : List WalRecordKind) : Prop :=
  2 ^ 64 ≤ totalLen (kindsOf records) + totalLen kinds

section Log

variable {records : List WalRecord} {w : WalWriter FileId} {d : Disk}

theorem length_encodeLog (records : List WalRecord) :
    (encodeLog records).length = totalLen (kindsOf records) := by
  induction records with
  | nil => rfl
  | cons record records ih =>
      rw [encodeLog, List.flatMap_cons, List.length_append, WalRecord.length_bytes, ← encodeLog, ih,
        kindsOf, kindsOf, List.map_cons, totalLen_cons]

theorem totalLen_append (xs ys : List WalRecordKind) :
    totalLen (xs ++ ys) = totalLen xs + totalLen ys := by
  rw [totalLen, List.map_append, List.sum_append, totalLen, totalLen]

theorem LogReady.next (h : LogReady records w d) :
    w.allocator.next.val.toNat = totalLen (kindsOf records) := by
  rw [h.wal.next h.faultFree.not_down, h.wal.bytes, length_encodeLog]

theorem Full.mono {kinds kinds' : List WalRecordKind} (h : Full records kinds) (hfirst : kinds <+: kinds') :
    Full records kinds' := by
  obtain ⟨rest, rfl⟩ := hfirst
  rw [Full, totalLen_append]
  exact h.trans (by omega)

theorem OnlyLogs.faultFree {d e : Disk} (h : OnlyLogs d e) (hd : FaultFree d) : FaultFree e := by
  intro n
  rw [h.faults]
  exact hd n

theorem LogReady.logged_nil (h : LogReady records w d) : Logged records d [] w d where
  ready := ⟨[], by rwa [List.append_nil], rfl⟩
  data := rfl

theorem kindsOf_append (xs ys : List WalRecord) : kindsOf (xs ++ ys) = kindsOf xs ++ kindsOf ys :=
  List.map_append

/-- What is logged next continues what has been logged. -/
theorem Logged.next {kinds : List WalRecordKind} {e : Disk} (h : Logged records d kinds w e) :
    ∃ records', LogReady records' w e ∧
      (∀ {kinds' w' e'}, Logged records' e kinds' w' e' → Logged records d (kinds ++ kinds') w' e') ∧
      ∀ {kinds'}, Full records' kinds' → Full records (kinds ++ kinds') := by
  obtain ⟨new, hready, hkinds⟩ := h.ready
  refine ⟨records ++ new, hready, ?_, ?_⟩
  swap
  · intro kinds' hfull
    rw [Full, kindsOf_append, hkinds, totalLen_append] at hfull
    rw [Full, totalLen_append]
    omega
  rintro kinds' w' e' ⟨⟨new', hready', hkinds'⟩, hdata⟩
  refine ⟨⟨new ++ new', ?_, ?_⟩, hdata.trans h.data⟩
  · rwa [← List.append_assoc]
  · rw [kindsOf_append, hkinds, hkinds']

/-- An append adds its record, or there is no room for it. -/
theorem append_logged (h : LogReady records w d) (kind : WalRecordKind) :
    (∃ lsn w' e, WalWriter.append kind (w, d) = (.ok lsn, (w', e)) ∧
      Logged records d [kind] w' e) ∨
    (WalWriter.append kind (w, d) = (DbResult.user "wal lsn overflow", (w, d)) ∧
      Full records [kind]) := by
  by_cases hroom : w.allocator.next.val.toNat + kind.encodedLen < 2 ^ 64
  case neg =>
    refine Or.inr ⟨append_of_full hroom, ?_⟩
    rw [h.next, not_lt] at hroom
    simpa [Full, totalLen] using hroom
  refine Or.inl ?_
  rcases append_walAt h.wal kind with ⟨lsn, w', e, happend, hwal, honly⟩ |
    ⟨stop, w', e, happend, -, -⟩
  · exact ⟨lsn, w', e, happend, ⟨[⟨lsn, kind⟩], ⟨hwal, honly.faultFree h.faultFree⟩, rfl⟩,
      honly.data⟩
  · rw [append_of_noFault hroom h.faultFree.nextFault] at happend
    cases happend

theorem syncWal_logged (h : LogReady records w d) :
    ∃ e, w.syncData d = (.ok (), e) ∧ Logged records d [] w e := by
  rcases syncWal_walAt h.wal with ⟨e, hsync, hwal, honly, -⟩ | ⟨stop, e, hsync, -, -⟩
  · refine ⟨e, hsync, ⟨[], ⟨?_, honly.faultFree h.faultFree⟩, rfl⟩, honly.data⟩
    rwa [List.append_nil]
  · simp only [WalWriter.syncData, vfs_syncData, syncData, h.faultFree.nextFault] at hsync
    cases hsync

/-- The images are logged, or some of them and the log is full. -/
theorem logImages_logged {txId : TxId} {pages : List Page}
    (hpages : ∀ page ∈ pages, ∃ pageId, page.ValidAs pageId) :
    ∀ {records : List WalRecord} {w : WalWriter FileId} {d : Disk}, LogReady records w d →
    (∃ w' e, Transaction.logImages txId pages (w, d) = (.ok (), (w', e)) ∧
      Logged records d (imageKinds txId pages) w' e) ∨
    (∃ message w' e, Transaction.logImages txId pages (w, d) = (DbResult.user message, (w', e)) ∧
      Full records (imageKinds txId pages) ∧
      ∃ kinds, Logged records d kinds w' e ∧ kinds <+: imageKinds txId pages) := by
  induction pages with
  | nil =>
      intro records w d h
      exact Or.inl ⟨w, d, rfl, h.logged_nil⟩
  | cons page pages ih =>
      intro records w d h
      rw [List.forall_mem_cons] at hpages
      obtain ⟨pageId, hvalid⟩ := hpages.1
      rw [logImages_cons hvalid]
      rcases append_logged h (.pageImage txId page.id page) with
        ⟨lsn, w', e, happend, hlogged⟩ | ⟨happend, hfull⟩
      · obtain ⟨records', hready, hnext, hfull⟩ := hlogged.next
        rw [Exec.bind_of_ok happend]
        rcases ih hpages.2 hready with ⟨w'', e', hrun, hlogged'⟩ |
          ⟨message, w'', e', hrun, hfull', kinds, hlogged', hprefix⟩
        · exact Or.inl ⟨w'', e', hrun, hnext hlogged'⟩
        · exact Or.inr ⟨message, w'', e', hrun, hfull hfull', _, hnext hlogged',
            List.cons_prefix_cons.2 ⟨rfl, hprefix⟩⟩
      · exact Or.inr ⟨_, w, d, Exec.bind_of_error happend, hfull.mono (List.prefix_append [_] _), [],
          h.logged_nil, List.nil_prefix⟩

/-- The log part of a commit writes all it sets out to, or stops before the marker. -/
theorem logCommit_logged {txId : TxId} {pages : List Page}
    (hpages : ∀ page ∈ pages, ∃ pageId, page.ValidAs pageId) (h : LogReady records w d) :
    (∃ w' e, Transaction.logCommit txId pages (w, d) = (.ok (), (w', e)) ∧
      Logged records d (imageKinds txId pages ++ [.commitTx txId]) w' e) ∨
    (∃ message w' e, Transaction.logCommit txId pages (w, d) = (DbResult.user message, (w', e)) ∧
      Full records (imageKinds txId pages ++ [.commitTx txId]) ∧
      ∃ kinds, Logged records d kinds w' e ∧ kinds <+: imageKinds txId pages) := by
  rcases logImages_logged hpages h with ⟨w₁, e₁, himages, hlogged⟩ |
    ⟨message, w₁, e₁, himages, hfull, kinds, hlogged, hprefix⟩
  · obtain ⟨records', hready, hnext, hfull⟩ := hlogged.next
    rw [Transaction.logCommit, Exec.bind_of_ok himages]
    rcases append_logged hready (.commitTx txId) with ⟨lsn, w₂, e₂, happend, hlogged₂⟩ |
      ⟨happend, hfull'⟩
    · obtain ⟨records'', hready₂, hnext₂, -⟩ := (hnext hlogged₂).next
      obtain ⟨e₃, hsync, hlogged₃⟩ := syncWal_logged hready₂
      refine Or.inl ⟨w₂, e₃, ?_, by simpa using hnext₂ hlogged₃⟩
      simp only [Exec.bind_apply, happend, Exec.get_apply, Exec.onRight_apply, hsync]
    · exact Or.inr ⟨_, w₁, e₁, Exec.bind_of_error happend, hfull hfull', _, hlogged, List.prefix_rfl⟩
  · exact Or.inr ⟨message, w₁, e₁, Exec.bind_of_error himages, hfull.mono (List.prefix_append _ _),
      kinds, hlogged, hprefix⟩

theorem logAbort_logged (txId : TxId) (h : LogReady records w d) :
    (∃ w' e, Transaction.logAbort txId (w, d) = (.ok (), (w', e)) ∧
      Logged records d [.abortTx txId] w' e) ∨
    (Transaction.logAbort txId (w, d) = (DbResult.user "wal lsn overflow", (w, d)) ∧
      Full records [.abortTx txId]) := by
  rcases append_logged h (.abortTx txId) with ⟨lsn, w₁, e₁, happend, hlogged⟩ | ⟨happend, hfull⟩
  · obtain ⟨records', hready, hnext, -⟩ := hlogged.next
    obtain ⟨e₂, hsync, hlogged₂⟩ := syncWal_logged hready
    refine Or.inl ⟨w₁, e₂, ?_, by simpa using hnext hlogged₂⟩
    simp only [Transaction.logAbort, Exec.bind_apply, happend, Exec.get_apply, Exec.onRight_apply,
      hsync]
  · refine Or.inr ⟨?_, hfull⟩
    simp only [Transaction.logAbort, Exec.bind_apply, happend]

theorem LogReady.of_sameButData {e : Disk} (h : LogReady records w d)
    (hsame : SameButData d e) : LogReady records w e := by
  have he : FaultFree e := by
    intro n
    rw [hsame.faults]
    exact h.faultFree n
  refine ⟨⟨h.wal.file, ?_, h.wal.log, he.crashOnly, ?_, ?_⟩, he⟩
  · rw [hsame.wal, h.wal.bytes]
  · rw [hsame.walSynced, hsame.wal]
    exact h.wal.synced
  · intro _
    rw [hsame.wal]
    exact h.wal.next h.faultFree.not_down

end Log

/-! ## The ends of a transaction -/

namespace Transaction

variable {records : List WalRecord} {tx : Transaction FileId} {d : Disk}

theorem writePages_faultFree {pages : List Page} (hd : FaultFree d)
    (hpages : ∀ page ∈ pages, ∃ pageId, page.ValidAs pageId)
    (hfits : ∀ page ∈ pages, Fits page.number) :
    ∃ e, writePages dataFile pages d = (.ok (), e) ∧ SameButData d e ∧
      e.data = d.data.putPages pages := by
  rcases hrun : writePages dataFile pages d with ⟨r, e⟩
  obtain ⟨hsame, -, k, hdata, -, hall, hend⟩ :=
    writePages_crashOnly dataFile_file hd.crashOnly hpages hrun
  have he : FaultFree e := by
    intro n
    rw [hsame.faults]
    exact hd n
  have hok := (hend hfits).resolve_right he.not_down
  subst hok
  refine ⟨e, rfl, hsame, ?_⟩
  rw [hdata, hall rfl]

/-- What a commit does on a disk without faults. -/
inductive Commits (records : List WalRecord) (tx : Transaction FileId) (d : Disk) :
    DbResult Unit × (Transaction FileId × Disk) → Prop
  | done {new : List WalRecord} {w : WalWriter FileId} {e : Disk}
      (ready : LogReady (records ++ new) w e)
      (kinds : kindsOf new = imageKinds tx.txId tx.stagedPages ++ [.commitTx tx.txId])
      (data : e.data = d.data.putPages tx.stagedPages) :
      Commits records tx d (.ok (), ({ tx with manager := tx.published w, state := .committed }, e))
  | full {message : String} {w : WalWriter FileId} {e : Disk} {kinds : List WalRecordKind}
      (logged : Logged records d kinds w e)
      (images : kinds <+: imageKinds tx.txId tx.stagedPages)
      (full : Full records (imageKinds tx.txId tx.stagedPages ++ [.commitTx tx.txId])) :
      Commits records tx d (DbResult.user message, (tx.withWal w, e))

theorem commit_commits (h : LogReady records tx.manager.wal d) (hstate : tx.state = .active)
    (hfile : tx.manager.store.pageFile = dataFile) (hstaged : tx.StagedValid)
    (hfits : ∀ page ∈ tx.stagedPages, Fits page.number) : Commits records tx d (commit (tx, d)) := by
  rw [commit_eq hstate]
  rcases logCommit_logged hstaged.validAs h with ⟨w, e, hlog, hlogged⟩ |
    ⟨message, w, e, hlog, hfull, kinds, hlogged, hprefix⟩
  · obtain ⟨new, hready, hkinds⟩ := hlogged.ready
    obtain ⟨e', hwrite, hsame, hdata⟩ :=
      writePages_faultFree hready.faultFree hstaged.validAs hfits
    rw [hlog, hfile]
    simp only [hwrite]
    exact Commits.done (hready.of_sameButData hsame) hkinds (by rw [hdata, hlogged.data])
  · rw [hlog]
    exact Commits.full hlogged hprefix hfull

/-- A rollback gives the store back with its catalog and its data file as they were. -/
theorem rollback_logged (h : LogReady records tx.manager.wal d) (hstate : tx.state = .active) :
    ∃ r w e kinds, rollback (tx, d) = (r, ({ tx with
        manager := tx.released w
        dirtyPages := ∅
        state := .rolledBack }, e)) ∧ (r = .ok () ∨ r = DbResult.user "wal lsn overflow") ∧
      Logged records d kinds w e ∧ kinds <+: [.abortTx tx.txId] := by
  rw [rollback_eq hstate]
  rcases logAbort_logged tx.txId h with ⟨w, e, hlog, hlogged⟩ | ⟨hlog, -⟩
  · rw [hlog]
    exact ⟨_, w, e, _, rfl, Or.inl rfl, hlogged, List.prefix_rfl⟩
  · rw [hlog]
    exact ⟨_, tx.manager.wal, d, [], rfl, Or.inr rfl, h.logged_nil, List.nil_prefix⟩

end Transaction

/-- Starting a transaction on a free store. -/
theorem TransactionalStore.begin_logged {records : List WalRecord} {d : Disk}
    {store : TransactionalStore FileId} (h : LogReady records store.wal d)
    (hfree : store.activeWriter = false) :
    (∃ w e, begin (store, d) = (.ok (store.started w), (store.advanced w true, e)) ∧
      Logged records d [.beginTx ⟨store.nextTxId⟩] w e) ∨
    (∃ message store', begin (store, d) = (DbResult.user message, (store', d)) ∧
      store'.store = store.store ∧ store'.wal = store.wal ∧ store'.activeWriter = false ∧
      (2 ^ 64 ≤ store.nextTxId.toNat + 1 ∨ Full records [.beginTx ⟨store.nextTxId⟩])) := by
  have hbusy : ¬ store.activeWriter = true := by
    rw [hfree]
    exact Bool.false_ne_true
  by_cases hroom : store.nextTxId.toNat + 1 ≥ 2 ^ 64
  · exact Or.inr ⟨_, store, begin_of_full hbusy hroom, rfl, rfl, hfree, Or.inl hroom⟩
  · rw [begin_eq hbusy hroom]
    rcases append_logged h (.beginTx ⟨store.nextTxId⟩) with
      ⟨lsn, w, e, happend, hlogged⟩ | ⟨happend, hfull⟩
    · rw [happend]
      exact Or.inl ⟨w, e, rfl, hlogged⟩
    · rw [happend]
      exact Or.inr ⟨_, _, rfl, rfl, rfl, rfl, Or.inr hfull⟩

end Rdbms
