import Rdbms.Tx.Staging
import Rdbms.Wal.Append

/-!
# The calls that write

Only three calls write to a file: `begin` and `rollback` append a marker to the
log, and `commit` appends the images of the staged pages and a marker, syncs the
log and then writes the pages to the data file. This module says what each of
them does to the handle and to the disk, whatever fault it meets.
-/

namespace Rdbms

open Library Disk

namespace TransactionalStore

variable {store : TransactionalStore FileId} {d : Disk}

/-- The store after it has handed out a transaction id, with the log writer `w`. -/
def advanced (store : TransactionalStore FileId) (w : WalWriter FileId) (active : Bool) :
    TransactionalStore FileId :=
  { store with wal := w, nextTxId := store.nextTxId + 1, activeWriter := active }

/-- The transaction that starts from the store. -/
def started (store : TransactionalStore FileId) (w : WalWriter FileId) : Transaction FileId where
  manager := store.advanced w true
  txId := ⟨store.nextTxId⟩
  workingCatalog := store.store.catalog
  dirtyPages := ∅
  state := .active

theorem begin_of_busy (h : store.activeWriter = true) :
    begin (store, d) = (DbResult.retryable "a write transaction is already active", (store, d)) := by
  simp only [begin, Exec.bind_apply, Exec.get_apply, Exec.liftM_apply, failIf_of h]

theorem begin_of_full (h : ¬ store.activeWriter = true) (hfull : store.nextTxId.toNat + 1 ≥ 2 ^ 64) :
    begin (store, d) = (DbResult.user "transaction id overflow", (store, d)) := by
  simp only [begin, allocateTxId, Exec.bind_apply, Exec.get_apply, Exec.liftM_apply,
    failIf_of_not h, failIf_of hfull]

/-- A free store logs the start of the transaction. -/
theorem begin_eq (h : ¬ store.activeWriter = true) (hroom : ¬ store.nextTxId.toNat + 1 ≥ 2 ^ 64) :
    begin (store, d) =
      match WalWriter.append (.beginTx ⟨store.nextTxId⟩) (store.wal, d) with
      | (.ok _, (w, e)) => (.ok (store.started w), (store.advanced w true, e))
      | (.error stop, (w, e)) => (.error stop, (store.advanced w false, e)) := by
  simp only [begin, allocateTxId, setActiveWriter, onWal, Exec.bind_apply, Exec.get_apply,
    Exec.liftM_apply, Exec.modify_apply, Exec.attempt_apply, Exec.onPart_apply, Exec.pure_apply,
    failIf_of_not h, failIf_of_not hroom]
  rcases WalWriter.append (.beginTx ⟨store.nextTxId⟩) (store.wal, d) with ⟨stop | lsn, w, e⟩
  · rfl
  · rfl

end TransactionalStore

namespace Transaction

variable {tx : Transaction FileId} {d : Disk}

/-- The transaction with the log writer `w`. -/
def withWal (tx : Transaction FileId) (w : WalWriter FileId) : Transaction FileId :=
  { tx with manager := { tx.manager with wal := w } }

/-- The store that a committed transaction gives back. -/
def published (tx : Transaction FileId) (w : WalWriter FileId) : TransactionalStore FileId :=
  { tx.manager with
    wal := w
    store := tx.manager.store.replaceCatalog tx.workingCatalog
    activeWriter := false }

/-- The store that a transaction gives back when it ends without a commit. -/
def released (tx : Transaction FileId) (w : WalWriter FileId) : TransactionalStore FileId :=
  { tx.manager with wal := w, activeWriter := false }

/-- A commit is the log part followed by the data part. -/
theorem commit_eq (h : tx.state = .active) :
    commit (tx, d) =
      match logCommit tx.txId tx.stagedPages (tx.manager.wal, d) with
      | (.error stop, (w, e)) => (.error stop, (tx.withWal w, e))
      | (.ok _, (w, e)) =>
          match writePages tx.manager.store.pageFile tx.stagedPages e with
          | (.error stop, e') => (.error stop, (tx.withWal w, e'))
          | (.ok _, e') => (.ok (), ({ tx with manager := tx.published w, state := .committed }, e')) := by
  simp only [commit, ensureActive, current, onManager, onWorld, TransactionalStore.onWal,
    Exec.bind_apply, Exec.get_apply, Exec.liftM_apply, Exec.onPart_apply, Exec.onRight_apply,
    Exec.modify_apply, Exec.pure_apply, failIf_of_not (not_not.2 h)]
  rcases logCommit tx.txId tx.stagedPages (tx.manager.wal, d) with ⟨stop | ⟨⟩, w, e⟩
  · rfl
  · simp only
    rcases writePages tx.manager.store.pageFile tx.stagedPages e with ⟨stop | ⟨⟩, e'⟩
    · rfl
    · rfl

/-- A commit that returns has done both parts. -/
theorem parts_of_commit {tx' : Transaction FileId} {e' : Disk} (hactive : tx.state = .active)
    (h : commit (tx, d) = (.ok (), (tx', e'))) :
    ∃ w e, logCommit tx.txId tx.stagedPages (tx.manager.wal, d) = (.ok (), (w, e)) ∧
      writePages tx.manager.store.pageFile tx.stagedPages e = (.ok (), e') ∧
      tx' = { tx with manager := tx.published w, state := .committed } := by
  rw [commit_eq hactive] at h
  rcases hlog : logCommit tx.txId tx.stagedPages (tx.manager.wal, d) with ⟨stop | ⟨⟩, w, e⟩
  · rw [hlog] at h
    cases h
  · rcases hwrite : writePages tx.manager.store.pageFile tx.stagedPages e with ⟨stop | ⟨⟩, e₂⟩
    · simp only [hlog, hwrite] at h
      cases h
    · simp only [hlog, hwrite] at h
      cases h
      exact ⟨w, e, rfl, hwrite, rfl⟩

/-- It hands the working catalog back to the store. -/
theorem catalog_of_commit {tx' : Transaction FileId} {e : Disk} (hactive : tx.state = .active)
    (h : commit (tx, d) = (.ok (), (tx', e))) : tx'.drop.store.catalog = tx.workingCatalog := by
  obtain ⟨w, e₁, -, -, rfl⟩ := parts_of_commit hactive h
  rfl

theorem rollback_eq (h : tx.state = .active) :
    rollback (tx, d) =
      ((logAbort tx.txId (tx.manager.wal, d)).1,
        ({ tx with
            manager := tx.released (logAbort tx.txId (tx.manager.wal, d)).2.1
            dirtyPages := ∅
            state := .rolledBack }, (logAbort tx.txId (tx.manager.wal, d)).2.2)) := by
  simp only [rollback, ensureActive, current, onManager, TransactionalStore.onWal,
    Exec.bind_apply, Exec.get_apply, Exec.liftM_apply, Exec.onPart_apply, Exec.attempt_apply,
    Exec.modify_apply, Exec.pure_apply, failIf_of_not (not_not.2 h)]
  rfl

theorem drop_withWal (h : tx.state = .active) (w : WalWriter FileId) :
    (tx.withWal w).drop = tx.released w := by
  simp [drop, withWal, released, h]

end Transaction

/-! ## What one call does -/

namespace Session

/-- The store handle, also when a transaction has borrowed it. -/
def handle : Session → TransactionalStore FileId
  | idle store => store
  | active tx => tx.manager

/-- A session on the two files of the disk whose transaction, if there is one, is
active and has staged valid pages only. -/
structure Good (s : Session) : Prop where
  data : s.handle.store.pageFile.file = .data
  wal : s.handle.wal.file = .wal
  state : ∀ tx, s = active tx → tx.state = .active
  staged : ∀ tx, s = active tx → tx.StagedValid

/-- The outcomes of a call, told apart by what happens to the two files. -/
inductive Does : Call → Session × Disk → Session × Disk → Prop
  | looks {call : Call} {s : Session} {d e : Disk} (hcall : call = .commit → ∃ store, s = idle store)
      (h : OnlyReads d e) : Does call (s, d) (s, e)
  | syncs {store : TransactionalStore FileId} {d : Disk} :
      Does .syncData (idle store, d) (idle store, (TransactionalStore.syncData (store, d)).2.2)
  | starts {store : TransactionalStore FileId} {d e : Disk} {lsn : Lsn} {w : WalWriter FileId}
      (hroom : store.nextTxId.toNat + 1 < 2 ^ 64)
      (h : WalWriter.append (.beginTx ⟨store.nextTxId⟩) (store.wal, d) = (.ok lsn, (w, e))) :
      Does .begin (idle store, d) (active (store.started w), e)
  | startFails {store : TransactionalStore FileId} {d e : Disk} {stop : Stop}
      {w : WalWriter FileId} (hroom : store.nextTxId.toNat + 1 < 2 ^ 64)
      (h : WalWriter.append (.beginTx ⟨store.nextTxId⟩) (store.wal, d) = (.error stop, (w, e))) :
      Does .begin (idle store, d) (idle (store.advanced w false), e)
  | stages {call : Call} {tx tx' : Transaction FileId} {d e : Disk} (hcall : call ≠ .commit)
      (h : Transaction.Staging (tx, d) (tx', e)) : Does call (active tx, d) (active tx', e)
  | logFails {tx : Transaction FileId} {d e : Disk} {stop : Stop} {w : WalWriter FileId}
      (h : Transaction.logCommit tx.txId tx.stagedPages (tx.manager.wal, d) =
        (.error stop, (w, e))) : Does .commit (active tx, d) (idle (tx.released w), e)
  | dataFails {tx : Transaction FileId} {d e e' : Disk} {stop : Stop} {w : WalWriter FileId}
      (h : Transaction.logCommit tx.txId tx.stagedPages (tx.manager.wal, d) = (.ok (), (w, e)))
      (h' : Transaction.writePages tx.manager.store.pageFile tx.stagedPages e = (.error stop, e')) :
      Does .commit (active tx, d) (idle (tx.released w), e')
  | commits {tx : Transaction FileId} {d e e' : Disk} {w : WalWriter FileId}
      (h : Transaction.logCommit tx.txId tx.stagedPages (tx.manager.wal, d) = (.ok (), (w, e)))
      (h' : Transaction.writePages tx.manager.store.pageFile tx.stagedPages e = (.ok (), e')) :
      Does .commit (active tx, d) (idle (tx.published w), e')
  | rollsBack {tx : Transaction FileId} {d e : Disk} {r : DbResult Unit} {w : WalWriter FileId}
      (h : Transaction.logAbort tx.txId (tx.manager.wal, d) = (r, (w, e))) :
      Does .rollback (active tx, d) (idle (tx.released w), e)
  | drops {tx : Transaction FileId} {d : Disk} :
      Does .drop (active tx, d) (idle (tx.released tx.manager.wal), d)

variable {s : Session} {d : Disk}

theorem does_start {store : TransactionalStore FileId} (d : Disk) :
    Does .begin (idle store, d) (start store d) := by
  by_cases hbusy : store.activeWriter = true
  · rw [start, TransactionalStore.begin_of_busy hbusy]
    exact Does.looks nofun (OnlyReads.refl d)
  by_cases hfull : store.nextTxId.toNat + 1 ≥ 2 ^ 64
  · rw [start, TransactionalStore.begin_of_full hbusy hfull]
    exact Does.looks nofun (OnlyReads.refl d)
  rw [start, TransactionalStore.begin_eq hbusy hfull]
  rcases happend : WalWriter.append (.beginTx ⟨store.nextTxId⟩) (store.wal, d) with ⟨stop | lsn, w, e⟩
  · exact Does.startFails (not_le.1 hfull) happend
  · exact Does.starts (not_le.1 hfull) happend

theorem does_commit {tx : Transaction FileId} (h : tx.state = .active) (d : Disk) :
    Does .commit (active tx, d) (ending tx Transaction.commit d) := by
  rw [ending, Transaction.commit_eq h]
  rcases hlog : Transaction.logCommit tx.txId tx.stagedPages (tx.manager.wal, d)
    with ⟨stop | ⟨⟩, w, e⟩
  · simp only [Transaction.drop_withWal h]
    exact Does.logFails hlog
  · simp only
    rcases hdata : Transaction.writePages tx.manager.store.pageFile tx.stagedPages e
      with ⟨stop | ⟨⟩, e'⟩
    · simp only [Transaction.drop_withWal h]
      exact Does.dataFails hlog hdata
    · exact Does.commits hlog hdata

theorem does_rollback {tx : Transaction FileId} (h : tx.state = .active) (d : Disk) :
    Does .rollback (active tx, d) (ending tx Transaction.rollback d) := by
  rw [ending, Transaction.rollback_eq h]
  exact Does.rollsBack rfl

theorem does_inside {α : Type} {tx : Transaction FileId} {m : Db (Transaction FileId × Disk) α}
    (call : Call) (h : Exec.Preserves Transaction.Staging m) (d : Disk) (hcall : call ≠ .commit) :
    Does call (active tx, d) (inside tx m d) := Does.stages hcall (h (tx, d))

theorem does_onRight {α : Type} {store : TransactionalStore FileId} {m : Db Disk α}
    (call : Call) (h : Exec.Preserves OnlyReads m) (d : Disk) :
    Does call (idle store, d) (outside store (Exec.onRight m) d) :=
  Does.looks (fun _ => ⟨store, rfl⟩) (h d)

theorem does_lookup (store : TransactionalStore FileId) (d : Disk) (fuel : Nat) (id : RelationId)
    (key : IndexKey) : Does (.lookupIndex fuel id key) (idle store, d)
      (outside store (TransactionalStore.lookupIndex fuel id key) d) := by
  have h := TransactionalStore.lookupIndex_looking fuel id key (store, d)
  rw [outside, h.handle]
  exact Does.looks nofun h.disk

theorem syncData_handle (store : TransactionalStore FileId) (d : Disk) :
    (TransactionalStore.syncData (store, d)).2.1 = store := by
  simp only [TransactionalStore.syncData, Exec.bind_apply, Exec.get_apply, Exec.onRight_apply]
  rcases store.store.syncData d with ⟨stop | ⟨⟩, e⟩
  · rfl
  · rfl

theorem does_sync (store : TransactionalStore FileId) (d : Disk) :
    Does .syncData (idle store, d) (outside store TransactionalStore.syncData d) := by
  rw [outside, syncData_handle]
  exact Does.syncs

/-- Every call has one of the outcomes. -/
theorem step_does (hs : s.Good) (call : Call) (d : Disk) : Does call (s, d) (step call (s, d)) := by
  cases s with
  | idle store =>
      cases call with
      | begin => exact does_start d
      | fullScan id => exact does_onRight _ (TransactionalStore.fullScan_onlyReads store id) d
      | readRow id rowId =>
          exact does_onRight _ (TransactionalStore.readRow_onlyReads store id rowId) d
      | lookupIndex fuel id key => exact does_lookup store d fuel id key
      | syncData => exact does_sync store d
      | registerExtension name abi kind => exact Does.looks (fun _ => ⟨store, rfl⟩) (OnlyReads.refl d)
      | createTable name columns => exact Does.looks (fun _ => ⟨store, rfl⟩) (OnlyReads.refl d)
      | createIndex name tableId column => exact Does.looks (fun _ => ⟨store, rfl⟩) (OnlyReads.refl d)
      | insertIndexEntry fuel id key rowId => exact Does.looks (fun _ => ⟨store, rfl⟩) (OnlyReads.refl d)
      | insertRow id bytes => exact Does.looks (fun _ => ⟨store, rfl⟩) (OnlyReads.refl d)
      | commit => exact Does.looks (fun _ => ⟨store, rfl⟩) (OnlyReads.refl d)
      | rollback => exact Does.looks (fun _ => ⟨store, rfl⟩) (OnlyReads.refl d)
      | drop => exact Does.looks (fun _ => ⟨store, rfl⟩) (OnlyReads.refl d)
  | active tx =>
      have hactive := hs.state tx rfl
      cases call with
      | begin => exact Does.looks nofun (OnlyReads.refl d)
      | readRow id rowId => exact Does.looks nofun (OnlyReads.refl d)
      | lookupIndex fuel id key => exact Does.looks nofun (OnlyReads.refl d)
      | syncData => exact Does.looks nofun (OnlyReads.refl d)
      | registerExtension name abi kind =>
          exact does_inside _ (Transaction.registerExtension_staging name abi kind) d nofun
      | createTable name columns =>
          exact does_inside _ (Transaction.createTable_staging name columns) d nofun
      | createIndex name tableId column =>
          exact does_inside _ (Transaction.createIndex_staging name tableId column) d nofun
      | insertIndexEntry fuel id key rowId =>
          exact does_inside _ (Transaction.insertIndexEntry_staging fuel id key rowId) d nofun
      | insertRow id bytes => exact does_inside _ (Transaction.insertRow_staging id bytes) d nofun
      | fullScan id => exact does_inside _ (Transaction.fullScan_staging id) d nofun
      | commit => exact does_commit hactive d
      | rollback => exact does_rollback hactive d
      | drop =>
          have hdrop : tx.drop = tx.released tx.manager.wal := Transaction.drop_withWal hactive _
          rw [step, hdrop]
          exact Does.drops

end Session

end Rdbms
