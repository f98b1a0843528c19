import Rdbms.Tx.Committed

/-!
# Careful callers

A careful caller does not commit a transaction after one of its operations has
failed; all callers of the interface are careful. `Careful` are the sessions that a
careful caller reaches from empty files on a disk without faults, together with a
book of the rows it has been told of: those of committed transactions, and those of
the active one. The main invariant says that the data file is laid out as the
committed catalog says and that its heaps hold the rows in the book.
-/

namespace Rdbms

open Library Disk

/-- What the caller has been told: the rows of the transactions that have been committed,
the rows of the active transaction, and whether one of its operations has failed. -/
structure Book where
  committed : List (RelationId × HeapRow)
  pending : List (RelationId × HeapRow)
  failed : Bool

namespace Book

/-- Note the outcome of an operation of the active transaction. -/
def note {α : Type} (b : Book) (outcome : DbResult α) (rows : α → List (RelationId × HeapRow)) :
    Book :=
  match outcome with
  | .ok a => { b with pending := b.pending ++ rows a }
  | .error _ => { b with failed := true }

/-- Start over with the next transaction. -/
def restart (b : Book) : Book := ⟨b.committed, [], false⟩

/-- Note the end of the active transaction. -/
def close (b : Book) : DbResult Unit → Book
  | .ok _ => ⟨b.committed ++ b.pending, [], false⟩
  | .error _ => b.restart

/-- The book after a call. -/
def record (call : Call) (b : Book) : Session × Disk → Book
  | (.idle _, _) => b.restart
  | (.active tx, d) =>
      match call with
      | .registerExtension name abi kind =>
          b.note (Transaction.registerExtension name abi kind (tx, d)).1 fun _ => []
      | .createTable name columns => b.note (Transaction.createTable name columns (tx, d)).1 fun _ => []
      | .createIndex name tableId column =>
          b.note (Transaction.createIndex name tableId column (tx, d)).1 fun _ => []
      | .insertIndexEntry fuel id key rowId =>
          b.note (Transaction.insertIndexEntry fuel id key rowId (tx, d)).1 fun _ => []
      | .insertRow relationId bytes =>
          b.note (Transaction.insertRow relationId bytes (tx, d)).1 fun rowId =>
            [(relationId, ⟨rowId, bytes⟩)]
      | .commit => b.close (Transaction.commit (tx, d)).1
      | .rollback => b.restart
      | .drop => b.restart
      | _ => b

end Book

/-- The catalog that the next call works on. -/
def Session.catalog : Session → Catalog
  | idle store => store.store.catalog
  | active tx => tx.workingCatalog

/-- The sessions of a careful caller, from empty files on. Page ids stay below 2^51. -/
inductive Careful : Session × Disk → Book → Prop
  | opened {store : TransactionalStore FileId} {d : Disk}
      (h : openTransactionalStore .data .wal fresh = (.ok store, d)) :
      Careful (.idle store, d) ⟨[], [], false⟩
  | step {s : Session × Disk} {b : Book} (h : Careful s b) (call : Call)
      (careful : call = .commit → b.failed = false)
      (pageIds : (Session.step call s).1.catalog.nextPageId.toNat ≤ 2 ^ 51) :
      Careful (Session.step call s) (b.record call s)

/-! ## The invariant -/

/-- What holds of every session of a careful caller. -/
structure Sound (s : Session × Disk) (b : Book) : Prop where
  committed : ∃ records held, Committed records s.1.handle s.2 held ∧
    b.committed.Perm (ledger s.1.handle.store.catalog.relations held)
  idle : ∀ store, s.1 = .idle store → store.activeWriter = false
  active : ∀ tx, s.1 = .active tx → tx.state = .active ∧ (b.failed = false →
    ∃ held, Transaction.Settled (tx, s.2) held ∧
      (b.committed ++ b.pending).Perm (ledger tx.workingCatalog.relations held))

namespace Sound

variable {tx : Transaction FileId} {store store' : TransactionalStore FileId} {d e : Disk} {b : Book}

theorem committed_idle (h : Sound (.idle store, d) b) : ∃ records held,
    Committed records store d held ∧ b.committed.Perm (ledger store.store.catalog.relations held) :=
  h.committed

theorem committed_active (h : Sound (.active tx, d) b) : ∃ records held,
    Committed records tx.manager d held ∧
      b.committed.Perm (ledger tx.manager.store.catalog.relations held) := h.committed

theorem of_idle {records : List WalRecord} {held : List Holding}
    (h : Committed records store d held)
    (hrows : b.committed.Perm (ledger store.store.catalog.relations held))
    (hfree : store.activeWriter = false) : Sound (.idle store, d) b where
  committed := ⟨records, held, h, hrows⟩
  idle := by
    rintro _ ⟨⟩
    exact hfree
  active := nofun

/-- An operation of the active transaction. -/
theorem inside {α : Type} {m : Db (Transaction FileId × Disk) α}
    {rows : α → List (RelationId × HeapRow)} (h : Sound (.active tx, d) b)
    (hstaging : Exec.Preserves Transaction.Staging m)
    (hpost : ∀ {held a t}, Transaction.Settled (tx, d) held → m (tx, d) = (.ok a, t) →
      ∃ held', Transaction.Settled t held' ∧ (ledger t.1.workingCatalog.relations held').Perm
        (rows a ++ ledger tx.workingCatalog.relations held)) :
    Sound (Session.inside tx m d) (b.note (m (tx, d)).1 rows) := by
  obtain ⟨records, held₀, hcommitted, hrows⟩ := h.committed_active
  obtain ⟨hactive, hopen⟩ := h.active tx rfl
  rcases hm : m (tx, d) with ⟨outcome, tx', e⟩
  have hstep : Transaction.Staging (tx, d) (tx', e) := hstaging.rel hm
  have hmanager : tx'.manager = tx.manager := hstep.manager
  have hkept : Committed records tx'.manager e held₀ := by
    rw [hmanager]
    exact hcommitted.reads hstep.disk
  have hrows' : b.committed.Perm (ledger tx'.manager.store.catalog.relations held₀) := by
    rw [hmanager]
    exact hrows
  rw [Session.inside, hm]
  cases outcome with
  | error stop =>
      refine ⟨⟨records, held₀, hkept, hrows'⟩, nofun, ?_⟩
      rintro _ ⟨⟩
      exact ⟨hstep.state.trans hactive, nofun⟩
  | ok a =>
      refine ⟨⟨records, held₀, hkept, hrows'⟩, nofun, ?_⟩
      rintro _ ⟨⟩
      refine ⟨hstep.state.trans hactive, fun hfailed => ?_⟩
      obtain ⟨held, hsettled, hpending⟩ := hopen hfailed
      obtain ⟨held', hsettled', hperm⟩ := hpost hsettled hm
      refine ⟨held', hsettled', ?_⟩
      refine List.Perm.trans ?_ hperm.symm
      change (b.committed ++ (b.pending ++ rows a)).Perm _
      rw [← List.append_assoc]
      exact List.perm_append_comm.trans (hpending.append_left _)

/-- The store and the disk are only looked at. -/
theorem looks {s : Session} {b' : Book} (h : Sound (s, d) b) (hreads : OnlyReads d e)
    (hcommitted : b'.committed = b.committed) (hpending : ∀ tx, s = .active tx → b' = b) :
    Sound (s, e) b' where
  committed := by
    obtain ⟨records, held, hkept, hrows⟩ := h.committed
    exact ⟨records, held, hkept.reads hreads, by rwa [hcommitted]⟩
  idle := h.idle
  active := by
    intro tx htx
    obtain rfl := hpending tx htx
    obtain ⟨hactive, hopen⟩ := h.active tx htx
    refine ⟨hactive, fun hfailed => ?_⟩
    obtain ⟨held, hsettled, hrows⟩ := hopen hfailed
    exact ⟨held, ⟨hsettled.toLaid.reads hreads, hsettled.saved.reads hreads⟩, hrows⟩

/-- The active transaction ends and leaves no trace in the data file and the catalog. -/
theorem released (h : Sound (.active tx, d) b) {records' : List WalRecord} {w : WalWriter FileId}
    (hlog : LogReady records' w e) (hdata : e.data = d.data) :
    Sound (.idle (tx.released w), e) b.restart := by
  obtain ⟨records, held, hcommitted, hrows⟩ := h.committed_active
  exact of_idle (hcommitted.congr rfl hlog hdata) hrows rfl

theorem begin (h : Sound (.idle store, d) b) : Sound (Session.start store d) b.restart := by
  obtain ⟨records, held, hcommitted, hrows⟩ := h.committed_idle
  rcases TransactionalStore.begin_logged hcommitted.log (h.idle store rfl) with
    ⟨w, e, hbegin, hlogged⟩ | ⟨message, store', hbegin, hstore, hwal, hfree, -⟩
  · rw [Session.start, hbegin]
    obtain ⟨new, hkept, -⟩ : ∃ new, Committed (records ++ new) (store.advanced w true) e held ∧
        kindsOf new = _ := hcommitted.logged rfl hlogged
    refine ⟨⟨_, held, hkept, hrows⟩, (fun store' h => by cases h), ?_⟩
    intro tx htx
    cases htx
    refine ⟨rfl, fun _ => ⟨held, ?_, ?_⟩⟩
    · exact hkept.started
    · change (b.committed ++ []).Perm _
      rw [List.append_nil]
      exact hrows
  · rw [Session.start, hbegin]
    have hlog : LogReady records store'.wal d := by
      rw [hwal]
      exact hcommitted.log
    refine of_idle (hcommitted.congr hstore hlog rfl) ?_ hfree
    rw [hstore]
    exact hrows

theorem commit (h : Sound (.active tx, d) b) (hfailed : b.failed = false)
    (hids : tx.workingCatalog.nextPageId.toNat ≤ 2 ^ 51) :
    Sound (Session.ending tx Transaction.commit d) (b.close (Transaction.commit (tx, d)).1) := by
  obtain ⟨records, held₀, hcommitted, hrows⟩ := h.committed_active
  obtain ⟨hactive, hopen⟩ := h.active tx rfl
  obtain ⟨held, hsettled, hpending⟩ := hopen hfailed
  have hcommit := Transaction.commit_commits hcommitted.log hactive hcommitted.file hsettled.staged
    (fits_of_settled hsettled hids)
  rw [Session.ending]
  generalize Transaction.commit (tx, d) = result at hcommit ⊢
  cases hcommit with
  | done hready hkinds hdata =>
      exact of_idle (committed_of_settled hsettled (fits_of_settled hsettled hids) hready hdata) hpending rfl
  | full hlogged hprefix hfull =>
      obtain ⟨new, hready, -⟩ := hlogged.ready
      rw [Transaction.drop_withWal hactive]
      exact h.released hready hlogged.data

theorem rollback (h : Sound (.active tx, d) b) :
    Sound (Session.ending tx Transaction.rollback d) b.restart := by
  obtain ⟨records, held, hcommitted, hrows⟩ := h.committed_active
  obtain ⟨r, w, e, kinds, hrun, -, hlogged, -⟩ :=
    Transaction.rollback_logged hcommitted.log (h.active tx rfl).1
  obtain ⟨new, hready, -⟩ := hlogged.ready
  rw [Session.ending, hrun]
  exact h.released hready hlogged.data

theorem syncs (h : Sound (.idle store, d) b) :
    Sound (Session.outside store TransactionalStore.syncData d) b.restart := by
  obtain ⟨records, held, hcommitted, hrows⟩ := h.committed_idle
  have hfile : store.store.pageFile.file = .data := by
    rw [hcommitted.file]
    exact dataFile_file
  obtain ⟨hwal, honly⟩ := Session.storeSync_walAt hfile hcommitted.log.wal
  rw [Session.outside, Session.syncData_handle]
  exact of_idle (hcommitted.congr rfl ⟨hwal, honly.faultFree hcommitted.log.faultFree⟩ honly.data) hrows
    (h.idle store rfl)

theorem length_relations {held : List Holding} (h : Transaction.Settled (tx, d) held) :
    tx.workingCatalog.relations.length = held.length := h.layout.occupies.length_eq

theorem createTable (h : Sound (.active tx, d) b) (name : String) (columns : List ColumnDef) :
    Sound (Session.inside tx (Transaction.createTable name columns) d)
      (b.note (Transaction.createTable name columns (tx, d)).1 fun _ => []) := by
  refine h.inside (Transaction.createTable_staging name columns) ?_
  intro held relationId t hsettled hrun
  obtain ⟨pageId, hsettled', hcreated⟩ :=
    (Transaction.createTable_ensures hsettled.toLaid name columns).ok hrun
  refine ⟨_, hsettled', ?_⟩
  rw [hcreated.relations, ledger, collect_create (length_relations hsettled) _ rfl]
  exact List.Perm.refl _

theorem createIndex (h : Sound (.active tx, d) b) (name : String) (tableId : RelationId)
    (columnName : String) :
    Sound (Session.inside tx (Transaction.createIndex name tableId columnName) d)
      (b.note (Transaction.createIndex name tableId columnName (tx, d)).1 fun _ => []) := by
  refine h.inside (Transaction.createIndex_staging name tableId columnName) ?_
  intro held created t hsettled hrun
  obtain ⟨hsettled', hcreated, -⟩ :=
    (Transaction.createIndex_ensures hsettled.toLaid name tableId columnName).ok hrun
  refine ⟨_, hsettled', ?_⟩
  rw [hcreated.relations, ledger, collect_create (length_relations hsettled) _ rfl]
  exact List.Perm.refl _

theorem registerExtension (h : Sound (.active tx, d) b) (name : String) (abiVersion : UInt32)
    (kind : String) :
    Sound (Session.inside tx (Transaction.registerExtension name abiVersion kind) d)
      (b.note (Transaction.registerExtension name abiVersion kind (tx, d)).1 fun _ => []) := by
  refine h.inside (Transaction.registerExtension_staging name abiVersion kind) ?_
  intro held inserted t hsettled hrun
  obtain ⟨hsettled', hrelations⟩ :=
    (Transaction.registerExtension_ensures hsettled name abiVersion kind).ok hrun
  refine ⟨held, hsettled', ?_⟩
  rw [hrelations]
  exact List.Perm.refl _

theorem insertIndexEntry (h : Sound (.active tx, d) b) (fuel : Nat) (indexRelationId : RelationId)
    (key : IndexKey) (rowId : RowId) :
    Sound (Session.inside tx (Transaction.insertIndexEntry fuel indexRelationId key rowId) d)
      (b.note (Transaction.insertIndexEntry fuel indexRelationId key rowId (tx, d)).1 fun _ => []) := by
  refine h.inside (Transaction.insertIndexEntry_staging fuel indexRelationId key rowId) ?_
  intro held a t hsettled hrun
  obtain ⟨held', ids, ids', entries, entries', hsettled', hchanged, -⟩ :=
    (Transaction.insertIndexEntry_ensures hsettled.toLaid fuel indexRelationId key rowId).ok hrun
  exact ⟨held', hsettled', hchanged.collect_perm Holding.rows [] (List.Perm.refl _)⟩

theorem insertRow (h : Sound (.active tx, d) b) (relationId : RelationId) (bytes : List UInt8) :
    Sound (Session.inside tx (Transaction.insertRow relationId bytes) d)
      (b.note (Transaction.insertRow relationId bytes (tx, d)).1 fun rowId =>
        [(relationId, ⟨rowId, bytes⟩)]) := by
  refine h.inside (Transaction.insertRow_staging relationId bytes) ?_
  intro held rowId t hsettled hrun
  obtain ⟨held', ids, ids', rows, rows', hsettled', hchanged, hperm⟩ :=
    (Transaction.insertRow_ensures hsettled relationId bytes).ok hrun
  exact ⟨held', hsettled', hchanged.collect_perm Holding.rows [⟨rowId, bytes⟩] hperm⟩

/-- Every call of a careful caller keeps the invariant. -/
theorem step {s : Session × Disk} (h : Sound s b) (call : Call)
    (hcareful : call = .commit → b.failed = false ∧ s.1.catalog.nextPageId.toNat ≤ 2 ^ 51) :
    Sound (Session.step call s) (b.record call s) := by
  obtain ⟨s, d⟩ := s
  have hsame : ∀ tx, s = .active tx → b = b := fun _ _ => rfl
  cases s with
  | idle store =>
      have hlook : ∀ {e}, OnlyReads d e → Sound (.idle store, e) b.restart :=
        fun hreads => h.looks hreads rfl nofun
      cases call with
      | begin => exact h.begin
      | syncData => exact h.syncs
      | fullScan id => exact hlook (TransactionalStore.fullScan_onlyReads store id d)
      | readRow id rowId => exact hlook (TransactionalStore.readRow_onlyReads store id rowId d)
      | lookupIndex fuel id key =>
          have hlooking := TransactionalStore.lookupIndex_looking fuel id key (store, d)
          have hrun : Session.step (.lookupIndex fuel id key) (.idle store, d) =
              (.idle store, (TransactionalStore.lookupIndex fuel id key (store, d)).2.2) := by
            rw [Session.step, Session.outside, hlooking.handle]
          rw [hrun]
          exact hlook hlooking.disk
      | registerExtension name abi kind => exact hlook (OnlyReads.refl d)
      | createTable name columns => exact hlook (OnlyReads.refl d)
      | createIndex name tableId column => exact hlook (OnlyReads.refl d)
      | insertIndexEntry fuel id key rowId => exact hlook (OnlyReads.refl d)
      | insertRow id bytes => exact hlook (OnlyReads.refl d)
      | commit => exact hlook (OnlyReads.refl d)
      | rollback => exact hlook (OnlyReads.refl d)
      | drop => exact hlook (OnlyReads.refl d)
  | active tx =>
      have hactive := (h.active tx rfl).1
      cases call with
      | registerExtension name abi kind => exact h.registerExtension name abi kind
      | createTable name columns => exact h.createTable name columns
      | createIndex name tableId column => exact h.createIndex name tableId column
      | insertIndexEntry fuel id key rowId => exact h.insertIndexEntry fuel id key rowId
      | insertRow id bytes => exact h.insertRow id bytes
      | fullScan id =>
          have hlooking := Transaction.fullScan_looking id (tx, d)
          have hrun : Session.step (.fullScan id) (.active tx, d) =
              (.active tx, (Transaction.fullScan id (tx, d)).2.2) := by
            rw [Session.step, Session.inside, hlooking.handle]
          rw [hrun]
          exact h.looks hlooking.disk rfl hsame
      | commit => exact h.commit (hcareful rfl).1 (hcareful rfl).2
      | rollback => exact h.rollback
      | drop =>
          obtain ⟨records, held, hcommitted, -⟩ := h.committed_active
          have hrun : Session.step .drop (.active tx, d) = (.idle (tx.released tx.manager.wal), d) := by
            rw [Session.step, ← Transaction.drop_withWal hactive]
            rfl
          rw [hrun]
          exact h.released hcommitted.log rfl
      | begin => exact h
      | readRow id rowId => exact h
      | lookupIndex fuel id key => exact h
      | syncData => exact h

end Sound

/-- Page ids stay below 2^51. -/
theorem Careful.pageIds {s : Session × Disk} {b : Book} (h : Careful s b) :
    s.1.catalog.nextPageId.toNat ≤ 2 ^ 51 := by
  cases h with
  | opened hopen =>
      obtain ⟨store, d, hfresh, -, -, hcatalog, -⟩ := open_fresh
      rw [hfresh] at hopen
      cases hopen
      rw [Session.catalog, hcatalog]
      decide
  | step h call careful pageIds => exact pageIds

theorem Careful.sound {s : Session × Disk} {b : Book} (h : Careful s b) : Sound s b := by
  induction h with
  | opened hopen =>
      obtain ⟨store, d, hfresh, hcommitted, hfree, hcatalog, -⟩ := open_fresh
      rw [hfresh] at hopen
      cases hopen
      refine Sound.of_idle hcommitted ?_ hfree
      rw [hcatalog]
      exact List.Perm.refl _
  | step h call careful pageIds ih => exact ih.step call fun hcall => ⟨careful hcall, h.pageIds⟩

/-! ## Runs -/

/-- Whether a careful caller makes the call. -/
def Book.admits (b : Book) : Call → Bool
  | .commit => !b.failed
  | _ => true

/-- The session and the book after a sequence of calls, as long as the caller is careful and
page ids stay small. -/
def Book.follow : List Call → (Session × Disk) × Book → Option ((Session × Disk) × Book)
  | [], t => some t
  | call :: calls, (s, b) =>
      if b.admits call && decide ((Session.step call s).1.catalog.nextPageId.toNat ≤ 2 ^ 51) then
        follow calls (Session.step call s, b.record call s)
      else none

theorem Careful.follow {calls : List Call} {t t' : (Session × Disk) × Book} (h : Careful t.1 t.2)
    (hrun : Book.follow calls t = some t') : Careful t'.1 t'.2 := by
  induction calls generalizing t with
  | nil =>
      cases hrun
      exact h
  | cons call calls ih =>
      obtain ⟨s, b⟩ := t
      rw [Book.follow] at hrun
      split_ifs at hrun with hcall
      obtain ⟨hadmits, hids⟩ := Bool.and_eq_true_iff.1 hcall
      refine ih (t := (_, _)) (h.step call ?_ (of_decide_eq_true hids)) hrun
      rintro rfl
      simpa [Book.admits] using hadmits

/-- What a test says about the session and the book after calls on empty files. -/
def Careful.passes (calls : List Call) (test : (Session × Disk) × Book → Bool) : Bool :=
  onFresh fun store d => (Book.follow calls ((.idle store, d), ⟨[], [], false⟩)).any test

theorem Book.run_of_follow {calls : List Call} {t t' : (Session × Disk) × Book}
    (h : follow calls t = some t') : t'.1 = Session.run calls t.1 := by
  induction calls generalizing t with
  | nil =>
      cases h
      rfl
  | cons call calls ih =>
      obtain ⟨s, b⟩ := t
      rw [follow] at h
      split_ifs at h with hcall
      exact ih h

theorem Careful.of_passes {calls : List Call} {test : (Session × Disk) × Book → Bool}
    (h : passes calls test = true) : ∃ store d b,
    openTransactionalStore .data .wal fresh = (.ok store, d) ∧
      Careful (Session.run calls (.idle store, d)) b ∧
      test (Session.run calls (.idle store, d), b) = true := by
  obtain ⟨store, d, hopen, hany⟩ := of_onFresh h
  obtain ⟨⟨s, b⟩, hrun, htest⟩ := (Option.any_eq_true _ _).1 hany
  have hcareful := (Careful.opened hopen).follow (t := (_, _)) hrun
  obtain rfl : s = Session.run calls (.idle store, d) := Book.run_of_follow hrun
  exact ⟨store, d, b, hopen, hcareful, htest⟩

/-! ## One table with an index and a row -/

/-- The catalog of a database with one table and an index on its column. -/
def indexedTable : Catalog := ⟨3, 3, [⟨⟨1⟩, "t", .table, .heap [⟨1⟩], [⟨"a", "INTEGER"⟩]⟩,
  ⟨⟨2⟩, "i", .index, .bPlusTree ⟨⟨1⟩, "a", ⟨2⟩⟩, [⟨"a", "INDEX_KEY"⟩]⟩], []⟩

/-- One row is inserted into the table, and its entry into the index. -/
def indexedCalls : List Call := [.begin, .createTable "t" [⟨"a", "INTEGER"⟩],
  .createIndex "i" ⟨1⟩ "a", .insertRow ⟨1⟩ [7], .insertIndexEntry 1 ⟨2⟩ (.integer 7) ⟨⟨1⟩, ⟨0⟩⟩,
  .commit]

theorem indexedCalls_pass : Careful.passes indexedCalls (fun t =>
    match t with
    | ((.idle store, _), b) => store.store.catalog = indexedTable &&
        (b.committed, b.pending, b.failed) = ([(⟨1⟩, ⟨⟨⟨1⟩, ⟨0⟩⟩, [7]⟩)], [], false)
    | _ => false) = true := by
  decide +kernel

theorem careful_indexed_row : ∃ store d store' d',
    openTransactionalStore .data .wal fresh = (.ok store, d) ∧
      Session.run indexedCalls (.idle store, d) = (.idle store', d') ∧
      Careful (.idle store', d') ⟨[(⟨1⟩, ⟨⟨⟨1⟩, ⟨0⟩⟩, [7]⟩)], [], false⟩ ∧
      store'.store.catalog = indexedTable := by
  obtain ⟨store, d, ⟨committed, pending, failed⟩, hopen, hcareful, htest⟩ :=
    Careful.of_passes indexedCalls_pass
  rcases hrun : Session.run indexedCalls (.idle store, d) with ⟨store' | tx, d'⟩
  · rw [hrun] at hcareful htest
    obtain ⟨hcatalog, hbook⟩ := Bool.and_eq_true_iff.1 htest
    cases of_decide_eq_true hbook
    exact ⟨store, d, store', d', hopen, hrun, hcareful, of_decide_eq_true hcatalog⟩
  · rw [hrun] at htest
    cases htest

end Rdbms
