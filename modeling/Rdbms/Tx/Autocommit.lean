import Rdbms.Tx.Contents

/-!
# Calls in a transaction of their own

`withTransaction` starts a transaction, runs calls inside it and commits it. Either
all of this returns and the store shows what the calls have made of the database, or a
call fails, and then the data file and the catalog are as before and the log has gained
no commit marker.

Page ids are meant to stay below 2^51: `PageIdsSmall` says that the log holds no image
of a page from there on. It speaks of the log because a commit logs the images of all
pages before it writes the first of them.
-/

namespace Rdbms

open Library Disk ByteFile

/-- The log holds images of pages below 2^51 only. -/
def PageIdsSmall (d : Disk) : Prop :=
  ∀ records e, WalReader.readAll FileId.wal d = (.ok records, e) → ∀ txId pageId page,
    .pageImage txId pageId page ∈ kindsOf records → pageId.val.toNat < 2 ^ 51

/-- The record is no image of a page from 2^51 on. -/
def WalRecordKind.SmallPage : WalRecordKind → Bool
  | .pageImage _ pageId _ => pageId.val.toNat < 2 ^ 51
  | _ => true

/-- The records hold images of pages below 2^51 only. -/
def SmallRecords (records : List WalRecord) : Prop :=
  ∀ kind ∈ kindsOf records, kind.SmallPage

theorem smallRecords_append {xs ys : List WalRecord} :
    SmallRecords (xs ++ ys) ↔ SmallRecords xs ∧ SmallRecords ys := by
  rw [SmallRecords, kindsOf_append, List.forall_mem_append]
  exact Iff.rfl

/-- The pages whose images have been logged fit into the data file. -/
theorem SmallRecords.fits {records : List WalRecord} (h : SmallRecords records) {txId : TxId}
    {page : Page} (hmem : .pageImage txId page.id page ∈ kindsOf records) : Fits page.number :=
  fits_of_lt (of_decide_eq_true (h _ hmem))

theorem PageIdsSmall.smallRecords {records : List WalRecord} {w : WalWriter FileId} {d : Disk}
    (h : PageIdsSmall d) (hready : LogReady records w d) : SmallRecords records := by
  obtain ⟨e, -, hread⟩ := readAll_encodeLog .wal hready.faultFree hready.wal.bytes hready.wal.log
  intro kind hkind
  cases kind with
  | pageImage txId pageId page => exact decide_eq_true (h records e hread txId pageId page hkind)
  | beginTx txId => rfl
  | commitTx txId => rfl
  | abortTx txId => rfl
  | checkpoint => rfl

theorem pageIdsSmall_of_ready {records : List WalRecord} {w : WalWriter FileId} {d : Disk}
    (h : LogReady records w d) (hsmall : SmallRecords records) : PageIdsSmall d := by
  intro records' e hread txId pageId page hmem
  obtain ⟨e', -, hread'⟩ := readAll_encodeLog .wal h.faultFree h.wal.bytes h.wal.log
  rw [hread'] at hread
  cases hread
  exact of_decide_eq_true (hsmall _ hmem)

/-- A call has failed and left the data file and the catalog as they were. -/
structure Refused (records : List WalRecord) (s t : TransactionalStore FileId × Disk) : Prop where
  store : t.1.store = s.1.store
  data : t.2.data = s.2.data
  free : t.1.activeWriter = false
  log : ∃ new, LogReady (records ++ new) t.1.wal t.2 ∧ ∀ txId, .commitTx txId ∉ kindsOf new

section Small

variable {records new : List WalRecord} {w : WalWriter FileId} {d e : Disk}

/-- The pages that a commit has logged fit into the data file. -/
theorem PageIdsSmall.fits (h : PageIdsSmall e) (hready : LogReady (records ++ new) w e)
    {txId : TxId} {pages : List Page} (hkinds : kindsOf new = imageKinds txId pages ++ [.commitTx txId]) :
    ∀ page ∈ pages, Fits page.number := by
  intro page hpage
  obtain ⟨e', -, hread⟩ := readAll_encodeLog .wal hready.faultFree hready.wal.bytes hready.wal.log
  refine fits_of_lt (h _ e' hread txId page.id page ?_)
  rw [kindsOf_append, hkinds]
  exact List.mem_append_right _ (List.mem_append_left _ (List.mem_map_of_mem hpage))

/-- A commit that logs small pages only has its full effect, or it stops before its
marker. -/
theorem Transaction.commit_small {tx : Transaction FileId} (h : LogReady records tx.manager.wal d)
    (hstate : tx.state = .active) (hfile : tx.manager.store.pageFile = dataFile)
    (hstaged : tx.StagedValid) (hsmall : PageIdsSmall (commit (tx, d)).2.2) :
    Commits records tx d (commit (tx, d)) := by
  rcases logCommit_logged hstaged.validAs h with ⟨w, e, hlog, hlogged⟩ |
    ⟨message, w, e, hlog, hfull, kinds, hlogged, hprefix⟩
  · refine commit_commits h hstate hfile hstaged ?_
    obtain ⟨new, hready, hkinds⟩ := hlogged.ready
    -- Whatever becomes of the page writes, they leave the log alone.
    rcases hwrite : writePages dataFile tx.stagedPages e with ⟨r, e'⟩
    obtain ⟨hsame, -⟩ := writePages_crashOnly dataFile_file hready.faultFree.crashOnly hstaged.validAs hwrite
    have hend : (commit (tx, d)).2.2 = e' := by
      rw [commit_eq hstate, hlog, hfile]
      simp only [hwrite]
      cases r with
      | ok _ => rfl
      | error _ => rfl
    rw [hend] at hsmall
    exact hsmall.fits (hready.of_sameButData hsame) hkinds
  · rw [commit_eq hstate, hlog]
    exact Commits.full hlogged hprefix hfull

end Small

theorem commitTx_not_mem_images {txId : TxId} {pages : List Page} {kinds : List WalRecordKind}
    (h : kinds <+: imageKinds txId pages) (txId' : TxId) : .commitTx txId' ∉ kinds := by
  intro hmem
  obtain ⟨page, -, hpage⟩ := List.mem_map.1 (h.subset hmem)
  cases hpage

/-- The images of the pages of a small database are small. -/
theorem Transaction.Settled.small_images {tx : Transaction FileId} {d : Disk} {held : List Holding}
    (h : Settled (tx, d) held) (hids : tx.workingCatalog.nextPageId.toNat ≤ 2 ^ 51) (txId : TxId) :
    ∀ kind ∈ imageKinds txId tx.stagedPages ++ [.commitTx txId], kind.SmallPage := by
  intro kind hkind
  rcases List.mem_append.1 hkind with himage | hmarker
  · obtain ⟨page, hpage, rfl⟩ := List.mem_map.1 himage
    obtain ⟨id, hid⟩ := mem_stagedPages.1 hpage
    have hlt : page.number < 2 ^ 51 := by
      rw [number_of_staged h.staged hid]
      exact (h.stagedAllocated id page hid).trans_le hids
    exact decide_eq_true hlt
  · rw [List.mem_singleton.1 hmarker]
    rfl

/-- A commit carries the database over to the store, or it stops before its marker. -/
theorem Transaction.Holds.commit {records : List WalRecord} {tx tx' : Transaction FileId}
    {d e : Disk} {db : Database} {r : DbResult Unit} (h : Transaction.Holds (tx, d) db)
    (hlog : LogReady records tx.manager.wal d) (hrun : commit (tx, d) = (r, (tx', e)))
    (hsmall : PageIdsSmall e) :
    (∃ records', r = .ok () ∧ TransactionalStore.Holds records' (tx'.drop, e) db ∧
      tx'.drop.activeWriter = false) ∨
    (∃ message w new, r = DbResult.user message ∧ tx' = tx.withWal w ∧ e.data = d.data ∧
      LogReady (records ++ new) w e ∧ ∀ txId, .commitTx txId ∉ kindsOf new) := by
  obtain ⟨held, hsettled, hshows⟩ := h
  have hcommits := commit_small hlog hsettled.active hsettled.file hsettled.staged
    (by rw [hrun]; exact hsmall)
  rw [hrun] at hcommits
  cases hcommits with
  | @done new w e hready hkinds hdata =>
      have hcommitted := committed_of_settled hsettled (hsmall.fits hready hkinds) hready hdata
      exact Or.inl ⟨records ++ new, rfl, ⟨held, hcommitted, hshows⟩, rfl⟩
  | @full message w e kinds hlogged hprefix hfull =>
      obtain ⟨new, hready, rfl⟩ := hlogged.ready
      exact Or.inr ⟨message, w, new, rfl, rfl, hlogged.data, hready, commitTx_not_mem_images hprefix⟩

namespace TransactionalStore

variable {records : List WalRecord} {store : TransactionalStore FileId} {d : Disk} {db : Database}

/-- The calls inside a transaction that has just started. -/
theorem withTransaction_of_begin {α : Type} {body : Db (Transaction FileId × Disk) α}
    {w : WalWriter FileId} {e : Disk}
    (h : begin (store, d) = (.ok (store.started w), (store.advanced w true, e))) :
    withTransaction body (store, d) =
      ((body (store.started w, e)).1, ((body (store.started w, e)).2.1.drop,
        (body (store.started w, e)).2.2)) := by
  rw [withTransaction, h]

/-- A transaction that ends without a commit leaves no trace but in the log. -/
theorem refused_of_released {tx : Transaction FileId} {w w' : WalWriter FileId} {e : Disk}
    {new : List WalRecord} (hmanager : tx.manager = store.advanced w true)
    (hdata : e.data = d.data) (hlog : LogReady (records ++ new) w' e)
    (hmarkers : ∀ txId, .commitTx txId ∉ kindsOf new) :
    Refused records (store, d) (tx.released w', e) := by
  refine ⟨?_, hdata, rfl, new, hlog, hmarkers⟩
  rw [Transaction.released, hmanager]
  rfl

/-- Calls in a transaction of their own have their effect as a whole, or none. -/
theorem Holds.withTransaction {α β : Type} {m : Db (Transaction FileId × Disk) α} {k : α → β}
    {Q : α → Database → Prop} (h : Holds records (store, d) db) (hfree : store.activeWriter = false)
    (hstaging : Exec.Preserves Transaction.Staging m)
    (hm : ∀ tx e, tx.workingCatalog = store.store.catalog → Transaction.Holds (tx, e) db →
      Exec.Ensures m (tx, e) Stop.IsUser fun a t => ∃ db', Transaction.Holds t db' ∧ Q a db')
    {r : DbResult β} {store' : TransactionalStore FileId} {d' : Disk}
    (hrun : TransactionalStore.withTransaction (do
      let a ← m
      Transaction.commit
      return k a) (store, d) = (r, (store', d'))) (hsmall : PageIdsSmall d') :
    (∃ a records' db', r = .ok (k a) ∧ Q a db' ∧ Holds records' (store', d') db' ∧
      store'.activeWriter = false) ∨
    (∃ stop, r = .error stop ∧ stop.IsUser ∧ Refused records (store, d) (store', d')) := by
  obtain ⟨held, hcommitted, hshows⟩ := h
  rcases begin_logged hcommitted.log hfree with ⟨w, e, hbegin, hlogged⟩ |
    ⟨message, store₁, hbegin, hstore, hwal, hfree₁, -⟩
  swap
  · rw [TransactionalStore.withTransaction, show begin (store, d) = _ from hbegin] at hrun
    cases hrun
    refine Or.inr ⟨_, rfl, ⟨message, rfl⟩, hstore, rfl, hfree₁, [], ?_, nofun⟩
    rw [List.append_nil, hwal]
    exact hcommitted.log
  obtain ⟨new, hkept, hkinds⟩ : ∃ new, Committed (records ++ new) (store.advanced w true) e held ∧
      kindsOf new = _ := hcommitted.logged rfl hlogged
  have hmarker : ∀ txId, .commitTx txId ∉ kindsOf new := by
    intro txId
    rw [hkinds]
    simp
  have hstart : Transaction.Holds (store.started w, e) db := ⟨held, hkept.started, hshows⟩
  have hensures := hm (store.started w) e rfl hstart
  rw [withTransaction_of_begin hbegin] at hrun
  rcases hbody : m (store.started w, e) with ⟨stop | a, tx, f⟩
  · -- One of the calls has failed, and the transaction is dropped.
    have hstep : Transaction.Staging (store.started w, e) (tx, f) := hstaging.rel hbody
    rw [Exec.bind_of_error hbody] at hrun
    cases hrun
    refine Or.inr ⟨stop, rfl, hensures.error hbody, ?_⟩
    have hdrop : tx.drop = tx.released w := by
      have hactive : tx.state = .active := hstep.state
      have hwal : tx.manager.wal = w := by
        rw [show tx.manager = store.advanced w true from hstep.manager]
        rfl
      rw [← Transaction.drop_withWal hactive, ← hwal]
      rfl
    change Refused records (store, d) (tx.drop, f)
    rw [hdrop]
    exact refused_of_released hstep.manager (hstep.disk.files.data.trans hlogged.data)
      (hkept.log.reads hstep.disk) hmarker
  · have hstep : Transaction.Staging (store.started w, e) (tx, f) := hstaging.rel hbody
    obtain ⟨db', hholds, hQ⟩ := hensures.ok hbody
    have hlog : LogReady (records ++ new) tx.manager.wal f := by
      rw [show tx.manager = store.advanced w true from hstep.manager]
      exact hkept.log.reads hstep.disk
    rw [Exec.bind_of_ok hbody] at hrun
    rcases hcommit : Transaction.commit (tx, f) with ⟨result, tx', f'⟩
    have hsame : d' = f' := by
      rw [Exec.bind_apply, hcommit] at hrun
      cases result with
      | ok _ => cases hrun; rfl
      | error _ => cases hrun; rfl
    subst hsame
    rcases hholds.commit hlog hcommit hsmall with ⟨records', rfl, hafter, hfree'⟩ |
      ⟨message, w', new', rfl, rfl, hdata, hlog', hmarker'⟩
    · rw [Exec.bind_of_ok hcommit] at hrun
      cases hrun
      exact Or.inl ⟨a, records', db', rfl, hQ, hafter, hfree'⟩
    · rw [Exec.bind_of_error hcommit] at hrun
      cases hrun
      refine Or.inr ⟨_, rfl, ⟨message, rfl⟩, ?_⟩
      rw [Transaction.drop_withWal hstep.state]
      refine @refused_of_released _ _ _ _ _ _ _ (new ++ new') hstep.manager ?_ ?_ ?_
      · exact hdata.trans (hstep.disk.files.data.trans hlogged.data)
      · rwa [← List.append_assoc]
      · intro txId hmem
        rw [kindsOf_append, List.mem_append] at hmem
        exact hmem.elim (hmarker txId) (hmarker' txId)

/-- Calls that fail before they come to a commit log no images. -/
theorem withTransaction_of_fails {α : Type} {body : Db (Transaction FileId × Disk) α}
    (h : LogReady records store.wal d) (hsmall : SmallRecords records)
    (hfree : store.activeWriter = false)
    (hbody : ∀ w e, ∃ stop t, body (store.started w, e) = (.error stop, t) ∧ OnlyReads e t.2) :
    ∃ stop t, TransactionalStore.withTransaction body (store, d) = (.error stop, t) ∧
      PageIdsSmall t.2 := by
  rcases begin_logged h hfree with ⟨w, e, hbegin, hlogged⟩ | ⟨message, store', hbegin, -⟩
  · obtain ⟨new, hready, hkinds⟩ := hlogged.ready
    obtain ⟨stop, t, hrun, hreads⟩ := hbody w e
    refine ⟨stop, (t.1.drop, t.2), ?_, pageIdsSmall_of_ready (hready.reads hreads) ?_⟩
    · rw [withTransaction_of_begin hbegin, hrun]
    · refine smallRecords_append.2 ⟨hsmall, fun kind hkind => ?_⟩
      rw [hkinds, List.mem_singleton] at hkind
      rw [hkind]
      rfl
  · refine ⟨.error (.user message), (store', d), ?_, pageIdsSmall_of_ready h hsmall⟩
    rw [withTransaction, hbegin]

end TransactionalStore

end Rdbms
