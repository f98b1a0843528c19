import Rdbms.Recovery.Clean
import Rdbms.Sql.Reached
import Rdbms.Sql.Sessions

/-!
# The page ids in the log

A text that returns logs images of pages below 2^51 only, as long as the next page id in its
catalog is no larger: it goes through a script whose one commit stages pages that the catalog
has handed out. A run of texts can therefore be evaluated without a look at the log.
-/

namespace Rdbms

open Library Disk

/-- Whether a call fails does not depend on the rows in the book. -/
theorem Book.failed_record {b : Book} (b' : Book) (h : b.failed = b'.failed) (call : Call)
    (s : Session × Disk) : (b.record call s).failed = (b'.record call s).failed := by
  have hnote : ∀ {α : Type} (outcome : DbResult α) (rows : α → List (RelationId × HeapRow)),
      (b.note outcome rows).failed = (b'.note outcome rows).failed := by
    intro α outcome rows
    cases outcome with
    | ok a => exact h
    | error stop => rfl
  have hclose : ∀ outcome, (b.close outcome).failed = (b'.close outcome).failed := by
    intro outcome
    cases outcome with
    | ok _ => rfl
    | error stop => rfl
  obtain ⟨s, d⟩ := s
  cases s with
  | idle store => rfl
  | active tx =>
      cases call with
      | registerExtension name abi kind => exact hnote _ _
      | createTable name columns => exact hnote _ _
      | createIndex name tableId column => exact hnote _ _
      | insertIndexEntry fuel id key rowId => exact hnote _ _
      | insertRow id bytes => exact hnote _ _
      | commit => exact hclose _
      | rollback => rfl
      | drop => rfl
      | _ => exact h

/-- No call of the transaction has failed, and the log holds images of pages below 2^51 only. -/
structure Tidy (s : Session × Disk) : Prop where
  good : s.1.Good
  sound : ∃ b, Sound s b ∧ b.failed = false
  pageIds : PageIdsSmall s.2

namespace Tidy

variable {s : Session × Disk}

theorem step (h : Tidy s) {call : Call} (hstays : call.Stays)
    (hreturns : (Book.record call ⟨[], [], false⟩ s).failed = false) : Tidy (Session.step call s) := by
  obtain ⟨hgood, ⟨b, hsound, hfailed⟩, hsmall⟩ := h
  refine ⟨Session.step_good hgood call, ⟨b.record call s, ?_, ?_⟩, ?_⟩
  · exact hsound.step call fun hcall => absurd hcall hstays.ne_commit
  · rw [Book.failed_record ⟨[], [], false⟩ hfailed call s, hreturns]
  · exact hsound.pageIdsSmall hgood hsmall call fun hcall => absurd hcall hstays.ne_commit

theorem run (h : Tidy s) {calls : List Call} (hstays : ∀ call ∈ calls, call.Stays)
    (hsucceed : Session.Succeed calls s) : Tidy (Session.run calls s) := by
  induction calls generalizing s with
  | nil => exact h
  | cons call calls ih =>
      rw [List.forall_mem_cons] at hstays
      exact ih (h.step hstays.1 hsucceed.1) hstays.2 hsucceed.2

/-- A commit that returns makes the catalog of the transaction that of the store. -/
theorem commit (h : Tidy s) (hreturns : Session.commitReturns s = true)
    (hids : (Session.step .commit s).1.catalog.nextPageId.toNat ≤ 2 ^ 51) :
    PageIdsSmall (Session.step .commit s).2 := by
  obtain ⟨hgood, ⟨b, hsound, hfailed⟩, hsmall⟩ := h
  refine hsound.pageIdsSmall hgood hsmall .commit fun _ => ⟨hfailed, ?_⟩
  obtain ⟨s, d⟩ := s
  cases s with
  | idle store => cases hreturns
  | active tx =>
      rcases hcommit : Transaction.commit (tx, d) with ⟨stop | ⟨⟩, tx', e⟩
      · rw [Session.commitReturns, hcommit] at hreturns
        cases hreturns
      · rwa [Session.step, Session.ending, hcommit, Session.catalog,
          Transaction.catalog_of_commit (hgood.state tx rfl) hcommit] at hids

/-- A script that has returned. -/
theorem script {store : TransactionalStore FileId} {d : Disk} (h : Tidy (.idle store, d))
    {calls : List Call} (hscript : Script (.idle store, d) true calls)
    (hids : (Session.run calls (.idle store, d)).1.catalog.nextPageId.toNat ≤ 2 ^ 51) :
    PageIdsSmall (Session.run calls (.idle store, d)).2 := by
  cases hscript with
  | reads hreads => exact (h.run (fun call hcall => (hreads call hcall).stays)
      (Session.succeed_of_reads hreads store d)).pageIds
  | commits stays succeed commit =>
      have hbegun : Tidy (Session.step .begin (.idle store, d)) := h.step trivial rfl
      rw [Session.run_cons, Session.run_append] at hids ⊢
      exact (hbegun.run stays succeed).commit commit hids
  | drops stays succeed failed => cases failed

end Tidy

namespace Sql

variable {host : Host} {s t : TransactionalStore FileId × Disk} {book : List (String × List Value)}

theorem Reached.tidy (h : Reached host s book) : Tidy (.idle s.1, s.2) := by
  obtain ⟨records, db, ⟨⟨held, hcommitted, -⟩, -, hfree⟩, -⟩ := h.sound
  have hgood : (Session.idle s.1).Good := by
    refine ⟨?_, hcommitted.log.wal.file, nofun, nofun⟩
    rw [Session.handle, hcommitted.file]
    exact dataFile_file
  refine ⟨hgood, ⟨⟨_, [], false⟩, Sound.of_idle hcommitted (List.Perm.refl _) hfree, rfl⟩, ?_⟩
  cases h with
  | opened hopen =>
      obtain ⟨store, d, hfresh, hempty, -⟩ := open_fresh
      rw [hfresh] at hopen
      cases hopen
      exact pageIdsSmall_of_ready hempty.log nofun
  | execute h sql params pageIds => exact pageIds

/-- A text that returns and leaves a catalog of few pages. -/
theorem Reached.returns (h : Reached host s book) {sql : String} {params : List Value}
    (hreturns : (Sql.execute host sql params s).1.isOk = true)
    (hids : (Sql.execute host sql params s).2.1.store.catalog.nextPageId.toNat ≤ 2 ^ 51) :
    Reached host (Sql.execute host sql params s).2 (book ++ inserted host sql params s) := by
  obtain ⟨calls, hscript, hrun⟩ := execute_makes host sql params s
  rw [hreturns] at hscript
  refine h.execute sql params ?_
  have hsmall := h.tidy.script hscript
  rw [hrun] at hsmall
  exact hsmall hids

/-! ## Runs -/

/-- The store and the rows put in after texts without parameters, as long as the texts return
and the catalog has few pages. -/
def follow (host : Host) : List String →
    (TransactionalStore FileId × Disk) × List (String × List Value) →
    Option ((TransactionalStore FileId × Disk) × List (String × List Value))
  | [], t => some t
  | sql :: texts, (s, book) =>
      if (execute host sql [] s).1.isOk &&
          decide ((execute host sql [] s).2.1.store.catalog.nextPageId.toNat ≤ 2 ^ 51) then
        follow host texts ((execute host sql [] s).2, book ++ inserted host sql [] s)
      else none

theorem Reached.follow {texts : List String}
    {t t' : (TransactionalStore FileId × Disk) × List (String × List Value)}
    (h : Reached host t.1 t.2) (hrun : follow host texts t = some t') : Reached host t'.1 t'.2 := by
  induction texts generalizing t with
  | nil =>
      cases hrun
      exact h
  | cons sql texts ih =>
      obtain ⟨s, book⟩ := t
      rw [Sql.follow] at hrun
      split_ifs at hrun with hreturns
      obtain ⟨hok, hids⟩ := Bool.and_eq_true_iff.1 hreturns
      exact ih (t := (_, _)) (h.returns hok (of_decide_eq_true hids)) hrun

theorem executeAll_of_follow {texts : List String}
    {t t' : (TransactionalStore FileId × Disk) × List (String × List Value)}
    (hrun : follow host texts t = some t') :
    executeAll host (texts.map fun sql => (sql, [])) t.1 = t'.1 := by
  induction texts generalizing t with
  | nil =>
      cases hrun
      rfl
  | cons sql texts ih =>
      obtain ⟨s, book⟩ := t
      rw [follow] at hrun
      split_ifs at hrun
      exact ih hrun

/-! ## One table with an index and a row -/

def indexedTexts : List String :=
  ["CREATE TABLE t (a INTEGER)", "INSERT INTO t VALUES (7)", "CREATE INDEX i ON t (a)"]

theorem indexedTexts_follow : onFresh (fun store d =>
    (follow plainHost indexedTexts ((store, d), [])).any fun t =>
      t.1.1.store.catalog = indexedTable && t.2 = [("t", [.integer 7])]) = true := by
  decide +kernel

/-- The texts on empty files. -/
theorem indexedTexts_run : ∃ store d s, openTransactionalStore .data .wal fresh = (.ok store, d) ∧
    executeAll plainHost (indexedTexts.map fun sql => (sql, [])) (store, d) = s ∧
    Reached plainHost s [("t", [.integer 7])] ∧ s.1.store.catalog = indexedTable := by
  obtain ⟨store, d, hopen, hany⟩ := of_onFresh indexedTexts_follow
  obtain ⟨⟨s, book⟩, hrun, htest⟩ := (Option.any_eq_true _ _).1 hany
  obtain ⟨hcatalog, hbook⟩ := Bool.and_eq_true_iff.1 htest
  obtain rfl : book = [("t", [.integer 7])] := of_decide_eq_true hbook
  exact ⟨store, d, s, hopen, executeAll_of_follow hrun,
    (Reached.opened hopen).follow (t := (_, _)) hrun, of_decide_eq_true hcatalog⟩

theorem reached_indexed_row : ∃ s, Reached plainHost s [("t", [.integer 7])] ∧
    s.1.store.catalog = indexedTable := by
  obtain ⟨-, -, s, -, -, hreached, hcatalog⟩ := indexedTexts_run
  exact ⟨s, hreached, hcatalog⟩

theorem parse_create : parseStatement plainHost "CREATE TABLE t (a INTEGER)" =
    .ok (.createTable "t" [⟨"a", "INTEGER"⟩]) := by decide +kernel

/-- A second table of the same name is refused inside the transaction. -/
theorem Reached.create_again (h : Reached plainHost s book)
    (hcatalog : s.1.store.catalog = indexedTable) : ∃ stop t,
    Sql.execute plainHost "CREATE TABLE t (a INTEGER)" [] s = (.error stop, t) ∧ PageIdsSmall t.2 := by
  obtain ⟨store, d⟩ := s
  obtain ⟨records, db, ⟨⟨held, hcommitted, -⟩, -, hfree⟩, -⟩ := h.sound
  have hfails : ∀ w e, ∃ stop t, (do
      let relationId ← Transaction.createTable "t" [⟨"a", "INTEGER"⟩]
      Transaction.commit
      return relationId) (store.started w, e) = (.error stop, t) ∧ OnlyReads e t.2 := by
    intro w e
    obtain ⟨stop, hexists⟩ : ∃ stop, Catalog.createTableMetadata "t" [⟨"a", "INTEGER"⟩]
        (store.started w).workingCatalog = (.error stop, store.store.catalog) := by
      change ∃ stop, Catalog.createTableMetadata _ _ store.store.catalog = _
      rw [hcatalog]
      exact ⟨_, rfl⟩
    refine ⟨stop, (store.started w, e), ?_, OnlyReads.refl e⟩
    simp only [Transaction.createTable, Exec.bind_apply, Exec.zoom_apply, Transaction.onCatalog,
      Transaction.ensureActive_of_active (s := (store.started w, e)) rfl, hexists]
    rfl
  obtain ⟨stop, t, hrun, hids⟩ := TransactionalStore.withTransaction_of_fails hcommitted.log
    (h.tidy.pageIds.smallRecords hcommitted.log) hfree hfails
  refine ⟨stop, t, ?_, hids⟩
  rw [execute_of_parse parse_create]
  exact Exec.bind_of_error hrun

end Sql

end Rdbms
