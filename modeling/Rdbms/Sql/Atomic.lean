import Rdbms.Sql.PageIds

/-!
# Statements are atomic

A statement that fails leaves the data file and the catalog as they were, and the log
without a new commit marker. A SELECT leaves the log alone as well, whatever it returns.
-/

namespace Rdbms

open Library Disk

/-- The log has gained records, and no commit marker among them. -/
def GainsNoCommit (d e : Disk) : Prop :=
  ∃ records new d' e', WalReader.readAll FileId.wal d = (.ok records, d') ∧
    WalReader.readAll FileId.wal e = (.ok (records ++ new), e') ∧ ∀ txId, .commitTx txId ∉ kindsOf new

theorem LogReady.readAll {records : List WalRecord} {w : WalWriter FileId} {d : Disk}
    (h : LogReady records w d) : ∃ e, WalReader.readAll FileId.wal d = (.ok records, e) := by
  obtain ⟨e, -, hread⟩ := readAll_encodeLog .wal h.faultFree h.wal.bytes h.wal.log
  exact ⟨e, hread⟩

theorem Refused.gainsNoCommit {records : List WalRecord} {s t : TransactionalStore FileId × Disk}
    (h : Refused records s t) (hlog : LogReady records s.1.wal s.2) : GainsNoCommit s.2 t.2 := by
  obtain ⟨new, hnew, hmarkers⟩ := h.log
  obtain ⟨d', hread⟩ := hlog.readAll
  obtain ⟨e', hread'⟩ := hnew.readAll
  exact ⟨records, new, d', e', hread, hread', hmarkers⟩

namespace Sql

/-- A text that is no statement but a SELECT only looks at the store. -/
theorem execute_looking (host : Host) {sql : String} (params : List Value)
    (h : ∀ st, parseStatement host sql = .ok st → st.IsSelect) :
    Exec.Preserves Looking (execute host sql params :
      Db (TransactionalStore FileId × Disk) ExecResult) := by
  refine Exec.Preserves.bind (Exec.Preserves.liftM _) fun _ => ?_
  cases hparse : parseStatement host sql with
  | error stop => exact Exec.Preserves.liftM (.error stop)
  | ok st => exact executeStatement_looking host (h st hparse)

/-- A statement that fails changes neither the data file nor the catalog and adds no
commit marker to the log; a SELECT changes nothing, whether it returns or fails. -/
theorem statements_atomic {host : Host} {s : TransactionalStore FileId × Disk}
    {book : List (String × List Value)} (h : Reached host s book) (sql : String)
    (params : List Value) (hsmall : PageIdsSmall (execute host sql params s).2.2) :
    (∀ stop, (execute host sql params s).1 = .error stop →
      (execute host sql params s).2.2.data = s.2.data ∧
      (execute host sql params s).2.1.store.catalog = s.1.store.catalog ∧
      GainsNoCommit s.2 (execute host sql params s).2.2) ∧
    ((∀ st, parseStatement host sql = .ok st → st.IsSelect) →
      (execute host sql params s).2.2.data = s.2.data ∧
      (execute host sql params s).2.2.wal = s.2.wal ∧
      (execute host sql params s).2.1.store.catalog = s.1.store.catalog) := by
  obtain ⟨records, db, hsteady, -⟩ := h.sound
  rcases hrun : execute host sql params s with ⟨r, t⟩
  rw [hrun] at hsmall
  constructor
  · rintro stop rfl
    rcases execute_achieves hsteady sql params _ t hrun hsmall with
      ⟨result, -, -, hok, -⟩ | ⟨-, -, -, hrefused⟩
    · cases hok
    · obtain ⟨held, hcommitted, -⟩ := hsteady.holds
      exact ⟨hrefused.data, by rw [hrefused.store], hrefused.gainsNoCommit hcommitted.log⟩
  · intro hselect
    have hlooking : Looking s t := (execute_looking host params hselect).rel hrun
    exact ⟨hlooking.disk.files.data, hlooking.disk.files.wal, by rw [hlooking.handle]⟩

theorem statements_atomic_one_row : ∃ s stop t, Reached plainHost s [("t", [.integer 7])] ∧
    execute plainHost "CREATE TABLE t (a INTEGER)" [] s = (.error stop, t) ∧
    t.2.data = s.2.data ∧ t.1.store.catalog = s.1.store.catalog ∧ GainsNoCommit s.2 t.2 := by
  obtain ⟨s, hreached, hcatalog⟩ := reached_indexed_row
  obtain ⟨stop, t, hrun, hsmall⟩ := hreached.create_again hcatalog
  have hatomic := (statements_atomic hreached "CREATE TABLE t (a INTEGER)" []
    (by rw [hrun]; exact hsmall)).1 stop
  rw [hrun] at hatomic
  exact ⟨s, stop, t, hreached, hrun, hatomic rfl⟩

/-- Whatever the text and the parameters are, a statement returns or fails with a user
error or an error of an extension. -/
theorem user_input_is_refused {host : Host} {s : TransactionalStore FileId × Disk}
    {book : List (String × List Value)} (h : Reached host s book) (sql : String)
    (params : List Value) (hsmall : PageIdsSmall (execute host sql params s).2.2) :
    (∃ result, (execute host sql params s).1 = .ok result) ∨
    (∃ message, (execute host sql params s).1 = DbResult.user message) ∨
    ∃ message, (execute host sql params s).1 = DbResult.extension message := by
  obtain ⟨records, db, hsteady, -⟩ := h.sound
  rcases hrun : execute host sql params s with ⟨r, t⟩
  rw [hrun] at hsmall
  rcases execute_achieves hsteady sql params r t hrun hsmall with
    ⟨result, -, -, rfl, -⟩ | ⟨stop, rfl, hrefusal, -⟩
  · exact Or.inl ⟨result, rfl⟩
  · rcases hrefusal with ⟨message, rfl⟩ | ⟨message, rfl⟩
    · exact Or.inr (Or.inl ⟨message, rfl⟩)
    · exact Or.inr (Or.inr ⟨message, rfl⟩)

theorem user_input_is_refused_one_row : ∃ s stop t, Reached plainHost s [("t", [.integer 7])] ∧
    execute plainHost "CREATE TABLE t (a INTEGER)" [] s = (.error stop, t) ∧
    ((∃ message, .error stop = (DbResult.user message : DbResult ExecResult)) ∨
      ∃ message, .error stop = (DbResult.extension message : DbResult ExecResult)) := by
  obtain ⟨s, hreached, hcatalog⟩ := reached_indexed_row
  obtain ⟨stop, t, hrun, hsmall⟩ := hreached.create_again hcatalog
  have hrefused := user_input_is_refused hreached "CREATE TABLE t (a INTEGER)" []
    (by rw [hrun]; exact hsmall)
  rw [hrun] at hrefused
  exact ⟨s, stop, t, hreached, hrun, hrefused.resolve_left nofun⟩

end Sql

end Rdbms
