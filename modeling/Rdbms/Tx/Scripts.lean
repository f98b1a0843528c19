import Rdbms.Tx.Careful

/-!
# Scripts of calls

A caller that works on the idle store through one computation, and inside a transaction
through computations that stop at the first call that fails, goes through a script: calls
that read, or one transaction, which is committed when the computation inside it has returned
and dropped when it has failed. Every call but the last before a drop has returned.
-/

namespace Rdbms

open Library Disk

namespace Session

theorem run_cons (call : Call) (calls : List Call) (s : Session × Disk) :
    run (call :: calls) s = run calls (step call s) := rfl

theorem run_append (calls calls' : List Call) (s : Session × Disk) :
    run (calls ++ calls') s = run calls' (run calls s) := List.foldl_append

/-- No call of the run returns an error, as far as the calls of a transaction go. -/
def Succeed : List Call → Session × Disk → Prop
  | [], _ => True
  | call :: calls, s =>
      (Book.record call ⟨[], [], false⟩ s).failed = false ∧ Succeed calls (step call s)

theorem succeed_append {calls calls' : List Call} {s : Session × Disk} (h : Succeed calls s)
    (h' : Succeed calls' (run calls s)) : Succeed (calls ++ calls') s := by
  induction calls generalizing s with
  | nil => exact h'
  | cons call calls ih => exact ⟨h.1, ih h.2 h'⟩

end Session

/-- No call of the run but the last returns an error. -/
def Session.SucceedButLast : List Call → Session × Disk → Prop
  | [], _ => True
  | call :: calls, s => (calls ≠ [] → (Book.record call ⟨[], [], false⟩ s).failed = false) ∧
      SucceedButLast calls (step call s)

theorem Session.succeedButLast_append {calls calls' : List Call} {s : Session × Disk}
    (h : Succeed calls s) (h' : SucceedButLast calls' (run calls s)) :
    SucceedButLast (calls ++ calls') s := by
  induction calls generalizing s with
  | nil => exact h'
  | cons call calls ih => exact ⟨fun _ => h.1, ih h.2 h'⟩

/-- Whether a commit of the active transaction returns. -/
def Session.commitReturns : Session × Disk → Bool
  | (active tx, d) => (Transaction.commit (tx, d)).1.isOk
  | (idle _, _) => false

/-- A call that the active transaction outlives. -/
def Call.Stays : Call → Prop
  | commit => False
  | rollback => False
  | drop => False
  | _ => True

/-- A call that reads from an idle store. -/
def Call.Reads : Call → Prop
  | fullScan _ => True
  | readRow _ _ => True
  | lookupIndex _ _ _ => True
  | _ => False

/-- The calls of one statement that has returned, or has not: reads, or one transaction. It is
committed after calls that have returned, and the statement returns when the commit does. It is
dropped only when the statement fails, and then no call but the last has failed. -/
inductive Script (s : Session × Disk) (returned : Bool) : List Call → Prop
  | reads {calls : List Call} (h : ∀ call ∈ calls, call.Reads) : Script s returned calls
  | commits {body : List Call} (stays : ∀ call ∈ body, call.Stays)
      (succeed : Session.Succeed body (Session.step .begin s))
      (commit : Session.commitReturns (Session.run body (Session.step .begin s)) = returned) :
      Script s returned (.begin :: (body ++ [.commit]))
  | drops {body : List Call} (stays : ∀ call ∈ body, call.Stays)
      (succeed : Session.SucceedButLast body (Session.step .begin s)) (failed : returned = false) :
      Script s returned (.begin :: (body ++ [.drop]))

/-! ## Commits of a script -/

theorem Session.commits_append (calls calls' : List Call) (s : Session × Disk) :
    commits (calls ++ calls') s = commits calls s ++ commits calls' (run calls s) := by
  induction calls generalizing s with
  | nil => rfl
  | cons call calls ih =>
      rw [List.cons_append, commits, ih, commits, List.append_assoc]
      rfl

theorem Session.commits_eq_nil {calls : List Call} (h : ∀ call ∈ calls, call ≠ .commit)
    (s : Session × Disk) : commits calls s = [] := by
  induction calls generalizing s with
  | nil => rfl
  | cons call calls ih =>
      rw [List.forall_mem_cons] at h
      rw [commits, ih h.2, List.append_nil]
      exact commitOf_eq_nil fun hcommit => absurd hcommit h.1

theorem Call.Stays.ne_commit {call : Call} (h : call.Stays) : call ≠ .commit := by
  rintro rfl
  exact h

theorem Call.Reads.stays {call : Call} (h : call.Reads) : call.Stays := by
  cases call with
  | fullScan id => trivial
  | readRow id rowId => trivial
  | lookupIndex fuel id key => trivial
  | _ => cases h

theorem Call.Reads.ne_commit {call : Call} (h : call.Reads) : call ≠ .commit := h.stays.ne_commit

/-- No transaction is there that a reading call of the idle store could fail in. -/
theorem Session.succeed_of_reads {calls : List Call} (h : ∀ call ∈ calls, call.Reads)
    (store : TransactionalStore FileId) (d : Disk) : Succeed calls (.idle store, d) := by
  induction calls generalizing store d with
  | nil => trivial
  | cons call calls ih =>
      rw [List.forall_mem_cons] at h
      refine ⟨rfl, ?_⟩
      cases call with
      | fullScan id => exact ih h.2 _ _
      | readRow id rowId => exact ih h.2 _ _
      | lookupIndex fuel id key => exact ih h.2 _ _
      | _ => cases h.1

/-- A script comes to one commit at most. -/
theorem Script.length_commits {s : Session × Disk} {returned : Bool} {calls : List Call}
    (h : Script s returned calls) :
    (Session.commits calls s).length ≤ 1 := by
  have hlast : ∀ (call : Call) (t : Session × Disk), (Session.commits [call] t).length ≤ 1 := by
    rintro call ⟨t, d⟩
    cases t with
    | idle store => cases call <;> exact Nat.zero_le 1
    | active tx => cases call <;> first | exact Nat.zero_le 1 | exact Nat.le_refl 1
  have hbody : ∀ {body : List Call} (call : Call), (∀ call ∈ body, call.Stays) →
      (Session.commits (.begin :: (body ++ [call])) s).length ≤ 1 := by
    intro body call hstays
    have hnone : Session.commits (.begin :: body) s = [] := by
      refine Session.commits_eq_nil (List.forall_mem_cons.2 ⟨?_, fun c hc => ?_⟩) s
      · exact Call.noConfusion
      · exact (hstays c hc).ne_commit
    rw [← List.cons_append, Session.commits_append, hnone, List.nil_append]
    exact hlast call _
  cases h with
  | reads hreads =>
      rw [Session.commits_eq_nil fun call hcall => (hreads call hcall).ne_commit]
      exact Nat.zero_le 1
  | commits hstays hsucceed hcommit => exact hbody .commit hstays
  | drops hstays hsucceed hfailed => exact hbody .drop hstays

/-- The computation is carried out by calls that the transaction outlives. All of them but the
last have returned, and the last as well when the computation returns. -/
def Scripted {α : Type} (m : Db (Transaction FileId × Disk) α) : Prop :=
  ∀ tx d, ∃ calls, (∀ call ∈ calls, call.Stays) ∧
    Session.run calls (.active tx, d) = (.active (m (tx, d)).2.1, (m (tx, d)).2.2) ∧
    Session.SucceedButLast calls (.active tx, d) ∧
    ∀ a, (m (tx, d)).1 = .ok a → Session.Succeed calls (.active tx, d)

namespace Scripted

variable {α β : Type}

theorem liftM (r : DbResult α) : Scripted (liftM r) :=
  fun _ _ => ⟨[], List.forall_mem_nil _, rfl, trivial, fun _ _ => trivial⟩

theorem pure (a : α) : Scripted (Pure.pure a) := liftM (.ok a)

theorem bind {m : Db (Transaction FileId × Disk) α} {f : α → Db (Transaction FileId × Disk) β}
    (hm : Scripted m) (hf : ∀ a, Scripted (f a)) : Scripted (m >>= f) := by
  intro tx d
  obtain ⟨calls, hstays, hrun, hbut, hsucceed⟩ := hm tx d
  rcases hcase : m (tx, d) with ⟨stop | a, tx', d'⟩
  · rw [hcase] at hrun
    refine ⟨calls, hstays, ?_, hbut, ?_⟩
    · rw [Exec.bind_of_error hcase]
      exact hrun
    · intro b hb
      rw [Exec.bind_of_error hcase] at hb
      cases hb
  · rw [hcase] at hrun hsucceed
    obtain ⟨calls', hstays', hrun', hbut', hsucceed'⟩ := hf a tx' d'
    rw [Exec.bind_of_ok hcase]
    refine ⟨calls ++ calls', ?_, ?_, ?_, fun b hb => ?_⟩
    · intro call hcall
      exact (List.mem_append.1 hcall).elim (hstays call) (hstays' call)
    · rw [Session.run_append, hrun]
      exact hrun'
    · refine Session.succeedButLast_append (hsucceed a rfl) ?_
      rw [hrun]
      exact hbut'
    · refine Session.succeed_append (hsucceed a rfl) ?_
      rw [hrun]
      exact hsucceed' b hb

/-- One call. -/
theorem call {m : Db (Transaction FileId × Disk) α} (c : Call) (hstays : c.Stays)
    (hstep : ∀ tx d, Session.step c (.active tx, d) = Session.inside tx m d)
    (hnote : ∀ tx d a, (m (tx, d)).1 = .ok a →
      (Book.record c ⟨[], [], false⟩ (.active tx, d)).failed = false) : Scripted m := by
  intro tx d
  refine ⟨[c], ?_, hstep tx d, ⟨fun hnil => absurd rfl hnil, trivial⟩,
    fun a ha => ⟨hnote tx d a ha, trivial⟩⟩
  intro c' hc'
  rw [List.mem_singleton.1 hc']
  exact hstays

theorem createTable (name : String) (columns : List ColumnDef) :
    Scripted (Transaction.createTable name columns) := by
  refine call (.createTable name columns) trivial (fun _ _ => rfl) fun tx d a ha => ?_
  rw [Book.record, ha]
  rfl

theorem createIndex (name : String) (tableId : RelationId) (columnName : String) :
    Scripted (Transaction.createIndex name tableId columnName) := by
  refine call (.createIndex name tableId columnName) trivial (fun _ _ => rfl) fun tx d a ha => ?_
  rw [Book.record, ha]
  rfl

theorem registerExtension (name : String) (abiVersion : UInt32) (kind : String) :
    Scripted (Transaction.registerExtension name abiVersion kind) := by
  refine call (.registerExtension name abiVersion kind) trivial (fun _ _ => rfl) fun tx d a ha => ?_
  rw [Book.record, ha]
  rfl

theorem insertRow (relationId : RelationId) (bytes : List UInt8) :
    Scripted (Transaction.insertRow relationId bytes) := by
  refine call (.insertRow relationId bytes) trivial (fun _ _ => rfl) fun tx d a ha => ?_
  rw [Book.record, ha]
  rfl

theorem insertIndexEntry (fuel : Nat) (relationId : RelationId) (key : IndexKey) (rowId : RowId) :
    Scripted (Transaction.insertIndexEntry fuel relationId key rowId) := by
  refine call (.insertIndexEntry fuel relationId key rowId) trivial (fun _ _ => rfl) fun tx d a ha => ?_
  rw [Book.record, ha]
  rfl

theorem fullScan (relationId : RelationId) : Scripted (Transaction.fullScan relationId) :=
  call (.fullScan relationId) trivial (fun _ _ => rfl) fun _ _ _ _ => rfl

end Scripted

/-- Calls in a transaction of their own, which is dropped when one of them fails. -/
theorem Scripted.withTransaction {α β : Type} {m : Db (Transaction FileId × Disk) α} {k : α → β}
    (h : Scripted m) (s : TransactionalStore FileId × Disk)
    {result : DbResult β × TransactionalStore FileId × Disk}
    (hresult : TransactionalStore.withTransaction (do
      let a ← m
      Transaction.commit
      return k a) s = result) :
    ∃ calls, Script (.idle s.1, s.2) result.1.isOk calls ∧
      Session.run calls (.idle s.1, s.2) = (.idle result.2.1, result.2.2) := by
  subst hresult
  obtain ⟨store, d⟩ := s
  rcases hbegin : TransactionalStore.begin (store, d) with ⟨stop | tx, store', e⟩
  · have hstep : Session.step .begin (.idle store, d) = (.idle store', e) := by
      rw [Session.step, Session.start, hbegin]
    rw [TransactionalStore.withTransaction, hbegin]
    refine ⟨.begin :: ([] ++ [.drop]), Script.drops (List.forall_mem_nil _) trivial rfl, ?_⟩
    rw [Session.run, List.foldl_cons, hstep]
    rfl
  · have hstep : Session.step .begin (.idle store, d) = (.active tx, e) := by
      rw [Session.step, Session.start, hbegin]
    obtain ⟨body, hstays, hrun, hbut, hsucceed⟩ := h tx e
    simp only [TransactionalStore.withTransaction, hbegin]
    rcases hbody : m (tx, e) with ⟨stop | a, tx', e'⟩
    · rw [hbody] at hrun
      rw [Exec.bind_of_error hbody]
      refine ⟨.begin :: (body ++ [.drop]), Script.drops hstays ?_ rfl, ?_⟩
      · rw [hstep]
        exact hbut
      · rw [Session.run, List.foldl_cons, hstep, ← Session.run, Session.run_append, hrun]
        rfl
    · rw [hbody] at hrun hsucceed
      rw [Exec.bind_of_ok hbody]
      refine ⟨.begin :: (body ++ [.commit]), Script.commits hstays ?_ ?_, ?_⟩
      · rw [hstep]
        exact hsucceed a rfl
      · rw [hstep, hrun, Session.commitReturns]
        rcases hcommit : Transaction.commit (tx', e') with ⟨stop | ⟨⟩, t⟩
        · rw [Exec.bind_of_error hcommit]
          rfl
        · rw [Exec.bind_of_ok hcommit]
          rfl
      · rw [Session.run, List.foldl_cons, hstep, ← Session.run, Session.run_append, hrun]
        change Session.ending tx' Transaction.commit e' = _
        rw [Session.ending]
        rcases hcommit : Transaction.commit (tx', e') with ⟨stop | ⟨⟩, tx'', e''⟩
        · rw [Exec.bind_of_error hcommit]
        · rw [Exec.bind_of_ok hcommit]
          rfl

end Rdbms
