import Rdbms.Sql.Atomic
import Rdbms.Tx.Stops

/-!
# Statements on a machine that stops

A statement that is no SELECT is refused at once or is one transaction. Until the machine
has stopped, every statement goes as it does on the disk without faults.
-/

namespace Rdbms

open Library Disk

namespace Sql

/-! ## Inside the transaction of a statement -/

theorem insertKey_lockstep (relationId : RelationId) (rowId : RowId) (key : Option IndexKey) :
    Lockstep (stoppingWith (Transaction FileId))
      (insertKey relationId rowId key : Db (Transaction FileId × Disk) Unit) := by
  cases key with
  | none => exact Lockstep.pure ()
  | some key => exact Transaction.insertIndexEntry_lockstep _ _ _ _

theorem insertKeys_lockstep (found : List (DbResult (RelationId × RowId × Option IndexKey))) :
    Lockstep (stoppingWith (Transaction FileId))
      (insertKeys found : Db (Transaction FileId × Disk) Unit) := by
  induction found with
  | nil => exact Lockstep.pure ()
  | cons first found ih =>
      refine Lockstep.bind (Lockstep.liftM _) fun key => ?_
      exact Lockstep.bind (insertKey_lockstep _ _ _) fun _ => ih

/-! ## One transaction -/

/-- On the store, the computation is refused before it touches the disk, or it is one
transaction: calls that stage pages, and a commit. -/
inductive Once (store : TransactionalStore FileId)
    (m : Db (TransactionalStore FileId × Disk) ExecResult) : Prop
  | refused {stop : Stop} (run : ∀ d, m (store, d) = (.error stop, (store, d))) : Once store m
  | commits {α : Type} {body : Db (Transaction FileId × Disk) α} (count : UInt64)
      (staging : Exec.Preserves Transaction.Staging body)
      (lockstep : Lockstep (stoppingWith (Transaction FileId)) body)
      (run : ∀ d, m (store, d) = TransactionalStore.withTransaction (do
        let _ ← body
        Transaction.commit
        return .statementComplete count) (store, d)) : Once store m

section Once

variable {store : TransactionalStore FileId} {α β : Type} {host : Host}

theorem Once.check {r : DbResult α} {f : α → Db (TransactionalStore FileId × Disk) ExecResult}
    (h : ∀ a, Once store (f a)) : Once store (liftM r >>= f) := by
  cases r with
  | ok a => exact h a
  | error stop => exact Once.refused fun _ => rfl

theorem Once.get {f : TransactionalStore FileId × Disk → Db (TransactionalStore FileId × Disk) ExecResult}
    (h : ∀ s, Once s.1 (f s)) (hsame : ∀ x d e, f (x, d) = f (x, e)) :
    Once store (Exec.get >>= f) := by
  have hget : ∀ d, (Exec.get >>= f) (store, d) = f (store, fresh) (store, d) := by
    intro d
    rw [Exec.bind_of_ok (Exec.get_apply _), hsame store d fresh]
  cases h (store, fresh) with
  | refused hrun => exact Once.refused fun d => (hget d).trans (hrun d)
  | commits count hstaging hlock hrun =>
      exact Once.commits count hstaging hlock fun d => (hget d).trans (hrun d)

/-- What is done with the value of a transaction can be done inside it. -/
theorem withTransaction_bind_pure {body : Db (Transaction FileId × Disk) α} {k : α → β}
    (s : TransactionalStore FileId × Disk) :
    (do let a ← TransactionalStore.withTransaction body; return k a :
      Db (TransactionalStore FileId × Disk) β) s =
      TransactionalStore.withTransaction (do let a ← body; return k a) s := by
  rcases hbegin : TransactionalStore.begin s with ⟨stop | tx, t⟩
  · have hrun : TransactionalStore.withTransaction body s = (.error stop, t) := by
      rw [TransactionalStore.withTransaction, hbegin]
    rw [Exec.bind_of_error hrun, TransactionalStore.withTransaction, hbegin]
  · have hrun : TransactionalStore.withTransaction body s =
        ((body (tx, t.2)).1, ((body (tx, t.2)).2.1.drop, (body (tx, t.2)).2.2)) := by
      rw [TransactionalStore.withTransaction, hbegin]
    have hrun' : TransactionalStore.withTransaction (do let a ← body; return k a) s =
        (((do let a ← body; return k a : Db (Transaction FileId × Disk) β) (tx, t.2)).1,
          (((do let a ← body; return k a : Db (Transaction FileId × Disk) β) (tx, t.2)).2.1.drop,
          ((do let a ← body; return k a : Db (Transaction FileId × Disk) β) (tx, t.2)).2.2)) := by
      rw [TransactionalStore.withTransaction, hbegin]
    rw [hrun']
    rcases hbody : body (tx, t.2) with ⟨stop | a, u⟩
    · rw [hbody] at hrun
      rw [Exec.bind_of_error hrun, Exec.bind_of_error hbody]
    · rw [hbody] at hrun
      rw [Exec.bind_of_ok hrun, Exec.bind_of_ok hbody]
      rfl

theorem Once.map {body : Db (Transaction FileId × Disk) α} {count : UInt64}
    (hstaging : Exec.Preserves Transaction.Staging body)
    (hlock : Lockstep (stoppingWith (Transaction FileId)) body) :
    Once store (do
      let _ ← TransactionalStore.withTransaction (do
        let a ← body
        Transaction.commit
        return a)
      return .statementComplete count) := by
  refine Once.commits count hstaging hlock fun d => ?_
  rw [withTransaction_bind_pure]
  congr 1
  simp only [Exec.bind_assoc]
  rfl

/-- Every statement but a SELECT. -/
theorem executeStatement_once (host : Host) {st : Statement} (h : ¬ st.IsSelect)
    (store : TransactionalStore FileId) : Once store (executeStatement host st) := by
  cases st with
  | createTable name columns =>
      exact Once.map (Transaction.createTable_staging _ _) (Transaction.createTable_lockstep _ _)
  | loadExtension name =>
      refine Once.check fun descriptor => ?_
      exact Once.map (Transaction.registerExtension_staging _ _ _)
        (Transaction.registerExtension_lockstep _ _ _)
  | insert table values =>
      change Once store (executeInsert host table values)
      rw [executeInsert_eq]
      refine Once.get (fun s => ?_) fun _ _ _ => rfl
      refine Once.check fun relation => Once.check fun coerced => Once.check fun bytes => ?_
      refine Once.commits 1 (addRow_staging _ _ _ _) ?_ fun d => rfl
      exact Lockstep.bind (Transaction.insertRow_lockstep _ _) fun _ => insertKeys_lockstep _
  | createIndex name table columnName =>
      change Once store (executeCreateIndex name table columnName)
      rw [executeCreateIndex_eq]
      refine Once.get (fun s => ?_) fun _ _ _ => rfl
      refine Once.check fun relation => Once.check fun i => ?_
      refine Once.check fun column => Once.check fun _ => ?_
      refine Once.commits 0 (fillIndex_staging _ _ _ _) ?_ fun d => rfl
      refine Lockstep.bind (Transaction.createIndex_lockstep _ _ _) fun created => ?_
      exact Lockstep.bind (Transaction.fullScan_lockstep _) fun _ => insertKeys_lockstep _
  | selectFunction name args => exact absurd trivial h
  | select projection table selection => exact absurd trivial h

/-! ## All statements -/

theorem readRows_lockstep (store : TransactionalStore FileId) (relationId : RelationId)
    (rowIds : List RowId) : Lockstep stopping (readRows store relationId rowIds) := by
  induction rowIds with
  | nil => exact Lockstep.pure _
  | cons rowId rowIds ih =>
      refine Lockstep.bind
        (TransactionalStore.readRow_lockstep readPage_lockstep _ _ _) fun row => ?_
      exact Lockstep.bind ih fun rows => Lockstep.pure _

theorem candidateRows_lockstep (relation : RelationInfo) (selection : Option Selection) :
    Lockstep (stoppingWith (TransactionalStore FileId)) (candidateRows relation selection :
      Db (TransactionalStore FileId × Disk) (List HeapRow)) := by
  refine Lockstep.get_bind (fun s => ?_) fun _ _ _ => rfl
  have hscan := Lockstep.onRight (ρ := TransactionalStore FileId)
    (TransactionalStore.fullScan_lockstep readPage_lockstep s.1 relation.id)
  cases selection with
  | none => exact hscan
  | some selection =>
      dsimp only
      split
      · exact hscan
      · refine Lockstep.bind (Lockstep.liftM _) fun key => ?_
        cases key with
        | none => exact hscan
        | some key =>
            refine Lockstep.bind
              (TransactionalStore.lookupIndex_lockstep readPage_lockstep _ _ _) fun rowIds => ?_
            exact Lockstep.onRight (readRows_lockstep _ _ _)

theorem executeSelect_lockstep (host : Host) (projection : Projection) (table : String)
    (selection : Option Selection) : Lockstep (stoppingWith (TransactionalStore FileId))
      (executeSelect host projection table selection :
        Db (TransactionalStore FileId × Disk) ExecResult) := by
  refine Lockstep.get_bind (fun s => ?_) fun _ _ _ => rfl
  refine Lockstep.bind (Lockstep.liftM _) fun relation => ?_
  refine Lockstep.bind (Lockstep.liftM _) fun indexes => ?_
  refine Lockstep.bind (Lockstep.liftM _) fun index => ?_
  refine Lockstep.bind (candidateRows_lockstep _ _) fun heapRows => ?_
  refine Lockstep.bind (Lockstep.liftM _) fun rows => ?_
  exact Lockstep.bind (Lockstep.liftM _) fun columns => Lockstep.pure _

theorem Once.lockstep {m : Db (TransactionalStore FileId × Disk) ExecResult} (h : Once store m) :
    ∃ m', Lockstep (stoppingWith (TransactionalStore FileId)) m' ∧
      ∀ d, m (store, d) = m' (store, d) := by
  cases h with
  | @refused stop hrun => exact ⟨Exec.fail stop, Lockstep.fail stop, hrun⟩
  | commits count hstaging hlock hrun =>
      refine ⟨_, TransactionalStore.withTransaction_lockstep ?_, hrun⟩
      refine Lockstep.bind hlock fun _ => ?_
      exact Lockstep.bind Transaction.commit_lockstep fun _ => Lockstep.pure _

theorem executeStatement_lockstep (host : Host) (st : Statement) :
    Lockstep (stoppingWith (TransactionalStore FileId))
      (executeStatement host st : Db (TransactionalStore FileId × Disk) ExecResult) := by
  by_cases hselect : st.IsSelect
  · cases st with
    | selectFunction name args =>
        exact Lockstep.get_bind (fun s => Lockstep.liftM _) fun _ _ _ => rfl
    | select projection table selection => exact executeSelect_lockstep _ _ _ _
    | createTable name columns => cases hselect
    | insert table values => cases hselect
    | createIndex name table columnName => cases hselect
    | loadExtension name => cases hselect
  · exact Lockstep.each fun store => (executeStatement_once host hselect store).lockstep

theorem execute_lockstep (host : Host) (sql : String) (params : List Value) :
    Lockstep (stoppingWith (TransactionalStore FileId))
      (execute host sql params : Db (TransactionalStore FileId × Disk) ExecResult) :=
  Lockstep.bind (Lockstep.liftM _) fun _ => Lockstep.bind (Lockstep.liftM _) fun st =>
    executeStatement_lockstep host st

/-! ## Texts -/

theorem execute_once {sql : String} {st : Statement} (params : List Value)
    (hparse : parseStatement host sql = .ok st) (hselect : ¬ st.IsSelect)
    (store : TransactionalStore FileId) : Once store (execute host sql params) := by
  refine Once.check fun _ => ?_
  rw [hparse]
  exact executeStatement_once host hselect store

/-- A SELECT returns rows. -/
theorem executeStatement_ne_complete {st : Statement} (h : st.IsSelect) {count : UInt64}
    {s t : TransactionalStore FileId × Disk} :
    executeStatement host st s ≠ (.ok (.statementComplete count), t) := by
  intro hrun
  cases st with
  | selectFunction name args =>
      obtain ⟨s₁, u₁, -, hrun⟩ := Exec.bind_eq_ok.1 hrun
      obtain ⟨hrun, -⟩ := Exec.liftM_eq_ok.1 hrun
      obtain ⟨registry, -, hrun⟩ := except_bind_eq_ok.1 hrun
      obtain ⟨value, -, hrun⟩ := except_bind_eq_ok.1 hrun
      obtain ⟨function, -, hrun⟩ := except_bind_eq_ok.1 hrun
      cases hrun
  | select projection table selection =>
      obtain ⟨s₁, u₁, -, hrun⟩ := Exec.bind_eq_ok.1 hrun
      obtain ⟨relation, u₂, -, hrun⟩ := Exec.bind_eq_ok.1 hrun
      obtain ⟨indexes, u₃, -, hrun⟩ := Exec.bind_eq_ok.1 hrun
      obtain ⟨index, u₄, -, hrun⟩ := Exec.bind_eq_ok.1 hrun
      obtain ⟨heapRows, u₅, -, hrun⟩ := Exec.bind_eq_ok.1 hrun
      obtain ⟨rows, u₆, -, hrun⟩ := Exec.bind_eq_ok.1 hrun
      obtain ⟨columns, u₇, -, hrun⟩ := Exec.bind_eq_ok.1 hrun
      cases hrun
  | createTable name columns => cases h
  | insert table values => cases h
  | createIndex name table columnName => cases h
  | loadExtension name => cases h

/-- On a machine that has stopped, no statement completes. -/
theorem execute_of_stopped {sql : String} {params : List Value} {d : Disk}
    {count : UInt64} (hd : CrashOnly d) (hstopped : HasStopped d) :
    (execute host sql params (store, d)).1 ≠ .ok (.statementComplete count) := by
  intro hok
  rcases hrun : execute host sql params (store, d) with ⟨r, t⟩
  rw [hrun] at hok
  obtain rfl : r = .ok (.statementComplete count) := hok
  obtain ⟨⟨⟩, u, -, hrest⟩ := Exec.bind_eq_ok.1 hrun
  obtain ⟨st, u', hparse, hst⟩ := Exec.bind_eq_ok.1 hrest
  obtain ⟨hparse, -⟩ := Exec.liftM_eq_ok.1 hparse
  by_cases hselect : st.IsSelect
  · exact executeStatement_ne_complete hselect hst
  · cases execute_once params hparse hselect store with
    | refused hrun' =>
        rw [hrun'] at hrun
        cases hrun
    | commits count hstaging hlock hrun' =>
        rw [hrun'] at hrun
        exact TransactionalStore.withTransaction_of_stopped _ hd hstopped _ (congrArg Prod.fst hrun)

/-- How a text fares when the machine may stop. -/
theorem execute_fares {records : List WalRecord} {d : Disk} (hgood : (Session.idle store).Good)
    (h : WalAt records store.wal d) (sql : String) (params : List Value) :
    Fares records d (execute host sql params (store, d)).1 (execute host sql params (store, d)).2.2
      (execute host sql params (store, d.healed)).2.2 := by
  by_cases hselect : ∀ st, parseStatement host sql = .ok st → st.IsSelect
  · have hlooking := execute_looking host params hselect
    exact Fares.looked (hlooking (store, d)).disk (hlooking (store, d.healed)).disk
  · push Not at hselect
    obtain ⟨st, hparse, hselect⟩ := hselect
    cases execute_once params hparse hselect store with
    | refused hrun =>
        rw [hrun, hrun]
        exact Fares.looked (OnlyReads.refl d) (OnlyReads.refl d.healed)
    | commits count hstaging hlock hrun =>
        rw [hrun, hrun]
        exact TransactionalStore.withTransaction_fares hgood h hstaging hlock

end Once

end Sql

end Rdbms
