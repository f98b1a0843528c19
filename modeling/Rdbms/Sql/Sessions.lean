import Rdbms.Sql.Execute
import Rdbms.Tx.Scripts

/-!
# Statements as sessions

The SQL layer reaches the files through the calls of the transactional interface only. On
any disk, with any faults, executing texts goes through one script of calls for each text.
What holds of every session therefore holds of every run of statements.
-/

namespace Rdbms

open Library Disk

/-! ## On an idle store -/

/-- The computation on the idle store is carried out by reading calls. -/
def Reading {α : Type} (m : Db (TransactionalStore FileId × Disk) α) : Prop :=
  ∀ store d, ∃ calls, (∀ call ∈ calls, call.Reads) ∧ Session.run calls (.idle store, d) =
    (.idle (m (store, d)).2.1, (m (store, d)).2.2)

namespace Reading

variable {α β : Type}

theorem liftM (r : DbResult α) : Reading (liftM r) := fun _ _ => ⟨[], List.forall_mem_nil _, rfl⟩

theorem pure (a : α) : Reading (Pure.pure a) := liftM (.ok a)

theorem get {f : TransactionalStore FileId × Disk → Db (TransactionalStore FileId × Disk) β}
    (h : ∀ s, Reading (f s)) : Reading (Exec.get >>= f) := fun store d => h (store, d) store d

theorem bind {m : Db (TransactionalStore FileId × Disk) α}
    {f : α → Db (TransactionalStore FileId × Disk) β} (hm : Reading m) (hf : ∀ a, Reading (f a)) :
    Reading (m >>= f) := by
  intro store d
  obtain ⟨calls, hreads, hrun⟩ := hm store d
  rcases hcase : m (store, d) with ⟨stop | a, store', d'⟩
  · rw [hcase] at hrun
    refine ⟨calls, hreads, ?_⟩
    rw [Exec.bind_of_error hcase]
    exact hrun
  · rw [hcase] at hrun
    obtain ⟨calls', hreads', hrun'⟩ := hf a store' d'
    refine ⟨calls ++ calls', ?_, ?_⟩
    · intro call hcall
      exact (List.mem_append.1 hcall).elim (hreads call) (hreads' call)
    · rw [Session.run_append, hrun, Exec.bind_of_ok hcase]
      exact hrun'

theorem call {m : Db (TransactionalStore FileId × Disk) α} (store : TransactionalStore FileId)
    (d : Disk) (c : Call) (hreads : c.Reads)
    (hstep : Session.step c (.idle store, d) = Session.outside store m d) :
    ∃ calls, (∀ call ∈ calls, call.Reads) ∧ Session.run calls (.idle store, d) =
      (.idle (m (store, d)).2.1, (m (store, d)).2.2) := by
  refine ⟨[c], fun c' hc' => ?_, hstep⟩
  rw [List.mem_singleton.1 hc']
  exact hreads

end Reading

namespace Sql

section Idle

variable {host : Host}

/-- Reading rows one after the other is reading them by calls. -/
theorem readRows_calls (store : TransactionalStore FileId) (relationId : RelationId)
    (rowIds : List RowId) (d : Disk) : ∃ calls, (∀ call ∈ calls, call.Reads) ∧
      Session.run calls (.idle store, d) = (.idle store, (readRows store relationId rowIds d).2) := by
  induction rowIds generalizing d with
  | nil => exact ⟨[], List.forall_mem_nil _, rfl⟩
  | cons rowId rowIds ih =>
      have hstep : Session.step (.readRow relationId rowId) (.idle store, d) =
          (.idle store, (store.readRow relationId rowId d).2) := rfl
      rcases hread : store.readRow relationId rowId d with ⟨stop | row, e⟩
      · refine ⟨[.readRow relationId rowId], ?_, ?_⟩
        · intro call hcall
          rw [List.mem_singleton.1 hcall]
          trivial
        · rw [readRows, Exec.bind_of_error hread]
          rw [hread] at hstep
          exact hstep
      · obtain ⟨calls, hreads, hrun⟩ := ih e
        refine ⟨.readRow relationId rowId :: calls, List.forall_mem_cons.2 ⟨trivial, hreads⟩, ?_⟩
        rw [readRows, Exec.bind_of_ok hread, Session.run, List.foldl_cons, hstep, hread,
          ← Session.run, hrun]
        rcases hrest : readRows store relationId rowIds e with ⟨stop | rows, e'⟩
        · rw [Exec.bind_of_error hrest]
        · rw [Exec.bind_of_ok hrest]
          rfl

/-- The rows that an index finds are read by calls. -/
theorem lookup_calls (store : TransactionalStore FileId) (relationId indexId : RelationId)
    (key : IndexKey) (d : Disk) {m : Db (TransactionalStore FileId × Disk) (List HeapRow)}
    (hm : m = do
      let rowIds ← TransactionalStore.lookupIndex indexFuel indexId key
      Exec.onRight (readRows store relationId rowIds)) :
    ∃ calls, (∀ call ∈ calls, call.Reads) ∧ Session.run calls (.idle store, d) =
      (.idle (m (store, d)).2.1, (m (store, d)).2.2) := by
  subst hm
  have hlooking := TransactionalStore.lookupIndex_looking indexFuel indexId key (store, d)
  have hstep : Session.step (.lookupIndex indexFuel indexId key) (.idle store, d) =
      (.idle (TransactionalStore.lookupIndex indexFuel indexId key (store, d)).2.1,
        (TransactionalStore.lookupIndex indexFuel indexId key (store, d)).2.2) := rfl
  rcases hlookup : TransactionalStore.lookupIndex indexFuel indexId key (store, d) with
    ⟨stop | rowIds, store', e⟩
  · rw [hlookup] at hstep
    refine ⟨[.lookupIndex indexFuel indexId key], ?_, ?_⟩
    · intro call hcall
      rw [List.mem_singleton.1 hcall]
      trivial
    · rw [Exec.bind_of_error hlookup]
      exact hstep
  · rw [hlookup] at hlooking hstep
    obtain rfl : store' = store := hlooking.handle
    obtain ⟨calls, hreads, hrun⟩ := readRows_calls store' relationId rowIds e
    refine ⟨.lookupIndex indexFuel indexId key :: calls,
      List.forall_mem_cons.2 ⟨trivial, hreads⟩, ?_⟩
    rw [Exec.bind_of_ok hlookup, Session.run, List.foldl_cons, hstep, ← Session.run, hrun]
    rfl

theorem candidateRows_reading (relation : RelationInfo) (selection : Option Selection) :
    Reading (candidateRows relation selection) := by
  intro store d
  have hscan := Reading.call (m := Exec.onRight (store.fullScan relation.id)) store d
    (.fullScan relation.id) trivial rfl
  cases selection with
  | none => exact hscan
  | some selection =>
      simp only [candidateRows, Exec.bind_of_ok (Exec.get_apply _)]
      cases findIndexOnColumn store relation.id selection.column with
      | none => exact hscan
      | some indexRelation =>
          dsimp only
          rcases indexKeyFromValue selection.value with stop | key
          · exact Reading.liftM (.error stop) store d
          · cases key with
            | none => exact hscan
            | some key => exact lookup_calls store relation.id indexRelation.id key d rfl

theorem executeSelect_reading (host : Host) (projection : Projection) (table : String)
    (selection : Option Selection) : Reading (executeSelect host projection table selection) := by
  refine Reading.get fun s => ?_
  refine Reading.bind (Reading.liftM _) fun relation => ?_
  refine Reading.bind (Reading.liftM _) fun indexes => ?_
  refine Reading.bind (Reading.liftM _) fun index => ?_
  refine Reading.bind (candidateRows_reading _ _) fun heapRows => ?_
  refine Reading.bind (Reading.liftM _) fun rows => ?_
  exact Reading.bind (Reading.liftM _) fun columns => Reading.pure _

end Idle

/-! ## Inside the transaction of a statement -/

theorem insertKey_scripted (relationId : RelationId) (rowId : RowId) (key : Option IndexKey) :
    Scripted (insertKey relationId rowId key) := by
  cases key with
  | none => exact Scripted.pure ()
  | some key => exact Scripted.insertIndexEntry _ _ _ _

theorem insertKeys_scripted (found : List (DbResult (RelationId × RowId × Option IndexKey))) :
    Scripted (insertKeys found) := by
  induction found with
  | nil => exact Scripted.pure ()
  | cons first found ih =>
      refine Scripted.bind (Scripted.liftM _) fun key => ?_
      exact Scripted.bind (insertKey_scripted _ _ _) fun _ => ih

/-! ## Statements -/

/-- The computation on the idle store is carried out by the calls of a script. -/
def Makes {α : Type} (m : Db (TransactionalStore FileId × Disk) α)
    (s : TransactionalStore FileId × Disk) : Prop :=
  ∃ calls, Script (.idle s.1, s.2) (m s).1.isOk calls ∧
    Session.run calls (.idle s.1, s.2) = (.idle (m s).2.1, (m s).2.2)

section Makes

variable {α β : Type} {s : TransactionalStore FileId × Disk}

theorem Reading.makes {m : Db (TransactionalStore FileId × Disk) α} (h : Reading m) : Makes m s := by
  obtain ⟨calls, hreads, hrun⟩ := h s.1 s.2
  exact ⟨calls, Script.reads hreads, hrun⟩

theorem Makes.get {f : TransactionalStore FileId × Disk → Db (TransactionalStore FileId × Disk) β}
    (h : Makes (f s) s) : Makes (Exec.get >>= f) s := h

theorem Makes.check {r : DbResult α} {f : α → Db (TransactionalStore FileId × Disk) β}
    (h : ∀ a, Makes (f a) s) : Makes (liftM r >>= f) s := by
  cases r with
  | ok a => exact h a
  | error stop => exact Reading.makes (Reading.liftM (.error stop))

theorem Makes.map {m : Db (TransactionalStore FileId × Disk) α} {k : α → β} (h : Makes m s) :
    Makes (do let a ← m; return k a) s := by
  obtain ⟨calls, hscript, hrun⟩ := h
  rcases hm : m s with ⟨stop | a, t⟩
  · rw [hm] at hscript hrun
    refine ⟨calls, ?_, ?_⟩
    · rw [Exec.bind_of_error hm]
      exact hscript
    · rw [Exec.bind_of_error hm]
      exact hrun
  · rw [hm] at hscript hrun
    refine ⟨calls, ?_, ?_⟩
    · rw [Exec.bind_of_ok hm]
      exact hscript
    · rw [Exec.bind_of_ok hm]
      exact hrun

theorem Makes.withTransaction {m : Db (Transaction FileId × Disk) α} {k : α → β} (h : Scripted m) :
    Makes (TransactionalStore.withTransaction (do
      let a ← m
      Transaction.commit
      return k a)) s := h.withTransaction s rfl

end Makes

theorem executeStatement_makes (host : Host) (st : Statement)
    (s : TransactionalStore FileId × Disk) : Makes (executeStatement host st) s := by
  cases st with
  | createTable name columns =>
      exact Makes.map (Makes.withTransaction (Scripted.createTable name columns))
  | insert table values =>
      change Makes (executeInsert host table values) s
      rw [executeInsert_eq]
      refine Makes.get (Makes.check fun relation => ?_)
      refine Makes.check fun coerced => Makes.check fun bytes => ?_
      exact Makes.withTransaction (Scripted.bind (Scripted.insertRow _ _) fun _ => insertKeys_scripted _)
  | createIndex name table columnName =>
      change Makes (executeCreateIndex name table columnName) s
      rw [executeCreateIndex_eq]
      refine Makes.get (Makes.check fun relation => Makes.check fun i => ?_)
      refine Makes.check fun column => Makes.check fun _ => ?_
      refine Makes.withTransaction (Scripted.bind (Scripted.createIndex _ _ _) fun created => ?_)
      exact Scripted.bind (Scripted.fullScan _) fun _ => insertKeys_scripted _
  | loadExtension name =>
      refine Makes.check fun descriptor => ?_
      exact Makes.map (Makes.withTransaction (Scripted.registerExtension _ _ _))
  | selectFunction name args => exact Reading.makes (Reading.get fun t => Reading.liftM _)
  | select projection table selection => exact Reading.makes (executeSelect_reading host _ _ _)

theorem execute_makes (host : Host) (sql : String) (params : List Value)
    (s : TransactionalStore FileId × Disk) : Makes (execute host sql params) s :=
  Makes.check fun _ => Makes.check fun st => executeStatement_makes host st s

/-- The handle and the disk after the texts have been executed one after the other. -/
def executeAll (host : Host) (texts : List (String × List Value))
    (s : TransactionalStore FileId × Disk) : TransactionalStore FileId × Disk :=
  texts.foldl (fun s text => (execute host text.1 text.2 s).2) s

/-- Which of the texts return when they are executed one after the other. -/
def outcomes (host : Host) : List (String × List Value) → TransactionalStore FileId × Disk → List Bool
  | [], _ => []
  | text :: texts, s =>
      (execute host text.1 text.2 s).1.isOk :: outcomes host texts (execute host text.1 text.2 s).2

end Sql

end Rdbms
