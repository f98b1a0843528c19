import Rdbms.Library.Hoare

/-!
# The exits of a call

`FailsIn E r` says that the call `r`, if it leaves early at all, leaves with an exit of the
class `E`. The class of a call is put together from the classes of its steps; a step may use
what the steps before it have given.
-/

namespace Library

variable {ε α β : Type} {E E' : ε → Prop}

/-- The call leaves early with an exit in `E` only. -/
def FailsIn (E : ε → Prop) (r : Except ε α) : Prop := ∀ e, r = .error e → E e

namespace FailsIn

theorem ok (a : α) : FailsIn E (.ok a) := nofun

theorem error {e : ε} (h : E e) : FailsIn E (.error e : Except ε α) := by
  rintro e' ⟨⟩
  exact h

theorem mono {r : Except ε α} (h : FailsIn E r) (hE : ∀ e, E e → E' e) : FailsIn E' r :=
  fun e he => hE e (h e he)

theorem bind {r : Except ε α} {f : α → Except ε β} (hr : FailsIn E r)
    (hf : ∀ a, r = .ok a → FailsIn E (f a)) : FailsIn E (r >>= f) := by
  intro e h
  rcases except_bind_eq_error.1 h with h | ⟨a, ha, h⟩
  · exact hr e h
  · exact hf a ha e h

theorem failIf {c : Prop} [Decidable c] {failure : Except ε Unit} (h : c → FailsIn E failure) :
    FailsIn E (failIf c failure) := by
  rw [Library.failIf]
  split
  · rename_i hc
    exact h hc
  · exact ok ()

/-- The check goes first; after it, its condition is known to be false. -/
theorem failIf_bind {c : Prop} [Decidable c] {e : ε} {f : Unit → Except ε β} (he : c → E e)
    (hf : ¬ c → FailsIn E (f ())) : FailsIn E (Library.failIf c (.error e) >>= f) :=
  (failIf fun hc => error (he hc)).bind fun _ h => hf (failIf_eq_ok.1 h)

theorem forM {xs : List α} {f : α → Except ε Unit} (hf : ∀ x ∈ xs, FailsIn E (f x)) :
    FailsIn E (xs.forM f) := by
  induction xs with
  | nil => exact ok ()
  | cons x xs ih =>
      rw [List.forall_mem_cons] at hf
      rw [List.forM_eq_forM, List.forM_cons]
      exact hf.1.bind fun _ _ => ih hf.2

theorem mapM {xs : List α} {f : α → Except ε β} (hf : ∀ x ∈ xs, FailsIn E (f x)) :
    FailsIn E (xs.mapM f) := by
  induction xs with
  | nil => exact ok []
  | cons x xs ih =>
      rw [List.forall_mem_cons] at hf
      rw [List.mapM_cons]
      exact hf.1.bind fun _ _ => (ih hf.2).bind fun _ _ => ok _

/-- A call that fails in `E` and does not give a value fails with an exit of `E`. -/
theorem exists_of_not_ok {r : Except ε α} (h : FailsIn E r) (hr : ∀ a, r ≠ .ok a) :
    ∃ e, r = .error e ∧ E e := by
  cases r with
  | ok a => exact absurd rfl (hr a)
  | error e => exact ⟨e, rfl, h e rfl⟩

end FailsIn

/-- A specified computation leaves early with an exit of the class it is specified with. -/
theorem Exec.Ensures.failsIn {σ : Type} {m : Exec ε σ α} {s : σ} {Q : α → σ → Prop}
    (h : Exec.Ensures m s E Q) : FailsIn E (m s).1 := by
  intro e he
  exact h.error (Prod.ext he rfl)

/-! ## Computations -/

namespace Exec

variable {σ τ : Type}

/-- From whatever state it is started, the computation leaves early with an exit in `E`
only. -/
def LeavesIn (E : ε → Prop) (m : Exec ε σ α) : Prop := ∀ s, FailsIn E (m s).1

namespace LeavesIn

theorem ensures {m : Exec ε σ α} (h : LeavesIn E m) (s : σ) : Ensures m s E fun _ _ => True := by
  rcases hm : m s with ⟨e | a, t⟩
  · refine Ensures.of_error hm (h s e ?_)
    rw [hm]
  · exact Ensures.of_ok hm trivial

theorem pure (a : α) : LeavesIn E (Pure.pure a : Exec ε σ α) := fun _ => FailsIn.ok a

/-- Behind a check it is known what the check has given. -/
theorem check {r : Except ε α} {f : α → Exec ε σ β} (hr : FailsIn E r)
    (hf : ∀ a, r = .ok a → LeavesIn E (f a)) :
    LeavesIn E ((liftM r : Exec ε σ α) >>= f) := fun s =>
  (Ensures.bind (Ensures.liftM (fun a ha => (hf a ha).ensures s) hr)).failsIn

theorem liftM {r : Except ε α} (h : FailsIn E r) : LeavesIn E (liftM r : Exec ε σ α) := fun _ => h

theorem get : LeavesIn E (get : Exec ε σ σ) := fun s => FailsIn.ok s

theorem modify (f : σ → σ) : LeavesIn E (modify f : Exec ε σ Unit) := fun _ => FailsIn.ok ()

theorem bind {m : Exec ε σ α} {f : α → Exec ε σ β} (hm : LeavesIn E m)
    (hf : ∀ a, LeavesIn E (f a)) : LeavesIn E (m >>= f) := fun s =>
  (Ensures.bind ((hm.ensures s).imp fun a t _ => (hf a).ensures t)).failsIn

theorem forM {xs : List α} {f : α → Exec ε σ Unit} (hf : ∀ x ∈ xs, LeavesIn E (f x)) :
    LeavesIn E (xs.forM f) := by
  induction xs with
  | nil => exact pure ()
  | cons x xs ih =>
      rw [List.forall_mem_cons] at hf
      exact hf.1.bind fun _ => ih hf.2

theorem zoom {m : Exec ε τ α} (h : LeavesIn E m) (part : σ → τ) (put : σ → τ → σ) :
    LeavesIn E (Exec.zoom part put m) := fun s => h (part s)

theorem toExcept {m : Exec ε σ α} (h : LeavesIn E m) (s : σ) : FailsIn E (Exec.toExcept m s) := by
  intro e he
  obtain ⟨t, hm⟩ := toExcept_eq_error.1 he
  refine h s e ?_
  rw [hm]

end LeavesIn

end Exec

end Library
