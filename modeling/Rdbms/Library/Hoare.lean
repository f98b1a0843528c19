import Rdbms.Library.Exec

/-!
# Pre- and postconditions

`Exec.Ensures m s E Q` is a specification of one run: started in the state `s`, the
computation `m` ends with a value and a state that satisfy `Q`, or it leaves early
with an exit in `E`. What happens to the state on the way to an early exit is left
open. The rules follow the structure of a computation.
-/

namespace Library

namespace Exec

variable {ε σ α β : Type} {E E' : ε → Prop} {Q Q' : α → σ → Prop} {m : Exec ε σ α} {s t : σ}

/-- From the state `s` on, `m` ends in `Q` or leaves with an exit in `E`. -/
def Ensures (m : Exec ε σ α) (s : σ) (E : ε → Prop) (Q : α → σ → Prop) : Prop :=
  match m s with
  | (.ok a, t) => Q a t
  | (.error e, _) => E e

theorem Ensures.of_ok {a : α} (h : m s = (.ok a, t)) (hQ : Q a t) : Ensures m s E Q := by
  rw [Ensures, h]
  exact hQ

theorem Ensures.of_error {e : ε} (h : m s = (.error e, t)) (hE : E e) : Ensures m s E Q := by
  rw [Ensures, h]
  exact hE

theorem Ensures.ok {a : α} (h : Ensures m s E Q) (hm : m s = (.ok a, t)) : Q a t := by
  rwa [Ensures, hm] at h

theorem Ensures.error {e : ε} (h : Ensures m s E Q) (hm : m s = (.error e, t)) : E e := by
  rwa [Ensures, hm] at h

theorem Ensures.pure {a : α} (h : Q a s) : Ensures (Pure.pure a) s E Q := h

theorem Ensures.mono (h : Ensures m s E Q) (hE : ∀ e, E e → E' e) (hQ : ∀ a t, Q a t → Q' a t) :
    Ensures m s E' Q' := by
  rcases hm : m s with ⟨e | a, t⟩
  · exact Ensures.of_error hm (hE e (h.error hm))
  · exact Ensures.of_ok hm (hQ a t (h.ok hm))

theorem Ensures.imp (h : Ensures m s E Q) (hQ : ∀ a t, Q a t → Q' a t) : Ensures m s E Q' :=
  h.mono (fun _ he => he) hQ

theorem Ensures.weaken (h : Ensures m s E Q) (hE : ∀ e, E e → E' e) : Ensures m s E' Q :=
  h.mono hE fun _ _ hQ => hQ

/-- The first computation is specified by what the second one needs. -/
theorem Ensures.bind {f : α → Exec ε σ β} {R : β → σ → Prop}
    (h : Ensures m s E fun a t => Ensures (f a) t E R) : Ensures (m >>= f) s E R := by
  rcases hm : m s with ⟨e | a, t⟩
  · exact Ensures.of_error (bind_of_error hm) (h.error hm)
  · have hf := h.ok hm
    rwa [Ensures, bind_of_ok hm]

theorem Ensures.liftM {r : Except ε α} (hok : ∀ a, r = .ok a → Q a s)
    (herror : ∀ e, r = .error e → E e) : Ensures (liftM r : Exec ε σ α) s E Q := by
  cases r with
  | ok a => exact Ensures.of_ok rfl (hok a rfl)
  | error e => exact Ensures.of_error rfl (herror e rfl)

theorem Ensures.lift {r : Except ε α} (hok : ∀ a, r = .ok a → Q a s)
    (herror : ∀ e, r = .error e → E e) : Ensures (lift r : Exec ε σ α) s E Q :=
  Ensures.liftM hok herror

theorem Ensures.get {Q : σ → σ → Prop} (h : Q s s) : Ensures (get : Exec ε σ σ) s E Q := h

theorem Ensures.modify {f : σ → σ} {Q : Unit → σ → Prop} (h : Q () (f s)) :
    Ensures (modify f : Exec ε σ Unit) s E Q := h

/-- What every round of a loop keeps holds after the loop. -/
theorem Ensures.forM {xs : List β} {f : β → Exec ε σ Unit} {I : σ → Prop}
    (hround : ∀ x ∈ xs, ∀ t, I t → Ensures (f x) t E fun _ u => I u) :
    ∀ {s : σ}, I s → Ensures (xs.forM f) s E fun _ t => I t := by
  induction xs with
  | nil =>
      intro s hs
      exact Ensures.pure hs
  | cons x xs ih =>
      intro s hs
      rw [List.forall_mem_cons] at hround
      rw [List.forM_eq_forM, List.forM_cons]
      refine Ensures.bind ((hround.1 s hs).imp fun _ t ht => ?_)
      exact ih hround.2 ht

/-- What a computation relates its states by may be used in its postcondition. -/
theorem Ensures.and_rel {R : σ → σ → Prop} (h : Ensures m s E Q) (hR : Preserves R m) :
    Ensures m s E fun a t => Q a t ∧ R s t := by
  rcases hm : m s with ⟨e | a, t⟩
  · exact Ensures.of_error hm (h.error hm)
  · exact Ensures.of_ok hm ⟨h.ok hm, hR.rel hm⟩

-- Specifications are used through their rules; unfolding one would run the computation.
attribute [irreducible] Ensures

end Exec

end Library
