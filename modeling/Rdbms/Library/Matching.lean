import Rdbms.Library.Failure

/-!
# Computations that match a specification

The specification of a computation is a value or the error that it is refused with.
`Exec.Matches` says that the computation gives the value or the error, up to a class of exits
that the specification does not know of. A specification and a computation are walked through
together: a check that both make, or two checks that come out alike, are met by both.
-/

namespace Library

variable {ε α β γ δ : Type}

/-- Both fail with the same error, or both give values that are related. -/
inductive Alike (R : α → γ → Prop) : Except ε α → Except ε γ → Prop
  | ok {a : α} {c : γ} (h : R a c) : Alike R (.ok a) (.ok c)
  | error (e : ε) : Alike R (.error e) (.error e)

namespace Alike

variable {R : α → γ → Prop} {S : β → δ → Prop} {r : Except ε α} {r' : Except ε γ}

theorem refl (r : Except ε α) : Alike Eq r r := by
  cases r with
  | ok a => exact ok rfl
  | error e => exact error e

theorem bind {f : α → Except ε β} {f' : γ → Except ε δ} (h : Alike R r r')
    (hf : ∀ a c, r = .ok a → r' = .ok c → R a c → Alike S (f a) (f' c)) :
    Alike S (r >>= f) (r' >>= f') := by
  cases h with
  | ok h => exact hf _ _ rfl rfl h
  | error e => exact error e

theorem imp {S : α → γ → Prop} (h : Alike R r r')
    (hS : ∀ a c, r = .ok a → r' = .ok c → R a c → S a c) : Alike S r r' := by
  cases h with
  | ok h => exact ok (hS _ _ rfl rfl h)
  | error e => exact error e

theorem mapM {xs : List β} {f : β → Except ε α} {f' : β → Except ε γ}
    (h : ∀ x ∈ xs, Alike R (f x) (f' x)) :
    Alike (List.Forall₂ R) (xs.mapM f) (xs.mapM f') := by
  induction xs with
  | nil => exact ok List.Forall₂.nil
  | cons x xs ih =>
      rw [List.forall_mem_cons] at h
      rw [List.mapM_cons, List.mapM_cons]
      exact h.1.bind fun a c _ _ hhead => (ih h.2).bind fun as cs _ _ htail =>
        ok (List.Forall₂.cons hhead htail)

end Alike

namespace Exec

variable {σ : Type} {E : ε → Prop}

/-- Two specifications of one run; the exits are those of the first. -/
theorem Ensures.and {E' : ε → Prop} {m : Exec ε σ α} {s : σ} {Q Q' : α → σ → Prop}
    (h : Ensures m s E Q) (h' : Ensures m s E' Q') : Ensures m s E fun a t => Q a t ∧ Q' a t := by
  rcases hm : m s with ⟨e | a, t⟩
  · exact Ensures.of_error hm (h.error hm)
  · exact Ensures.of_ok hm ⟨h.ok hm, h'.ok hm⟩

/-- The computation gives what the specification gives and fails as the specification does,
or it leaves with an exit in `E`. -/
def Matches (m : Exec ε σ α) (s : σ) (spec : Except ε γ) (E : ε → Prop)
    (Q : γ → α → σ → Prop) : Prop :=
  Ensures m s (fun e => spec = .error e ∨ E e) fun a t => ∃ c, spec = .ok c ∧ Q c a t

namespace Matches

variable {m : Exec ε σ α} {s t : σ} {spec : Except ε γ} {Q Q' : γ → α → σ → Prop}
  {R : δ → β → σ → Prop}

theorem ok {a : α} (h : Matches m s spec E Q) (hm : m s = (.ok a, t)) :
    ∃ c, spec = .ok c ∧ Q c a t := by
  rw [Matches] at h
  exact h.ok hm

theorem error {e : ε} (h : Matches m s spec E Q) (hm : m s = (.error e, t)) :
    spec = .error e ∨ E e := by
  rw [Matches] at h
  exact h.error hm

theorem of_ok {a : α} {c : γ} (hm : m s = (.ok a, t)) (hspec : spec = .ok c) (hQ : Q c a t) :
    Matches m s spec E Q := Ensures.of_ok hm ⟨c, hspec, hQ⟩

theorem of_error {e : ε} (hm : m s = (.error e, t)) (h : spec = .error e ∨ E e) :
    Matches m s spec E Q := Ensures.of_error hm h

theorem imp (h : Matches m s spec E Q) (hQ : ∀ c a t, spec = .ok c → Q c a t → Q' c a t) :
    Matches m s spec E Q' :=
  Ensures.imp h fun a t ⟨c, hspec, hok⟩ => ⟨c, hspec, hQ c a t hspec hok⟩

theorem weaken {E' : ε → Prop} (h : Matches m s spec E Q) (hE : ∀ e, E e → E' e) :
    Matches m s spec E' Q := Ensures.weaken h fun e => Or.imp_right (hE e)

/-- What else is known of the values may be added. -/
theorem and {E' : ε → Prop} {P : α → σ → Prop} (h : Matches m s spec E Q)
    (h' : Ensures m s E' P) : Matches m s spec E fun c a t => Q c a t ∧ P a t := by
  rcases hm : m s with ⟨e | a, t⟩
  · exact of_error hm (h.error hm)
  · obtain ⟨c, hspec, hQ⟩ := h.ok hm
    exact of_ok hm hspec ⟨hQ, h'.ok hm⟩

/-- The specification gives its value from here on. -/
theorem of_ensures {c : γ} (h : Ensures m s E (Q c)) : Matches m s (.ok c) E Q :=
  h.mono (fun _ => Or.inr) fun _ _ hQ => ⟨c, rfl, hQ⟩

/-- What goes before may fail in `E`. -/
theorem bind_after {f : α → Exec ε σ β} {spec : Except ε δ}
    (h : Ensures m s E fun a t => Matches (f a) t spec E R) : Matches (m >>= f) s spec E R :=
  Ensures.bind (h.mono (fun _ => Or.inr) fun _ _ hf => hf)

/-- Both are bound to what follows them. -/
theorem bind {f : α → Exec ε σ β} {k : γ → Except ε δ}
    (h : Matches m s spec E fun c a t => Matches (f a) t (k c) E R) :
    Matches (m >>= f) s (spec >>= k) E R := by
  rcases hm : m s with ⟨e | a, t⟩
  · refine of_error (bind_of_error hm) ((h.error hm).imp_left fun hspec => ?_)
    rw [hspec]
    rfl
  · obtain ⟨c, rfl, hf⟩ := h.ok hm
    rw [Matches, Ensures, bind_of_ok hm, ← Ensures]
    exact hf

/-- What the specification gives is made into something else. -/
theorem map {g : γ → δ} {Q' : δ → α → σ → Prop} (h : Matches m s spec E Q)
    (hQ : ∀ c a t, Q c a t → Q' (g c) a t) : Matches m s (do let c ← spec; return g c) E Q' := by
  rcases hm : m s with ⟨e | a, t⟩
  · refine of_error hm ((h.error hm).imp_left fun hspec => ?_)
    rw [hspec]
    rfl
  · obtain ⟨c, rfl, hQc⟩ := h.ok hm
    exact of_ok hm rfl (hQ c a t hQc)

/-- Two checks that come out alike. -/
theorem check {r : Except ε α} {f : α → Exec ε σ β} {rest : γ → Except ε δ} {S : α → γ → Prop}
    (h : Alike S r spec) (hf : ∀ a c, r = .ok a → S a c → Matches (f a) s (rest c) E R) :
    Matches (liftM r >>= f) s (spec >>= rest) E R := by
  cases h with
  | ok h => exact hf _ _ rfl h
  | error e => exact of_error rfl (Or.inl rfl)

/-- The same check on both sides. -/
theorem same {r : Except ε α} {f : α → Exec ε σ β} {rest : α → Except ε δ}
    (hf : ∀ a, r = .ok a → Matches (f a) s (rest a) E R) :
    Matches (liftM r >>= f) s (r >>= rest) E R := by
  refine check (Alike.refl r) fun a c hr hac => ?_
  subst hac
  exact hf a hr

/-- The last check of the specification. -/
theorem last {r : Except ε γ} {f : γ → Exec ε σ α}
    (h : ∀ c, r = .ok c → Ensures (f c) s E (Q c)) : Matches (liftM r >>= f) s r E Q := by
  cases r with
  | error e => exact of_error rfl (Or.inl rfl)
  | ok c => exact of_ensures (h c rfl)

/-- The same check on both sides, with nothing behind it. -/
theorem liftM {r : Except ε α} {Q : α → α → σ → Prop} (h : ∀ a, r = .ok a → Q a a s) :
    Matches (liftM r) s r E Q := by
  cases r with
  | error e => exact of_error rfl (Or.inl rfl)
  | ok a => exact of_ok rfl rfl (h a rfl)

/-- The specification is through, and the rest of the computation follows. -/
theorem finish {f : α → Exec ε σ β} {R : γ → β → σ → Prop}
    (h : Matches m s spec E fun c a t => Ensures (f a) t E (R c)) : Matches (m >>= f) s spec E R :=
  Ensures.bind (Ensures.imp h fun _ _ ⟨c, hspec, hf⟩ =>
    hf.mono (fun _ => Or.inr) fun _ _ hR => ⟨c, hspec, hR⟩)

end Matches

end Exec

end Library
