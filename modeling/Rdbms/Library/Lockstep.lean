import Rdbms.Library.Exec

/-!
# Two runs in lockstep

One computation is run from two states, the second of which stands for the first one under
better circumstances. As long as the first run has not stopped, both runs give the same
values and their states stay related; once it has stopped, nothing that a computation does
to it matters any more.
-/

namespace Library

/-- How two runs are compared: which states are related, in which states the first run has
stopped, and how such a state may still change. -/
structure Comparison (σ : Type) where
  Related : σ → σ → Prop
  Stopped : σ → Prop
  Keeps : σ → σ → Prop
  keeps_refl : ∀ s, Keeps s s
  keeps_trans : ∀ {s t u}, Keeps s t → Keeps t u → Keeps s u

/-- The comparison of states with a part that both runs have to agree on. -/
def Comparison.beside {σ : Type} (ρ : Type) (c : Comparison σ) : Comparison (ρ × σ) where
  Related s t := t.1 = s.1 ∧ c.Related s.2 t.2
  Stopped s := c.Stopped s.2
  Keeps s t := c.Keeps s.2 t.2
  keeps_refl s := c.keeps_refl s.2
  keeps_trans h h' := c.keeps_trans h h'

/-- From related states, both runs end in the same way and in related states, unless the
first run has stopped on the way. A run that has stopped before stays so. -/
structure Lockstep {ε σ α : Type} (c : Comparison σ) (m : Exec ε σ α) : Prop where
  stays : ∀ s, c.Stopped s → c.Stopped (m s).2 ∧ c.Keeps s (m s).2
  agree : ∀ s t, c.Related s t →
    c.Stopped (m s).2 ∨ (m t).1 = (m s).1 ∧ c.Related (m s).2 (m t).2

namespace Lockstep

variable {ε σ τ ρ α β : Type} {c : Comparison σ}

/-- A result that is given, and what follows when it is a value. -/
theorem liftM_bind {r : Except ε α} {f : α → Exec ε σ β} (hf : ∀ a, r = .ok a → Lockstep c (f a)) :
    Lockstep c ((liftM r : Exec ε σ α) >>= f) := by
  cases r with
  | error e => exact ⟨fun s h => ⟨h, c.keeps_refl s⟩, fun _ _ h => Or.inr ⟨rfl, h⟩⟩
  | ok a => exact hf a rfl

theorem liftM (r : Except ε α) : Lockstep c (liftM r : Exec ε σ α) where
  stays s h := ⟨h, c.keeps_refl s⟩
  agree _ _ h := Or.inr ⟨rfl, h⟩

theorem pure (a : α) : Lockstep c (Pure.pure a : Exec ε σ α) where
  stays s h := ⟨h, c.keeps_refl s⟩
  agree _ _ h := Or.inr ⟨rfl, h⟩

theorem fail (e : ε) : Lockstep c (Exec.fail e : Exec ε σ α) where
  stays s h := ⟨h, c.keeps_refl s⟩
  agree _ _ h := Or.inr ⟨rfl, h⟩

theorem bind {m : Exec ε σ α} {f : α → Exec ε σ β} (hm : Lockstep c m)
    (hf : ∀ a, Lockstep c (f a)) : Lockstep c (m >>= f) where
  stays s h := by
    have hfirst := hm.stays s h
    rw [Exec.bind_apply]
    generalize m s = x at hfirst
    obtain ⟨r, u⟩ := x
    cases r with
    | error e => exact hfirst
    | ok a =>
        obtain ⟨hstopped, hkeeps⟩ := (hf a).stays u hfirst.1
        exact ⟨hstopped, c.keeps_trans hfirst.2 hkeeps⟩
  agree s t h := by
    have hagree := hm.agree s t h
    rw [Exec.bind_apply, Exec.bind_apply]
    generalize m s = x at hagree
    generalize m t = y at hagree
    obtain ⟨r, u⟩ := x
    obtain ⟨r', v⟩ := y
    cases r with
    | error e =>
        rcases hagree with hstopped | ⟨hsame, hrelated⟩
        · exact Or.inl hstopped
        · cases hsame
          exact Or.inr ⟨rfl, hrelated⟩
    | ok a =>
        rcases hagree with hstopped | ⟨hsame, hrelated⟩
        · exact Or.inl ((hf a).stays u hstopped).1
        · cases hsame
          exact (hf a).agree u v hrelated

theorem attempt {m : Exec ε σ α} (hm : Lockstep c m) : Lockstep c (Exec.attempt m) where
  stays := hm.stays
  agree s t h := (hm.agree s t h).imp_right fun hagree => ⟨congrArg Except.ok hagree.1, hagree.2⟩

theorem forM {xs : List α} {f : α → Exec ε σ Unit} (hf : ∀ x ∈ xs, Lockstep c (f x)) :
    Lockstep c (xs.forM f) := by
  induction xs with
  | nil => exact pure ()
  | cons x xs ih =>
      rw [List.forall_mem_cons] at hf
      exact bind hf.1 fun _ => ih hf.2

/-! ## Beside a part that the runs agree on -/

/-- A computation that looks at the agreed part. -/
theorem get_bind {f : ρ × σ → Exec ε (ρ × σ) β} (hf : ∀ s, Lockstep (c.beside ρ) (f s))
    (hsame : ∀ x s t, f (x, s) = f (x, t)) : Lockstep (c.beside ρ) (Exec.get >>= f) where
  stays s h := (hf s).stays s h
  agree s t h := by
    obtain ⟨x, s⟩ := s
    obtain ⟨y, t⟩ := t
    obtain rfl : y = x := h.1
    rw [Exec.bind_of_ok (Exec.get_apply _), Exec.bind_of_ok (Exec.get_apply _), hsame y t s]
    exact (hf (y, s)).agree (y, s) (y, t) h

/-- A computation that is given separately for every agreed part. -/
theorem each {m : Exec ε (ρ × σ) α} (h : ∀ x, ∃ m' : Exec ε (ρ × σ) α,
    Lockstep (c.beside ρ) m' ∧ ∀ s, m (x, s) = m' (x, s)) : Lockstep (c.beside ρ) m where
  stays s hs := by
    obtain ⟨x, s⟩ := s
    obtain ⟨m', hm', hsame⟩ := h x
    rw [hsame]
    exact hm'.stays (x, s) hs
  agree s t hst := by
    obtain ⟨x, s⟩ := s
    obtain ⟨y, t⟩ := t
    obtain ⟨m', hm', hsame⟩ := h x
    obtain rfl : y = x := hst.1
    rw [hsame, hsame]
    exact hm'.agree (y, s) (y, t) hst

/-- A computation on the agreed part only. -/
theorem onLeft {m : Exec ε (ρ × σ) α} (g : ρ → Except ε α × ρ)
    (hm : ∀ x s, m (x, s) = ((g x).1, ((g x).2, s))) : Lockstep (c.beside ρ) m where
  stays s h := by
    rw [show m s = m (s.1, s.2) from rfl, hm]
    exact ⟨h, c.keeps_refl s.2⟩
  agree s t h := by
    obtain ⟨x, s⟩ := s
    obtain ⟨y, t⟩ := t
    obtain ⟨rfl, hrelated⟩ := h
    rw [hm, hm]
    exact Or.inr ⟨rfl, rfl, hrelated⟩

theorem onRight {m : Exec ε σ α} (hm : Lockstep c m) :
    Lockstep (c.beside ρ) (Exec.onRight m : Exec ε (ρ × σ) α) where
  stays s h := hm.stays s.2 h
  agree s t h := (hm.agree s.2 t.2 h.2).imp_right fun hagree => ⟨hagree.1, h.1, hagree.2⟩

theorem onPart {part : τ → ρ} {put : τ → ρ → τ} {m : Exec ε (ρ × σ) α}
    (hm : Lockstep (c.beside ρ) m) : Lockstep (c.beside τ) (Exec.onPart part put m) where
  stays s h := hm.stays (part s.1, s.2) h
  agree s t h := by
    obtain ⟨x, s⟩ := s
    obtain ⟨y, t⟩ := t
    obtain ⟨rfl, hrelated⟩ := h
    refine (hm.agree (part y, s) (part y, t) ⟨rfl, hrelated⟩).imp_right fun hagree => ?_
    exact ⟨hagree.1, congrArg (put y) hagree.2.1, hagree.2.2⟩

end Lockstep

end Library
