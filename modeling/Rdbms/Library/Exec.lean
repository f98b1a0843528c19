import Mathlib.Order.Defs.Unbundled
import Mathlib.Order.Nat
import Mathlib.Order.Basic
import Mathlib.Data.List.Forall2
import Mathlib.Tactic.Common

/-!
# Computations with a state and an early exit

`Exec ε σ α` is a computation that reads and changes a state `σ` and ends with a
value of `α` or leaves early with an exit of `ε`. Unlike the usual stack of an
error monad under a state monad, the state reached before an early exit is kept:
a caller that catches the exit sees everything the computation had already done.

A computation that has to be bounded takes a bound on the number of its steps as
an argument. `Exec.Settles m s r` says that the computation no longer depends on the
bound once the bound is large enough, and that `r` is its outcome then.
-/

namespace Library

section Except

variable {ε α β : Type}

@[simp] theorem except_pure_eq (a : α) : (pure a : Except ε α) = .ok a := rfl

theorem except_bind_eq_ok {r : Except ε α} {f : α → Except ε β} {b : β} :
    (r >>= f) = .ok b ↔ ∃ a, r = .ok a ∧ f a = .ok b := by
  cases r with
  | error e => simp [bind, Except.bind]
  | ok a => simp [bind, Except.bind]

theorem except_bind_eq_error {r : Except ε α} {f : α → Except ε β} {e : ε} :
    (r >>= f) = .error e ↔ r = .error e ∨ ∃ a, r = .ok a ∧ f a = .error e := by
  cases r with
  | error e' => simp [bind, Except.bind]
  | ok a => simp [bind, Except.bind]

theorem toOption_eq_some {r : Except ε α} {a : α} : r.toOption = some a ↔ r = .ok a := by
  cases r with
  | error e => simp [Except.toOption]
  | ok b => simp [Except.toOption]

/-- Leave with `failure` when `c` holds. -/
def failIf (c : Prop) [Decidable c] (failure : Except ε Unit) : Except ε Unit :=
  if c then failure else .ok ()

theorem failIf_eq_ok {c : Prop} [Decidable c] {e : ε} {u : Unit} :
    failIf c (.error e) = .ok u ↔ ¬ c := by
  by_cases h : c
  · simp [failIf, h]
  · simp [failIf, h]

theorem failIf_of_not {c : Prop} [Decidable c] {failure : Except ε Unit} (h : ¬ c) :
    failIf c failure = .ok () := if_neg h

theorem failIf_of {c : Prop} [Decidable c] {failure : Except ε Unit} (h : c) :
    failIf c failure = failure := if_pos h

theorem except_forM_eq_ok {xs : List α} {f : α → Except ε Unit} {u : Unit} :
    xs.forM f = .ok u ↔ ∀ x ∈ xs, f x = .ok () := by
  induction xs with
  | nil => simp [List.forM_eq_forM, pure, Except.pure]
  | cons x xs ih =>
      simp only [List.forM_eq_forM] at ih
      rw [List.forM_eq_forM, List.forM_cons, except_bind_eq_ok, List.forall_mem_cons, ← ih]
      constructor
      · rintro ⟨⟨⟩, hx, hxs⟩
        exact ⟨hx, hxs⟩
      · rintro ⟨hx, hxs⟩
        exact ⟨(), hx, hxs⟩

theorem except_mapM_eq_ok {xs : List α} {f : α → Except ε β} {ys : List β} :
    xs.mapM f = .ok ys ↔ List.Forall₂ (fun x y => f x = .ok y) xs ys := by
  induction xs generalizing ys with
  | nil => simp [pure, Except.pure, eq_comm]
  | cons x xs ih =>
      rw [List.mapM_cons, except_bind_eq_ok, List.forall₂_cons_left_iff]
      simp only [except_bind_eq_ok, ih, pure, Except.pure, Except.ok.injEq]
      constructor
      · rintro ⟨y, hy, rest, hrest, rfl⟩
        exact ⟨y, rest, hy, hrest, rfl⟩
      · rintro ⟨y, rest, hy, hrest, rfl⟩
        exact ⟨y, hy, rest, hrest, rfl⟩

/-- A sequence of calls gives a value when the first one does and the rest does. -/
theorem except_bind_isOk {r : Except ε α} {f : α → Except ε β} :
    (∃ b, (r >>= f) = .ok b) ↔ ∃ a, r = .ok a ∧ ∃ b, f a = .ok b := by
  simp only [except_bind_eq_ok]
  constructor
  · rintro ⟨b, a, ha, hb⟩
    exact ⟨a, ha, b, hb⟩
  · rintro ⟨a, ha, b, hb⟩
    exact ⟨b, a, ha, hb⟩

theorem except_map_isOk {r : Except ε α} {g : α → β} :
    (∃ b, (r >>= fun a => pure (g a)) = .ok b) ↔ ∃ a, r = .ok a := by
  simp [except_bind_isOk]

theorem except_mapM_isOk {xs : List α} {f : α → Except ε β} :
    (∃ ys, xs.mapM f = .ok ys) ↔ ∀ x ∈ xs, ∃ y, f x = .ok y := by
  induction xs with
  | nil => simp
  | cons x xs ih =>
      rw [List.mapM_cons, except_bind_isOk, List.forall_mem_cons, ← ih]
      simp only [except_bind_isOk, except_pure_eq, Except.ok.injEq, exists_eq', and_true]
      exact ⟨fun ⟨y, hy, ys, hys⟩ => ⟨⟨y, hy⟩, ys, hys⟩, fun ⟨⟨y, hy⟩, ys, hys⟩ => ⟨y, hy, ys, hys⟩⟩

theorem forall₂_eq_map {f : α → β} {xs : List α} {ys : List β}
    (h : List.Forall₂ (fun x y => y = f x) xs ys) : ys = xs.map f := by
  induction h with
  | nil => rfl
  | cons hxy _ ih => rw [hxy, ih, List.map_cons]

theorem forall₂_mem_right {R : α → β → Prop} {xs : List α} {ys : List β}
    (h : List.Forall₂ R xs ys) {y : β} (hy : y ∈ ys) : ∃ x ∈ xs, R x y := by
  induction h with
  | nil => cases hy
  | cons hxy _ ih =>
      rcases List.mem_cons.1 hy with rfl | hy
      · exact ⟨_, List.mem_cons_self, hxy⟩
      · obtain ⟨x, hx, hxy⟩ := ih hy
        exact ⟨x, List.mem_cons_of_mem _ hx, hxy⟩

theorem length_flatten_le {parts : List (List β)} {most : Nat}
    (h : ∀ part ∈ parts, part.length ≤ most) : parts.flatten.length ≤ parts.length * most := by
  induction parts with
  | nil => exact Nat.zero_le _
  | cons part parts ih =>
      rw [List.forall_mem_cons] at h
      have hrest := ih h.2
      rw [List.flatten_cons, List.length_append, List.length_cons, Nat.succ_mul]
      omega

/-- The parts that the elements of a list become, when none of them is longer than `most`. -/
theorem length_flatten_mapM_le {encode : α → Except ε (List β)} {xs : List α}
    {parts : List (List β)} {most : Nat} (hparts : xs.mapM encode = .ok parts)
    (h : ∀ x ∈ xs, ∀ part, encode x = .ok part → part.length ≤ most) :
    parts.flatten.length ≤ xs.length * most := by
  have hall := except_mapM_eq_ok.1 hparts
  rw [hall.length_eq]
  refine length_flatten_le fun part hpart => ?_
  obtain ⟨x, hx, hencode⟩ := forall₂_mem_right hall hpart
  exact h x hx part hencode

end Except

/-- A computation over the state `σ` that ends with a value or leaves early; the
state after an early exit is kept. -/
def Exec (ε σ α : Type) : Type := σ → Except ε α × σ

namespace Exec

instance instMonad {ε σ : Type} : Monad (Exec ε σ) where
  pure a := fun s => (.ok a, s)
  bind m f := fun s =>
    match m s with
    | (.ok a, t) => f a t
    | (.error e, t) => (.error e, t)

/-- Leave early. -/
def fail {ε σ α : Type} (e : ε) : Exec ε σ α := fun s => (.error e, s)

/-- A computation that does not touch the state. -/
def lift {ε σ α : Type} (r : Except ε α) : Exec ε σ α := fun s => (r, s)

instance instMonadLift {ε σ : Type} : MonadLift (Except ε) (Exec ε σ) := ⟨lift⟩

/-- The current state. -/
def get {ε σ : Type} : Exec ε σ σ := fun s => (.ok s, s)

/-- Change the state. -/
def modify {ε σ : Type} (f : σ → σ) : Exec ε σ Unit := fun s => (.ok (), f s)

/-- Run a computation and hand over how it ended instead of leaving early. -/
def attempt {ε σ α : Type} (m : Exec ε σ α) : Exec ε σ (Except ε α) := fun s =>
  (.ok (m s).1, (m s).2)

/-- Run a computation over a part `τ` of the state. -/
def zoom {ε σ τ α : Type} (part : σ → τ) (put : σ → τ → σ) (m : Exec ε τ α) :
    Exec ε σ α := fun s => ((m (part s)).1, put s (m (part s)).2)

/-- Run a computation over the right part of a pair. -/
def onRight {ε σ τ α : Type} (m : Exec ε τ α) : Exec ε (σ × τ) α :=
  zoom Prod.snd (fun s t => (s.1, t)) m

/-- Run a computation over a part of the left component of a pair; the right
component is shared. -/
def onPart {ε ρ σ τ α : Type} (part : ρ → σ) (put : ρ → σ → ρ) (m : Exec ε (σ × τ) α) :
    Exec ε (ρ × τ) α :=
  zoom (fun s => (part s.1, s.2)) (fun s t => (put s.1 t.1, t.2)) m

/-- Run a computation over a local value, and give the value it leaves. -/
def toExcept {ε σ α : Type} (m : Exec ε σ α) (s : σ) : Except ε (α × σ) :=
  match m s with
  | (.ok a, t) => .ok (a, t)
  | (.error e, _) => .error e

/-- Run a computation with a local value, and hand the value back at its end. -/
def withLocal {ε σ τ α : Type} (x : σ) (m : Exec ε (σ × τ) α) : Exec ε τ (α × σ) := fun t =>
  match m (x, t) with
  | (.ok a, (y, u)) => (.ok (a, y), u)
  | (.error e, (_, u)) => (.error e, u)

variable {ε σ τ α β : Type}

@[simp] theorem pure_apply (a : α) (s : σ) : (pure a : Exec ε σ α) s = (.ok a, s) := rfl

theorem bind_apply (m : Exec ε σ α) (f : α → Exec ε σ β) (s : σ) :
    (m >>= f) s =
      match m s with
      | (.ok a, t) => f a t
      | (.error e, t) => (.error e, t) := rfl

@[simp] theorem liftM_apply (r : Except ε α) (s : σ) :
    (liftM r : Exec ε σ α) s = (r, s) := rfl

/-- The first computation ended with a value: go on with the second. -/
theorem bind_of_ok {m : Exec ε σ α} {f : α → Exec ε σ β} {s t : σ} {a : α}
    (h : m s = (.ok a, t)) : (m >>= f) s = f a t := by
  rw [bind_apply, h]

/-- The first computation left early: so does the whole. -/
theorem bind_of_error {m : Exec ε σ α} {f : α → Exec ε σ β} {s t : σ} {e : ε}
    (h : m s = (.error e, t)) : (m >>= f) s = (.error e, t) := by
  rw [bind_apply, h]

theorem bind_assoc {γ : Type} (m : Exec ε σ α) (f : α → Exec ε σ β) (g : β → Exec ε σ γ) :
    (m >>= f) >>= g = m >>= fun a => f a >>= g := by
  funext s
  rw [bind_apply, bind_apply, bind_apply]
  rcases m s with ⟨e | a, t⟩
  · rfl
  · rfl

/-- A check that consists of two is one after the other. -/
theorem liftM_bind (r : Except ε α) (f : α → Except ε β) :
    (liftM (r >>= f) : Exec ε σ β) = liftM r >>= fun a => liftM (f a) := by
  cases r with
  | error e => rfl
  | ok a => rfl

theorem bind_eq_ok {m : Exec ε σ α} {f : α → Exec ε σ β} {s t : σ} {b : β} :
    (m >>= f) s = (.ok b, t) ↔ ∃ a u, m s = (.ok a, u) ∧ f a u = (.ok b, t) := by
  rw [bind_apply]
  rcases m s with ⟨e | a, u⟩
  · constructor
    · intro h
      cases h
    · rintro ⟨a, u, h, -⟩
      cases h
  · constructor
    · intro h
      exact ⟨a, u, rfl, h⟩
    · rintro ⟨a, u, h, hf⟩
      cases h
      exact hf

theorem bind_eq_error {m : Exec ε σ α} {f : α → Exec ε σ β} {s t : σ} {e : ε} :
    (m >>= f) s = (.error e, t) ↔
      m s = (.error e, t) ∨ ∃ a u, m s = (.ok a, u) ∧ f a u = (.error e, t) := by
  rw [bind_apply]
  rcases m s with ⟨e' | a, u⟩
  · simp
  · constructor
    · exact fun h => Or.inr ⟨a, u, rfl, h⟩
    · rintro (h | ⟨a, u, h, hf⟩)
      · cases h
      · cases h
        exact hf

theorem liftM_eq_error {r : Except ε α} {s t : σ} {e : ε} :
    (liftM r : Exec ε σ α) s = (.error e, t) ↔ r = .error e ∧ s = t := by
  rw [liftM_apply, Prod.mk.injEq]

theorem liftM_eq_ok {r : Except ε α} {s t : σ} {a : α} :
    (liftM r : Exec ε σ α) s = (.ok a, t) ↔ r = .ok a ∧ s = t := by
  rw [liftM_apply, Prod.mk.injEq]

/-- A loop over checks does not touch the state. -/
theorem forM_liftM (xs : List α) (f : α → Except ε Unit) (s : σ) :
    (xs.forM fun x => (liftM (f x) : Exec ε σ Unit)) s = (xs.forM f, s) := by
  induction xs with
  | nil => rfl
  | cons x xs ih =>
      simp only [List.forM_eq_forM, List.forM_cons] at ih ⊢
      rw [bind_apply, liftM_apply]
      cases f x with
      | error e => rfl
      | ok u => exact ih

theorem bind_pure_nil_append (m : Exec ε σ (List α)) :
    (do let xs ← m; return [] ++ xs) = m := by
  funext s
  rw [bind_apply]
  rcases m s with ⟨e | xs, t⟩
  · rfl
  · rfl

@[simp] theorem lift_apply (r : Except ε α) (s : σ) :
    (lift r : Exec ε σ α) s = (r, s) := rfl

@[simp] theorem monadLift_apply (r : Except ε α) (s : σ) :
    (monadLift r : Exec ε σ α) s = (r, s) := rfl

@[simp] theorem get_apply (s : σ) : (get : Exec ε σ σ) s = (.ok s, s) := rfl

@[simp] theorem modify_apply (f : σ → σ) (s : σ) :
    (modify f : Exec ε σ Unit) s = (.ok (), f s) := rfl

@[simp] theorem attempt_apply (m : Exec ε σ α) (s : σ) :
    attempt m s = (.ok (m s).1, (m s).2) := rfl

@[simp] theorem zoom_apply (part : σ → τ) (put : σ → τ → σ) (m : Exec ε τ α) (s : σ) :
    zoom part put m s = ((m (part s)).1, put s (m (part s)).2) := rfl

@[simp] theorem onRight_apply (m : Exec ε τ α) (s : σ × τ) :
    onRight m s = ((m s.2).1, (s.1, (m s.2).2)) := rfl

@[simp] theorem onPart_apply {ρ : Type} (part : ρ → σ) (put : ρ → σ → ρ)
    (m : Exec ε (σ × τ) α) (s : ρ × τ) :
    onPart part put m s =
      ((m (part s.1, s.2)).1, (put s.1 (m (part s.1, s.2)).2.1, (m (part s.1, s.2)).2.2)) := rfl

theorem toExcept_eq_error {m : Exec ε σ α} {s : σ} {e : ε} :
    toExcept m s = .error e ↔ ∃ t, m s = (.error e, t) := by
  rw [toExcept]
  rcases m s with ⟨e' | a, t⟩
  · simp
  · simp

theorem toExcept_eq_ok {m : Exec ε σ α} {s t : σ} {a : α} :
    toExcept m s = .ok (a, t) ↔ m s = (.ok a, t) := by
  rw [toExcept]
  rcases m s with ⟨e | b, u⟩
  · simp
  · simp

/-! ## Relations between the states before and after -/

/-- A computation relates the state it starts in to the one it ends in, also when
it leaves early. -/
def Preserves (R : σ → σ → Prop) (m : Exec ε σ α) : Prop := ∀ s, R s (m s).2

theorem Preserves.rel {R : σ → σ → Prop} {m : Exec ε σ α} {s t : σ} {r : Except ε α}
    (h : Preserves R m) (hm : m s = (r, t)) : R s t := by
  have hs := h s
  rwa [hm] at hs

theorem rel_get {R : σ → σ → Prop} {f : σ → Exec ε σ β} {s : σ} (hf : R s (f s s).2) :
    R s ((get >>= f) s).2 := hf

section Preserves

variable {R : σ → σ → Prop} [IsPreorder σ R]

/-- The second computation may use what the first one has given. -/
theorem rel_bind {m : Exec ε σ α} {f : α → Exec ε σ β} {s : σ} (hm : R s (m s).2)
    (hf : ∀ a t, m s = (.ok a, t) → R t (f a t).2) : R s ((m >>= f) s).2 := by
  rw [bind_apply]
  rcases hcase : m s with ⟨e | a, t⟩
  · rw [hcase] at hm
    exact hm
  · rw [hcase] at hm
    exact trans_of R hm (hf a t hcase)

/-- A check leaves the state to the rest of the computation. -/
theorem rel_check {r : Except ε α} {f : α → Exec ε σ β} {s : σ}
    (hf : ∀ a, r = .ok a → R s (f a s).2) : R s ((liftM r >>= f) s).2 := by
  refine rel_bind (refl_of R s) ?_
  intro a t h
  obtain ⟨hr, rfl⟩ := liftM_eq_ok.1 h
  exact hf a hr

theorem Preserves.bind {m : Exec ε σ α} {f : α → Exec ε σ β} (hm : Preserves R m)
    (hf : ∀ a, Preserves R (f a)) : Preserves R (m >>= f) :=
  fun s => rel_bind (hm s) fun a t _ => hf a t

theorem Preserves.pure (a : α) : Preserves R (Pure.pure a : Exec ε σ α) := fun s => refl_of R s

theorem Preserves.liftM (r : Except ε α) : Preserves R (liftM r : Exec ε σ α) :=
  fun s => refl_of R s

theorem Preserves.lift (r : Except ε α) : Preserves R (lift r : Exec ε σ α) :=
  fun s => refl_of R s

theorem Preserves.fail (e : ε) : Preserves R (fail e : Exec ε σ α) := fun s => refl_of R s

theorem Preserves.get : Preserves R (get : Exec ε σ σ) := fun s => refl_of R s

theorem Preserves.forM {xs : List α} {f : α → Exec ε σ Unit} (hf : ∀ x ∈ xs, Preserves R (f x)) :
    Preserves R (xs.forM f) := by
  induction xs with
  | nil => exact Preserves.pure ()
  | cons x xs ih =>
      rw [List.forall_mem_cons] at hf
      exact Preserves.bind hf.1 fun _ => ih hf.2

end Preserves

/-! ## States that a computation cannot tell apart -/

/-- A computation ends in the same way from two related states, and the states it leaves are
related again. -/
def Respects (R : σ → σ → Prop) (m : Exec ε σ α) : Prop :=
  ∀ s t, R s t → (m t).1 = (m s).1 ∧ R (m s).2 (m t).2

section Respects

variable {R : σ → σ → Prop}

theorem Respects.liftM (r : Except ε α) : Respects R (liftM r : Exec ε σ α) :=
  fun _ _ h => ⟨rfl, h⟩

theorem Respects.pure (a : α) : Respects R (Pure.pure a : Exec ε σ α) := fun _ _ h => ⟨rfl, h⟩

theorem Respects.bind {m : Exec ε σ α} {f : α → Exec ε σ β} (hm : Respects R m)
    (hf : ∀ a, Respects R (f a)) : Respects R (m >>= f) := by
  intro s t h
  obtain ⟨heq, hrel⟩ := hm s t h
  rw [bind_apply, bind_apply]
  generalize m s = x at heq hrel
  generalize m t = y at heq hrel
  obtain ⟨r, u⟩ := x
  obtain ⟨r', v⟩ := y
  cases heq
  cases r with
  | error e => exact ⟨rfl, hrel⟩
  | ok a => exact hf a u v hrel

end Respects

/-! ## Bounded computations -/

/-- The outcome of a bounded computation once its bound is large enough. -/
def Settles (m : Nat → Exec ε σ α) (s : σ) (r : Except ε α × σ) : Prop :=
  ∃ bound, ∀ fuel, bound ≤ fuel → m fuel s = r

/-- A computation settles at one outcome only. -/
theorem Settles.unique {m : Nat → Exec ε σ α} {s : σ} {r r' : Except ε α × σ}
    (h : Settles m s r) (h' : Settles m s r') : r = r' := by
  obtain ⟨b, hb⟩ := h
  obtain ⟨c, hc⟩ := h'
  exact (hb _ (Nat.le_max_left b c)).symm.trans (hc _ (Nat.le_max_right b c))

/-- `m'` does what `m` does whenever `m` is not cut short by `cut`. -/
def Refines (cut : ε) (m m' : Exec ε σ α) : Prop :=
  ∀ s r t, m s = (r, t) → r ≠ .error cut → m' s = (r, t)

theorem Refines.refl (cut : ε) (m : Exec ε σ α) : Refines cut m m := fun _ _ _ h _ => h

theorem Refines.bind {cut : ε} {m m' : Exec ε σ α} {f f' : α → Exec ε σ β}
    (hm : Refines cut m m') (hf : ∀ a, Refines cut (f a) (f' a)) :
    Refines cut (m >>= f) (m' >>= f') := by
  intro s r t h hr
  rw [bind_apply] at h
  rcases hcase : m s with ⟨e | a, u⟩
  · rw [hcase] at h
    cases h
    exact bind_of_error (hm s _ _ hcase fun he => hr (by cases he; rfl))
  · rw [hcase] at h
    rw [bind_of_ok (hm s _ _ hcase nofun)]
    exact hf a u r t h hr

theorem refines_fail (cut : ε) (m : Exec ε σ α) : Refines cut (fail cut) m := by
  intro s r t h hr
  cases h
  exact absurd rfl hr

/-- A computation that a larger bound does not change settles as soon as it is not
cut short. -/
theorem Settles.of_refines {cut : ε} {m : Nat → Exec ε σ α} {n : Nat} {s t : σ}
    {r : Except ε α} (hm : ∀ n, Refines cut (m n) (m (n + 1))) (h : m n s = (r, t))
    (hr : r ≠ .error cut) : Settles m s (r, t) := by
  refine ⟨n, ?_⟩
  intro fuel hfuel
  induction fuel, hfuel using Nat.le_induction with
  | base => exact h
  | succ fuel _ ih => exact hm fuel s r t ih hr

end Exec

end Library
