import Mathlib.Logic.Basic

/-!
# Machines and refinement

A machine starts in one of its initial states and goes on in steps, of which an event is
seen. One machine refines another when whatever can be seen of it can be seen of the other
as well. For this it is enough that the other machine can follow it step by step.
-/

namespace Library

/-- A machine with states in `σ`, of whose steps events in `ω` are seen. -/
structure Machine (σ ω : Type) where
  Start : σ → Prop
  Step : σ → ω → σ → Prop

namespace Machine

variable {σ τ υ ω : Type}

/-- The states that the machine can be in after the events. -/
inductive Run (M : Machine σ ω) : List ω → σ → Prop
  | start {s : σ} (h : M.Start s) : Run M [] s
  | step {events : List ω} {s t : σ} {event : ω} (h : Run M events s) (hstep : M.Step s event t) :
      Run M (events ++ [event]) t

/-- The events can be seen of the machine. -/
def Exhibits (M : Machine σ ω) (events : List ω) : Prop := ∃ s, M.Run events s

/-- Whatever can be seen of the first machine can be seen of the second one. -/
def Refines (M : Machine σ ω) (N : Machine τ ω) : Prop :=
  ∀ events, M.Exhibits events → N.Exhibits events

/-- Related states start together, and the second machine follows the first one from them. -/
structure Simulates (M : Machine σ ω) (N : Machine τ ω) (R : σ → τ → Prop) : Prop where
  start : ∀ s, M.Start s → ∃ t, N.Start t ∧ R s t
  step : ∀ s t event s', R s t → M.Step s event s' → ∃ t', N.Step t event t' ∧ R s' t'

variable {M : Machine σ ω} {N : Machine τ ω} {R : σ → τ → Prop}

/-- The second machine follows a whole run, by induction on the run. -/
theorem Simulates.run (h : Simulates M N R) {events : List ω} {s : σ} (hrun : M.Run events s) :
    ∃ t, N.Run events t ∧ R s t := by
  induction hrun with
  | start hstart =>
      obtain ⟨t, ht, hR⟩ := h.start _ hstart
      exact ⟨t, Run.start ht, hR⟩
  | step _ hstep ih =>
      obtain ⟨t, ht, hR⟩ := ih
      obtain ⟨t', ht', hR'⟩ := h.step _ t _ _ hR hstep
      exact ⟨t', Run.step ht ht', hR'⟩

end Machine

end Library
