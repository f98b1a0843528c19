import Mathlib.Logic.Relation
import Mathlib.Data.List.Nodup
import Mathlib.Data.List.Dedup
import Mathlib.Data.List.Perm.Subperm

/-!
# Walks over a finite set

`Ends R n a` says that every walk along `R` from `a` stops after fewer than `n` steps,
and `Loops R a` that some walk from `a` comes back to an element it has met. If only
finitely many elements have a successor, these two are opposites: a walk that goes on
for longer than there are elements meets one of them twice.
-/

namespace Library

open Relation

variable {α : Type*} {R : α → α → Prop}

/-- Every walk from `a` stops after fewer than `n` steps. -/
def Ends (R : α → α → Prop) : Nat → α → Prop
  | 0, _ => False
  | n + 1, a => ∀ b, R a b → Ends R n b

/-- A walk from `a` reaches an element that it can come back to. -/
def Loops (R : α → α → Prop) (a : α) : Prop := ∃ c, ReflTransGen R a c ∧ TransGen R c c

/-- A walk that leads into a loop can go on. -/
theorem Loops.step {a : α} (h : Loops R a) : ∃ b, R a b ∧ Loops R b := by
  obtain ⟨c, hac, hcc⟩ := h
  rcases ReflTransGen.cases_head hac with rfl | ⟨b, hab, hbc⟩
  · obtain ⟨b, hab, hba⟩ := TransGen.head'_iff.1 hcc
    exact ⟨b, hab, a, hba, hcc⟩
  · exact ⟨b, hab, c, hbc, hcc⟩

end Library
