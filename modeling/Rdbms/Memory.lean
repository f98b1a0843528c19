import Rdbms.Codec

/-!
# The memory behind a vector

`Vec::with_capacity` asks the allocator for the memory of all elements before the first one
is there, and the process aborts when the allocator refuses. How much it grants depends on
the machine. A length of 16 bits asks for a few megabytes at most; that much is taken to be
there everywhere, as it is for every other buffer of the engine. A length of 32 bits can
ask for hundreds of gigabytes, and whether they are granted is a parameter.
-/

namespace Rdbms

open Library

/-- What the vectors with a 32-bit length in the stored formats consist of. -/
inductive Element where
  | relation
  | extension
  | pageId
  deriving DecidableEq, Repr

/-- The allocator: for how many elements of each kind it grants the memory at once. -/
structure Memory where
  grants : Element → Nat → Bool
  ordinary : ∀ element count, count < 2 ^ 16 → grants element count = true

/-- The world outside the engine that the process gets its memory from. -/
class HasMemory (W : Type) where
  memory : W → Memory

namespace Memory

/-- The allocator that grants what every allocator does and nothing more. -/
def least : Memory where
  grants _ count := count < 2 ^ 16
  ordinary _ _ h := decide_eq_true h

/-- `Vec::with_capacity`: room for so many elements, or the end of the process. -/
def withCapacity (memory : Memory) (element : Element) (count : Nat) : DbResult Unit :=
  failIf (memory.grants element count = false) DbResult.aborted

theorem grants_zero (memory : Memory) (element : Element) : memory.grants element 0 = true :=
  memory.ordinary element 0 (by decide)

theorem withCapacity_eq_ok {memory : Memory} {element : Element} {count : Nat} :
    memory.withCapacity element count = .ok () ↔ memory.grants element count = true := by
  rw [withCapacity, failIf_eq_ok, Bool.not_eq_false]

theorem withCapacity_of_not {memory : Memory} {element : Element} {count : Nat}
    (h : ¬ memory.grants element count = true) :
    memory.withCapacity element count = DbResult.aborted :=
  failIf_of (Bool.not_eq_true _ ▸ h)

theorem withCapacity_eq_error {memory : Memory} {element : Element} {count : Nat} {stop : Stop}
    (h : memory.withCapacity element count = .error stop) :
    stop = .aborted ∧ ¬ memory.grants element count = true := by
  by_cases hgrants : memory.grants element count = true
  · rw [withCapacity_eq_ok.2 hgrants] at h
    cases h
  · rw [withCapacity_of_not hgrants] at h
    cases h
    exact ⟨rfl, hgrants⟩

end Memory

end Rdbms
