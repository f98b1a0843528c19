import Mathlib.Data.Prod.Lex
import Mathlib.Order.Lattice
import Rdbms.Library.Exec

/-!
# Shared core types

The identifiers of the engine are machine words behind a constructor each, so
that a page id is never taken for a relation id. `DbError` is the error boundary
of the engine with the texts of its messages.

A call of the engine that ends without a value ends in one of four ways, listed
by `Stop`: it returns an error, one of its bounds or overflow checks fails and
the process unwinds, the allocator refuses memory and the process aborts, or the
bound on its number of steps is used up. The second and the third never carry a
message, since nothing in the engine catches them. The fourth is no behaviour of the
engine at all: it marks a computation that has been cut short, and the results about
termination say that a large enough bound is never used up.
-/

namespace Rdbms

open Library

/-- Physical page identifier. -/
structure PageId where
  val : UInt64
  deriving DecidableEq, Repr

/-- Relation identifier from the system catalog. -/
structure RelationId where
  val : UInt64
  deriving DecidableEq, Repr

/-- Transaction identifier. -/
structure TxId where
  val : UInt64
  deriving DecidableEq, Repr

/-- Log sequence number. -/
structure Lsn where
  val : UInt64
  deriving DecidableEq, Repr

/-- Slot inside a slotted page. -/
structure SlotId where
  val : UInt16
  deriving DecidableEq, Repr

/-- Physical row address. -/
structure RowId where
  pageId : PageId
  slotId : SlotId
  deriving DecidableEq, Repr

/-- The kinds of I/O failure the engine tells apart or produces itself. -/
inductive ErrorKind where
  | unexpectedEof
  | writeZero
  | interrupted
  | invalidInput
  | unsupported
  | other
  deriving DecidableEq, Repr

/-- Typed error boundary of the engine. -/
inductive DbError where
  | user (message : String)
  | retryable (message : String)
  | io (kind : ErrorKind)
  | corruption (message : String)
  | internalInvariant (message : String)
  | extension (message : String)
  deriving DecidableEq, Repr

/-- How a call ends without a value. -/
inductive Stop where
  | error (e : DbError)
  | panicked
  | aborted
  | outOfFuel
  deriving DecidableEq, Repr

/-- An exit with a user error. -/
def Stop.IsUser (stop : Stop) : Prop := ∃ message, stop = .error (.user message)

/-- An exit with a corruption error. -/
def Stop.IsCorruption (stop : Stop) : Prop := ∃ message, stop = .error (.corruption message)

/-- The result of a call that touches no state. -/
abbrev DbResult (α : Type) := Except Stop α

/-- A call that reads and changes the state `σ`. -/
abbrev Db (σ α : Type) := Exec Stop σ α

namespace DbResult

abbrev user {α : Type} (message : String) : DbResult α := .error (.error (.user message))

abbrev retryable {α : Type} (message : String) : DbResult α := .error (.error (.retryable message))

abbrev io {α : Type} (kind : ErrorKind) : DbResult α := .error (.error (.io kind))

abbrev corruption {α : Type} (message : String) : DbResult α := .error (.error (.corruption message))

abbrev internalInvariant {α : Type} (message : String) : DbResult α :=
  .error (.error (.internalInvariant message))

abbrev extension {α : Type} (message : String) : DbResult α := .error (.error (.extension message))

/-- A bounds or overflow check of the language failed. -/
abbrev panicked {α : Type} : DbResult α := .error .panicked

/-- The allocator has refused the memory asked for. -/
abbrev aborted {α : Type} : DbResult α := .error .aborted

/-- `Option::ok_or`: the value, or the given failure when there is none. -/
def okOr {α : Type} (o : Option α) (failure : DbResult α) : DbResult α :=
  match o with
  | some a => .ok a
  | none => failure

theorem okOr_eq_ok {α : Type} {o : Option α} {e : Stop} {a : α}
    (h : okOr o (.error e) = .ok a) : o = some a := by
  cases o with
  | some b =>
      cases h
      rfl
  | none => cases h

/-- Indexing with a bounds check. -/
def index {α : Type} (xs : List α) (i : Nat) : DbResult α := okOr xs[i]? panicked

theorem index_of_getElem? {α : Type} {xs : List α} {i : Nat} {a : α} (h : xs[i]? = some a) :
    index xs i = .ok a := by
  rw [index, h]
  rfl

theorem index_eq_ok {α : Type} {xs : List α} {i : Nat} {a : α} (h : index xs i = .ok a) :
    xs[i]? = some a := by
  rw [index] at h
  cases hget : xs[i]? with
  | none =>
      rw [hget] at h
      cases h
  | some b =>
      rw [hget] at h
      cases h
      rfl

/-- The call fails with user errors only. -/
def OnlyUser {α : Type} (r : DbResult α) : Prop := ∀ stop, r = .error stop → stop.IsUser

theorem onlyUser_ok {α : Type} (a : α) : OnlyUser (.ok a) := nofun

theorem onlyUser_user {α : Type} (message : String) : OnlyUser (user message : DbResult α) := by
  rintro stop ⟨⟩
  exact ⟨message, rfl⟩

theorem OnlyUser.bind {α β : Type} {r : DbResult α} {f : α → DbResult β} (hr : OnlyUser r)
    (hf : ∀ a, r = .ok a → OnlyUser (f a)) : OnlyUser (r >>= f) := by
  intro stop h
  rcases except_bind_eq_error.1 h with h | ⟨a, ha, h⟩
  · exact hr stop h
  · exact hf a ha stop h

theorem onlyUser_failIf {c : Prop} [Decidable c] (message : String) :
    OnlyUser (failIf c (user message)) := by
  rw [failIf]
  split
  · exact onlyUser_user message
  · exact onlyUser_ok ()

theorem onlyUser_okOr {α : Type} (o : Option α) (message : String) :
    OnlyUser (okOr o (user message)) := by
  cases o with
  | some a => exact onlyUser_ok a
  | none => exact onlyUser_user message

theorem onlyUser_mapM {α β : Type} {xs : List α} {f : α → DbResult β}
    (hf : ∀ x ∈ xs, OnlyUser (f x)) : OnlyUser (xs.mapM f) := by
  induction xs with
  | nil => exact onlyUser_ok []
  | cons x xs ih =>
      rw [List.forall_mem_cons] at hf
      rw [List.mapM_cons]
      exact hf.1.bind fun _ _ => (ih hf.2).bind fun _ _ => onlyUser_ok _

end DbResult

/-! ## Orders on identifiers -/

instance : Ord PageId := ⟨fun a b => compare a.val b.val⟩

instance : Std.TransOrd PageId :=
  inferInstanceAs (Std.TransCmp (compareOn PageId.val))

instance : Std.LawfulEqOrd PageId where
  compare_self := Std.ReflOrd.compare_self (α := UInt64)
  eq_of_compare {a b} h := by
    cases a
    cases b
    exact congrArg PageId.mk (Std.LawfulEqOrd.eq_of_compare (α := UInt64) h)

/-- Rows are ordered by page and then by slot. -/
def RowId.rank (rowId : RowId) : Nat ×ₗ Nat :=
  toLex (rowId.pageId.val.toNat, rowId.slotId.val.toNat)

theorem RowId.rank_injective : Function.Injective RowId.rank := by
  rintro ⟨⟨p⟩, ⟨s⟩⟩ ⟨⟨q⟩, ⟨t⟩⟩ h
  obtain ⟨hpage, hslot⟩ := Prod.mk.inj (toLex.injective h)
  cases UInt64.toNat_inj.1 hpage
  cases UInt16.toNat_inj.1 hslot
  rfl

instance : LinearOrder RowId := LinearOrder.lift' RowId.rank RowId.rank_injective

/-! ## Values -/

/-- A value of the SQL layer; a double is its 64-bit pattern. -/
inductive Value where
  | null
  | text (value : String)
  | integer (value : Int64)
  | double (bits : UInt64)
  deriving DecidableEq, Repr

/-- Public column description. -/
structure ColumnInfo where
  name : String
  typeName : String
  deriving DecidableEq, Repr

/-- Result of SQL-facing execution. -/
inductive ExecResult where
  | statementComplete (rowsAffected : UInt64)
  | query (columns : List ColumnInfo) (rows : List (List Value))
  deriving DecidableEq, Repr

end Rdbms
