import Rdbms.Catalog.Basic

/-!
# Statements and tokens of the SQL subset

The statements that the parser builds and the tokens that it reads. `Host`
collects what the SQL layer takes from the language's own library without
looking inside: the double that a text or an integer denotes, when two doubles are
equal, and how a text is quoted in a message.
-/

namespace Rdbms

namespace Sql

/-- Projection of a parsed SELECT statement. -/
inductive Projection where
  | all
  | columns (names : List String)
  deriving DecidableEq, Repr

/-- Equality predicate. -/
structure Selection where
  column : String
  value : Value
  deriving DecidableEq, Repr

/-- Parsed statement of the SQL subset. -/
inductive Statement where
  | createTable (name : String) (columns : List ColumnDef)
  | insert (table : String) (values : List Value)
  | createIndex (name table column : String)
  | loadExtension (name : String)
  | selectFunction (name : String) (args : List Value)
  | select (projection : Projection) (table : String) (selection : Option Selection)
  deriving DecidableEq, Repr

inductive Token where
  | ident (value : String)
  | number (value : String)
  | string (value : String)
  | comma
  | lParen
  | rParen
  | semicolon
  | star
  | eq
  | eof
  deriving DecidableEq, Repr

/-- What the SQL layer uses of the language's own library. -/
structure Host where
  /-- The bits of the double that a text denotes, if it denotes one. -/
  parseF64 : String → Option UInt64
  /-- The text in double quotes, with its special characters escaped. -/
  debugStr : String → String
  /-- The bits of the double nearest to an integer. -/
  ofI64 : Int64 → UInt64
  /-- Equality of doubles, which are given by their bits. -/
  eqF64 : UInt64 → UInt64 → Bool

/-- A token as it is shown in a message. -/
def Token.debug (host : Host) : Token → String
  | ident value => "Ident(" ++ host.debugStr value ++ ")"
  | number value => "Number(" ++ host.debugStr value ++ ")"
  | string value => "String(" ++ host.debugStr value ++ ")"
  | comma => "Comma"
  | lParen => "LParen"
  | rParen => "RParen"
  | semicolon => "Semicolon"
  | star => "Star"
  | eq => "Eq"
  | eof => "Eof"

/-- `to_ascii_lowercase`. -/
def toAsciiLowercase (s : String) : String := String.ofList (s.toList.map Char.toLower)

/-- `to_ascii_uppercase`. -/
def toAsciiUppercase (s : String) : String := String.ofList (s.toList.map Char.toUpper)

/-- `eq_ignore_ascii_case`. -/
def eqIgnoreAsciiCase (s t : String) : Bool := toAsciiLowercase s == toAsciiLowercase t

/-- The value of decimal digits. -/
def digitsValue (cs : List Char) : Nat :=
  cs.foldl (fun n c => n * 10 + (c.toNat - '0'.toNat)) 0

/-- The number that a text of decimal digits with an optional sign denotes. -/
def decimal (s : String) : Option Int :=
  match s.toList with
  | '-' :: digits =>
      if digits ≠ [] ∧ digits.all Char.isDigit then some (-(digitsValue digits : Int)) else none
  | '+' :: digits =>
      if digits ≠ [] ∧ digits.all Char.isDigit then some (digitsValue digits : Int) else none
  | digits =>
      if digits ≠ [] ∧ digits.all Char.isDigit then some (digitsValue digits : Int) else none

/-- `str::parse::<i64>`: the number, unless it is out of range. -/
def parseI64 (s : String) : Option Int64 :=
  match decimal s with
  | some n => if -2 ^ 63 ≤ n ∧ n < 2 ^ 63 then some (Int64.ofInt n) else none
  | none => none

theorem parseI64_eq_some {s : String} {n : Int64} :
    parseI64 s = some n ↔ decimal s = some n.toInt := by
  have hlo := n.le_toInt
  have hhi := n.toInt_lt
  rw [parseI64]
  cases hdecimal : decimal s with
  | none => simp
  | some m =>
      simp only [Option.some.injEq]
      constructor
      · intro h
        split at h
        · rename_i hrange
          cases h
          exact (Int64.toInt_ofInt_of_le hrange.1 hrange.2).symm
        · cases h
      · rintro rfl
        rw [if_pos ⟨hlo, hhi⟩, Int64.ofInt_toInt]

end Sql

end Rdbms
