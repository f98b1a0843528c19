import Rdbms.Core
import Rdbms.Library.Cursor
import Rdbms.Library.Utf8

/-!
# Helpers of the record formats

The catalog, the index nodes and the SQL rows are encoded by hand with the same
small helpers. Lengths are written as little-endian words after a range check,
and decoded with a cursor whose three error texts name the format.
-/

namespace Rdbms

open Library

/-- A length as a word of two bytes. -/
def writeU16Len (value : Nat) (field : String) : DbResult (List UInt8) :=
  if value < 2 ^ 16 then .ok (le16 (UInt16.ofNat value))
  else DbResult.user s!"{field} does not fit into u16"

/-- A length as a word of four bytes. -/
def writeU32Len (value : Nat) (field : String) : DbResult (List UInt8) :=
  if value < 2 ^ 32 then .ok (le32 (UInt32.ofNat value))
  else DbResult.user s!"{field} does not fit into u32"

/-- The texts of the cursor of a format. -/
def cursorErrors (overflow truncated trailing : String) : CursorErrors Stop where
  overflow := .error (.corruption overflow)
  truncated := .error (.corruption truncated)
  trailing := .error (.corruption trailing)

/-- The text of the next `len` bytes. -/
def readText (errors : CursorErrors Stop) (len : Nat) (invalid : String) : Db Cursor String := do
  let bytes ← Cursor.readBytes errors len
  DbResult.okOr (ofUtf8 bytes) (DbResult.corruption invalid)

theorem isCorruption_overflow {overflow truncated trailing : String} :
    (cursorErrors overflow truncated trailing).overflow.IsCorruption := ⟨overflow, rfl⟩

theorem isCorruption_truncated {overflow truncated trailing : String} :
    (cursorErrors overflow truncated trailing).truncated.IsCorruption := ⟨truncated, rfl⟩

theorem writeU16Len_eq_ok {value : Nat} {field : String} {bs : List UInt8} :
    writeU16Len value field = .ok bs ↔ value < 2 ^ 16 ∧ bs = le16 (UInt16.ofNat value) := by
  by_cases h : value < 2 ^ 16
  · rw [writeU16Len, if_pos h, Except.ok.injEq, eq_comm, and_iff_right h]
  · rw [writeU16Len, if_neg h]
    exact ⟨nofun, fun hok => absurd hok.1 h⟩

theorem writeU32Len_eq_ok {value : Nat} {field : String} {bs : List UInt8} :
    writeU32Len value field = .ok bs ↔ value < 2 ^ 32 ∧ bs = le32 (UInt32.ofNat value) := by
  by_cases h : value < 2 ^ 32
  · rw [writeU32Len, if_pos h, Except.ok.injEq, eq_comm, and_iff_right h]
  · rw [writeU32Len, if_neg h]
    exact ⟨nofun, fun hok => absurd hok.1 h⟩

theorem writeU16Len_onlyUser (value : Nat) (field : String) :
    DbResult.OnlyUser (writeU16Len value field) := by
  rw [writeU16Len]
  split
  · exact DbResult.onlyUser_ok _
  · exact DbResult.onlyUser_user _

theorem writeU32Len_onlyUser (value : Nat) (field : String) :
    DbResult.OnlyUser (writeU32Len value field) := by
  rw [writeU32Len]
  split
  · exact DbResult.onlyUser_ok _
  · exact DbResult.onlyUser_user _

theorem toNat_u16Len {value : Nat} (h : value < 2 ^ 16) : (UInt16.ofNat value).toNat = value := by
  rw [UInt16.toNat_ofNat']
  omega

theorem toNat_u32Len {value : Nat} (h : value < 2 ^ 32) : (UInt32.ofNat value).toNat = value := by
  rw [UInt32.toNat_ofNat']
  omega

theorem reads_readText (errors : CursorErrors Stop) (s invalid : String) :
    Cursor.Reads (readText errors (utf8 s).length invalid) (utf8 s) s := by
  refine Cursor.Reads.map (Cursor.reads_readBytes errors (utf8 s)) ?_
  refine Cursor.Reads.lift ?_
  rw [ofUtf8_utf8]
  rfl

theorem isCorruption_failIf {c : Prop} [Decidable c] {message : String} {stop : Stop}
    (h : failIf c (DbResult.corruption message) = .error stop) : stop.IsCorruption := by
  rw [failIf] at h
  split at h
  · cases h
    exact ⟨message, rfl⟩
  · cases h

theorem consumes_readText {errors : CursorErrors Stop} (hover : errors.overflow.IsCorruption)
    (htrunc : errors.truncated.IsCorruption) (len : Nat) (invalid : String) :
    Cursor.Consumes (readText errors len invalid) (fun _ => Stop.IsCorruption) fun s bs =>
      bs = utf8 s ∧ bs.length = len := by
  refine Cursor.Consumes.bind (Cursor.consumes_readBytes hover htrunc len) ?_
  rintro bytes xs ⟨rfl, hlen⟩
  refine Cursor.Consumes.lift ?_ fun s hs => ?_
  · intro rest stop hstop
    unfold DbResult.okOr at hstop
    split at hstop
    · cases hstop
    · cases hstop
      exact ⟨invalid, rfl⟩
  · rw [List.append_nil, utf8_of_ofUtf8 (DbResult.okOr_eq_ok hs)]
    exact ⟨rfl, hlen⟩

/-- The length of a text as it was written. -/
theorem writeU16Len_toNat (len : UInt16) (field : String) :
    writeU16Len len.toNat field = .ok (le16 len) := by
  rw [writeU16Len_eq_ok, UInt16.ofNat_toNat]
  exact ⟨len.toNat_lt, rfl⟩

theorem writeU32Len_toNat (len : UInt32) (field : String) :
    writeU32Len len.toNat field = .ok (le32 len) := by
  rw [writeU32Len_eq_ok, UInt32.ofNat_toNat]
  exact ⟨len.toNat_lt, rfl⟩

theorem writeU16Len_isOk {value : Nat} {field : String} :
    (∃ bs, writeU16Len value field = .ok bs) ↔ value ≤ 65535 := by
  simp only [writeU16Len_eq_ok, exists_and_left, exists_eq, and_true]
  exact Nat.lt_succ_iff

theorem writeU32Len_isOk {value : Nat} {field : String} :
    (∃ bs, writeU32Len value field = .ok bs) ↔ value ≤ 4294967295 := by
  simp only [writeU32Len_eq_ok, exists_and_left, exists_eq, and_true]
  exact Nat.lt_succ_iff

end Rdbms
