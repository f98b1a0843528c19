import Rdbms.Index.Basic
import Rdbms.Sql.Syntax

/-!
# SQL rows as heap records

The values of a row are encoded one after the other behind a small header, each
with a tag. A row reads back from its record. The checks and conversions that a row
goes through on its way into a table and out of it are here as well.
-/

namespace Rdbms

namespace Sql

open Library Cursor

def sqlRowMagic : List UInt8 := [0x52, 0x44, 0x42, 0x52]

def sqlRowVersion : UInt16 := 1

def tagNull : UInt8 := 0

def tagInteger : UInt8 := 1

def tagText : UInt8 := 2

def tagDouble : UInt8 := 3

def rowErrors : CursorErrors Stop :=
  cursorErrors "SQL row offset overflow" "SQL row is truncated" "SQL row has trailing bytes"

def encodeValue : Value → DbResult (List UInt8)
  | .null => .ok [tagNull]
  | .integer value => .ok ([tagInteger] ++ le64 value.toUInt64)
  | .text value => do
      let len ← writeU32Len (utf8 value).length "SQL text literal length"
      return [tagText] ++ (len ++ utf8 value)
  | .double bits => .ok ([tagDouble] ++ le64 bits)

/-- Encode SQL values into heap row bytes used by SQL tables. -/
def encodeRow (values : List Value) : DbResult (List UInt8) := do
  let count ← writeU16Len values.length "SQL row value count"
  let encoded ← values.mapM encodeValue
  return sqlRowMagic ++ (le16 sqlRowVersion ++ (count ++ encoded.flatten))

def decodeValue : Db Cursor Value := do
  let tag ← Cursor.readU8 rowErrors
  if tag = tagNull then return .null
  else if tag = tagInteger then do
    let value ← Cursor.readI64 rowErrors
    return .integer value
  else if tag = tagText then do
    let len ← Cursor.readU32 rowErrors
    let text ← readText rowErrors len.toNat "SQL text value is not valid UTF-8"
    return .text text
  else if tag = tagDouble then do
    let bits ← Cursor.readU64 rowErrors
    return .double bits
  else DbResult.corruption s!"unknown SQL row value tag: {tag}"

/-- A whole row, up to the check that nothing is left over. -/
def readRow : Db Cursor (List Value) := do
  let magic ← Cursor.readBytes rowErrors 4
  failIf (magic ≠ sqlRowMagic) (DbResult.corruption "invalid SQL row magic")
  let version ← Cursor.readU16 rowErrors
  failIf (version ≠ sqlRowVersion)
    (DbResult.corruption s!"unsupported SQL row version: {version}")
  let valueCount ← Cursor.readU16 rowErrors
  readMany decodeValue valueCount.toNat

/-- Decode SQL row bytes from a heap table. -/
def decodeRow (bytes : List UInt8) : DbResult (List Value) := run (do
  let values ← readRow
  finish rowErrors
  return values) bytes

/-! ## Reading a row back -/

theorem reads_decodeValue {value : Value} {bs : List UInt8} (h : encodeValue value = .ok bs) :
    Reads decodeValue bs value := by
  cases value with
  | null =>
      cases h
      exact Reads.map (reads_readU8 rowErrors tagNull) (Reads.pure _)
  | integer value =>
      cases h
      refine Reads.bind (reads_readU8 rowErrors tagInteger) ?_
      rw [if_neg (by decide), if_pos rfl]
      exact Reads.map (reads_readI64 rowErrors value) (Reads.pure _)
  | text value =>
      obtain ⟨len, hlen, h⟩ := except_bind_eq_ok.1 h
      obtain ⟨hlt, rfl⟩ := writeU32Len_eq_ok.1 hlen
      cases h
      refine Reads.bind (reads_readU8 rowErrors tagText) ?_
      rw [if_neg (by decide), if_neg (by decide), if_pos rfl]
      refine Reads.bind (reads_readU32 rowErrors _) ?_
      rw [toNat_u32Len hlt]
      exact Reads.map (reads_readText rowErrors value _) (Reads.pure _)
  | double bits =>
      cases h
      refine Reads.bind (reads_readU8 rowErrors tagDouble) ?_
      rw [if_neg (by decide), if_neg (by decide), if_neg (by decide), if_pos rfl]
      exact Reads.map (reads_readU64 rowErrors bits) (Reads.pure _)

theorem reads_readRow {values : List Value} {bs : List UInt8} (h : encodeRow values = .ok bs) :
    Reads readRow bs values := by
  obtain ⟨count, hcount, h⟩ := except_bind_eq_ok.1 h
  obtain ⟨encoded, hencoded, h⟩ := except_bind_eq_ok.1 h
  obtain ⟨hlt, rfl⟩ := writeU16Len_eq_ok.1 hcount
  cases h
  refine Reads.bind (reads_readBytes rowErrors sqlRowMagic) ?_
  refine Reads.lift_bind (failIf_of_not (not_not.2 rfl)) ?_
  refine Reads.bind (reads_readU16 rowErrors sqlRowVersion) ?_
  refine Reads.lift_bind (failIf_of_not (not_not.2 rfl)) ?_
  refine Reads.bind (reads_readU16 rowErrors _) ?_
  rw [toNat_u16Len hlt]
  exact Reads.readMany ((except_mapM_eq_ok.1 hencoded).imp fun _ _ => reads_decodeValue)

theorem length_encodeValue_le {value : Value} {bs : List UInt8} (h : encodeValue value = .ok bs) :
    bs.length ≤ 2 ^ 33 := by
  cases value with
  | null =>
      cases h
      exact Nat.le_add_left _ _
  | integer value =>
      cases h
      rw [List.length_append, length_le64]
      decide
  | text value =>
      obtain ⟨len, hlen, h⟩ := except_bind_eq_ok.1 h
      obtain ⟨hlt, rfl⟩ := writeU32Len_eq_ok.1 hlen
      cases h
      rw [List.length_append, List.length_append, length_le32, List.length_singleton]
      omega
  | double bits =>
      cases h
      rw [List.length_append, length_le64]
      decide

/-- A row that can be encoded is short enough to be read back. -/
theorem length_encodeRow_lt {values : List Value} {bs : List UInt8} (h : encodeRow values = .ok bs) :
    bs.length < 2 ^ 64 := by
  obtain ⟨count, hcount, h⟩ := except_bind_eq_ok.1 h
  obtain ⟨encoded, hencoded, h⟩ := except_bind_eq_ok.1 h
  obtain ⟨hlt, rfl⟩ := writeU16Len_eq_ok.1 hcount
  cases h
  have hflat : encoded.flatten.length ≤ values.length * 2 ^ 33 :=
    length_flatten_mapM_le hencoded fun value _ _ => length_encodeValue_le
  simp only [List.length_append, length_le16, sqlRowMagic, List.length_cons, List.length_nil]
  omega

/-- A row reads back from its record. -/
theorem decodeRow_encodeRow {values : List Value} {bs : List UInt8} (h : encodeRow values = .ok bs) :
    decodeRow bs = .ok values := (reads_readRow h).run_finish rowErrors (length_encodeRow_lt h)

theorem encodeRow_onlyUser (values : List Value) : DbResult.OnlyUser (encodeRow values) := by
  refine (writeU16Len_onlyUser _ _).bind fun count _ => ?_
  refine (DbResult.onlyUser_mapM fun value _ => ?_).bind fun _ _ => DbResult.onlyUser_ok _
  cases value with
  | null => exact DbResult.onlyUser_ok _
  | integer value => exact DbResult.onlyUser_ok _
  | text value => exact (writeU32Len_onlyUser _ _).bind fun _ _ => DbResult.onlyUser_ok _
  | double bits => exact DbResult.onlyUser_ok _

/-! ## Columns and values -/

def resolveColumnIndex (relation : RelationInfo) (columnName : String) : DbResult Nat :=
  let relationName := relation.name
  DbResult.okOr (relation.columns.findIdx? fun column => column.name == columnName)
    (DbResult.user s!"unknown column '{columnName}' on relation '{relationName}'")

def resolveProjection (relation : RelationInfo) : Projection → DbResult (List Nat)
  | .all => .ok (List.range relation.columns.length)
  | .columns names => names.mapM (resolveColumnIndex relation)

def validateRowWidth (relation : RelationInfo) (values : List Value) : DbResult Unit :=
  let found := values.length
  let expected := relation.columns.length
  failIf (found ≠ expected) (DbResult.corruption
    s!"SQL row value count {found} does not match catalog column count {expected}")

def ensureIndexableColumn (column : ColumnDef) : DbResult Unit :=
  let name := column.name
  let typeName := column.typeName
  if typeName ∈ ["INT", "INTEGER", "TEXT"] then .ok ()
  else DbResult.user s!"column '{name}' of type '{typeName}' is not indexable in Stage 8"

def indexKeyFromValue : Value → DbResult (Option IndexKey)
  | .null => .ok none
  | .integer value => .ok (some (.integer value))
  | .text value => .ok (some (.text value))
  | .double _ => .ok none

def typeError {α : Type} (column : ColumnDef) (expected : String) : DbResult α :=
  let name := column.name
  let typeName := column.typeName
  DbResult.user s!"column '{name}' expects {expected}, type is {typeName}"

def coerceValue (host : Host) (column : ColumnDef) (value : Value) : DbResult Value :=
  let name := column.name
  let typeName := column.typeName
  if value = .null then .ok .null
  else if typeName ∈ ["INT", "INTEGER"] then
    match value with
    | .integer _ => .ok value
    | _ => typeError column "integer"
  else if typeName ∈ ["TEXT"] then
    match value with
    | .text _ => .ok value
    | _ => typeError column "text"
  else if typeName ∈ ["DOUBLE", "REAL", "FLOAT"] then
    match value with
    | .double _ => .ok value
    | .integer n => .ok (.double (host.ofI64 n))
    | _ => typeError column "double"
  else DbResult.user s!"unsupported SQL column type '{typeName}' on column '{name}'"

def coerceValues (host : Host) (columns : List ColumnDef) (values : List Value) :
    DbResult (List Value) := do
  let given := values.length
  let expected := columns.length
  failIf (expected ≠ given)
    (DbResult.user s!"INSERT value count {given} does not match column count {expected}")
  (columns.zip values).mapM fun (column, value) => coerceValue host column value

def sqlValuesEqual (host : Host) : Value → Value → Bool
  | .null, .null => true
  | .integer left, .integer right => left == right
  | .text left, .text right => left == right
  | .double left, .double right => host.eqF64 left right
  | .double left, .integer right => host.eqF64 left (host.ofI64 right)
  | .integer left, .double right => host.eqF64 (host.ofI64 left) right
  | _, _ => false

/-! ## Values that fit their columns -/

section Coerce

variable {host : Host} {column : ColumnDef} {columns : List ColumnDef} {value coerced : Value}
  {values fitting : List Value}

theorem coerceValue_onlyUser (host : Host) (column : ColumnDef) (value : Value) :
    DbResult.OnlyUser (coerceValue host column value) := by
  unfold coerceValue
  dsimp only
  split_ifs
  · exact DbResult.onlyUser_ok _
  · cases value with
    | integer n => exact DbResult.onlyUser_ok _
    | _ => exact DbResult.onlyUser_user _
  · cases value with
    | text s => exact DbResult.onlyUser_ok _
    | _ => exact DbResult.onlyUser_user _
  · cases value with
    | double bits => exact DbResult.onlyUser_ok _
    | integer n => exact DbResult.onlyUser_ok _
    | _ => exact DbResult.onlyUser_user _
  · exact DbResult.onlyUser_user _

theorem coerceValues_onlyUser (host : Host) (columns : List ColumnDef) (values : List Value) :
    DbResult.OnlyUser (coerceValues host columns values) := by
  refine (DbResult.onlyUser_failIf _).bind fun _ _ => ?_
  exact DbResult.onlyUser_mapM fun x _ => coerceValue_onlyUser host x.1 x.2

/-- A value that has been made to fit a column fits it as it is. -/
theorem coerceValue_idem (h : coerceValue host column value = .ok coerced) :
    coerceValue host column coerced = .ok coerced := by
  unfold coerceValue at h
  dsimp only at h
  split_ifs at h with hnull hint htext hdouble
  · cases h
    rfl
  · cases value with
    | integer n =>
        cases h
        rw [coerceValue, if_neg hnull, if_pos hint]
    | _ => cases h
  · cases value with
    | text s =>
        cases h
        rw [coerceValue, if_neg hnull, if_neg hint, if_pos htext]
    | _ => cases h
  · cases value with
    | double bits =>
        cases h
        rw [coerceValue, if_neg hnull, if_neg hint, if_neg htext, if_pos hdouble]
    | integer n =>
        cases h
        rw [coerceValue, if_neg nofun, if_neg hint, if_neg htext, if_pos hdouble]
    | _ => cases h

theorem coerceValues_eq_ok : coerceValues host columns values = .ok fitting ↔
    columns.length = values.length ∧
      List.Forall₂ (fun x y => coerceValue host x.1 x.2 = .ok y) (columns.zip values) fitting := by
  rw [coerceValues, except_bind_eq_ok]
  constructor
  · rintro ⟨⟨⟩, hlength, hall⟩
    exact ⟨not_not.1 (failIf_eq_ok.1 hlength), except_mapM_eq_ok.1 hall⟩
  · rintro ⟨hlength, hall⟩
    exact ⟨(), failIf_of_not (not_not.2 hlength), except_mapM_eq_ok.2 hall⟩

theorem length_of_coerceValues (h : coerceValues host columns values = .ok fitting) :
    fitting.length = columns.length := by
  obtain ⟨hlength, hall⟩ := coerceValues_eq_ok.1 h
  rw [← hall.length_eq, List.length_zip, ← hlength, Nat.min_self]

theorem coerceValues_idem (h : coerceValues host columns values = .ok fitting) :
    coerceValues host columns fitting = .ok fitting := by
  have hlength := length_of_coerceValues h
  refine coerceValues_eq_ok.2 ⟨hlength.symm, ?_⟩
  obtain ⟨hwidth, hall⟩ := coerceValues_eq_ok.1 h
  clear h
  induction columns generalizing values fitting with
  | nil =>
      cases fitting with
      | nil => exact List.Forall₂.nil
      | cons y fitting => cases hlength
  | cons column columns ih =>
      cases values with
      | nil => cases hwidth
      | cons value values =>
          cases hall with
          | cons hone hrest =>
              refine List.Forall₂.cons (coerceValue_idem hone) ?_
              exact ih (Nat.succ.inj hlength) (Nat.succ.inj hwidth) hrest

/-- Each value fits the column at its place. -/
theorem coerceValue_of_fits (h : coerceValues host columns values = .ok values) {i : Nat}
    (hcolumn : columns[i]? = some column) (hvalue : values[i]? = some value) :
    coerceValue host column value = .ok value := by
  obtain ⟨-, hall⟩ := coerceValues_eq_ok.1 h
  have hzip : (columns.zip values)[i]? = some (column, value) := by
    rw [List.getElem?_zip_eq_some]
    exact ⟨hcolumn, hvalue⟩
  obtain ⟨hi, hat⟩ := List.getElem?_eq_some_iff.1 hzip
  obtain ⟨hi', hat'⟩ := List.getElem?_eq_some_iff.1 hvalue
  have hpair := (List.forall₂_iff_get.1 hall).2 i hi hi'
  simp only [List.get_eq_getElem, hat, hat'] at hpair
  exact hpair

end Coerce

end Sql

end Rdbms
