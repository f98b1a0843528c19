import Rdbms.Sql.Row

/-!
# The row format is a bijection

The decoder accepts exactly the encodings, and gives the values each of them is the
encoding of. It refuses everything else as corrupt, in particular what is left of a
record when it is cut short, and a record with bytes behind it.
-/

namespace Rdbms

namespace Sql

open Library Cursor

/-! ## What the encoder accepts -/

/-- A text that its length field can hold; other values always fit. -/
def ValueFits : Value → Prop
  | .text value => (utf8 value).length < 2 ^ 32
  | _ => True

theorem encodeValue_isOk {value : Value} :
    (∃ bs, encodeValue value = .ok bs) ↔ ValueFits value := by
  cases value with
  | null => exact iff_of_true ⟨_, rfl⟩ trivial
  | integer value => exact iff_of_true ⟨_, rfl⟩ trivial
  | text value =>
      rw [encodeValue, except_map_isOk, writeU32Len_isOk]
      exact Nat.lt_succ_iff.symm
  | double bits => exact iff_of_true ⟨_, rfl⟩ trivial

theorem encodeRow_isOk {values : List Value} :
    (∃ bs, encodeRow values = .ok bs) ↔ values.length ≤ 65535 ∧ ∀ value ∈ values, ValueFits value := by
  have hparts : (∃ bs, encodeRow values = .ok bs) ↔
      (∃ bs, writeU16Len values.length "SQL row value count" = .ok bs) ∧
        ∃ bs, values.mapM encodeValue = .ok bs := by
    rw [encodeRow]
    simp only [except_bind_isOk, except_pure_eq, Except.ok.injEq, exists_eq', and_true,
      exists_and_right]
  rw [hparts, writeU16Len_isOk, except_mapM_isOk]
  simp only [encodeValue_isOk]

/-! ## What the decoder accepts -/

theorem consumes_decodeValue :
    Consumes decodeValue (fun _ => Stop.IsCorruption) fun value bs => encodeValue value = .ok bs := by
  refine Consumes.bind (consumes_readU8 isCorruption_overflow isCorruption_truncated) ?_
  rintro tag xs rfl
  split
  · rename_i htag
    subst htag
    exact Consumes.pure rfl
  split
  · rename_i htag
    subst htag
    refine Consumes.bind (consumes_readI64 isCorruption_overflow isCorruption_truncated) ?_
    rintro value xs rfl
    exact Consumes.pure rfl
  split
  · rename_i htag
    subst htag
    refine Consumes.bind (consumes_readU32 isCorruption_overflow isCorruption_truncated) ?_
    rintro len xs rfl
    refine Consumes.bind (consumes_readText isCorruption_overflow isCorruption_truncated _ _) ?_
    rintro text ys ⟨rfl, hlen⟩
    refine Consumes.pure ?_
    rw [encodeValue, hlen, writeU32Len_toNat, List.append_nil]
    rfl
  split
  · rename_i htag
    subst htag
    refine Consumes.bind (consumes_readU64 isCorruption_overflow isCorruption_truncated) ?_
    rintro bits xs rfl
    exact Consumes.pure rfl
  · exact Consumes.lift (fun stop hstop => by cases hstop; exact ⟨_, rfl⟩) nofun

theorem consumes_readRow :
    Consumes readRow (fun _ => Stop.IsCorruption) fun values bs => encodeRow values = .ok bs := by
  refine Consumes.bind (consumes_readBytes isCorruption_overflow isCorruption_truncated 4) ?_
  rintro magic xs ⟨rfl, -⟩
  refine Consumes.lift_bind (fun _ => isCorruption_failIf) fun _ hmagic => ?_
  rw [failIf_eq_ok, not_not] at hmagic
  subst hmagic
  refine Consumes.bind (consumes_readU16 isCorruption_overflow isCorruption_truncated) ?_
  rintro version xs rfl
  refine Consumes.lift_bind (fun _ => isCorruption_failIf) fun _ hversion => ?_
  rw [failIf_eq_ok, not_not] at hversion
  subst hversion
  refine Consumes.bind (consumes_readU16 isCorruption_overflow isCorruption_truncated) ?_
  rintro count xs rfl
  refine (consumes_decodeValue.readMany count.toNat).imp ?_
  rintro values bs ⟨hlen, parts, hparts, rfl⟩
  rw [encodeRow, hlen, writeU16Len_toNat, except_mapM_eq_ok.2 hparts]
  rfl

theorem encodeRow_of_decodeRow {values : List Value} {bs : List UInt8}
    (h : decodeRow bs = .ok values) : encodeRow values = .ok bs :=
  (@Consumes.run_finish _ _ _ _ _ rowErrors consumes_readRow ⟨_, rfl⟩ bs).1 values h

theorem decodeRow_error {bs : List UInt8} {stop : Stop} (h : decodeRow bs = .error stop) :
    stop.IsCorruption :=
  (@Consumes.run_finish _ _ _ _ _ rowErrors consumes_readRow ⟨_, rfl⟩ bs).2 stop h

theorem encodeRow_eq_ok_iff {values : List Value} {bs : List UInt8} :
    encodeRow values = .ok bs ↔ decodeRow bs = .ok values :=
  ⟨decodeRow_encodeRow, encodeRow_of_decodeRow⟩

/-- What is no encoding is refused as corrupt. -/
theorem decodeRow_of_not_encoding {bs : List UInt8} (h : ∀ values, encodeRow values ≠ .ok bs) :
    ∃ message, decodeRow bs = .error (.error (.corruption message)) := by
  cases hrow : decodeRow bs with
  | ok values => exact absurd (encodeRow_of_decodeRow hrow) (h values)
  | error stop =>
      obtain ⟨message, rfl⟩ := decodeRow_error hrow
      exact ⟨message, rfl⟩

theorem local_readText (len : Nat) (invalid : String) : Local (readText rowErrors len invalid) :=
  (local_readBytes len).bind fun _ => Local.lift _

theorem local_readRow : Local readRow := by
  refine (local_readBytes 4).bind fun magic => (Local.lift _).bind fun _ => ?_
  refine local_readU16.bind fun version => (Local.lift _).bind fun _ => ?_
  refine local_readU16.bind fun count => Local.readMany (local_readU8.bind fun tag => ?_) _
  split
  · exact Local.pure _
  split
  · exact local_readI64.bind fun _ => Local.pure _
  split
  · exact local_readU32.bind fun _ => (local_readText _ _).bind fun _ => Local.pure _
  split
  · exact local_readU64.bind fun _ => Local.pure _
  · exact Local.lift _

/-- No encoding goes on behind another one. -/
theorem encodeRow_prefix_free {values others : List Value} {bs more : List UInt8}
    (h : encodeRow values = .ok bs) (h' : encodeRow others = .ok (bs ++ more)) : more = [] := by
  by_contra hmore
  have htrailing := local_readRow.run_finish_append (decodeRow_encodeRow h) hmore
  have hothers := decodeRow_encodeRow h'
  rw [decodeRow, htrailing] at hothers
  cases hothers

/-- The encoder accepts the rows with at most 65535 values and no text of `2 ^ 32` bytes or
more, encoding and decoding are inverse to each other, and all bytes that are no encoding
are refused as corrupt, among them every encoding that is cut short and every one with
bytes behind it. -/
theorem row_codec_bijective :
    (∀ values, (∃ bs, encodeRow values = .ok bs) ↔
      values.length ≤ 65535 ∧ ∀ s, Value.text s ∈ values → (utf8 s).length < 2 ^ 32) ∧
    (∀ values bs, encodeRow values = .ok bs ↔ decodeRow bs = .ok values) ∧
    (∀ bs, (∀ values, encodeRow values ≠ .ok bs) →
      ∃ message, decodeRow bs = .error (.error (.corruption message))) ∧
    ∀ values bs front more, encodeRow values = .ok bs → more ≠ [] →
      (∃ message, decodeRow (bs ++ more) = .error (.error (.corruption message))) ∧
        (bs = front ++ more →
          ∃ message, decodeRow front = .error (.error (.corruption message))) := by
  refine ⟨fun values => ?_, fun values bs => encodeRow_eq_ok_iff,
    fun bs => decodeRow_of_not_encoding, fun values bs front more h hmore => ⟨?_, ?_⟩⟩
  · rw [encodeRow_isOk]
    refine and_congr_right fun _ => ⟨fun hfits s hs => hfits _ hs, fun htexts value hvalue => ?_⟩
    cases value with
    | text s => exact htexts s hvalue
    | null => trivial
    | integer value => trivial
    | double bits => trivial
  · exact decodeRow_of_not_encoding fun others h' => hmore (encodeRow_prefix_free h h')
  · rintro rfl
    exact decodeRow_of_not_encoding fun others h' => hmore (encodeRow_prefix_free h' h)

/-- A row with a value of each kind reads back from its record. -/
example : (encodeRow [.null, .integer 7, .text "ab", .double 0]).bind decodeRow =
    .ok [.null, .integer 7, .text "ab", .double 0] := by decide

end Sql

end Rdbms
