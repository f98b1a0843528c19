import Rdbms.Sql.Parser

/-!
# The grammar of the SQL subset

`Derives st ts` is the grammar: the tokens `ts` are a derivation of the statement
`st`. Keywords match in any case, and the same word may also stand as a name. A
text is a statement when it lexes into a derivation followed by any number of
semicolons. The parser accepts exactly these texts, and rejects every other one
with a user error.
-/

namespace Rdbms

open Library Library.Parsing

namespace Sql

/-- The token is the keyword in some case. -/
def IsKeyword (keyword : String) (t : Token) : Prop :=
  ∃ value, t = .ident value ∧ toAsciiLowercase value = toAsciiLowercase keyword

/-- The token that separates items. -/
def IsComma (t : Token) : Prop := t = .comma

/-- A literal. -/
inductive Literal (host : Host) : Value → List Token → Prop
  | null {t : Token} : IsKeyword "NULL" t → Literal host .null [t]
  | text (value : String) : Literal host (.text value) [.string value]
  | integer {value : String} {n : Int64} : '.' ∉ value.toList → decimal value = some n.toInt →
      Literal host (.integer n) [.number value]
  | double {value : String} {bits : UInt64} : '.' ∈ value.toList →
      host.parseF64 value = some bits → Literal host (.double bits) [.number value]

/-- Zero or more literals. -/
inductive Literals (host : Host) : List Value → List Token → Prop
  | none : Literals host [] []
  | some {values : List Value} {ts : List Token} : SepBy (Literal host) IsComma values ts →
      Literals host values ts

/-- A column of a CREATE TABLE. -/
inductive Column : ColumnDef → List Token → Prop
  | mk (name typeName : String) : toAsciiUppercase typeName ∈ Parser.typeNames →
      Column ⟨toAsciiLowercase name, toAsciiUppercase typeName⟩ [.ident name, .ident typeName]

/-- A selected column. -/
inductive Selected : String → List Token → Prop
  | mk (name : String) : Selected (toAsciiLowercase name) [.ident name]

inductive Projects : Projection → List Token → Prop
  | all : Projects .all [.star]
  | columns {names : List String} {ts : List Token} : SepBy Selected IsComma names ts →
      Projects (.columns names) ts

inductive Selects (host : Host) : Option Selection → List Token → Prop
  | none : Selects host none []
  | some {w : Token} {column : String} {value : Value} {ts : List Token} : IsKeyword "WHERE" w →
      Literal host value ts →
      Selects host (some ⟨toAsciiLowercase column, value⟩) (w :: .ident column :: .eq :: ts)

/-- The tokens are a derivation of the statement. -/
inductive Derives (host : Host) : Statement → List Token → Prop
  | createTable {create table : Token} {name : String} {columns : List ColumnDef}
      {ts : List Token} : IsKeyword "CREATE" create → IsKeyword "TABLE" table →
      SepBy Column IsComma columns ts →
      Derives host (.createTable (toAsciiLowercase name) columns)
        (create :: table :: .ident name :: .lParen :: (ts ++ [.rParen]))
  | createIndex {create index on : Token} {name table column : String} :
      IsKeyword "CREATE" create → IsKeyword "INDEX" index → IsKeyword "ON" on →
      Derives host
        (.createIndex (toAsciiLowercase name) (toAsciiLowercase table) (toAsciiLowercase column))
        [create, index, .ident name, on, .ident table, .lParen, .ident column, .rParen]
  | insert {insert into values : Token} {table : String} {literals : List Value}
      {ts : List Token} : IsKeyword "INSERT" insert → IsKeyword "INTO" into →
      IsKeyword "VALUES" values → Literals host literals ts →
      Derives host (.insert (toAsciiLowercase table) literals)
        (insert :: into :: .ident table :: values :: .lParen :: (ts ++ [.rParen]))
  | loadExtension {load extension : Token} {name : String} : IsKeyword "LOAD" load →
      IsKeyword "EXTENSION" extension →
      Derives host (.loadExtension (toAsciiLowercase name)) [load, extension, .ident name]
  | selectFunction {select : Token} {name : String} {args : List Value} {ts : List Token} :
      IsKeyword "SELECT" select → Literals host args ts →
      Derives host (.selectFunction (toAsciiLowercase name) args)
        (select :: .ident name :: .lParen :: (ts ++ [.rParen]))
  | select {select from_ : Token} {projection : Projection} {table : String}
      {selection : Option Selection} {ts us : List Token} : IsKeyword "SELECT" select →
      Projects projection ts → IsKeyword "FROM" from_ → Selects host selection us →
      Derives host (.select projection (toAsciiLowercase table) selection)
        (select :: (ts ++ from_ :: .ident table :: us))

/-- The tokens of a whole text: a statement and any number of semicolons. -/
def IsText (host : Host) (st : Statement) (ts : List Token) : Prop :=
  ∃ body n, ts = body ++ List.replicate n .semicolon ∧ Derives host st body

theorem literals_head {host : Host} {values : List Value} {ts : List Token}
    (h : SepBy (Literal host) IsComma values ts) : ∃ t rest, ts = t :: rest ∧ t ≠ .rParen := by
  have hone : ∀ {value us}, Literal host value us → ∃ t rest, us = t :: rest ∧ t ≠ .rParen := by
    intro value us hvalue
    cases hvalue with
    | null ht =>
        obtain ⟨word, rfl, -⟩ := ht
        exact ⟨_, [], rfl, nofun⟩
    | _ => exact ⟨_, [], rfl, nofun⟩
  cases h with
  | one hvalue => exact hone hvalue
  | more hvalue _ _ =>
      obtain ⟨t, rest, rfl, ht⟩ := hone hvalue
      exact ⟨t, _, rfl, ht⟩

/-- A list of selected columns starts with a name, and a comma or the end of the list
comes next. -/
theorem selected_head {names : List String} {ts : List Token} (h : SepBy Selected IsComma names ts) :
    ∃ name rest, ts = .ident name :: rest ∧ ∀ t ∈ rest.head?, t = .comma := by
  cases h with
  | one hname =>
      obtain ⟨name⟩ := hname
      exact ⟨name, [], rfl, nofun⟩
  | more hname ht _ =>
      obtain ⟨name⟩ := hname
      refine ⟨name, _, rfl, ?_⟩
      rintro t ⟨⟩
      exact ht

/-! ## The parts of the parser -/

namespace Parser

variable {ts rest : List Token}

theorem peek_apply (ts : List Token) : peek ts = (.ok (ts.headD .eof), ts) := by
  cases ts <;> rfl

theorem consumeToken_tests (token : Token) (h : token ≠ .eof) :
    Tests (consumeToken token) (· = token) := by
  intro ts b rest
  rw [consumeToken, Exec.bind_of_ok (peek_apply ts)]
  cases ts with
  | nil =>
      rw [if_neg (by exact fun heq => h heq.symm), Exec.pure_apply]
      simp [eq_comm, and_comm]
  | cons t ts =>
      by_cases ht : t = token
      · rw [if_pos (by exact ht)]
        simp [advance, Exec.bind_apply, ht, eq_comm]
      · rw [if_neg (by exact ht), Exec.pure_apply]
        simp [Ne.symm ht, eq_comm, and_comm]

theorem isKeyword_iff {keyword value : String} :
    IsKeyword keyword (.ident value) ↔ eqIgnoreAsciiCase value keyword := by
  simp [IsKeyword, eqIgnoreAsciiCase]

theorem consumeKeyword_tests (keyword : String) :
    Tests (consumeKeyword keyword) (IsKeyword keyword) := by
  intro ts b rest
  rw [consumeKeyword, Exec.bind_of_ok (peek_apply ts)]
  cases ts with
  | nil => simp [eq_comm, and_comm]
  | cons t ts =>
      cases t with
      | ident value =>
          by_cases hvalue : eqIgnoreAsciiCase value keyword
          · simp [advance, Exec.bind_apply, hvalue, isKeyword_iff, eq_comm]
          · simp [hvalue, isKeyword_iff, eq_comm, and_comm]
      | _ => simp [IsKeyword, eq_comm, and_comm]

theorem expectToken_eq_ok (token : Token) (h : token ≠ .eof) {message : String} {u : Unit} :
    expectToken token message ts = (.ok u, rest) ↔ ts = token :: rest := by
  rw [expectToken, Exec.bind_eq_ok]
  simp only [consumeToken_tests token h ts]
  constructor
  · rintro ⟨b, us, ⟨rfl, t, rfl, rfl⟩ | ⟨rfl, -, -⟩, hend⟩
    · cases hend
      rfl
    · cases hend
  · rintro rfl
    exact ⟨true, rest, Or.inl ⟨rfl, token, rfl, rfl⟩, rfl⟩

theorem expectKeyword_eq_ok {keyword : String} {u : Unit} :
    expectKeyword keyword ts = (.ok u, rest) ↔ ∃ t, IsKeyword keyword t ∧ ts = t :: rest := by
  rw [expectKeyword, Exec.bind_eq_ok]
  simp only [consumeKeyword_tests keyword ts]
  constructor
  · rintro ⟨b, us, ⟨rfl, t, ht, rfl⟩ | ⟨rfl, -, -⟩, hend⟩
    · cases hend
      exact ⟨t, ht, rfl⟩
    · cases hend
  · rintro ⟨t, ht, rfl⟩
    exact ⟨true, rest, Or.inl ⟨rfl, t, ht, rfl⟩, rfl⟩

theorem expectIdentifier_eq_ok {description value : String} :
    expectIdentifier description ts = (.ok value, rest) ↔ ts = .ident value :: rest := by
  rw [expectIdentifier, Exec.bind_of_ok (peek_apply ts)]
  cases ts with
  | nil => simp
  | cons t ts =>
      cases t with
      | ident value => simp [advance, Exec.bind_apply]
      | _ => simp

theorem parseLiteral_reads (host : Host) : Reads (parseLiteral host) (Literal host) := by
  intro ts value rest
  rw [parseLiteral, Exec.bind_of_ok (peek_apply ts)]
  constructor
  · intro h
    cases ts with
    | nil => cases h
    | cons t ts =>
        refine ⟨[t], ?_⟩
        cases t with
        | ident word =>
            by_cases hword : eqIgnoreAsciiCase word "NULL"
            · simp [hword, advance, Exec.bind_apply] at h
              obtain ⟨rfl, rfl⟩ := h
              exact ⟨rfl, .null (isKeyword_iff.2 hword)⟩
            · simp [hword] at h
        | string word =>
            cases h
            exact ⟨rfl, .text word⟩
        | number word =>
            by_cases hdot : '.' ∈ word.toList
            · cases hparse : host.parseF64 word with
              | none => simp [hdot, advance, Exec.bind_apply, hparse] at h
              | some bits =>
                  simp [hdot, advance, Exec.bind_apply, hparse] at h
                  obtain ⟨rfl, rfl⟩ := h
                  exact ⟨rfl, .double hdot hparse⟩
            · cases hparse : parseI64 word with
              | none => simp [hdot, advance, Exec.bind_apply, hparse] at h
              | some n =>
                  simp [hdot, advance, Exec.bind_apply, hparse] at h
                  obtain ⟨rfl, rfl⟩ := h
                  exact ⟨rfl, .integer hdot (parseI64_eq_some.1 hparse)⟩
        | _ => cases h
  · rintro ⟨used, rfl, h⟩
    cases h with
    | null ht =>
        obtain ⟨word, rfl, hword⟩ := ht
        have hword : eqIgnoreAsciiCase word "NULL" = true := by simpa [eqIgnoreAsciiCase] using hword
        simp [hword, advance, Exec.bind_apply]
    | text word => rfl
    | integer hdot hparse =>
        simp [hdot, advance, Exec.bind_apply, parseI64_eq_some.2 hparse]
    | double hdot hparse =>
        simp [hdot, advance, Exec.bind_apply, hparse]

theorem parseSelectedColumn_reads : Reads parseSelectedColumn Selected := by
  intro ts name rest
  rw [parseSelectedColumn, Exec.bind_eq_ok]
  simp only [expectIdentifier_eq_ok]
  constructor
  · rintro ⟨value, us, rfl, hend⟩
    cases hend
    exact ⟨[.ident value], rfl, .mk value⟩
  · rintro ⟨used, rfl, ⟨value⟩⟩
    exact ⟨value, rest, rfl, rfl⟩

theorem parseColumn_reads : Reads parseColumn Column := by
  intro ts column rest
  simp only [parseColumn, Exec.bind_eq_ok, expectIdentifier_eq_ok, normalizeTypeName]
  constructor
  · rintro ⟨name, us, rfl, typeName, vs, rfl, found, ws, hfound, hend⟩
    cases hend
    by_cases htype : toAsciiUppercase typeName ∈ typeNames
    · rw [if_pos htype] at hfound
      cases hfound
      exact ⟨[.ident name, .ident typeName], rfl, .mk name typeName htype⟩
    · rw [if_neg htype] at hfound
      cases hfound
  · rintro ⟨used, rfl, ⟨name, typeName, htype⟩⟩
    refine ⟨name, _, rfl, typeName, rest, rfl, toAsciiUppercase typeName, rest, ?_, rfl⟩
    rw [if_pos htype]
    rfl

theorem commaSeparated_readsUpTo {α : Type} {item : Parser α} {G : α → List Token → Prop}
    (h : Reads item G) : ReadsUpTo (commaSeparated item) (SepBy G IsComma) IsComma where
  sound hparse := by
    obtain ⟨used, hused, hsep, -⟩ := separated_sound h (consumeToken_tests .comma nofun) hparse
    exact ⟨used, hused, hsep⟩
  complete {used rest as} hsep hstop := by
    refine separated_complete h (consumeToken_tests .comma nofun) hsep ?_ hstop
    rw [List.length_append]
    omega

theorem parseLiterals_eq_ok {host : Host} {message : String} {values : List Value} :
    parseLiterals host message ts = (.ok values, rest) ↔
      ∃ used, ts = used ++ .rParen :: rest ∧ Literals host values used := by
  have hlist := commaSeparated_readsUpTo (parseLiteral_reads host)
  rw [parseLiterals, Exec.bind_eq_ok]
  simp only [consumeToken_tests .rParen nofun ts]
  constructor
  · rintro ⟨b, us, ⟨rfl, t, rfl, rfl⟩ | ⟨rfl, rfl, -⟩, hrest⟩
    · cases hrest
      exact ⟨[], rfl, .none⟩
    · obtain ⟨found, vs, hfound, hrest⟩ := Exec.bind_eq_ok.1 hrest
      obtain ⟨⟨⟩, ws, hclose, hend⟩ := Exec.bind_eq_ok.1 hrest
      cases hend
      cases (expectToken_eq_ok .rParen nofun).1 hclose
      obtain ⟨used, rfl, hsep⟩ := hlist.sound hfound
      exact ⟨used, rfl, .some hsep⟩
  · rintro ⟨used, rfl, h⟩
    cases h with
    | none => exact ⟨true, rest, Or.inl ⟨rfl, .rParen, rfl, rfl⟩, rfl⟩
    | some hsep =>
        refine ⟨false, _, Or.inr ⟨rfl, rfl, ?_⟩, ?_⟩
        · obtain ⟨t, us, rfl, ht⟩ := literals_head hsep
          simpa using ht
        · refine Exec.bind_eq_ok.2 ⟨values, .rParen :: rest, hlist.complete hsep ?_, ?_⟩
          · simp [IsComma]
          · exact Exec.bind_eq_ok.2 ⟨(), rest, (expectToken_eq_ok .rParen nofun).2 rfl, rfl⟩

theorem parseProjection_readsUpTo : ReadsUpTo parseProjection Projects IsComma where
  sound {ts rest projection} h := by
    obtain ⟨b, us, hb, h₁⟩ := Exec.bind_eq_ok.1 h
    rcases (consumeToken_tests .star nofun ts b us).1 hb with ⟨rfl, t, rfl, rfl⟩ | ⟨rfl, rfl, -⟩
    · cases h₁
      exact ⟨[.star], rfl, .all⟩
    · obtain ⟨names, vs, hnames, hend⟩ := Exec.bind_eq_ok.1 h₁
      cases hend
      obtain ⟨used, rfl, hsep⟩ :=
        (commaSeparated_readsUpTo parseSelectedColumn_reads).sound hnames
      exact ⟨used, rfl, .columns hsep⟩
  complete {used rest projection} h hstop := by
    cases h with
    | all =>
        refine Exec.bind_eq_ok.2 ⟨true, rest, ?_, rfl⟩
        exact (consumeToken_tests .star nofun _ _ _).2 (Or.inl ⟨rfl, _, rfl, rfl⟩)
    | @columns names used hsep =>
        refine Exec.bind_eq_ok.2 ⟨false, used ++ rest, ?_, ?_⟩
        · refine (consumeToken_tests .star nofun _ _ _).2 (Or.inr ⟨rfl, rfl, ?_⟩)
          obtain ⟨name, us, rfl, -⟩ := selected_head hsep
          rintro t ⟨⟩
          exact nofun
        · have hnames :=
            (commaSeparated_readsUpTo parseSelectedColumn_reads).complete hsep hstop
          exact Exec.bind_eq_ok.2 ⟨names, rest, hnames, rfl⟩

theorem parseSelection_readsUpTo (host : Host) :
    ReadsUpTo (parseSelection host) (Selects host) (IsKeyword "WHERE") where
  sound {ts rest selection} h := by
    obtain ⟨b, us, hb, h₁⟩ := Exec.bind_eq_ok.1 h
    rcases (consumeKeyword_tests "WHERE" ts b us).1 hb with ⟨rfl, t, ht, rfl⟩ | ⟨rfl, rfl, -⟩
    · obtain ⟨column, vs, hcolumn, h₂⟩ := Exec.bind_eq_ok.1 h₁
      obtain ⟨⟨⟩, ws, heq, h₃⟩ := Exec.bind_eq_ok.1 h₂
      obtain ⟨value, xs, hvalue, hend⟩ := Exec.bind_eq_ok.1 h₃
      cases hend
      cases expectIdentifier_eq_ok.1 hcolumn
      cases (expectToken_eq_ok .eq nofun).1 heq
      obtain ⟨used, rfl, hlit⟩ := (parseLiteral_reads host _ _ _).1 hvalue
      exact ⟨t :: .ident column :: .eq :: used, rfl, .some ht hlit⟩
    · cases h₁
      exact ⟨[], rfl, .none⟩
  complete {used rest selection} h hstop := by
    cases h with
    | none =>
        refine Exec.bind_eq_ok.2 ⟨false, rest, ?_, rfl⟩
        exact (consumeKeyword_tests "WHERE" _ _ _).2 (Or.inr ⟨rfl, rfl, hstop⟩)
    | @some w column value used hw hlit =>
        refine Exec.bind_eq_ok.2 ⟨true, .ident column :: .eq :: (used ++ rest), ?_, ?_⟩
        · exact (consumeKeyword_tests "WHERE" _ _ _).2 (Or.inl ⟨rfl, w, hw, rfl⟩)
        refine Exec.bind_eq_ok.2 ⟨column, _, expectIdentifier_eq_ok.2 rfl, ?_⟩
        refine Exec.bind_eq_ok.2 ⟨(), _, (expectToken_eq_ok .eq nofun).2 rfl, ?_⟩
        have hvalue := (parseLiteral_reads host (used ++ rest) value rest).2 ⟨used, rfl, hlit⟩
        exact Exec.bind_eq_ok.2 ⟨value, rest, hvalue, rfl⟩

theorem peekIsFunctionCall_apply (ts : List Token) :
    peekIsFunctionCall ts = (.ok (match ts with
      | .ident _ :: .lParen :: _ => true
      | _ => false), ts) := by
  rcases ts with _ | ⟨t, _ | ⟨u, ts⟩⟩
  · rfl
  · cases t <;> rfl
  · cases t <;> cases u <;> rfl

/-! ## The statements -/

theorem parseCreateTable_eq_ok {st : Statement} :
    parseCreateTable ts = (.ok st, rest) ↔ ∃ name columns used,
      ts = .ident name :: .lParen :: (used ++ .rParen :: rest) ∧
        SepBy Column IsComma columns used ∧ st = .createTable (toAsciiLowercase name) columns := by
  have hlist := commaSeparated_readsUpTo parseColumn_reads
  simp only [parseCreateTable, Exec.bind_eq_ok, expectIdentifier_eq_ok,
    expectToken_eq_ok .lParen nofun, expectToken_eq_ok .rParen nofun]
  constructor
  · rintro ⟨name, us, rfl, ⟨⟩, vs, rfl, columns, ws, hcolumns, ⟨⟩, xs, rfl, hend⟩
    cases hend
    obtain ⟨used, rfl, hsep⟩ := hlist.sound hcolumns
    exact ⟨name, columns, used, rfl, hsep, rfl⟩
  · rintro ⟨name, columns, used, rfl, hsep, rfl⟩
    refine ⟨name, _, rfl, (), _, rfl, columns, _, hlist.complete hsep ?_, (), _, rfl, rfl⟩
    simp [IsComma]

theorem parseCreateIndex_eq_ok {st : Statement} :
    parseCreateIndex ts = (.ok st, rest) ↔ ∃ name on table column,
      ts = .ident name :: on :: .ident table :: .lParen :: .ident column :: .rParen :: rest ∧
        IsKeyword "ON" on ∧ st = .createIndex (toAsciiLowercase name) (toAsciiLowercase table)
          (toAsciiLowercase column) := by
  simp only [parseCreateIndex, Exec.bind_eq_ok, expectIdentifier_eq_ok, expectKeyword_eq_ok,
    expectToken_eq_ok .lParen nofun, expectToken_eq_ok .rParen nofun]
  constructor
  · rintro ⟨name, us, rfl, ⟨⟩, vs, ⟨on, hon, rfl⟩, table, ws, rfl, ⟨⟩, xs, rfl, column, ys, rfl,
      ⟨⟩, zs, rfl, hend⟩
    cases hend
    exact ⟨name, on, table, column, rfl, hon, rfl⟩
  · rintro ⟨name, on, table, column, rfl, hon, rfl⟩
    exact ⟨name, _, rfl, (), _, ⟨on, hon, rfl⟩, table, _, rfl, (), _, rfl, column, _, rfl,
      (), _, rfl, rfl⟩

theorem parseInsert_eq_ok {host : Host} {st : Statement} :
    parseInsert host ts = (.ok st, rest) ↔ ∃ into table values literals used,
      ts = into :: .ident table :: values :: .lParen :: (used ++ .rParen :: rest) ∧
        IsKeyword "INTO" into ∧ IsKeyword "VALUES" values ∧ Literals host literals used ∧
        st = .insert (toAsciiLowercase table) literals := by
  simp only [parseInsert, Exec.bind_eq_ok, expectIdentifier_eq_ok, expectKeyword_eq_ok,
    expectToken_eq_ok .lParen nofun, parseLiterals_eq_ok]
  constructor
  · rintro ⟨⟨⟩, us, ⟨into, hinto, rfl⟩, table, vs, rfl, ⟨⟩, ws, ⟨values, hvalues, rfl⟩, ⟨⟩, xs, rfl,
      literals, ys, ⟨used, rfl, hlits⟩, hend⟩
    cases hend
    exact ⟨into, table, values, literals, used, rfl, hinto, hvalues, hlits, rfl⟩
  · rintro ⟨into, table, values, literals, used, rfl, hinto, hvalues, hlits, rfl⟩
    exact ⟨(), _, ⟨into, hinto, rfl⟩, table, _, rfl, (), _, ⟨values, hvalues, rfl⟩, (), _, rfl,
      literals, _, ⟨used, rfl, hlits⟩, rfl⟩

theorem parseLoadExtension_eq_ok {st : Statement} :
    parseLoadExtension ts = (.ok st, rest) ↔ ∃ extension name,
      ts = extension :: .ident name :: rest ∧ IsKeyword "EXTENSION" extension ∧
        st = .loadExtension (toAsciiLowercase name) := by
  simp only [parseLoadExtension, Exec.bind_eq_ok, expectIdentifier_eq_ok, expectKeyword_eq_ok]
  constructor
  · rintro ⟨⟨⟩, us, ⟨extension, hextension, rfl⟩, name, vs, rfl, hend⟩
    cases hend
    exact ⟨extension, name, rfl, hextension, rfl⟩
  · rintro ⟨extension, name, rfl, hextension, rfl⟩
    exact ⟨(), _, ⟨extension, hextension, rfl⟩, name, _, rfl, rfl⟩

theorem parseSelectFunction_eq_ok {host : Host} {st : Statement} :
    parseSelectFunction host ts = (.ok st, rest) ↔ ∃ name args used,
      ts = .ident name :: .lParen :: (used ++ .rParen :: rest) ∧ Literals host args used ∧
        st = .selectFunction (toAsciiLowercase name) args := by
  simp only [parseSelectFunction, Exec.bind_eq_ok, expectIdentifier_eq_ok,
    expectToken_eq_ok .lParen nofun, parseLiterals_eq_ok]
  constructor
  · rintro ⟨name, us, rfl, ⟨⟩, vs, rfl, args, ws, ⟨used, rfl, hargs⟩, hend⟩
    cases hend
    exact ⟨name, args, used, rfl, hargs, rfl⟩
  · rintro ⟨name, args, used, rfl, hargs, rfl⟩
    exact ⟨name, _, rfl, (), _, rfl, args, _, ⟨used, rfl, hargs⟩, rfl⟩

theorem parseSelect_sound {host : Host} {st : Statement} {select : Token}
    (hselect : IsKeyword "SELECT" select) (h : parseSelect host ts = (.ok st, rest)) :
    ∃ used, ts = used ++ rest ∧ Derives host st (select :: used) := by
  obtain ⟨b, us, hb, h₁⟩ := Exec.bind_eq_ok.1 h
  rw [peekIsFunctionCall_apply] at hb
  obtain ⟨-, rfl⟩ := Prod.mk.inj hb
  cases b with
  | true =>
      obtain ⟨name, args, used, rfl, hargs, rfl⟩ := parseSelectFunction_eq_ok.1 h₁
      exact ⟨.ident name :: .lParen :: (used ++ [.rParen]), by simp,
        .selectFunction hselect hargs⟩
  | false =>
      obtain ⟨projection, us, hprojection, h₂⟩ := Exec.bind_eq_ok.1 h₁
      obtain ⟨⟨⟩, vs, hfrom, h₃⟩ := Exec.bind_eq_ok.1 h₂
      obtain ⟨table, ws, htable, h₄⟩ := Exec.bind_eq_ok.1 h₃
      obtain ⟨selection, xs, hselection, hend⟩ := Exec.bind_eq_ok.1 h₄
      cases hend
      obtain ⟨used, rfl, hproj⟩ := parseProjection_readsUpTo.sound hprojection
      obtain ⟨from_, hkeyword, rfl⟩ := expectKeyword_eq_ok.1 hfrom
      cases expectIdentifier_eq_ok.1 htable
      obtain ⟨used', rfl, hsel⟩ := (parseSelection_readsUpTo host).sound hselection
      exact ⟨used ++ from_ :: .ident table :: used', by simp,
        .select hselect hproj hkeyword hsel⟩

theorem parseSelect_function {host : Host} {name : String} {args : List Value} {used : List Token}
    (hargs : Literals host args used) :
    parseSelect host (.ident name :: .lParen :: (used ++ .rParen :: rest)) =
      (.ok (.selectFunction (toAsciiLowercase name) args), rest) := by
  rw [parseSelect, Exec.bind_of_ok (peekIsFunctionCall_apply _)]
  exact parseSelectFunction_eq_ok.2 ⟨name, args, used, rfl, hargs, rfl⟩

/-- What comes after SELECT in a query of a table is not taken for a function call. -/
theorem peekIsFunctionCall_projects {projection : Projection} {used : List Token} {from_ : Token}
    (h : Projects projection used) (hfrom : IsKeyword "FROM" from_) :
    peekIsFunctionCall (used ++ from_ :: rest) = (.ok false, used ++ from_ :: rest) := by
  obtain ⟨word, rfl, -⟩ := hfrom
  rw [peekIsFunctionCall_apply]
  cases h with
  | all => rfl
  | columns hsep =>
      obtain ⟨name, us, rfl, hnext⟩ := selected_head hsep
      cases us with
      | nil => rfl
      | cons t us =>
          cases hnext t rfl
          rfl

theorem parseSelect_columns {host : Host} {projection : Projection} {table : String}
    {selection : Option Selection} {from_ : Token} {us vs : List Token}
    (hproj : Projects projection us) (hfrom : IsKeyword "FROM" from_)
    (hsel : Selects host selection vs) (hstop : ∀ t ∈ rest.head?, ¬ IsKeyword "WHERE" t) :
    parseSelect host (us ++ from_ :: .ident table :: (vs ++ rest)) =
      (.ok (.select projection (toAsciiLowercase table) selection), rest) := by
  rw [parseSelect, Exec.bind_of_ok (peekIsFunctionCall_projects hproj hfrom)]
  refine Exec.bind_eq_ok.2 ⟨projection, _, parseProjection_readsUpTo.complete hproj ?_, ?_⟩
  · obtain ⟨word, rfl, -⟩ := hfrom
    simp [IsComma]
  refine Exec.bind_eq_ok.2 ⟨(), _, expectKeyword_eq_ok.2 ⟨from_, hfrom, rfl⟩, ?_⟩
  refine Exec.bind_eq_ok.2 ⟨table, _, expectIdentifier_eq_ok.2 rfl, ?_⟩
  exact Exec.bind_eq_ok.2
    ⟨selection, rest, (parseSelection_readsUpTo host).complete hsel hstop, rfl⟩

theorem consumeKeyword_take {keyword : String} {t : Token} (h : IsKeyword keyword t) :
    consumeKeyword keyword (t :: rest) = (.ok true, rest) :=
  (consumeKeyword_tests keyword _ _ _).2 (Or.inl ⟨rfl, t, h, rfl⟩)

/-- Another keyword is not taken. -/
theorem consumeKeyword_skip {keyword other : String} {t : Token} (h : IsKeyword other t)
    (hne : toAsciiLowercase other ≠ toAsciiLowercase keyword) :
    consumeKeyword keyword (t :: rest) = (.ok false, t :: rest) := by
  refine (consumeKeyword_tests keyword _ _ _).2 (Or.inr ⟨rfl, rfl, ?_⟩)
  rintro u ⟨⟩ ⟨word, rfl, hword⟩
  obtain ⟨word', hw, hword'⟩ := h
  cases hw
  exact hne (hword'.symm.trans hword)

theorem parseStatement_readsUpTo (host : Host) :
    ReadsUpTo (parseStatement host) (Derives host) (IsKeyword "WHERE") where
  sound {ts rest st} h := by
    obtain ⟨b, us, hb, h₁⟩ := Exec.bind_eq_ok.1 h
    rcases (consumeKeyword_tests "CREATE" ts b us).1 hb with ⟨rfl, t, ht, rfl⟩ | ⟨rfl, rfl, -⟩
    · obtain ⟨c, vs, hc, h₂⟩ := Exec.bind_eq_ok.1 h₁
      rcases (consumeKeyword_tests "TABLE" us c vs).1 hc with ⟨rfl, u, hu, rfl⟩ | ⟨rfl, rfl, -⟩
      · obtain ⟨name, columns, used, rfl, hcolumns, rfl⟩ := parseCreateTable_eq_ok.1 h₂
        exact ⟨t :: u :: .ident name :: .lParen :: (used ++ [.rParen]), by simp,
          .createTable ht hu hcolumns⟩
      · obtain ⟨d, ws, hd, h₃⟩ := Exec.bind_eq_ok.1 h₂
        rcases (consumeKeyword_tests "INDEX" vs d ws).1 hd with ⟨rfl, u, hu, rfl⟩ | ⟨rfl, -, -⟩
        · obtain ⟨name, on, table, column, rfl, hon, rfl⟩ := parseCreateIndex_eq_ok.1 h₃
          exact ⟨[t, u, .ident name, on, .ident table, .lParen, .ident column, .rParen], rfl,
            .createIndex ht hu hon⟩
        · cases h₃
    obtain ⟨c, vs, hc, h₂⟩ := Exec.bind_eq_ok.1 h₁
    rcases (consumeKeyword_tests "INSERT" us c vs).1 hc with ⟨rfl, t, ht, rfl⟩ | ⟨rfl, rfl, -⟩
    · obtain ⟨into, table, values, literals, used, rfl, hinto, hvalues, hlits, rfl⟩ :=
        parseInsert_eq_ok.1 h₂
      exact ⟨t :: into :: .ident table :: values :: .lParen :: (used ++ [.rParen]), by simp,
        .insert ht hinto hvalues hlits⟩
    obtain ⟨d, ws, hd, h₃⟩ := Exec.bind_eq_ok.1 h₂
    rcases (consumeKeyword_tests "LOAD" vs d ws).1 hd with ⟨rfl, t, ht, rfl⟩ | ⟨rfl, rfl, -⟩
    · obtain ⟨extension, name, rfl, hextension, rfl⟩ := parseLoadExtension_eq_ok.1 h₃
      exact ⟨[t, extension, .ident name], rfl, .loadExtension ht hextension⟩
    obtain ⟨e, xs, he, h₄⟩ := Exec.bind_eq_ok.1 h₃
    rcases (consumeKeyword_tests "SELECT" ws e xs).1 he with ⟨rfl, t, ht, rfl⟩ | ⟨rfl, -, -⟩
    · obtain ⟨used, rfl, hderives⟩ := parseSelect_sound ht h₄
      exact ⟨t :: used, rfl, hderives⟩
    · cases h₄
  complete {used rest st} h hstop := by
    cases h with
    | @createTable create table name columns ts hcreate htable hcolumns =>
        rw [parseStatement]
        refine Exec.bind_eq_ok.2 ⟨true, _, consumeKeyword_take hcreate, ?_⟩
        refine Exec.bind_eq_ok.2 ⟨true, _, consumeKeyword_take htable, ?_⟩
        exact parseCreateTable_eq_ok.2 ⟨name, columns, ts, by simp, hcolumns, rfl⟩
    | @createIndex create index on name table column hcreate hindex hon =>
        rw [parseStatement]
        refine Exec.bind_eq_ok.2 ⟨true, _, consumeKeyword_take hcreate, ?_⟩
        refine Exec.bind_eq_ok.2 ⟨false, _, consumeKeyword_skip hindex (by decide), ?_⟩
        refine Exec.bind_eq_ok.2 ⟨true, _, consumeKeyword_take hindex, ?_⟩
        exact parseCreateIndex_eq_ok.2 ⟨name, on, table, column, rfl, hon, rfl⟩
    | @insert insert into values table literals ts hinsert hinto hvalues hlits =>
        rw [parseStatement]
        refine Exec.bind_eq_ok.2 ⟨false, _, consumeKeyword_skip hinsert (by decide), ?_⟩
        refine Exec.bind_eq_ok.2 ⟨true, _, consumeKeyword_take hinsert, ?_⟩
        exact parseInsert_eq_ok.2
          ⟨into, table, values, literals, ts, by simp, hinto, hvalues, hlits, rfl⟩
    | @loadExtension load extension name hload hextension =>
        rw [parseStatement]
        refine Exec.bind_eq_ok.2 ⟨false, _, consumeKeyword_skip hload (by decide), ?_⟩
        refine Exec.bind_eq_ok.2 ⟨false, _, consumeKeyword_skip hload (by decide), ?_⟩
        refine Exec.bind_eq_ok.2 ⟨true, _, consumeKeyword_take hload, ?_⟩
        exact parseLoadExtension_eq_ok.2 ⟨extension, name, rfl, hextension, rfl⟩
    | @selectFunction select name args ts hselect hargs =>
        rw [parseStatement]
        refine Exec.bind_eq_ok.2 ⟨false, _, consumeKeyword_skip hselect (by decide), ?_⟩
        refine Exec.bind_eq_ok.2 ⟨false, _, consumeKeyword_skip hselect (by decide), ?_⟩
        refine Exec.bind_eq_ok.2 ⟨false, _, consumeKeyword_skip hselect (by decide), ?_⟩
        refine Exec.bind_eq_ok.2 ⟨true, _, consumeKeyword_take hselect, ?_⟩
        have h := @parseSelect_function rest host name args ts hargs
        simpa using h
    | @select select from_ projection table selection us vs hselect hproj hfrom hsel =>
        rw [parseStatement]
        refine Exec.bind_eq_ok.2 ⟨false, _, consumeKeyword_skip hselect (by decide), ?_⟩
        refine Exec.bind_eq_ok.2 ⟨false, _, consumeKeyword_skip hselect (by decide), ?_⟩
        refine Exec.bind_eq_ok.2 ⟨false, _, consumeKeyword_skip hselect (by decide), ?_⟩
        refine Exec.bind_eq_ok.2 ⟨true, _, consumeKeyword_take hselect, ?_⟩
        have h := @parseSelect_columns rest host projection table selection from_ us vs hproj hfrom
          hsel hstop
        simpa using h

theorem finish_eq_ok {host : Host} {u : Unit} :
    finish host ts = (.ok u, rest) ↔
      ts.dropWhile (· = .semicolon) = rest ∧ rest.headD .eof = .eof := by
  rw [finish, skipSemicolons, Exec.bind_apply]
  simp only [Exec.modify_apply, Exec.bind_of_ok (peek_apply _)]
  generalize ts.dropWhile (· = .semicolon) = us
  constructor
  · intro h
    cases hhead : us.headD .eof with
    | eof =>
        rw [hhead] at h
        cases h
        exact ⟨rfl, hhead⟩
    | _ =>
        rw [hhead] at h
        cases h
  · rintro ⟨rfl, heof⟩
    rw [heof]
    rfl

/-! ## Rejected statements -/

theorem errors_user {α : Type} (message : String) :
    Errors Stop.IsUser (Exec.lift (DbResult.user message) : Parser α) := by
  rintro ts e rest ⟨⟩
  exact ⟨message, rfl⟩

theorem errors_peek : Errors Stop.IsUser peek := nofun

theorem errors_advance : Errors Stop.IsUser advance := nofun

theorem errors_consumeToken (token : Token) : Errors Stop.IsUser (consumeToken token) :=
  errors_peek.bind fun _ => .ite (errors_advance.bind fun _ => .pure _) (.pure _)

theorem errors_expectToken (token : Token) (message : String) :
    Errors Stop.IsUser (expectToken token message) :=
  (errors_consumeToken token).bind fun _ => .ite (.pure _) (errors_user _)

theorem errors_consumeKeyword (keyword : String) :
    Errors Stop.IsUser (consumeKeyword keyword) := by
  refine errors_peek.bind fun t => ?_
  cases t with
  | ident value => exact .ite (errors_advance.bind fun _ => .pure _) (.pure _)
  | _ => exact .pure _

theorem errors_expectKeyword (keyword : String) : Errors Stop.IsUser (expectKeyword keyword) :=
  (errors_consumeKeyword keyword).bind fun _ => .ite (.pure _) (errors_user _)

theorem errors_expectIdentifier (description : String) :
    Errors Stop.IsUser (expectIdentifier description) := by
  refine errors_peek.bind fun t => ?_
  cases t with
  | ident value => exact errors_advance.bind fun _ => .pure _
  | _ => exact errors_user _

theorem errors_parseLiteral (host : Host) : Errors Stop.IsUser (parseLiteral host) := by
  refine errors_peek.bind fun t => ?_
  cases t with
  | ident value => exact .ite (errors_advance.bind fun _ => .pure _) (errors_user _)
  | string value => exact errors_advance.bind fun _ => .pure _
  | number value =>
      refine errors_advance.bind fun _ => .ite ?_ ?_
      · cases host.parseF64 value with
        | none => exact errors_user _
        | some bits => exact .pure _
      · cases parseI64 value with
        | none => exact errors_user _
        | some n => exact .pure _
  | _ => exact errors_user _

theorem errors_parseColumn : Errors Stop.IsUser parseColumn := by
  refine (errors_expectIdentifier _).bind fun name => ?_
  refine (errors_expectIdentifier _).bind fun typeName => ?_
  refine .bind ?_ fun _ => .pure _
  rw [normalizeTypeName]
  split
  · exact .pure _
  · exact errors_user _

theorem errors_commaSeparated {α : Type} {item : Parser α} {G : α → List Token → Prop}
    (h : Reads item G) (hG : ∀ a us, G a us → us ≠ []) (hE : Errors Stop.IsUser item) :
    Errors Stop.IsUser (commaSeparated item) := by
  intro ts e rest hparse
  exact separated_errors h (consumeToken_tests .comma nofun) hG hE (errors_consumeToken _)
    (Nat.lt_succ_self _) hparse

theorem errors_parseLiterals (host : Host) (message : String) :
    Errors Stop.IsUser (parseLiterals host message) := by
  refine (errors_consumeToken _).bind fun _ => .ite (.pure _) ?_
  refine .bind ?_ fun _ => (errors_expectToken _ _).bind fun _ => .pure _
  refine errors_commaSeparated (parseLiteral_reads host) ?_ (errors_parseLiteral host)
  rintro value us ⟨⟩ <;> exact nofun

theorem errors_parseCreateTable : Errors Stop.IsUser parseCreateTable := by
  refine (errors_expectIdentifier _).bind fun _ => (errors_expectToken _ _).bind fun _ => ?_
  refine .bind ?_ fun _ => (errors_expectToken _ _).bind fun _ => .pure _
  refine errors_commaSeparated parseColumn_reads ?_ errors_parseColumn
  rintro column us ⟨⟩
  exact nofun

theorem errors_parseCreateIndex : Errors Stop.IsUser parseCreateIndex := by
  refine (errors_expectIdentifier _).bind fun _ => (errors_expectKeyword _).bind fun _ => ?_
  refine (errors_expectIdentifier _).bind fun _ => (errors_expectToken _ _).bind fun _ => ?_
  exact (errors_expectIdentifier _).bind fun _ => (errors_expectToken _ _).bind fun _ => .pure _

theorem errors_parseInsert (host : Host) : Errors Stop.IsUser (parseInsert host) := by
  refine (errors_expectKeyword _).bind fun _ => (errors_expectIdentifier _).bind fun _ => ?_
  refine (errors_expectKeyword _).bind fun _ => (errors_expectToken _ _).bind fun _ => ?_
  exact (errors_parseLiterals host _).bind fun _ => .pure _

theorem errors_parseLoadExtension : Errors Stop.IsUser parseLoadExtension :=
  (errors_expectKeyword _).bind fun _ => (errors_expectIdentifier _).bind fun _ => .pure _

theorem errors_parseProjection : Errors Stop.IsUser parseProjection := by
  refine (errors_consumeToken _).bind fun _ => .ite (.pure _) (.bind ?_ fun _ => .pure _)
  refine errors_commaSeparated parseSelectedColumn_reads ?_
    ((errors_expectIdentifier _).bind fun _ => .pure _)
  rintro name us ⟨⟩
  exact nofun

theorem errors_parseSelection (host : Host) : Errors Stop.IsUser (parseSelection host) := by
  refine (errors_consumeKeyword _).bind fun _ => .ite ?_ (.pure _)
  refine (errors_expectIdentifier _).bind fun _ => (errors_expectToken _ _).bind fun _ => ?_
  exact (errors_parseLiteral host).bind fun _ => .pure _

theorem errors_parseSelect (host : Host) : Errors Stop.IsUser (parseSelect host) := by
  refine .bind ?_ fun _ => .ite ?_ ?_
  · intro ts e rest h
    rw [peekIsFunctionCall_apply] at h
    cases h
  · refine (errors_expectIdentifier _).bind fun _ => (errors_expectToken _ _).bind fun _ => ?_
    exact (errors_parseLiterals host _).bind fun _ => .pure _
  · refine errors_parseProjection.bind fun _ => (errors_expectKeyword _).bind fun _ => ?_
    refine (errors_expectIdentifier _).bind fun _ => ?_
    exact (errors_parseSelection host).bind fun _ => .pure _

theorem errors_parseStatement (host : Host) : Errors Stop.IsUser (parseStatement host) := by
  refine (errors_consumeKeyword _).bind fun _ => .ite ?_ ?_
  · refine (errors_consumeKeyword _).bind fun _ => .ite errors_parseCreateTable ?_
    exact (errors_consumeKeyword _).bind fun _ => .ite errors_parseCreateIndex (errors_user _)
  refine (errors_consumeKeyword _).bind fun _ => .ite (errors_parseInsert host) ?_
  refine (errors_consumeKeyword _).bind fun _ => .ite errors_parseLoadExtension ?_
  exact (errors_consumeKeyword _).bind fun _ => .ite (errors_parseSelect host) (errors_user _)

theorem errors_finish (host : Host) : Errors Stop.IsUser (finish host) := by
  refine .bind nofun fun _ => errors_peek.bind fun t => ?_
  cases t with
  | eof => exact .pure _
  | _ => exact errors_user _

end Parser

/-! ## Whole texts -/

theorem IsKeyword.ne_eof {keyword : String} {t : Token} (h : IsKeyword keyword t) : t ≠ .eof := by
  obtain ⟨word, rfl, -⟩ := h
  exact nofun

theorem Literal.ne_eof {host : Host} {value : Value} {ts : List Token}
    (h : Literal host value ts) : ∀ t ∈ ts, t ≠ .eof := by
  cases h with
  | null ht => simpa using ht.ne_eof
  | _ => simp

theorem Literals.ne_eof {host : Host} {values : List Value} {ts : List Token}
    (h : Literals host values ts) : ∀ t ∈ ts, t ≠ .eof := by
  cases h with
  | none => exact nofun
  | some hsep =>
      refine hsep.forall_mem (fun _ _ => Literal.ne_eof) ?_
      rintro t rfl
      exact nofun

theorem Projects.ne_eof {projection : Projection} {ts : List Token} (h : Projects projection ts) :
    ∀ t ∈ ts, t ≠ .eof := by
  cases h with
  | all => simp
  | columns hsep =>
      refine hsep.forall_mem ?_ ?_
      · rintro name us ⟨⟩
        simp
      · rintro t rfl
        exact nofun

theorem Selects.ne_eof {host : Host} {selection : Option Selection} {ts : List Token}
    (h : Selects host selection ts) : ∀ t ∈ ts, t ≠ .eof := by
  cases h with
  | none => exact nofun
  | some hw hlit => simpa [hw.ne_eof] using hlit.ne_eof

theorem Derives.ne_eof {host : Host} {st : Statement} {ts : List Token} (h : Derives host st ts) :
    ∀ t ∈ ts, t ≠ .eof := by
  have hcomma : ∀ t, IsComma t → t ≠ .eof := by
    rintro t rfl
    exact nofun
  cases h with
  | createTable hcreate htable hsep =>
      have hcolumns := hsep.forall_mem (Q := (· ≠ .eof)) (by rintro _ _ ⟨⟩; simp) hcomma
      simpa [hcreate.ne_eof, htable.ne_eof, or_imp, forall_and] using hcolumns
  | createIndex hcreate hindex hon => simp [hcreate.ne_eof, hindex.ne_eof, hon.ne_eof]
  | insert hinsert hinto hvalues hlits =>
      simpa [hinsert.ne_eof, hinto.ne_eof, hvalues.ne_eof, or_imp, forall_and] using hlits.ne_eof
  | loadExtension hload hextension => simp [hload.ne_eof, hextension.ne_eof]
  | selectFunction hselect hargs =>
      simpa [hselect.ne_eof, or_imp, forall_and] using hargs.ne_eof
  | select hselect hproj hfrom hsel =>
      simpa [hselect.ne_eof, hfrom.ne_eof, or_imp, forall_and] using ⟨hproj.ne_eof, hsel.ne_eof⟩

theorem Spelling.ne_eof {t : Token} {spelled : List Char} (h : Spelling t spelled) : t ≠ .eof := by
  cases h <;> exact nofun

theorem Lexes.ne_eof {cs : List Char} {ts : List Token} (h : Lexes cs ts) :
    ∀ t ∈ ts, t ≠ .eof := by
  induction h with
  | done _ => exact nofun
  | token _ hspelling _ _ ih => simpa [hspelling.ne_eof] using ih

theorem eq_of_append_eof {ts us vs : List Token} (hts : ∀ t ∈ ts, t ≠ .eof)
    (h : ts ++ [.eof] = us ++ .eof :: vs) : ts = us := by
  rcases List.append_eq_append_iff.1 h with ⟨as, rfl, has⟩ | ⟨bs, rfl, hbs⟩
  · cases as with
    | nil => exact (List.append_nil ts).symm
    | cons a as =>
        have hlen := congrArg List.length has
        simp at hlen
  · cases bs with
    | nil => exact List.append_nil us
    | cons b bs =>
        obtain ⟨rfl, -⟩ := List.cons.inj hbs
        exact absurd rfl (hts .eof (by simp))

theorem takeWhile_semicolon (us : List Token) :
    ∃ n, us.takeWhile (· = .semicolon) = List.replicate n .semicolon := by
  refine ⟨_, List.eq_replicate_iff.2 ⟨rfl, ?_⟩⟩
  intro t ht
  simpa using List.mem_takeWhile_imp ht

/-- Parsing all the tokens of a text. -/
theorem parse_tokens {host : Host} {st : Statement} {ts : List Token} (hts : ∀ t ∈ ts, t ≠ .eof) :
    (∃ rest, (do
      let statement ← Parser.parseStatement host
      Parser.finish host
      return statement : Parser Statement) (ts ++ [.eof]) = (.ok st, rest)) ↔
        IsText host st ts := by
  have hreads := Parser.parseStatement_readsUpTo host
  constructor
  · rintro ⟨rest, h⟩
    obtain ⟨found, us, hfound, h₁⟩ := Exec.bind_eq_ok.1 h
    obtain ⟨⟨⟩, vs, hfinish, hend⟩ := Exec.bind_eq_ok.1 h₁
    cases hend
    obtain ⟨body, hbody, hderives⟩ := hreads.sound hfound
    obtain ⟨rfl, hhead⟩ := Parser.finish_eq_ok.1 hfinish
    obtain ⟨n, hn⟩ := takeWhile_semicolon us
    rw [← List.takeWhile_append_dropWhile (p := (· = Token.semicolon)) (l := us), hn,
      ← List.append_assoc] at hbody
    cases hrest : us.dropWhile (· = .semicolon) with
    | nil =>
        -- Nothing is left to be the end of the text, which the statement does not take.
        rw [hrest, List.append_nil] at hbody
        have heof : Token.eof ∈ body ++ List.replicate n .semicolon := by
          rw [← hbody]
          simp
        rcases List.mem_append.1 heof with hmem | hmem
        · exact absurd rfl (hderives.ne_eof _ hmem)
        · cases List.eq_of_mem_replicate hmem
    | cons t vs =>
        rw [hrest] at hhead hbody
        cases (show t = .eof from hhead)
        exact ⟨body, n, eq_of_append_eof hts hbody, hderives⟩
  · rintro ⟨body, n, rfl, hderives⟩
    refine ⟨[.eof], ?_⟩
    have hstop : ∀ t ∈ (List.replicate n Token.semicolon ++ [Token.eof]).head?,
        ¬ IsKeyword "WHERE" t := by
      rintro t ht ⟨word, rfl, -⟩
      cases n with
      | zero => cases ht
      | succ n => cases ht
    rw [List.append_assoc, Exec.bind_of_ok (hreads.complete hderives hstop)]
    refine Exec.bind_eq_ok.2 ⟨(), [.eof], Parser.finish_eq_ok.2 ⟨?_, rfl⟩, rfl⟩
    rw [List.dropWhile_append_of_pos]
    · rfl
    · intro t ht
      simpa using List.eq_of_mem_replicate ht

theorem parseStatement_eq_ok {host : Host} {sql : String} {st : Statement} :
    parseStatement host sql = .ok st ↔ ∃ ts, Lexes sql.toList ts ∧ IsText host st ts := by
  rw [parseStatement]
  constructor
  · intro h
    obtain ⟨tokens, htokens, h₁⟩ := except_bind_eq_ok.1 h
    obtain ⟨⟨found, rest⟩, hfound, hend⟩ := except_bind_eq_ok.1 h₁
    cases hend
    obtain ⟨ts, rfl, hlexes⟩ := Lexer.tokenize_eq_ok.1 htokens
    exact ⟨ts, hlexes, (parse_tokens hlexes.ne_eof).1 ⟨rest, Exec.toExcept_eq_ok.1 hfound⟩⟩
  · rintro ⟨ts, hlexes, htext⟩
    obtain ⟨rest, hparse⟩ := (parse_tokens hlexes.ne_eof).2 htext
    refine except_bind_eq_ok.2 ⟨_, Lexer.tokenize_eq_ok.2 ⟨ts, rfl, hlexes⟩, ?_⟩
    exact except_bind_eq_ok.2 ⟨(st, rest), Exec.toExcept_eq_ok.2 hparse, rfl⟩

theorem parseStatement_isUser {host : Host} {sql : String} {stop : Stop}
    (h : parseStatement host sql = .error stop) : stop.IsUser := by
  have herrors : Errors Stop.IsUser (do
      let statement ← Parser.parseStatement host
      Parser.finish host
      return statement : Parser Statement) :=
    (Parser.errors_parseStatement host).bind fun _ =>
      (Parser.errors_finish host).bind fun _ => .pure _
  rw [parseStatement] at h
  rcases except_bind_eq_error.1 h with hlex | ⟨tokens, -, h₁⟩
  · exact Lexer.tokenize_isUser hlex
  · rcases except_bind_eq_error.1 h₁ with hparse | ⟨⟨found, rest⟩, -, hend⟩
    · obtain ⟨rest, hparse⟩ := Exec.toExcept_eq_error.1 hparse
      exact herrors _ _ _ hparse
    · cases hend

/-! ## Rendering -/

/-- A character that is a token of its own. -/
def IsMark (c : Char) : Prop := c ∈ [',', '(', ')', ';', '*', '=']

/-- The token is a single character. -/
def Token.IsMark (t : Token) : Prop := t ∈ [Token.comma, .lParen, .rParen, .semicolon, .star, .eq]

/-- The text writes out the tokens, each in one of its spellings, with any amount of
blanks around them and at least one between two words. -/
inductive Renders : List Char → List Token → Prop
  | done {ws : List Char} : (∀ c ∈ ws, isWhitespace c) → Renders ws []
  | token {ws spelled rest : List Char} {t : Token} {ts : List Token} :
      (∀ c ∈ ws, isWhitespace c) → Spelling t spelled →
      t.IsMark ∨ (∀ c ∈ rest.head?, isWhitespace c ∨ IsMark c) → Renders rest ts →
      Renders (ws ++ (spelled ++ rest)) (t :: ts)

/-- A blank or a mark ends a word. -/
theorem not_continue {c : Char} (h : isWhitespace c ∨ IsMark c) :
    isIdentifierContinue c = false ∧ isNumberContinue c = false ∧ c ≠ '\'' := by
  rcases h with hws | hmark
  · have hprintable : ¬ (33 ≤ c.toNat ∧ c.toNat ≤ 126) := fun hc =>
      absurd hws (by simp [Lexer.isWhitespace_of_printable hc.1 hc.2])
    refine ⟨Bool.eq_false_iff.2 fun hc => hprintable ?_,
      Bool.eq_false_iff.2 fun hc => hprintable ?_, ?_⟩
    · have hsplit : isIdentifierStart c = true ∨ c.isDigit = true := by
        simp only [isIdentifierContinue, Char.isAlphanum, Bool.or_eq_true] at hc
        simp only [isIdentifierStart, Bool.or_eq_true]
        tauto
      rcases hsplit with hc | hc
      · have := Lexer.toNat_of_isIdentifierStart hc
        omega
      · have := Lexer.toNat_of_isDigit hc
        omega
    · simp only [isNumberContinue, Bool.or_eq_true, beq_iff_eq] at hc
      rcases hc with hc | rfl
      · have := Lexer.toNat_of_isDigit hc
        omega
      · decide
    · rintro rfl
      exact hprintable (by decide)
  · simp only [IsMark, List.mem_cons, List.not_mem_nil, or_false] at hmark
    rcases hmark with rfl | rfl | rfl | rfl | rfl | rfl <;> decide

theorem Renders.lexes {cs : List Char} {ts : List Token} (h : Renders cs ts) : Lexes cs ts := by
  induction h with
  | done hws => exact .done hws
  | @token ws spelled rest t ts hws hspelling hapart _ ih =>
      refine .token hws hspelling ?_ ih
      rcases hapart with hmark | hapart
      · cases hspelling <;> first | exact trivial | simp [Token.IsMark] at hmark
      · cases hspelling with
        | ident _ _ => exact fun c hc => (not_continue (hapart c hc)).1
        | number _ _ => exact fun c hc => (not_continue (hapart c hc)).2.1
        | negative _ _ => exact fun c hc => (not_continue (hapart c hc)).2.1
        | string _ => exact fun hc => (not_continue (hapart _ hc)).2.2 rfl
        | _ => exact trivial

/-- The parser accepts exactly the texts of the grammar, with the statement that they
derive, and rejects every other text with a user error. A statement that is written
out is read back. -/
theorem parser_accepts_grammar (host : Host) (sql : String) (st : Statement) :
    (parseStatement host sql = .ok st ↔ ∃ ts, Lexes sql.toList ts ∧ IsText host st ts) ∧
    ((¬ ∃ st' ts, Lexes sql.toList ts ∧ IsText host st' ts) →
      ∃ message, parseStatement host sql = DbResult.user message) ∧
    (∀ ts, IsText host st ts → Renders sql.toList ts → parseStatement host sql = .ok st) := by
  refine ⟨parseStatement_eq_ok, ?_, ?_⟩
  · intro hnone
    cases hparse : parseStatement host sql with
    | ok st' => exact absurd ⟨st', parseStatement_eq_ok.1 hparse⟩ hnone
    | error stop =>
        obtain ⟨message, rfl⟩ := parseStatement_isUser hparse
        exact ⟨message, rfl⟩
  · intro ts htext hrenders
    exact parseStatement_eq_ok.2 ⟨ts, hrenders.lexes, htext⟩

end Sql

end Rdbms
