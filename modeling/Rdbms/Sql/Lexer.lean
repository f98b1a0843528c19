import Mathlib.Data.List.TakeWhile
import Rdbms.Sql.Syntax

/-!
# The lexer

The lexer reads a text from left to right and takes the longest token at each
place. `Lexes` is the lexical grammar: blanks, a token in one of its spellings,
and a rest that does not continue it. The lexer accepts exactly the texts of the
grammar, with the tokens of the grammar, and rejects every other text with a user
error.
-/

namespace Rdbms

open Library

namespace Sql

/-! ## The lexer of the source -/

/-- `char::is_whitespace`: the characters with the property `White_Space`. -/
def isWhitespace (c : Char) : Bool :=
  let n := c.toNat
  (9 ≤ n && n ≤ 13) || n == 32 || n == 0x85 || n == 0xA0 || n == 0x1680 ||
    (0x2000 ≤ n && n ≤ 0x200A) || n == 0x2028 || n == 0x2029 || n == 0x202F || n == 0x205F ||
    n == 0x3000

def isIdentifierStart (c : Char) : Bool := c.isAlpha || c == '_'

def isIdentifierContinue (c : Char) : Bool := c.isAlphanum || c == '_'

/-- The characters that a number goes on with. -/
def isNumberContinue (c : Char) : Bool := c.isDigit || c == '.'

namespace Lexer

def skipWhitespace (cs : List Char) : List Char := cs.dropWhile isWhitespace

def readIdentifier (cs : List Char) : String × List Char :=
  (String.ofList (cs.takeWhile isIdentifierContinue), cs.dropWhile isIdentifierContinue)

def readNumber : List Char → DbResult (String × List Char)
  | '-' :: rest =>
      if (rest.head?.any Char.isDigit) then
        .ok (String.ofList ('-' :: rest.takeWhile isNumberContinue), rest.dropWhile isNumberContinue)
      else DbResult.user "expected digit after '-'"
  | cs => .ok (String.ofList (cs.takeWhile isNumberContinue), cs.dropWhile isNumberContinue)

/-- The rest of a text literal behind its opening quote. -/
def readString : List Char → DbResult (List Char × List Char)
  | [] => DbResult.user "unterminated string literal"
  | '\'' :: '\'' :: rest => do
      let (value, rest) ← readString rest
      return ('\'' :: value, rest)
  | '\'' :: rest => .ok ([], rest)
  | c :: rest => do
      let (value, rest) ← readString rest
      return (c :: value, rest)

/-- The token that starts with the character `c`. -/
def readToken (c : Char) (rest : List Char) : DbResult (Token × List Char) :=
  if c = ',' then .ok (.comma, rest)
  else if c = '(' then .ok (.lParen, rest)
  else if c = ')' then .ok (.rParen, rest)
  else if c = ';' then .ok (.semicolon, rest)
  else if c = '*' then .ok (.star, rest)
  else if c = '=' then .ok (.eq, rest)
  else if c = '\'' then do
    let (value, rest) ← readString rest
    return (.string (String.ofList value), rest)
  else if isIdentifierStart c then
    let (value, rest) := readIdentifier (c :: rest)
    .ok (.ident value, rest)
  else if c.isDigit ∨ c = '-' then do
    let (value, rest) ← readNumber (c :: rest)
    return (.number value, rest)
  else DbResult.user s!"unexpected character in SQL: {c}"

/-! ## Every token takes characters away -/

theorem isIdentifierStart_continue {c : Char} (h : isIdentifierStart c) :
    isIdentifierContinue c = true := by
  simp only [isIdentifierStart, Bool.or_eq_true] at h
  simp only [isIdentifierContinue, Char.isAlphanum, Bool.or_eq_true]
  tauto

theorem isDigit_continue {c : Char} (h : c.isDigit) : isNumberContinue c = true := by
  rw [isNumberContinue, h]
  rfl

theorem toNat_of_isDigit {c : Char} (h : c.isDigit) : 48 ≤ c.toNat ∧ c.toNat ≤ 57 := by
  simp only [Char.isDigit, Bool.and_eq_true, decide_eq_true_eq, UInt32.le_iff_toNat_le,
    ge_iff_le] at h
  exact h

theorem toNat_of_isIdentifierStart {c : Char} (h : isIdentifierStart c) :
    (65 ≤ c.toNat ∧ c.toNat ≤ 90) ∨ (97 ≤ c.toNat ∧ c.toNat ≤ 122) ∨ c.toNat = 95 := by
  have hcases : (decide (c.val ≥ 65 ∧ c.val ≤ 90) ||
      (decide (c.val ≥ 97) && decide (c.val ≤ 122)) || c == '_') = true := h
  simp only [Bool.or_eq_true, Bool.and_eq_true, decide_eq_true_eq, UInt32.le_iff_toNat_le, ge_iff_le,
    beq_iff_eq] at hcases
  rcases hcases with (hupper | hlower) | rfl
  · exact Or.inl hupper
  · exact Or.inr (Or.inl hlower)
  · exact Or.inr (Or.inr rfl)

theorem readString_length {cs value rest : List Char} (h : readString cs = .ok (value, rest)) :
    rest.length < cs.length := by
  induction cs using readString.induct generalizing value with
  | case1 => cases h
  | case2 tail ih =>
      rw [readString] at h
      obtain ⟨⟨v, r⟩, hread, hret⟩ := except_bind_eq_ok.1 h
      cases hret
      have := ih hread
      simp only [List.length_cons]
      omega
  | case3 tail hne =>
      rw [readString.eq_3 _ hne] at h
      cases h
      simp
  | case4 c tail h₁ h₂ ih =>
      rw [readString.eq_4 _ _ h₁ h₂] at h
      obtain ⟨⟨v, r⟩, hread, hret⟩ := except_bind_eq_ok.1 h
      cases hret
      have := ih hread
      simp only [List.length_cons]
      omega

/-- Taking characters while they fit: what is taken fits, and what comes next does
not. -/
theorem takeWhile_dropWhile_iff {P : Char → Bool} {cs used rest : List Char} :
    (cs.takeWhile P = used ∧ cs.dropWhile P = rest) ↔
      cs = used ++ rest ∧ (∀ c ∈ used, P c) ∧ ∀ c ∈ rest.head?, P c = false := by
  constructor
  · rintro ⟨rfl, rfl⟩
    refine ⟨List.takeWhile_append_dropWhile.symm, fun c => List.mem_takeWhile_imp, ?_⟩
    intro c hc
    have hnot := List.head?_dropWhile_not P cs
    rw [Option.mem_def.1 hc] at hnot
    exact hnot
  · rintro ⟨rfl, hused, hrest⟩
    rw [List.takeWhile_append_of_pos hused, List.dropWhile_append_of_pos hused]
    cases rest with
    | nil => simp
    | cons c rest =>
        have hc := hrest c rfl
        rw [List.takeWhile_cons_of_neg (by simp [hc]), List.dropWhile_cons_of_neg (by simp [hc])]
        simp

theorem readNumber_length {cs rest : List Char} {value : String} {c : Char}
    (hc : c.isDigit ∨ c = '-') (h : readNumber (c :: cs) = .ok (value, rest)) :
    rest.length < (c :: cs).length := by
  have hle := (List.dropWhile_suffix isNumberContinue (l := cs)).length_le
  by_cases hminus : c = '-'
  · subst hminus
    rw [readNumber] at h
    split at h
    · cases h
      rw [List.length_cons]
      omega
    · cases h
  · have hdigit := isDigit_continue (hc.resolve_right hminus)
    rw [readNumber.eq_2 _ (by rintro tail ⟨⟩; exact hminus rfl)] at h
    cases h
    rw [List.dropWhile_cons_of_pos hdigit, List.length_cons]
    omega

/-- Every token takes at least one character. -/
theorem readToken_length {c : Char} {cs rest : List Char} {token : Token}
    (h : readToken c cs = .ok (token, rest)) : rest.length < (c :: cs).length := by
  rw [readToken] at h
  split_ifs at h with h₁ h₂ h₃ h₄ h₅ h₆ hquote hident hnumber
  case pos | pos | pos | pos | pos | pos =>
    cases h
    simp
  · obtain ⟨⟨value, rest'⟩, hread, hret⟩ := except_bind_eq_ok.1 h
    cases hret
    have := readString_length hread
    simp only [List.length_cons]
    omega
  · rw [readIdentifier] at h
    cases h
    have hcont := isIdentifierStart_continue hident
    have hle := (List.dropWhile_suffix isIdentifierContinue (l := cs)).length_le
    rw [List.dropWhile_cons_of_pos hcont, List.length_cons]
    omega
  · obtain ⟨⟨value, rest'⟩, hread, hret⟩ := except_bind_eq_ok.1 h
    cases hret
    exact readNumber_length hnumber hread

/-- Split a text into tokens; the last one is the end of the text. -/
def tokenize (cs : List Char) : DbResult (List Token) :=
  match _hskip : skipWhitespace cs with
  | [] => .ok [.eof]
  | c :: rest =>
      match _hread : readToken c rest with
      | .error stop => .error stop
      | .ok (token, rest') => do
          let tokens ← tokenize rest'
          return token :: tokens
termination_by cs.length
decreasing_by
  have hle := (List.dropWhile_suffix isWhitespace (l := cs)).length_le
  have hlt := readToken_length _hread
  rw [skipWhitespace] at _hskip
  rw [_hskip] at hle
  omega

end Lexer

/-! ## The lexical grammar -/

/-- A text with each quote doubled. -/
def escape (value : List Char) : List Char :=
  value.flatMap fun c => if c = '\'' then ['\'', '\''] else [c]

/-- The ways to write a token. -/
inductive Spelling : Token → List Char → Prop
  | comma : Spelling .comma [',']
  | lParen : Spelling .lParen ['(']
  | rParen : Spelling .rParen [')']
  | semicolon : Spelling .semicolon [';']
  | star : Spelling .star ['*']
  | eq : Spelling .eq ['=']
  | ident {c : Char} {cs : List Char} : isIdentifierStart c → (∀ x ∈ cs, isIdentifierContinue x) →
      Spelling (.ident (String.ofList (c :: cs))) (c :: cs)
  | number {c : Char} {cs : List Char} : c.isDigit → (∀ x ∈ cs, isNumberContinue x) →
      Spelling (.number (String.ofList (c :: cs))) (c :: cs)
  | negative {c : Char} {cs : List Char} : c.isDigit → (∀ x ∈ cs, isNumberContinue x) →
      Spelling (.number (String.ofList ('-' :: c :: cs))) ('-' :: c :: cs)
  | string (value : List Char) :
      Spelling (.string (String.ofList value)) ('\'' :: (escape value ++ ['\'']))

/-- The rest of the text does not continue the token. -/
def Ends : Token → List Char → Prop
  | .ident _, rest => ∀ c ∈ rest.head?, isIdentifierContinue c = false
  | .number _, rest => ∀ c ∈ rest.head?, isNumberContinue c = false
  | .string _, rest => rest.head? ≠ some '\''
  | _, _ => True

/-- The text is the tokens, each in one of its spellings, with blanks between them. -/
inductive Lexes : List Char → List Token → Prop
  | done {ws : List Char} : (∀ c ∈ ws, isWhitespace c) → Lexes ws []
  | token {ws spelled rest : List Char} {t : Token} {ts : List Token} :
      (∀ c ∈ ws, isWhitespace c) → Spelling t spelled → Ends t rest → Lexes rest ts →
      Lexes (ws ++ (spelled ++ rest)) (t :: ts)

namespace Lexer

theorem isWhitespace_of_printable {c : Char} (hlo : 33 ≤ c.toNat) (hhi : c.toNat ≤ 126) :
    isWhitespace c = false := by
  simp only [isWhitespace, Bool.or_eq_false_iff, Bool.and_eq_false_iff, decide_eq_false_iff_not,
    beq_eq_false_iff_ne]
  omega

/-- The first character of a token is no blank. -/
theorem Spelling.head_not_whitespace {t : Token} {c : Char} {cs : List Char}
    (h : Spelling t (c :: cs)) : isWhitespace c = false := by
  cases h with
  | comma => rfl
  | lParen => rfl
  | rParen => rfl
  | semicolon => rfl
  | star => rfl
  | eq => rfl
  | negative _ _ => rfl
  | string value => rfl
  | ident hstart _ =>
      have := toNat_of_isIdentifierStart hstart
      exact isWhitespace_of_printable (by omega) (by omega)
  | number hdigit _ =>
      have := toNat_of_isDigit hdigit
      exact isWhitespace_of_printable (by omega) (by omega)

/-! ## The readers against the grammar -/

theorem escape_cons (c : Char) (value : List Char) :
    escape (c :: value) = (if c = '\'' then ['\'', '\''] else [c]) ++ escape value :=
  List.flatMap_cons

theorem readString_sound {cs value rest : List Char} (h : readString cs = .ok (value, rest)) :
    cs = escape value ++ '\'' :: rest ∧ rest.head? ≠ some '\'' := by
  induction cs using readString.induct generalizing value with
  | case1 => cases h
  | case2 tail ih =>
      rw [readString] at h
      obtain ⟨⟨v, r⟩, hread, hret⟩ := except_bind_eq_ok.1 h
      cases hret
      obtain ⟨rfl, hhead⟩ := ih hread
      exact ⟨by rw [escape_cons, if_pos rfl]; rfl, hhead⟩
  | case3 tail hne =>
      rw [readString.eq_3 _ hne] at h
      cases h
      refine ⟨rfl, ?_⟩
      intro hhead
      cases rest with
      | nil => cases hhead
      | cons c rest =>
          rw [List.head?_cons, Option.some.injEq] at hhead
          exact hne rest (by rw [hhead])
  | case4 c tail h₁ h₂ ih =>
      rw [readString.eq_4 _ _ h₁ h₂] at h
      obtain ⟨⟨v, r⟩, hread, hret⟩ := except_bind_eq_ok.1 h
      cases hret
      obtain ⟨rfl, hhead⟩ := ih hread
      have hc : c ≠ '\'' := fun hc => h₂ hc
      exact ⟨by rw [escape_cons, if_neg hc]; rfl, hhead⟩

theorem readString_complete {value rest : List Char} (h : rest.head? ≠ some '\'') :
    readString (escape value ++ '\'' :: rest) = .ok (value, rest) := by
  induction value with
  | nil =>
      have hne : ∀ tail, rest ≠ '\'' :: tail := by
        rintro tail rfl
        exact h rfl
      exact readString.eq_3 rest hne
  | cons c value ih =>
      rw [escape_cons]
      by_cases hc : c = '\''
      · rw [if_pos hc, hc]
        change readString ('\'' :: '\'' :: (escape value ++ '\'' :: rest)) = _
        rw [readString, ih]
        rfl
      · rw [if_neg hc]
        change readString (c :: (escape value ++ '\'' :: rest)) = _
        rw [readString.eq_4 _ _ (fun _ h => absurd h hc) hc, ih]
        rfl

theorem readIdentifier_eq {cs rest : List Char} {value : String} :
    readIdentifier cs = (value, rest) ↔
      ∃ used, value = String.ofList used ∧ cs = used ++ rest ∧
        (∀ c ∈ used, isIdentifierContinue c) ∧ ∀ c ∈ rest.head?, isIdentifierContinue c = false := by
  rw [readIdentifier, Prod.mk.injEq]
  constructor
  · rintro ⟨rfl, hrest⟩
    exact ⟨_, rfl, takeWhile_dropWhile_iff.1 ⟨rfl, hrest⟩⟩
  · rintro ⟨used, rfl, hsplit⟩
    obtain ⟨hused, hrest⟩ := takeWhile_dropWhile_iff.2 hsplit
    rw [hused]
    exact ⟨rfl, hrest⟩

/-- The spelling of a number, with the character it starts with. -/
theorem readNumber_sound {c : Char} {cs rest : List Char} {value : String}
    (hc : c.isDigit ∨ c = '-') (h : readNumber (c :: cs) = .ok (value, rest)) :
    ∃ spelled, c :: cs = spelled ++ rest ∧ Spelling (.number value) spelled ∧
      Ends (.number value) rest := by
  by_cases hminus : c = '-'
  · subst hminus
    rw [readNumber] at h
    split at h
    case isFalse => cases h
    rename_i hdigit
    cases h
    cases cs with
    | nil => cases hdigit
    | cons d cs =>
        have hd : d.isDigit := by simpa using hdigit
        obtain ⟨hsplit, hused, hends⟩ := takeWhile_dropWhile_iff.1
          ⟨rfl, (rfl : (d :: cs).dropWhile isNumberContinue = _)⟩
        rw [List.takeWhile_cons_of_pos (isDigit_continue hd)] at hsplit hused ⊢
        exact ⟨_, congrArg (List.cons '-') hsplit,
          Spelling.negative hd (List.forall_mem_cons.1 hused).2, hends⟩
  · have hd := hc.resolve_right hminus
    rw [readNumber.eq_2 _ (by rintro tail ⟨⟩; exact hminus rfl)] at h
    cases h
    obtain ⟨hsplit, hused, hends⟩ := takeWhile_dropWhile_iff.1
      ⟨rfl, (rfl : (c :: cs).dropWhile isNumberContinue = _)⟩
    rw [List.takeWhile_cons_of_pos (isDigit_continue hd)] at hsplit hused ⊢
    exact ⟨_, hsplit, Spelling.number hd (List.forall_mem_cons.1 hused).2, hends⟩

theorem readToken_sound {c : Char} {cs rest : List Char} {t : Token}
    (h : readToken c cs = .ok (t, rest)) :
    ∃ spelled, c :: cs = spelled ++ rest ∧ Spelling t spelled ∧ Ends t rest := by
  rw [readToken] at h
  split_ifs at h with h₁ h₂ h₃ h₄ h₅ h₆ hquote hident hnumber
  · cases h
    exact ⟨[','], by rw [h₁]; rfl, Spelling.comma, trivial⟩
  · cases h
    exact ⟨['('], by rw [h₂]; rfl, Spelling.lParen, trivial⟩
  · cases h
    exact ⟨[')'], by rw [h₃]; rfl, Spelling.rParen, trivial⟩
  · cases h
    exact ⟨[';'], by rw [h₄]; rfl, Spelling.semicolon, trivial⟩
  · cases h
    exact ⟨['*'], by rw [h₅]; rfl, Spelling.star, trivial⟩
  · cases h
    exact ⟨['='], by rw [h₆]; rfl, Spelling.eq, trivial⟩
  · obtain ⟨⟨value, rest'⟩, hread, hret⟩ := except_bind_eq_ok.1 h
    cases hret
    obtain ⟨rfl, hends⟩ := readString_sound hread
    refine ⟨_, ?_, Spelling.string value, hends⟩
    rw [hquote]
    simp
  · rcases hread : readIdentifier (c :: cs) with ⟨value, rest'⟩
    rw [hread] at h
    cases h
    obtain ⟨used, rfl, hsplit, hused, hends⟩ := readIdentifier_eq.1 hread
    cases used with
    | nil =>
        rw [List.nil_append] at hsplit
        have hfalse := hends c (by rw [← hsplit]; rfl)
        rw [isIdentifierStart_continue hident] at hfalse
        cases hfalse
    | cons d used =>
        obtain ⟨rfl, rfl⟩ := List.cons.inj hsplit
        exact ⟨_, rfl, Spelling.ident hident (List.forall_mem_cons.1 hused).2, hends⟩
  · obtain ⟨⟨value, rest'⟩, hread, hret⟩ := except_bind_eq_ok.1 h
    cases hret
    exact readNumber_sound hnumber hread

theorem readNumber_complete {c : Char} {cs rest : List Char} {value : String}
    (h : Spelling (.number value) (c :: cs)) (hends : Ends (.number value) rest) :
    (c.isDigit ∨ c = '-') ∧ readNumber (c :: (cs ++ rest)) = .ok (value, rest) := by
  cases h with
  | number hd hcs =>
      have hminus : c ≠ '-' := by
        rintro rfl
        cases hd
      obtain ⟨htake, hdrop⟩ := takeWhile_dropWhile_iff.2
        ⟨(rfl : c :: (cs ++ rest) = (c :: cs) ++ rest),
          List.forall_mem_cons.2 ⟨isDigit_continue hd, hcs⟩, hends⟩
      rw [readNumber.eq_2 _ (by rintro tail ⟨⟩; exact hminus rfl), htake, hdrop]
      exact ⟨Or.inl hd, rfl⟩
  | @negative d cs hd hcs =>
      obtain ⟨htake, hdrop⟩ := takeWhile_dropWhile_iff.2
        ⟨(rfl : d :: (cs ++ rest) = (d :: cs) ++ rest),
          List.forall_mem_cons.2 ⟨isDigit_continue hd, hcs⟩, hends⟩
      rw [List.cons_append, readNumber, if_pos (by simpa using hd), htake, hdrop]
      exact ⟨Or.inr rfl, rfl⟩

/-- A character that is no punctuation mark and no quote. -/
theorem readToken_of_other {c : Char} {cs : List Char} (h : isIdentifierStart c ∨ c.isDigit ∨ c = '-') :
    readToken c cs =
      if isIdentifierStart c then
        .ok (.ident (readIdentifier (c :: cs)).1, (readIdentifier (c :: cs)).2)
      else do
        let (value, rest) ← readNumber (c :: cs)
        return (.number value, rest) := by
  have hne : ∀ d : Char, isIdentifierStart d = false → d.isDigit = false → d ≠ '-' → c ≠ d := by
    rintro d hd₁ hd₂ hd₃ rfl
    rcases h with h | h | h
    · rw [h] at hd₁
      cases hd₁
    · rw [h] at hd₂
      cases hd₂
    · exact hd₃ h
  rw [readToken, if_neg (hne ',' rfl rfl (by decide)), if_neg (hne '(' rfl rfl (by decide)),
    if_neg (hne ')' rfl rfl (by decide)), if_neg (hne ';' rfl rfl (by decide)),
    if_neg (hne '*' rfl rfl (by decide)), if_neg (hne '=' rfl rfl (by decide)),
    if_neg (hne '\'' rfl rfl (by decide))]
  by_cases hident : isIdentifierStart c
  · rw [if_pos hident, if_pos hident]
  · rw [if_neg hident, if_neg hident, if_pos (h.resolve_left hident)]

theorem readToken_complete {c : Char} {cs rest : List Char} {t : Token}
    (h : Spelling t (c :: cs)) (hends : Ends t rest) :
    readToken c (cs ++ rest) = .ok (t, rest) := by
  cases t with
  | comma => cases h; rfl
  | lParen => cases h; rfl
  | rParen => cases h; rfl
  | semicolon => cases h; rfl
  | star => cases h; rfl
  | eq => cases h; rfl
  | eof => cases h
  | string value =>
      cases h with
      | string value =>
          have hread := @readString_complete value rest hends
          rw [List.append_assoc]
          change (do
            let (value, rest) ← readString (escape value ++ '\'' :: rest)
            return (Token.string (String.ofList value), rest)) = _
          rw [hread]
          rfl
  | ident value =>
      cases h with
      | ident hstart hcs =>
          have hread : readIdentifier (c :: (cs ++ rest)) = (String.ofList (c :: cs), rest) :=
            readIdentifier_eq.2 ⟨c :: cs, rfl, rfl,
              List.forall_mem_cons.2 ⟨isIdentifierStart_continue hstart, hcs⟩, hends⟩
          rw [readToken_of_other (Or.inl hstart), if_pos hstart, hread]
  | number value =>
      obtain ⟨hc, hread⟩ := readNumber_complete h hends
      have hnot : ¬ isIdentifierStart c := by
        intro hstart
        have hrange := toNat_of_isIdentifierStart hstart
        rcases hc with hd | rfl
        · have := toNat_of_isDigit hd
          omega
        · cases hstart
      rw [readToken_of_other (Or.inr hc), if_neg hnot, hread]
      rfl

/-! ## Whole texts -/

theorem tokenize_nil {cs : List Char} (h : skipWhitespace cs = []) : tokenize cs = .ok [.eof] := by
  rw [tokenize]
  split
  · rfl
  · rename_i hskip
    rw [h] at hskip
    cases hskip

theorem tokenize_error {c : Char} {cs rest : List Char} {stop : Stop}
    (h : skipWhitespace cs = c :: rest) (hread : readToken c rest = .error stop) :
    tokenize cs = .error stop := by
  rw [tokenize]
  split
  · rename_i hskip
    rw [h] at hskip
    cases hskip
  · rename_i hskip
    rw [h] at hskip
    cases hskip
    split
    · rename_i hread'
      rw [hread] at hread'
      cases hread'
      rfl
    · rename_i hread'
      rw [hread] at hread'
      cases hread'

theorem tokenize_cons {c : Char} {cs rest rest' : List Char} {t : Token}
    (h : skipWhitespace cs = c :: rest) (hread : readToken c rest = .ok (t, rest')) :
    tokenize cs = (do
      let tokens ← tokenize rest'
      return t :: tokens) := by
  rw [tokenize]
  split
  · rename_i hskip
    rw [h] at hskip
    cases hskip
  · rename_i hskip
    rw [h] at hskip
    cases hskip
    split
    · rename_i hread'
      rw [hread] at hread'
      cases hread'
    · rename_i hread'
      rw [hread] at hread'
      cases hread'
      rfl

theorem skipWhitespace_eq {cs rest : List Char} :
    skipWhitespace cs = rest ↔ ∃ ws, cs = ws ++ rest ∧ (∀ c ∈ ws, isWhitespace c) ∧
      ∀ c ∈ rest.head?, isWhitespace c = false := by
  constructor
  · rintro rfl
    exact ⟨cs.takeWhile isWhitespace, takeWhile_dropWhile_iff.1 ⟨rfl, rfl⟩⟩
  · rintro ⟨ws, hsplit⟩
    exact (takeWhile_dropWhile_iff.2 hsplit).2

theorem tokenize_complete {cs : List Char} {ts : List Token} (h : Lexes cs ts) :
    tokenize cs = .ok (ts ++ [.eof]) := by
  induction h with
  | done hws =>
      refine tokenize_nil (skipWhitespace_eq.2 ⟨_, (List.append_nil _).symm, hws, nofun⟩)
  | @token ws spelled rest t ts hws hspelling hends _ ih =>
      cases spelled with
      | nil => cases hspelling
      | cons c spelled =>
          have hskip : skipWhitespace (ws ++ (c :: spelled ++ rest)) = c :: (spelled ++ rest) := by
            refine skipWhitespace_eq.2 ⟨ws, rfl, hws, ?_⟩
            rintro d ⟨⟩
            exact Spelling.head_not_whitespace hspelling
          rw [tokenize_cons hskip (readToken_complete hspelling hends), ih]
          rfl

theorem tokenize_sound {cs : List Char} : ∀ {tokens}, tokenize cs = .ok tokens →
    ∃ ts, tokens = ts ++ [.eof] ∧ Lexes cs ts := by
  induction hlen : cs.length using Nat.strong_induction_on generalizing cs with
  | _ n ih =>
      subst hlen
      intro tokens h
      obtain ⟨ws, hsplit, hws, -⟩ := skipWhitespace_eq.1 (rfl : skipWhitespace cs = _)
      cases hskip : skipWhitespace cs with
      | nil =>
          rw [tokenize_nil hskip] at h
          cases h
          rw [hskip, List.append_nil] at hsplit
          rw [hsplit]
          exact ⟨[], rfl, Lexes.done hws⟩
      | cons c rest =>
          cases hread : readToken c rest with
          | error stop =>
              rw [tokenize_error hskip hread] at h
              cases h
          | ok x =>
              obtain ⟨t, rest'⟩ := x
              rw [tokenize_cons hskip hread] at h
              obtain ⟨tokens', htokens, hret⟩ := except_bind_eq_ok.1 h
              cases hret
              have hlt := readToken_length hread
              rw [hskip] at hsplit
              have hshort : rest'.length < cs.length := by
                rw [hsplit, List.length_append]
                omega
              obtain ⟨ts, rfl, hlexes⟩ := ih _ hshort rfl htokens
              obtain ⟨spelled, hspelled, hspelling, hends⟩ := readToken_sound hread
              refine ⟨t :: ts, rfl, ?_⟩
              rw [hsplit, hspelled]
              exact Lexes.token hws hspelling hends hlexes

/-- The lexer accepts exactly the texts of the lexical grammar. -/
theorem tokenize_eq_ok {cs : List Char} {tokens : List Token} :
    tokenize cs = .ok tokens ↔ ∃ ts, tokens = ts ++ [.eof] ∧ Lexes cs ts := by
  constructor
  · exact tokenize_sound
  · rintro ⟨ts, rfl, h⟩
    exact tokenize_complete h

/-! ## Texts that are rejected -/

theorem readString_isUser {cs : List Char} {stop : Stop} (h : readString cs = .error stop) :
    stop.IsUser := by
  induction cs using readString.induct with
  | case1 =>
      cases h
      exact ⟨_, rfl⟩
  | case2 tail ih =>
      rw [readString] at h
      rcases hread : readString tail with stop' | ⟨v, r⟩
      · rw [hread] at h
        cases h
        exact ih hread
      · rw [hread] at h
        cases h
  | case3 tail hne =>
      rw [readString.eq_3 _ hne] at h
      cases h
  | case4 c tail h₁ h₂ ih =>
      rw [readString.eq_4 _ _ h₁ h₂] at h
      rcases hread : readString tail with stop' | ⟨v, r⟩
      · rw [hread] at h
        cases h
        exact ih hread
      · rw [hread] at h
        cases h

theorem readNumber_isUser {cs : List Char} {stop : Stop} (h : readNumber cs = .error stop) :
    stop.IsUser := by
  unfold readNumber at h
  split at h
  · split at h
    · cases h
    · cases h
      exact ⟨_, rfl⟩
  · cases h

theorem readToken_isUser {c : Char} {cs : List Char} {stop : Stop}
    (h : readToken c cs = .error stop) : stop.IsUser := by
  rw [readToken] at h
  split_ifs at h
  · rcases hread : readString cs with stop' | ⟨v, r⟩
    · rw [hread] at h
      cases h
      exact readString_isUser hread
    · rw [hread] at h
      cases h
  · rcases hread : readNumber (c :: cs) with stop' | ⟨v, r⟩
    · rw [hread] at h
      cases h
      exact readNumber_isUser hread
    · rw [hread] at h
      cases h
  · cases h
    exact ⟨_, rfl⟩

theorem tokenize_isUser {cs : List Char} {stop : Stop} : tokenize cs = .error stop →
    stop.IsUser := by
  induction hlen : cs.length using Nat.strong_induction_on generalizing cs with
  | _ n ih =>
      subst hlen
      intro h
      cases hskip : skipWhitespace cs with
      | nil =>
          rw [tokenize_nil hskip] at h
          cases h
      | cons c rest =>
          cases hread : readToken c rest with
          | error stop' =>
              rw [tokenize_error hskip hread] at h
              cases h
              exact readToken_isUser hread
          | ok x =>
              obtain ⟨t, rest'⟩ := x
              rw [tokenize_cons hskip hread] at h
              rcases hrest : tokenize rest' with stop' | tokens
              · rw [hrest] at h
                cases h
                obtain ⟨ws, hsplit, -⟩ := skipWhitespace_eq.1 hskip
                have hlt := readToken_length hread
                refine ih _ ?_ rfl hrest
                rw [hsplit, List.length_append]
                omega
              · rw [hrest] at h
                cases h

end Lexer

end Sql

end Rdbms
