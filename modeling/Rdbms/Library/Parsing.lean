import Rdbms.Library.Exec

/-!
# Parsers over a list of tokens

A parser is a computation over the list of tokens that are left. A test looks at
the next token and takes it when it fits. `separated` reads one item after the
other for as long as a test takes a separator between them; `SepBy` is the
grammar of what it reads. `Errors E p` says that whenever `p` leaves early, it
does so with an exit in `E`.
-/

namespace Library

namespace Parsing

variable {ε τ α β : Type}

/-- A test takes the next token exactly when the token is one of `P`. -/
def Tests (test : Exec ε (List τ) Bool) (P : τ → Prop) : Prop :=
  ∀ ts b rest, test ts = (.ok b, rest) ↔
    (b = true ∧ ∃ t, P t ∧ ts = t :: rest) ∨ (b = false ∧ rest = ts ∧ ∀ t ∈ ts.head?, ¬ P t)

/-- Items with a separator between two of them. -/
inductive SepBy (G : α → List τ → Prop) (P : τ → Prop) : List α → List τ → Prop
  | one {a : α} {ts : List τ} : G a ts → SepBy G P [a] ts
  | more {a : α} {as : List α} {us vs : List τ} {t : τ} :
      G a us → P t → SepBy G P as vs → SepBy G P (a :: as) (us ++ t :: vs)

theorem SepBy.forall_mem {G : α → List τ → Prop} {P Q : τ → Prop} {as : List α} {ts : List τ}
    (h : SepBy G P as ts) (hG : ∀ a us, G a us → ∀ t ∈ us, Q t) (hP : ∀ t, P t → Q t) :
    ∀ t ∈ ts, Q t := by
  induction h with
  | one hone => exact hG _ _ hone
  | more hone ht _ ih =>
      intro t hmem
      rcases List.mem_append.1 hmem with hmem | hmem
      · exact hG _ _ hone t hmem
      · rcases List.mem_cons.1 hmem with rfl | hmem
        · exact hP _ ht
        · exact ih t hmem

/-- Read items for as long as the test takes a separator. -/
def separated (item : Exec ε (List τ) α) (more : Exec ε (List τ) Bool) (cut : ε) :
    Nat → Exec ε (List τ) (List α)
  | 0 => Exec.fail cut
  | n + 1 => do
      let a ← item
      if ← more then
        let as ← separated item more cut n
        return a :: as
      else return [a]

/-- A parser that reads exactly what the grammar describes, whatever comes after it. -/
def Reads (p : Exec ε (List τ) α) (G : α → List τ → Prop) : Prop :=
  ∀ ts a rest, p ts = (.ok a, rest) ↔ ∃ used, ts = used ++ rest ∧ G a used

/-- A parser that looks at the token after what it reads: it reads what the grammar
describes whenever that token is none of `P`. -/
structure ReadsUpTo (p : Exec ε (List τ) α) (G : α → List τ → Prop) (P : τ → Prop) : Prop where
  sound {ts rest : List τ} {a : α} : p ts = (.ok a, rest) → ∃ used, ts = used ++ rest ∧ G a used
  complete {used rest : List τ} {a : α} : G a used → (∀ t ∈ rest.head?, ¬ P t) →
    p (used ++ rest) = (.ok a, rest)

theorem Reads.upTo {p : Exec ε (List τ) α} {G : α → List τ → Prop} (h : Reads p G)
    (P : τ → Prop) : ReadsUpTo p G P where
  sound hp := (h _ _ _).1 hp
  complete hG _ := (h _ _ _).2 ⟨_, rfl, hG⟩

section Separated

variable {item : Exec ε (List τ) α} {more : Exec ε (List τ) Bool} {cut : ε}
  {G : α → List τ → Prop} {P : τ → Prop}

theorem separated_sound (hitem : Reads item G) (hmore : Tests more P) {n : Nat} :
    ∀ {ts as rest}, separated item more cut n ts = (.ok as, rest) →
    ∃ used, ts = used ++ rest ∧ SepBy G P as used ∧ ∀ t ∈ rest.head?, ¬ P t := by
  induction n with
  | zero =>
      intro ts as rest h
      cases h
  | succ n ih =>
      intro ts as rest h
      obtain ⟨a, us, ha, h₁⟩ := Exec.bind_eq_ok.1 h
      obtain ⟨b, vs, hb, h₂⟩ := Exec.bind_eq_ok.1 h₁
      obtain ⟨used, rfl, hG⟩ := (hitem ts a us).1 ha
      rcases (hmore us b vs).1 hb with ⟨rfl, t, ht, rfl⟩ | ⟨rfl, rfl, hstop⟩
      · obtain ⟨later, ws, hlater, h₃⟩ := Exec.bind_eq_ok.1 h₂
        cases h₃
        obtain ⟨used', rfl, hsep, hstop⟩ := ih hlater
        exact ⟨used ++ t :: used', by simp, SepBy.more hG ht hsep, hstop⟩
      · cases h₂
        exact ⟨used, rfl, SepBy.one hG, hstop⟩

theorem separated_complete (hitem : Reads item G) (hmore : Tests more P) {as : List α}
    {used : List τ} (hsep : SepBy G P as used) : ∀ {n rest}, used.length < n →
    (∀ t ∈ rest.head?, ¬ P t) → separated item more cut n (used ++ rest) = (.ok as, rest) := by
  induction hsep with
  | @one a ts hG =>
      intro n rest hn hstop
      obtain ⟨n, rfl⟩ := Nat.exists_eq_add_of_lt hn
      have ha := (hitem (ts ++ rest) a rest).2 ⟨ts, rfl, hG⟩
      have hb := (hmore rest false rest).2 (Or.inr ⟨rfl, rfl, hstop⟩)
      rw [separated, Exec.bind_of_ok ha, Exec.bind_of_ok hb]
      rfl
  | @more a as us vs t hG ht _ ih =>
      intro n rest hn hstop
      obtain ⟨n, rfl⟩ := Nat.exists_eq_add_of_lt hn
      have ha := (hitem (us ++ t :: vs ++ rest) a (t :: (vs ++ rest))).2
        ⟨us, by simp, hG⟩
      have hb := (hmore (t :: (vs ++ rest)) true (vs ++ rest)).2 (Or.inl ⟨rfl, t, ht, rfl⟩)
      have hlater : separated item more cut ((us ++ t :: vs).length + n) (vs ++ rest) =
          (.ok as, rest) := by
        refine ih ?_ hstop
        rw [List.length_append, List.length_cons]
        omega
      rw [separated, Exec.bind_of_ok ha, Exec.bind_of_ok hb, if_pos rfl, Exec.bind_of_ok hlater]
      rfl

end Separated

/-! ## How a parser can fail -/

/-- Every early exit is one of `E`. -/
def Errors (E : ε → Prop) (p : Exec ε (List τ) α) : Prop :=
  ∀ ts e rest, p ts = (.error e, rest) → E e

section Errors

variable {E : ε → Prop}

theorem Errors.pure (a : α) : Errors E (Pure.pure a : Exec ε (List τ) α) := by
  intro ts e rest h
  cases h

theorem Errors.bind {p : Exec ε (List τ) α} {f : α → Exec ε (List τ) β} (hp : Errors E p)
    (hf : ∀ a, Errors E (f a)) : Errors E (p >>= f) := by
  intro ts e rest h
  rw [Exec.bind_apply] at h
  rcases hcase : p ts with ⟨e' | a, us⟩
  · rw [hcase] at h
    cases h
    exact hp ts e rest hcase
  · rw [hcase] at h
    exact hf a us e rest h

theorem Errors.ite {c : Prop} [Decidable c] {p q : Exec ε (List τ) α} (hp : Errors E p)
    (hq : Errors E q) : Errors E (if c then p else q) := by
  split
  · exact hp
  · exact hq

/-- Reading items that each take a token: the bound on their number is not used up. -/
theorem separated_errors {item : Exec ε (List τ) α} {more : Exec ε (List τ) Bool} {cut : ε}
    {G : α → List τ → Prop} {P : τ → Prop} (hitem : Reads item G) (hmore : Tests more P)
    (hG : ∀ a ts, G a ts → ts ≠ []) (hE : Errors E item) (hE' : Errors E more) {n : Nat} :
    ∀ {ts e rest}, ts.length < n → separated item more cut n ts = (.error e, rest) → E e := by
  induction n with
  | zero =>
      intro ts e rest hn
      omega
  | succ n ih =>
      intro ts e rest hn h
      rw [separated, Exec.bind_apply] at h
      rcases ha : item ts with ⟨e' | a, us⟩
      · rw [ha] at h
        cases h
        exact hE ts e rest ha
      rw [ha] at h
      dsimp only at h
      rw [Exec.bind_apply] at h
      rcases hb : more us with ⟨e' | b, vs⟩
      · rw [hb] at h
        cases h
        exact hE' us e rest hb
      rw [hb] at h
      dsimp only at h
      obtain ⟨used, rfl, hused⟩ := (hitem ts a us).1 ha
      have hpos := List.length_pos_of_ne_nil (hG a used hused)
      rw [List.length_append] at hn
      rcases (hmore us b vs).1 hb with ⟨rfl, t, ht, rfl⟩ | ⟨rfl, rfl, -⟩
      · rw [if_pos rfl, Exec.bind_apply] at h
        rcases hlater : separated item more cut n vs with ⟨e' | later, ws⟩
        · rw [hlater] at h
          cases h
          refine ih ?_ hlater
          rw [List.length_cons] at hn
          omega
        · rw [hlater] at h
          cases h
      · cases h

end Errors

end Parsing

end Library
