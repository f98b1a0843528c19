import Mathlib.Data.List.Forall2
import Rdbms.Library.Hoare
import Rdbms.Library.Slice
import Rdbms.Library.LittleEndian

/-!
# Reading a buffer from front to back

A cursor is a buffer with an offset into it. `Reads m bs a` says that the
computation `m` consumes exactly the bytes `bs`, wherever in a buffer they stand,
and gives `a`. A reader of a composite format is put together from readers of its
parts, and `Reads.bind` and `Reads.readMany` put their specifications together in
the same way. `FailsOn` says on which bytes a reader fails, and `Consumes` what is
known of the bytes when a reader has been run on a buffer of unknown contents.
-/

namespace Library

/-- A buffer and an offset into it. -/
structure Cursor where
  bytes : List UInt8
  offset : Nat

/-- The exits of a cursor: its offset leaves the machine word, the buffer ends too
early, or bytes are left over at the end. -/
structure CursorErrors (ε : Type) where
  overflow : ε
  truncated : ε
  trailing : ε

namespace Cursor

variable {ε α β : Type}

def start (bytes : List UInt8) : Cursor := ⟨bytes, 0⟩

def readBytes (errors : CursorErrors ε) (len : Nat) : Exec ε Cursor (List UInt8) := do
  let cursor ← Exec.get
  failIf (cursor.offset + len ≥ 2 ^ 64) (.error errors.overflow)
  failIf (cursor.offset + len > cursor.bytes.length) (.error errors.truncated)
  Exec.modify fun c => { c with offset := c.offset + len }
  return slice cursor.bytes cursor.offset len

def readU8 (errors : CursorErrors ε) : Exec ε Cursor UInt8 := do
  let bytes ← readBytes errors 1
  return bytes.headD 0

def readU16 (errors : CursorErrors ε) : Exec ε Cursor UInt16 := do
  let bytes ← readBytes errors 2
  return u16LE bytes

def readU32 (errors : CursorErrors ε) : Exec ε Cursor UInt32 := do
  let bytes ← readBytes errors 4
  return u32LE bytes

def readU64 (errors : CursorErrors ε) : Exec ε Cursor UInt64 := do
  let bytes ← readBytes errors 8
  return u64LE bytes

def readI64 (errors : CursorErrors ε) : Exec ε Cursor Int64 := do
  let bits ← readU64 errors
  return bits.toInt64

def isFinished (cursor : Cursor) : Bool := cursor.offset = cursor.bytes.length

def finish (errors : CursorErrors ε) : Exec ε Cursor Unit := do
  let cursor ← Exec.get
  failIf (cursor.isFinished = false) (.error errors.trailing)

/-- Read a part `count` times. -/
def readMany (m : Exec ε Cursor α) : Nat → Exec ε Cursor (List α)
  | 0 => pure []
  | count + 1 => do
      let a ← m
      let rest ← readMany m count
      return a :: rest

/-- Run a reader over a whole buffer. -/
def run (m : Exec ε Cursor α) (bytes : List UInt8) : Except ε α := (m (start bytes)).1

/-- `m` consumes exactly `bs`, wherever they stand, and gives `a`. -/
def Reads (m : Exec ε Cursor α) (bs : List UInt8) (a : α) : Prop :=
  ∀ front back, (front ++ (bs ++ back)).length < 2 ^ 64 →
    m ⟨front ++ (bs ++ back), front.length⟩ =
      (.ok a, ⟨front ++ (bs ++ back), front.length + bs.length⟩)

theorem Reads.pure (a : α) : Reads (Pure.pure a : Exec ε Cursor α) [] a := by
  intro front back _
  rfl

theorem Reads.bind {m : Exec ε Cursor α} {f : α → Exec ε Cursor β} {bs cs : List UInt8} {a : α}
    {b : β} (hm : Reads m bs a) (hf : Reads (f a) cs b) : Reads (m >>= f) (bs ++ cs) b := by
  intro front back hlt
  have hm' := hm front (cs ++ back) (by simpa using hlt)
  have hf' := hf (front ++ bs) back (by simpa using hlt)
  simp only [List.append_assoc, List.length_append] at hm' hf' ⊢
  rw [Exec.bind_of_ok hm', hf', Nat.add_assoc]

/-- The last step of a reader, which consumes nothing. -/
theorem Reads.map {m : Exec ε Cursor α} {f : α → Exec ε Cursor β} {bs : List UInt8} {a : α}
    {b : β} (hm : Reads m bs a) (hf : Reads (f a) [] b) : Reads (m >>= f) bs b := by
  have h := Reads.bind hm hf
  rwa [List.append_nil] at h

theorem Reads.lift {r : Except ε α} {a : α} (h : r = .ok a) :
    Reads (liftM r : Exec ε Cursor α) [] a := by
  intro front back _
  rw [h]
  rfl

/-- A check that passes, followed by a reader. -/
theorem Reads.lift_bind {r : Except ε α} {f : α → Exec ε Cursor β} {bs : List UInt8} {a : α}
    {b : β} (h : r = .ok a) (hf : Reads (f a) bs b) : Reads (liftM r >>= f) bs b :=
  Reads.bind (Reads.lift h) hf

variable (errors : CursorErrors ε)

theorem reads_readBytes (bs : List UInt8) : Reads (readBytes errors bs.length) bs bs := by
  intro front back hlt
  have hword : ¬ front.length + bs.length ≥ 2 ^ 64 := by
    simp only [List.length_append] at hlt
    omega
  have hroom : ¬ front.length + bs.length > (front ++ (bs ++ back)).length := by
    simp only [List.length_append]
    omega
  simp only [readBytes, Exec.bind_apply, Exec.get_apply, Exec.liftM_apply, failIf_of_not hword,
    failIf_of_not hroom, Exec.modify_apply, Exec.pure_apply, slice_middle front bs back rfl rfl]

theorem reads_readU8 (v : UInt8) : Reads (readU8 errors) [v] v :=
  Reads.map (reads_readBytes errors [v]) (Reads.pure v)

theorem reads_readU16 (v : UInt16) : Reads (readU16 errors) (le16 v) v := by
  have h := reads_readBytes errors (le16 v)
  rw [length_le16] at h
  refine Reads.map h ?_
  rw [u16LE_le16]
  exact Reads.pure v

theorem reads_readU32 (v : UInt32) : Reads (readU32 errors) (le32 v) v := by
  have h := reads_readBytes errors (le32 v)
  rw [length_le32] at h
  refine Reads.map h ?_
  rw [u32LE_le32]
  exact Reads.pure v

theorem reads_readU64 (v : UInt64) : Reads (readU64 errors) (le64 v) v := by
  have h := reads_readBytes errors (le64 v)
  rw [length_le64] at h
  refine Reads.map h ?_
  rw [u64LE_le64]
  exact Reads.pure v

theorem reads_readI64 (v : Int64) : Reads (readI64 errors) (le64 v.toUInt64) v := by
  refine Reads.map (reads_readU64 errors v.toUInt64) ?_
  rw [Int64.toInt64_toUInt64]
  exact Reads.pure v

/-- Reading the parts of a list one after the other. -/
theorem Reads.readMany {m : Exec ε Cursor α} {xs : List α} {parts : List (List UInt8)}
    (h : List.Forall₂ (fun a bs => Reads m bs a) xs parts) :
    Reads (Cursor.readMany m xs.length) parts.flatten xs := by
  induction h with
  | nil => exact Reads.pure []
  | cons hx _ ih => exact Reads.bind hx (Reads.map ih (Reads.pure _))

/-! ## Readers that go to the end of the buffer -/

/-- The last bytes of the buffer are `bs`, and `m` consumes them all and gives `a`. -/
def ReadsToEnd (m : Exec ε Cursor α) (bs : List UInt8) (a : α) : Prop :=
  ∀ front, (front ++ bs).length < 2 ^ 64 →
    m ⟨front ++ bs, front.length⟩ = (.ok a, ⟨front ++ bs, front.length + bs.length⟩)

theorem Reads.toEnd {m : Exec ε Cursor α} {bs : List UInt8} {a : α} (h : Reads m bs a) :
    ReadsToEnd m bs a := by
  intro front hlt
  have hall := h front [] (by rwa [List.append_nil])
  rwa [List.append_nil] at hall

theorem Reads.bind_toEnd {m : Exec ε Cursor α} {f : α → Exec ε Cursor β} {bs cs : List UInt8}
    {a : α} {b : β} (hm : Reads m bs a) (hf : ReadsToEnd (f a) cs b) :
    ReadsToEnd (m >>= f) (bs ++ cs) b := by
  intro front hlt
  have hf' := hf (front ++ bs) (by rwa [List.append_assoc])
  rw [List.append_assoc, List.length_append] at hf'
  rw [Exec.bind_of_ok (hm front cs hlt), hf', List.length_append, Nat.add_assoc]

theorem Reads.lift_bind_toEnd {r : Except ε α} {f : α → Exec ε Cursor β} {bs : List UInt8} {a : α}
    {b : β} (h : r = .ok a) (hf : ReadsToEnd (f a) bs b) : ReadsToEnd (liftM r >>= f) bs b :=
  Reads.bind_toEnd (Reads.lift h) hf

theorem ReadsToEnd.map {m : Exec ε Cursor α} {f : α → Exec ε Cursor β} {bs : List UInt8} {a : α}
    {b : β} (hm : ReadsToEnd m bs a) (hf : Reads (f a) [] b) : ReadsToEnd (m >>= f) bs b := by
  intro front hlt
  have hf' := hf (front ++ bs) [] (by simpa using hlt)
  rw [List.append_nil, List.append_nil, List.length_append] at hf'
  rw [Exec.bind_of_ok (hm front hlt), hf']
  rfl

/-- A reader may look whether the buffer has ended: at its end it goes on with `x`. -/
theorem ReadsToEnd.of_finished {x y : Exec ε Cursor α} {a : α} (hx : Reads x [] a) :
    ReadsToEnd (Exec.get >>= fun cursor => if cursor.isFinished then x else y) [] a := by
  intro front hlt
  rw [List.append_nil] at hlt ⊢
  have hend : isFinished ⟨front, front.length⟩ = true := decide_eq_true rfl
  rw [Exec.bind_apply, Exec.get_apply]
  dsimp only
  rw [if_pos hend]
  simpa using hx front [] (by simpa using hlt)

/-- As long as something is left, it goes on with `y`. -/
theorem ReadsToEnd.of_unfinished {x y : Exec ε Cursor α} {bs : List UInt8} {a : α} (hbs : bs ≠ [])
    (hy : ReadsToEnd y bs a) :
    ReadsToEnd (Exec.get >>= fun cursor => if cursor.isFinished then x else y) bs a := by
  intro front hlt
  have hlen := List.length_pos_of_ne_nil hbs
  have hopen : ¬ isFinished ⟨front ++ bs, front.length⟩ = true := by
    simp only [isFinished, List.length_append, decide_eq_true_eq]
    omega
  rw [Exec.bind_apply, Exec.get_apply]
  dsimp only
  rw [if_neg hopen]
  exact hy front hlt

/-- A reader that consumes the whole buffer, followed by the check that nothing is
left over. -/
theorem ReadsToEnd.run_finish {m : Exec ε Cursor α} {bs : List UInt8} {a : α}
    (h : ReadsToEnd m bs a) (hlt : bs.length < 2 ^ 64) :
    run (do
      let a ← m
      finish errors
      return a) bs = .ok a := by
  have hread : m (start bs) = (.ok a, ⟨bs, bs.length⟩) := by simpa [start] using h [] hlt
  have hend : finish errors ⟨bs, bs.length⟩ = (.ok (), ⟨bs, bs.length⟩) := by
    simp [finish, Exec.bind_apply, isFinished, failIf]
  rw [run, Exec.bind_of_ok hread, Exec.bind_of_ok hend]
  rfl

theorem Reads.run_finish {m : Exec ε Cursor α} {bs : List UInt8} {a : α} (h : Reads m bs a)
    (hlt : bs.length < 2 ^ 64) :
    run (do
      let a ← m
      finish errors
      return a) bs = .ok a := h.toEnd.run_finish errors hlt

/-! ## Readers that fail -/

/-- Wherever the bytes `bs` stand, `m` leaves with `e` when it has come to them. -/
def FailsOn (e : ε) (m : Exec ε Cursor α) (bs : List UInt8) : Prop :=
  ∀ front back, (front ++ (bs ++ back)).length < 2 ^ 64 →
    (m ⟨front ++ (bs ++ back), front.length⟩).1 = .error e

section FailsOn

variable {e : ε} {m : Exec ε Cursor α} {f : α → Exec ε Cursor β} {bs cs : List UInt8}

theorem FailsOn.append (h : FailsOn e m bs) (cs : List UInt8) : FailsOn e m (bs ++ cs) := by
  intro front back hlt
  rw [List.append_assoc] at hlt ⊢
  exact h front (cs ++ back) hlt

theorem FailsOn.bind (h : FailsOn e m bs) : FailsOn e (m >>= f) bs := by
  intro front back hlt
  rw [Exec.bind_of_error (Prod.ext (h front back hlt) rfl)]

/-- The second part fails after the first one has been read. -/
theorem Reads.bind_fails {a : α} (hm : Reads m bs a) (hf : FailsOn e (f a) cs) :
    FailsOn e (m >>= f) (bs ++ cs) := by
  intro front back hlt
  have hf' := hf (front ++ bs) back (by simpa using hlt)
  rw [List.append_assoc] at hlt ⊢
  rw [Exec.bind_of_ok (hm front (cs ++ back) hlt)]
  simpa using hf'

/-- What comes after the first part fails whatever the bytes behind are. -/
theorem Reads.map_fails {a : α} (hm : Reads m bs a) (hf : FailsOn e (f a) []) :
    FailsOn e (m >>= f) bs := by
  have h := hm.bind_fails hf
  rwa [List.append_nil] at h

theorem FailsOn.lift {r : Except ε α} (h : r = .error e) :
    FailsOn e (liftM r : Exec ε Cursor α) [] := fun _ _ _ => h

theorem Reads.lift_bind_fails {r : Except ε α} {a : α} (h : r = .ok a) (hf : FailsOn e (f a) bs) :
    FailsOn e (liftM r >>= f) bs := Reads.bind_fails (Reads.lift h) hf

theorem FailsOn.of_unfinished {x y : Exec ε Cursor α} (hbs : bs ≠ []) (hy : FailsOn e y bs) :
    FailsOn e (Exec.get >>= fun cursor => if cursor.isFinished then x else y) bs := by
  intro front back hlt
  have hlen := List.length_pos_of_ne_nil hbs
  have hopen : ¬ isFinished ⟨front ++ (bs ++ back), front.length⟩ = true := by
    simp only [isFinished, List.length_append, decide_eq_true_eq]
    omega
  rw [Exec.bind_apply, Exec.get_apply]
  dsimp only
  rw [if_neg hopen]
  exact hy front back hlt

/-- Parts each of which is read or fails are all read, or the whole fails. -/
theorem readMany_reads_or_fails {xs : List α} {parts : List (List UInt8)}
    (h : List.Forall₂ (fun a bs => Reads m bs a ∨ FailsOn e m bs) xs parts) :
    Reads (readMany m xs.length) parts.flatten xs ∨
      FailsOn e (readMany m xs.length) parts.flatten := by
  induction h with
  | nil => exact Or.inl (Reads.pure [])
  | @cons a bs xs parts hx _ ih =>
      rcases hx with hx | hx
      · rcases ih with ih | ih
        · exact Or.inl (Reads.bind hx (Reads.map ih (Reads.pure _)))
        · exact Or.inr (hx.bind_fails ih.bind)
      · exact Or.inr (hx.bind.append _)

/-- When the part behind the given ones fails, so does the whole. -/
theorem FailsOn.readMany {xs : List α} {parts : List (List UInt8)}
    (h : List.Forall₂ (fun a bs => Reads m bs a ∨ FailsOn e m bs) xs parts)
    (hfail : FailsOn e m bs) : ∀ {count}, xs.length < count →
      FailsOn e (Cursor.readMany m count) (parts.flatten ++ bs) := by
  induction h with
  | nil =>
      intro count hlt
      obtain ⟨count, rfl⟩ := Nat.exists_eq_succ_of_ne_zero (Nat.ne_of_gt hlt)
      exact hfail.bind
  | @cons a part xs parts hx _ ih =>
      intro count hlt
      obtain ⟨count, rfl⟩ := Nat.exists_eq_succ_of_ne_zero (Nat.ne_zero_of_lt hlt)
      rw [List.flatten_cons, List.append_assoc]
      rcases hx with hx | hx
      · exact hx.bind_fails (ih (Nat.lt_of_succ_lt_succ hlt)).bind
      · exact hx.bind.append _

/-- A run over a buffer that begins with such bytes. -/
theorem FailsOn.run (h : FailsOn e m bs) {back : List UInt8} (hlt : (bs ++ back).length < 2 ^ 64) :
    Cursor.run (m >>= f) (bs ++ back) = .error e := h.bind [] back hlt

end FailsOn

/-! ## What a reader has consumed -/

/-- The bytes that are still to be read. -/
def rest (cursor : Cursor) : List UInt8 := cursor.bytes.drop cursor.offset

/-- Wherever `m` starts, it leaves with an exit that `E` allows for what was still to be read,
or what it has read is related to the value it gives by `R`. -/
def Consumes (m : Exec ε Cursor α) (E : List UInt8 → ε → Prop) (R : α → List UInt8 → Prop) : Prop :=
  ∀ c, Exec.Ensures m c (E c.rest) fun a d => ∃ bs, R a bs ∧ c.rest = bs ++ d.rest

section Consumes

variable {E E' : List UInt8 → ε → Prop} {R : α → List UInt8 → Prop} {S : β → List UInt8 → Prop}
  {m : Exec ε Cursor α} {f : α → Exec ε Cursor β}

theorem Consumes.imp {R' : α → List UInt8 → Prop} (h : Consumes m E R)
    (hR : ∀ a bs, R a bs → R' a bs) : Consumes m E R' := by
  refine fun c => (h c).imp ?_
  rintro a d ⟨bs, hbs, hrest⟩
  exact ⟨bs, hR a bs hbs, hrest⟩

theorem Consumes.weaken (h : Consumes m E R) (hE : ∀ rest e, E rest e → E' rest e) :
    Consumes m E' R := fun c => (h c).weaken (hE c.rest)

theorem Consumes.pure {a : α} (h : R a []) : Consumes (Pure.pure a : Exec ε Cursor α) E R :=
  fun _ => Exec.Ensures.pure ⟨[], h, rfl⟩

/-- For the second part it is known what the first one has read. -/
theorem Consumes.bind (hm : Consumes m E R)
    (hf : ∀ a xs, R a xs → Consumes (f a) (fun ys => E (xs ++ ys)) fun b ys => S b (xs ++ ys)) :
    Consumes (m >>= f) E S := by
  intro c
  refine Exec.Ensures.bind ((hm c).imp ?_)
  rintro a d ⟨xs, hxs, hrest⟩
  rw [hrest]
  refine (hf a xs hxs d).imp ?_
  rintro b e ⟨ys, hys, hrest'⟩
  exact ⟨xs ++ ys, hys, by rw [hrest', List.append_assoc]⟩

theorem Consumes.lift_bind {r : Except ε α} (herror : ∀ {rest} e, r = .error e → E rest e)
    (hok : ∀ a, r = .ok a → Consumes (f a) E S) : Consumes (liftM r >>= f) E S := by
  intro c
  exact Exec.Ensures.bind (Exec.Ensures.liftM (fun a ha => hok a ha c) fun e he => herror e he)

/-- The last check of a reader. -/
theorem Consumes.lift {r : Except ε α} (herror : ∀ {rest} e, r = .error e → E rest e)
    (hok : ∀ a, r = .ok a → R a []) : Consumes (liftM r : Exec ε Cursor α) E R :=
  fun _ => Exec.Ensures.liftM (fun a ha => ⟨[], hok a ha, rfl⟩) fun e he => herror e he

/-- A reader may look whether the buffer has ended, and stop there. -/
theorem Consumes.ite_isFinished {x y : Exec ε Cursor α} (hx : Consumes x E R)
    (hy : Consumes y E R) :
    Consumes (Exec.get >>= fun cursor => if cursor.isFinished then x else y) E R := by
  intro c
  refine Exec.Ensures.bind (Exec.Ensures.get ?_)
  split
  · exact hx c
  · exact hy c

/-- The list is read to its end, or one of its parts is not, behind those that are. -/
theorem Consumes.readMany_within (hm : Consumes m E R) (count : Nat) :
    Consumes (Cursor.readMany m count)
      (fun rest e => ∃ as parts back, as.length < count ∧ List.Forall₂ R as parts ∧
        rest = parts.flatten ++ back ∧ E back e)
      fun as bs => as.length = count ∧
        ∃ parts, List.Forall₂ R as parts ∧ bs = parts.flatten := by
  induction count with
  | zero => exact Consumes.pure ⟨rfl, [], List.Forall₂.nil, rfl⟩
  | succ count ih =>
      refine Consumes.bind (hm.weaken fun rest e he =>
        ⟨[], [], rest, Nat.zero_lt_succ count, List.Forall₂.nil, rfl, he⟩) fun a xs ha => ?_
      refine Consumes.bind (ih.weaken ?_) ?_
      · rintro rest e ⟨as, parts, back, hlt, hparts, rfl, he⟩
        exact ⟨a :: as, xs :: parts, back, Nat.succ_lt_succ hlt, hparts.cons ha,
          by rw [List.flatten_cons, List.append_assoc], he⟩
      · rintro as ys ⟨hlen, parts, hparts, rfl⟩
        refine Consumes.pure ⟨by rw [List.length_cons, hlen], xs :: parts, hparts.cons ha, ?_⟩
        rw [List.append_nil, List.flatten_cons]

/-- The case of exits that do not depend on what is still to be read. -/
theorem Consumes.readMany {C : ε → Prop} (hm : Consumes m (fun _ => C) R) (count : Nat) :
    Consumes (Cursor.readMany m count) (fun _ => C) fun as bs => as.length = count ∧
      ∃ parts, List.Forall₂ R as parts ∧ bs = parts.flatten := by
  refine (hm.readMany_within count).weaken ?_
  rintro rest e ⟨as, parts, back, -, -, -, he⟩
  exact he

variable {errors : CursorErrors ε}

theorem consumes_readBytes (hover : ∀ {rest}, E rest errors.overflow)
    (htrunc : ∀ {rest}, E rest errors.truncated) (len : Nat) :
    Consumes (readBytes errors len) E fun bs xs => xs = bs ∧ bs.length = len := by
  intro c
  refine Exec.Ensures.bind (Exec.Ensures.get ?_)
  refine Exec.Ensures.bind (Exec.Ensures.liftM (fun _ _ => ?_) ?_)
  · refine Exec.Ensures.bind (Exec.Ensures.liftM (fun _ hroom => ?_) ?_)
    · rw [failIf_eq_ok] at hroom
      refine Exec.Ensures.bind (Exec.Ensures.modify (Exec.Ensures.pure ?_))
      refine ⟨_, ⟨rfl, length_slice (by omega)⟩, ?_⟩
      rw [rest, rest, slice, ← List.drop_drop, List.take_append_drop]
    · intro e he
      rw [failIf] at he
      split at he
      · cases he
        exact htrunc
      · cases he
  · intro e he
    rw [failIf] at he
    split at he
    · cases he
      exact hover
    · cases he

theorem consumes_readU8 (hover : ∀ {rest}, E rest errors.overflow)
    (htrunc : ∀ {rest}, E rest errors.truncated) :
    Consumes (readU8 errors) E fun v xs => xs = [v] := by
  refine Consumes.bind (consumes_readBytes hover htrunc 1) ?_
  rintro bs xs ⟨rfl, hlen⟩
  obtain ⟨v, rfl⟩ := List.length_eq_one_iff.1 hlen
  exact Consumes.pure rfl

theorem consumes_readU16 (hover : ∀ {rest}, E rest errors.overflow)
    (htrunc : ∀ {rest}, E rest errors.truncated) :
    Consumes (readU16 errors) E fun v xs => xs = le16 v := by
  refine Consumes.bind (consumes_readBytes hover htrunc 2) ?_
  rintro bs xs ⟨rfl, hlen⟩
  exact Consumes.pure (by rw [List.append_nil, le16_u16LE hlen])

theorem consumes_readU32 (hover : ∀ {rest}, E rest errors.overflow)
    (htrunc : ∀ {rest}, E rest errors.truncated) :
    Consumes (readU32 errors) E fun v xs => xs = le32 v := by
  refine Consumes.bind (consumes_readBytes hover htrunc 4) ?_
  rintro bs xs ⟨rfl, hlen⟩
  exact Consumes.pure (by rw [List.append_nil, le32_u32LE hlen])

theorem consumes_readU64 (hover : ∀ {rest}, E rest errors.overflow)
    (htrunc : ∀ {rest}, E rest errors.truncated) :
    Consumes (readU64 errors) E fun v xs => xs = le64 v := by
  refine Consumes.bind (consumes_readBytes hover htrunc 8) ?_
  rintro bs xs ⟨rfl, hlen⟩
  exact Consumes.pure (by rw [List.append_nil, le64_u64LE hlen])

theorem consumes_readI64 (hover : ∀ {rest}, E rest errors.overflow)
    (htrunc : ∀ {rest}, E rest errors.truncated) :
    Consumes (readI64 errors) E fun v xs => xs = le64 v.toUInt64 := by
  refine Consumes.bind (consumes_readU64 hover htrunc) ?_
  rintro bits xs rfl
  exact Consumes.pure (by rw [List.append_nil, UInt64.toUInt64_toInt64])

/-- A reader run over a whole buffer, followed by the check that nothing is left over. -/
theorem Consumes.run_finish (hm : Consumes m E R) (htrailing : ∀ {rest}, E rest errors.trailing)
    (bs : List UInt8) :
    (∀ a, run (do
      let a ← m
      finish errors
      return a) bs = .ok a → R a bs) ∧
    ∀ e, run (do
      let a ← m
      finish errors
      return a) bs = .error e → E bs e := by
  have hrun : Exec.Ensures (do
      let a ← m
      finish errors
      return a) (start bs) (E bs) fun a _ => R a bs := by
    refine Exec.Ensures.bind ((hm (start bs)).imp ?_)
    rintro a d ⟨xs, hxs, hrest⟩
    refine Exec.Ensures.bind (Exec.Ensures.bind (Exec.Ensures.get ?_))
    refine Exec.Ensures.liftM (fun _ hend => ?_) ?_
    · rw [failIf_eq_ok, isFinished, decide_eq_false_iff_not, not_not] at hend
      rw [rest, rest, hend, List.drop_length, List.append_nil, start, List.drop_zero] at hrest
      cases hrest
      exact Exec.Ensures.pure hxs
    · intro e he
      rw [failIf] at he
      split at he
      · cases he
        exact htrailing
      · cases he
  rw [run]
  rcases hcase : (do
      let a ← m
      finish errors
      return a : Exec ε Cursor α) (start bs) with ⟨e | a, d⟩
  · refine ⟨fun a' ha => ?_, fun e' he => ?_⟩
    · cases ha
    · cases he
      exact hrun.error hcase
  · refine ⟨fun a' ha => ?_, fun e' he => ?_⟩
    · cases ha
      exact hrun.ok hcase
    · cases he

end Consumes

/-! ## Readers that do not look ahead -/

/-- A reader that succeeds does the same when the buffer goes on behind. -/
def Local (m : Exec ε Cursor α) : Prop :=
  ∀ c a d, m c = (.ok a, d) → d.bytes = c.bytes ∧
    ∀ more, m ⟨c.bytes ++ more, c.offset⟩ = (.ok a, ⟨c.bytes ++ more, d.offset⟩)

section Local

variable {m : Exec ε Cursor α} {f : α → Exec ε Cursor β} {errors : CursorErrors ε}

theorem Local.pure (a : α) : Local (Pure.pure a : Exec ε Cursor α) := by
  intro c b d h
  cases h
  exact ⟨rfl, fun _ => rfl⟩

theorem Local.bind (hm : Local m) (hf : ∀ a, Local (f a)) : Local (m >>= f) := by
  intro c b e h
  obtain ⟨a, d, ha, hb⟩ := Exec.bind_eq_ok.1 h
  obtain ⟨hd, hmore⟩ := hm c a d ha
  obtain ⟨he, hmore'⟩ := hf a d b e hb
  refine ⟨he.trans hd, fun more => ?_⟩
  rw [Exec.bind_of_ok (hmore more), ← hd]
  exact hmore' more

theorem Local.lift (r : Except ε α) : Local (liftM r : Exec ε Cursor α) := by
  intro c a d h
  obtain ⟨hr, rfl⟩ := Exec.liftM_eq_ok.1 h
  exact ⟨rfl, fun more => Exec.liftM_eq_ok.2 ⟨hr, rfl⟩⟩

theorem local_readBytes (len : Nat) : Local (readBytes errors len) := by
  intro c a d h
  obtain ⟨_, _, hget, h⟩ := Exec.bind_eq_ok.1 h
  cases hget
  obtain ⟨_, _, hlift, h⟩ := Exec.bind_eq_ok.1 h
  have hword := failIf_eq_ok.1 (Exec.liftM_eq_ok.1 hlift).1
  obtain rfl := (Exec.liftM_eq_ok.1 hlift).2
  obtain ⟨_, _, hlift', h⟩ := Exec.bind_eq_ok.1 h
  have hroom := failIf_eq_ok.1 (Exec.liftM_eq_ok.1 hlift').1
  obtain rfl := (Exec.liftM_eq_ok.1 hlift').2
  cases h
  refine ⟨rfl, fun more => ?_⟩
  have hroom' : ¬ c.offset + len > (c.bytes ++ more).length := by
    rw [List.length_append]
    omega
  simp only [readBytes, Exec.bind_apply, Exec.get_apply, Exec.liftM_apply, failIf_of_not hword,
    failIf_of_not hroom', Exec.modify_apply, Exec.pure_apply]
  rw [slice_append_left (by omega)]

theorem local_readU8 : Local (readU8 errors) := (local_readBytes 1).bind fun _ => Local.pure _

theorem local_readU16 : Local (readU16 errors) := (local_readBytes 2).bind fun _ => Local.pure _

theorem local_readU32 : Local (readU32 errors) := (local_readBytes 4).bind fun _ => Local.pure _

theorem local_readU64 : Local (readU64 errors) := (local_readBytes 8).bind fun _ => Local.pure _

theorem local_readI64 : Local (readI64 errors) := local_readU64.bind fun _ => Local.pure _

theorem Local.readMany (hm : Local m) (count : Nat) : Local (Cursor.readMany m count) := by
  induction count with
  | zero => exact Local.pure []
  | succ count ih => exact hm.bind fun _ => ih.bind fun _ => Local.pure _

/-- When a buffer has been read to its end, the same buffer with more bytes behind it is
refused. -/
theorem Local.run_finish_append (hm : Local m) {bs more : List UInt8} {a : α}
    (h : run (do
      let a ← m
      finish errors
      return a) bs = .ok a) (hmore : more ≠ []) :
    run (do
      let a ← m
      finish errors
      return a) (bs ++ more) = .error errors.trailing := by
  obtain ⟨e, hrun⟩ : ∃ e, (do
      let a ← m
      finish errors
      return a) (start bs) = (.ok a, e) := ⟨_, Prod.ext h rfl⟩
  obtain ⟨b, d, hread, hrun⟩ := Exec.bind_eq_ok.1 hrun
  obtain ⟨⟨⟩, _, hfinish, -⟩ := Exec.bind_eq_ok.1 hrun
  obtain ⟨_, _, hget, hfinish⟩ := Exec.bind_eq_ok.1 hfinish
  cases hget
  obtain ⟨hend, -⟩ := Exec.liftM_eq_ok.1 hfinish
  rw [failIf_eq_ok, isFinished, decide_eq_false_iff_not, not_not] at hend
  obtain ⟨hbytes, hlonger⟩ := hm _ _ _ hread
  have hopen : isFinished ⟨bs ++ more, d.offset⟩ = false := by
    have hpos := List.length_pos_of_ne_nil hmore
    rw [hend, hbytes]
    simp only [isFinished, start, List.length_append, decide_eq_false_iff_not]
    omega
  have hread' : m (start (bs ++ more)) = (.ok b, ⟨bs ++ more, d.offset⟩) := hlonger more
  rw [run, Exec.bind_of_ok hread', Exec.bind_apply, finish, Exec.bind_apply, Exec.get_apply]
  dsimp only
  rw [failIf_of hopen]
  rfl

end Local

end Cursor

end Library
