import Mathlib.Tactic.Ring
import Mathlib.Tactic.Common

/-!
# Little-endian words

`toLE w n` is the natural number `n` as `w` bytes, least significant first, and
`ofLE` reads such bytes back. The fixed widths of the machine words are the
instances `le16`, `le32` and `le64`, with `u16LE`, `u32LE` and `u64LE` reading
them back; each of the three round trips holds for every word.
-/

namespace Library

/-- The `w` low bytes of `n`, least significant first. -/
def toLE : Nat → Nat → List UInt8
  | 0, _ => []
  | w + 1, n => UInt8.ofNat n :: toLE w (n / 256)

/-- The number spelled by the bytes, least significant first. -/
def ofLE : List UInt8 → Nat
  | [] => 0
  | b :: bs => b.toNat + 256 * ofLE bs

@[simp] theorem length_toLE (w n : Nat) : (toLE w n).length = w := by
  induction w generalizing n with
  | zero => rfl
  | succ w ih => simp [toLE, ih]

theorem ofLE_toLE (w n : Nat) : ofLE (toLE w n) = n % 256 ^ w := by
  induction w generalizing n with
  | zero => simp [toLE, ofLE, Nat.mod_one]
  | succ w ih =>
      have hb : (UInt8.ofNat n).toNat = n % 256 := UInt8.toNat_ofNat'
      rw [toLE, ofLE, ih, hb, pow_succ, Nat.mul_comm (256 ^ w) 256, Nat.mod_mul]

theorem ofLE_lt (bs : List UInt8) : ofLE bs < 256 ^ bs.length := by
  induction bs with
  | nil => simp [ofLE]
  | cons b bs ih =>
      have hb : b.toNat < 256 := b.toNat_lt
      rw [ofLE, List.length_cons, pow_succ]
      omega

theorem toLE_ofLE (bs : List UInt8) : toLE bs.length (ofLE bs) = bs := by
  induction bs with
  | nil => rfl
  | cons b bs ih =>
      have hb : b.toNat < 256 := b.toNat_lt
      have hdiv : (b.toNat + 256 * ofLE bs) / 256 = ofLE bs := by omega
      have hmod : UInt8.ofNat (b.toNat + 256 * ofLE bs) = b := by
        apply UInt8.toNat_inj.mp
        rw [UInt8.toNat_ofNat']
        omega
      rw [List.length_cons, toLE, ofLE, hdiv, hmod, ih]

/-! ## Machine words -/

def le16 (v : UInt16) : List UInt8 := toLE 2 v.toNat

def le32 (v : UInt32) : List UInt8 := toLE 4 v.toNat

def le64 (v : UInt64) : List UInt8 := toLE 8 v.toNat

def u16LE (bs : List UInt8) : UInt16 := UInt16.ofNat (ofLE bs)

def u32LE (bs : List UInt8) : UInt32 := UInt32.ofNat (ofLE bs)

def u64LE (bs : List UInt8) : UInt64 := UInt64.ofNat (ofLE bs)

@[simp] theorem length_le16 (v : UInt16) : (le16 v).length = 2 := length_toLE 2 _

@[simp] theorem length_le32 (v : UInt32) : (le32 v).length = 4 := length_toLE 4 _

@[simp] theorem length_le64 (v : UInt64) : (le64 v).length = 8 := length_toLE 8 _

@[simp] theorem u16LE_le16 (v : UInt16) : u16LE (le16 v) = v := by
  apply UInt16.toNat_inj.mp
  have hv : v.toNat < 65536 := v.toNat_lt
  rw [u16LE, le16, ofLE_toLE, UInt16.toNat_ofNat']
  omega

@[simp] theorem u32LE_le32 (v : UInt32) : u32LE (le32 v) = v := by
  apply UInt32.toNat_inj.mp
  have hv : v.toNat < 4294967296 := v.toNat_lt
  rw [u32LE, le32, ofLE_toLE, UInt32.toNat_ofNat']
  omega

@[simp] theorem u64LE_le64 (v : UInt64) : u64LE (le64 v) = v := by
  apply UInt64.toNat_inj.mp
  have hv : v.toNat < 18446744073709551616 := v.toNat_lt
  rw [u64LE, le64, ofLE_toLE, UInt64.toNat_ofNat']
  omega

theorem le16_u16LE {bs : List UInt8} (h : bs.length = 2) : le16 (u16LE bs) = bs := by
  have hlt := ofLE_lt bs
  have hback := toLE_ofLE bs
  rw [h] at hlt hback
  rw [le16, u16LE, UInt16.toNat_ofNat', Nat.mod_eq_of_lt (by omega), hback]

theorem le32_u32LE {bs : List UInt8} (h : bs.length = 4) : le32 (u32LE bs) = bs := by
  have hlt := ofLE_lt bs
  have hback := toLE_ofLE bs
  rw [h] at hlt hback
  rw [le32, u32LE, UInt32.toNat_ofNat', Nat.mod_eq_of_lt (by omega), hback]

theorem le64_u64LE {bs : List UInt8} (h : bs.length = 8) : le64 (u64LE bs) = bs := by
  have hlt := ofLE_lt bs
  have hback := toLE_ofLE bs
  rw [h] at hlt hback
  rw [le64, u64LE, UInt64.toNat_ofNat', Nat.mod_eq_of_lt (by omega), hback]

end Library
