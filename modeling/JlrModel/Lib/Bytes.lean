import Mathlib.Data.List.Lex
import Mathlib.Data.Nat.Basic
import Mathlib.Tactic.Ring

abbrev Bytes := List UInt8

-- The order instance extends the `<` and `≤` of the core library, so the order of byte strings
-- below is the plain lexicographic one.
instance instLinearOrderUInt8 : LinearOrder UInt8 where
  le_refl _ := UInt8.le_refl _
  le_trans _ _ _ := UInt8.le_trans
  le_antisymm _ _ := UInt8.le_antisymm
  le_total := UInt8.le_total
  lt_iff_le_not_ge a b := by simp only [UInt8.lt_iff_toNat_lt, UInt8.le_iff_toNat_le]; omega
  toDecidableLE := inferInstance
  toDecidableLT := inferInstance
  toDecidableEq := inferInstance

namespace Bytes

-- A byte array of fixed size.
abbrev Fixed (n : Nat) := { bs : Bytes // bs.length = n }

-- The `width` low-order bytes of `n`, most significant byte first.
def ofNat : (width n : Nat) → Bytes
  | 0, _ => []
  | w + 1, n => UInt8.ofNat (n / 256 ^ w) :: ofNat w n

-- The number that a byte string denotes, most significant byte first.
def toNat : Bytes → Nat
  | [] => 0
  | b :: bs => b.toNat * 256 ^ bs.length + toNat bs

variable {w n k : Nat} {bs : Bytes}

@[simp]
theorem length_ofNat : (ofNat w n).length = w := by
  induction w <;> simp_all [ofNat]

theorem toNat_lt : toNat bs < 256 ^ bs.length := by
  induction bs <;> simp only [toNat, List.length_nil, Nat.pow_zero, Nat.zero_lt_one]
  case cons b bs ih =>
    have hb : b.toNat + 1 ≤ 256 := b.toNat_lt
    calc b.toNat * 256 ^ bs.length + toNat bs
      _ < b.toNat * 256 ^ bs.length + 256 ^ bs.length := by omega
      _ = (b.toNat + 1) * 256 ^ bs.length := by ring
      _ ≤ 256 * 256 ^ bs.length := Nat.mul_le_mul_right _ hb
      _ = 256 ^ (bs.length + 1) := by ring

theorem toNat_ofNat_mod : toNat (ofNat w n) = n % 256 ^ w := by
  induction w
  case zero => simp [ofNat, toNat, Nat.mod_one]
  case succ w ih =>
    rw [Nat.mod_pow_succ, ofNat, toNat, length_ofNat, ih]
    simp [Nat.mul_comm, Nat.add_comm]

theorem toNat_ofNat (h : n < 256 ^ w) : toNat (ofNat w n) = n := by
  rw [toNat_ofNat_mod, Nat.mod_eq_of_lt h]

theorem ofNat_add_mul : ofNat w (n + k * 256 ^ w) = ofNat w n := by
  induction w generalizing k
  case zero => rfl
  case succ w ih =>
    have h : n + k * 256 ^ (w + 1) = n + (k * 256) * 256 ^ w := by ring
    have hp : 0 < 256 ^ w := Nat.pow_pos (by omega)
    rw [ofNat, ofNat, h, ih, Nat.add_mul_div_right _ _ hp]
    congr 1
    simp

theorem ofNat_toNat : ofNat bs.length (toNat bs) = bs := by
  induction bs
  case nil => rfl
  case cons b bs ih =>
    have hp : 0 < 256 ^ bs.length := Nat.pow_pos (by omega)
    have hd : (b.toNat * 256 ^ bs.length + toNat bs) / 256 ^ bs.length = b.toNat := by
      rw [Nat.add_comm, Nat.add_mul_div_right _ _ hp, Nat.div_eq_of_lt toNat_lt, Nat.zero_add]
    rw [List.length_cons, ofNat, toNat, hd, Nat.add_comm, ofNat_add_mul, ih, UInt8.ofNat_toNat]

theorem ofNat_inj (hn : n < 256 ^ w) (hk : k < 256 ^ w) (h : ofNat w n = ofNat w k) : n = k := by
  rw [← toNat_ofNat hn, h, toNat_ofNat hk]

-- A byte string of the right length is the encoding of the number it denotes.
theorem eq_ofNat_toNat (h : bs.length = w) : bs = ofNat w (toNat bs) := by
  subst h
  exact ofNat_toNat.symm

-- The big-endian bytes of a number as an array.
def fixed (width n : Nat) : Fixed width :=
  ⟨ofNat width n, length_ofNat⟩

end Bytes
