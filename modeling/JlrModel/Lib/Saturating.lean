import Mathlib.Algebra.Group.Nat.Defs

-- Arithmetic on 64-bit words that stops at the largest and the smallest one, and their order.

namespace UInt64

def saturatingAdd (a b : UInt64) : UInt64 :=
  if a.toNat + b.toNat < 2 ^ 64 then a + b else .ofNat (2 ^ 64 - 1)

def saturatingSub (a b : UInt64) : UInt64 :=
  if b ≤ a then a - b else 0

def saturatingMul (a b : UInt64) : UInt64 :=
  if a.toNat * b.toNat < 2 ^ 64 then a * b else .ofNat (2 ^ 64 - 1)

theorem toNat_saturatingAdd (a b : UInt64) : (a.saturatingAdd b).toNat = min (a.toNat + b.toNat) (2 ^ 64 - 1) := by
  unfold saturatingAdd
  split
  case isTrue h =>
    rw [UInt64.toNat_add, Nat.mod_eq_of_lt h]
    omega
  case isFalse h =>
    rw [UInt64.toNat_ofNat_of_lt' (by decide)]
    omega

theorem toNat_saturatingSub (a b : UInt64) : (a.saturatingSub b).toNat = a.toNat - b.toNat := by
  unfold saturatingSub
  split
  case isTrue h => exact UInt64.toNat_sub_of_le _ _ h
  case isFalse h =>
    rw [UInt64.le_iff_toNat_le] at h
    exact (Nat.sub_eq_zero_of_le (Nat.le_of_not_le h)).symm

theorem toNat_saturatingMul (a b : UInt64) : (a.saturatingMul b).toNat = min (a.toNat * b.toNat) (2 ^ 64 - 1) := by
  unfold saturatingMul
  split
  case isTrue h =>
    rw [UInt64.toNat_mul, Nat.mod_eq_of_lt h]
    omega
  case isFalse h =>
    rw [UInt64.toNat_ofNat_of_lt' (by decide)]
    omega

theorem min_eq (a b : UInt64) : min a b = if a ≤ b then a else b :=
  rfl

theorem min_le_left (a b : UInt64) : min a b ≤ a := by
  rw [min_eq]
  split
  case isTrue => exact UInt64.le_refl a
  case isFalse h => exact (UInt64.le_total a b).resolve_left h

theorem max_eq (a b : UInt64) : max a b = if a ≤ b then b else a :=
  rfl

theorem le_max_left (a b : UInt64) : a ≤ max a b := by
  rw [max_eq]
  split
  case isTrue h => exact h
  case isFalse => exact UInt64.le_refl a

theorem le_max_right (a b : UInt64) : b ≤ max a b := by
  rw [max_eq]
  split
  case isTrue => exact UInt64.le_refl b
  case isFalse h => exact (UInt64.le_total a b).resolve_left h

theorem max_le {a b c : UInt64} (ha : a ≤ c) (hb : b ≤ c) : max a b ≤ c := by
  rw [max_eq]
  split
  case isTrue => exact hb
  case isFalse => exact ha

end UInt64
