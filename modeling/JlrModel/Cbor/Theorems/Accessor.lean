import JlrModel.Cbor.Record

namespace Cbor.Value

variable {v : Value}

theorem asU8_uint (n : UInt8) : asU8 (.uint n.toUInt64) = .ok n := by
  have h : n.toUInt64 ≤ 0xff := by
    have := n.toNat_lt
    simp only [UInt64.le_iff_toNat_le, UInt8.toNat_toUInt64, UInt64.reduceToNat]
    omega
  exact (if_pos h).trans (by simp [pure, Except.pure])

theorem asU16_uint (n : UInt16) : asU16 (.uint n.toUInt64) = .ok n := by
  have h : n.toUInt64 ≤ 0xffff := by
    have := n.toNat_lt
    simp only [UInt64.le_iff_toNat_le, UInt16.toNat_toUInt64, UInt64.reduceToNat]
    omega
  exact (if_pos h).trans (by simp [pure, Except.pure])

theorem asU32_uint (n : UInt32) : asU32 (.uint n.toUInt64) = .ok n := by
  have h : n.toUInt64 ≤ 0xffffffff := by
    have := n.toNat_lt
    simp only [UInt64.le_iff_toNat_le, UInt32.toNat_toUInt64, UInt64.reduceToNat]
    omega
  exact (if_pos h).trans (by simp [pure, Except.pure])

theorem asByteArray_bytes {n : Nat} (b : Bytes.Fixed n) : asByteArray n (.bytes b.val) = .ok b :=
  dif_pos b.property

theorem asBytes_ok_iff {b : Bytes} : v.asBytes = .ok b ↔ v = .bytes b := by
  cases v <;> simp [asBytes]

theorem asText_ok_iff {s : String} : v.asText = .ok s ↔ v = .text s := by
  cases v <;> simp [asText]

theorem asArray_ok_iff {vs : List Value} : v.asArray = .ok vs ↔ v = .array vs := by
  cases v <;> simp [asArray]

theorem asMap_ok_iff {m : Map} : v.asMap = .ok m ↔ v = .map m := by
  cases v <;> simp [asMap]

theorem asTag_ok_iff {t : UInt64} {w : Value} : v.asTag t = .ok w ↔ v = .tag t w := by
  cases v <;> simp [asTag]
  case tag t' w' => by_cases h : t' = t <;> simp [h]

theorem asByteArray_ok_iff {n : Nat} {b : Bytes.Fixed n} :
    v.asByteArray n = .ok b ↔ v = .bytes b.val := by
  constructor
  case mp =>
    intro h
    have ⟨b', hb, h⟩ := Except.bind_eq_ok.mp h
    split_ifs at h with hl
    have hb' := asBytes_ok_iff.mp hb
    rw [hb', ← Except.pure_eq_ok.mp h]
  case mpr =>
    intro h
    exact h ▸ asByteArray_bytes b

-- The two halves of the range of an `Int64` are the complements of each other.
theorem neg_one_sub_eq_not (n : Int64) : -1 - n = ~~~ n := by
  rw [Int64.not_eq_neg_sub]
  grind

theorem nonneg_iff_toUInt64_le {n : Int64} : 0 ≤ n ↔ n.toUInt64 ≤ 0x7fffffffffffffff := by
  have hu : n.toUInt64.toNat = n.toBitVec.toNat := rfl
  have hi : n.toInt = n.toBitVec.toInt := rfl
  have hl := n.toBitVec.isLt
  rw [Int64.le_iff_toInt_le, UInt64.le_iff_toNat_le, hi, hu, BitVec.toInt_eq_toNat_cond]
  simp only [Int64.toInt_zero, UInt64.reduceToNat]
  split_ifs <;> omega

theorem not_nonneg_iff_not_toUInt64_le {n : Int64} :
    ¬ 0 ≤ n ↔ ~~~ n.toUInt64 ≤ 0x7fffffffffffffff := by
  have hl := n.toUInt64.toNat_lt
  rw [nonneg_iff_toUInt64_le, UInt64.le_iff_toNat_le, UInt64.le_iff_toNat_le, UInt64.toNat_not]
  simp only [UInt64.reduceToNat, UInt64.size]
  omega

theorem asI64_ok_iff {n : Int64} : v.asI64 = .ok n ↔ v = ofI64 n := by
  constructor
  case mp =>
    intro h
    cases v <;> simp only [asI64, reduceCtorEq] at h
    case uint m =>
      split_ifs at h with hm
      cases h
      have hp : 0 ≤ m.toInt64 := nonneg_iff_toUInt64_le.mpr hm
      simp [ofI64, hp]
    case nint m =>
      split_ifs at h with hm
      have hn : ~~~ m.toInt64 = n := (neg_one_sub_eq_not _).symm.trans (Except.ok.inj h)
      have hc : ~~~ n.toUInt64 = m := by
        rw [← hn]
        exact UInt64.not_not
      have hp : ¬ 0 ≤ n := not_nonneg_iff_not_toUInt64_le.mpr (hc.symm ▸ hm)
      simp [ofI64, hp, hc]
  case mpr =>
    intro h
    subst h
    by_cases hp : 0 ≤ n
    · simp [ofI64, hp, asI64, nonneg_iff_toUInt64_le.mp hp]
    · have hm : (~~~ n.toUInt64).toInt64 = ~~~ n := rfl
      simp [ofI64, hp, asI64, not_nonneg_iff_not_toUInt64_le.mp hp, hm, neg_one_sub_eq_not]

end Cbor.Value
