import JlrModel.Lib.Bytes

-- Bytes that are read as text although they need not be, `String::from_utf8_lossy`.

namespace Utf8

-- The character at the beginning of some bytes.
def first (raw : Bytes) : Option Char :=
  ByteArray.utf8DecodeChar? ⟨raw.toArray⟩ 0

-- The bytes that can follow the first byte of a character that is longer than two bytes.
def second (b : UInt8) : Option (UInt8 × UInt8) :=
  if b = 0xE0 then some (0xA0, 0xBF)
  else if b = 0xED then some (0x80, 0x9F)
  else if 0xE1 ≤ b ∧ b ≤ 0xEF then some (0x80, 0xBF)
  else if b = 0xF0 then some (0x90, 0xBF)
  else if 0xF1 ≤ b ∧ b ≤ 0xF3 then some (0x80, 0xBF)
  else if b = 0xF4 then some (0x80, 0x8F)
  else none

-- How many bytes look like the beginning of a character that is broken off after them. There is at least one.
def broken : Bytes → Nat
  | b :: c :: rest =>
    match second b with
    | none          => 1
    | some (lo, hi) =>
      if ¬ (lo ≤ c ∧ c ≤ hi) then 1
      else if 0xF0 ≤ b ∧ rest.head?.any (fun d => 0x80 ≤ d ∧ d ≤ 0xBF) then 3
      else 2
  | _ => 1

-- Each part that is not text is replaced by one mark.
def lossy : (fuel : Nat) → Bytes → List Char
  | 0, _          => []
  | fuel + 1, raw =>
    if raw = [] then [] else
    match first raw with
    | some c => c :: lossy fuel (raw.drop c.utf8Size)
    | none   => '�' :: lossy fuel (raw.drop (broken raw))

def fromLossy (raw : Bytes) : String :=
  .ofList (lossy raw.length raw)

theorem first_append {c : Char} {raw : Bytes} : first (String.utf8EncodeChar c ++ raw) = some c := by
  have ha : (⟨(String.utf8EncodeChar c ++ raw).toArray⟩ : ByteArray) =
      (String.utf8EncodeChar c).toByteArray ++ ⟨raw.toArray⟩ := by
    apply ByteArray.ext
    simp
  rw [first, ha, ByteArray.utf8DecodeChar?_utf8EncodeChar_append]

theorem encode_ne_nil {c : Char} : String.utf8EncodeChar c ≠ [] := by
  rw [← List.length_pos_iff, String.length_utf8EncodeChar]
  exact c.utf8Size_pos

-- A byte below 128 is a character of its own.
theorem toNat_of_mem_encode {c : Char} {b : UInt8} (h : b ∈ String.utf8EncodeChar c) (hb : b.toNat < 128) :
    c.toNat = b.toNat := by
  have high {n k : Nat} (hk : 128 ≤ k) (hn : n + k < 256) : UInt8.ofNat (n + k) ≠ b := by
    rintro rfl
    rw [UInt8.toNat_ofNat_of_lt' hn] at hb
    omega
  simp only [String.utf8EncodeChar] at h
  split at h
  case isTrue hc =>
    rw [List.mem_singleton.mp h, UInt8.toNat_ofNat_of_lt' (show c.val.toNat < 256 by omega)]
    rfl
  case isFalse =>
    exfalso
    split_ifs at h <;> simp only [List.mem_cons, List.not_mem_nil, or_false] at h
    · rcases h with h | h <;> exact high (by decide) (by omega) h.symm
    · rcases h with h | h | h <;> exact high (by decide) (by omega) h.symm
    · rcases h with h | h | h | h <;> exact high (by decide) (by omega) h.symm

theorem lossy_encode {cs : List Char} {fuel : Nat} (h : cs.length ≤ fuel) :
    lossy fuel (cs.flatMap String.utf8EncodeChar) = cs := by
  induction cs generalizing fuel
  case nil => cases fuel <;> rfl
  case cons c cs ih =>
    match fuel, h with
    | fuel + 1, h =>
      have hne : String.utf8EncodeChar c ++ cs.flatMap String.utf8EncodeChar ≠ [] :=
        List.append_ne_nil_of_left_ne_nil encode_ne_nil _
      have hd : (String.utf8EncodeChar c ++ cs.flatMap String.utf8EncodeChar).drop c.utf8Size =
          cs.flatMap String.utf8EncodeChar := List.drop_left' (String.length_utf8EncodeChar c)
      rw [List.flatMap_cons, lossy, if_neg hne, first_append]
      dsimp only
      rw [hd, ih (Nat.le_of_succ_le_succ h)]

theorem length_le_encode {cs : List Char} : cs.length ≤ (cs.flatMap String.utf8EncodeChar).length := by
  induction cs
  case nil => exact Nat.le_refl 0
  case cons c cs ih =>
    have hc := List.length_pos_iff.mpr (encode_ne_nil (c := c))
    rw [List.flatMap_cons, List.length_append, List.length_cons]
    omega

-- What is text is read as it is.
theorem fromLossy_encode {cs : List Char} : fromLossy (cs.flatMap String.utf8EncodeChar) = .ofList cs := by
  rw [fromLossy, lossy_encode length_le_encode]

end Utf8
