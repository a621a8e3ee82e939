import JlrModel.Lib.Result
import JlrModel.Cbor.Decode

namespace Cbor

-- The fields of an initial byte.

theorem forall_uint8 {p : UInt8 → Prop} (h : ∀ n : Fin 256, p (.ofFin n)) (b : UInt8) : p b := by
  simpa using h b.toFin

theorem initial_join (b : UInt8) : (b >>> 5) <<< 5 ||| (b &&& 0x1f) = b := by
  revert b
  exact forall_uint8 (by decide +kernel)

theorem initial_bounds (b : UInt8) : b >>> 5 < 8 ∧ b &&& 0x1f < 32 := by
  revert b
  exact forall_uint8 (by decide +kernel)

theorem initial_split {major ai : UInt8} (hm : major < 8) (ha : ai < 32) :
    (major <<< 5 ||| ai) >>> 5 = major ∧ (major <<< 5 ||| ai) &&& 0x1f = ai := by
  have h : ∀ (m : Fin 8) (a : Fin 32),
      (UInt8.ofNat m <<< 5 ||| .ofNat a) >>> 5 = .ofNat m ∧
      (UInt8.ofNat m <<< 5 ||| .ofNat a) &&& 0x1f = .ofNat a := by
    decide +kernel
  simpa using h ⟨major.toNat, hm⟩ ⟨ai.toNat, ha⟩

-- The additional information and the following bytes of the shortest head for an argument.
def shortest (arg : UInt64) : UInt8 × Bytes :=
  if arg.toNat < 24 then (arg.toUInt8, [])
  else if arg.toNat < 256 ^ 1 then (24, Bytes.ofNat 1 arg.toNat)
  else if arg.toNat < 256 ^ 2 then (25, Bytes.ofNat 2 arg.toNat)
  else if arg.toNat < 256 ^ 4 then (26, Bytes.ofNat 4 arg.toNat)
  else (27, Bytes.ofNat 8 arg.toNat)

theorem writeHead_eq {major : UInt8} {arg : UInt64} :
    writeHead major arg = (major <<< 5 ||| (shortest arg).1) :: (shortest arg).2 := by
  simp only [writeHead, shortest, UInt64.lt_iff_toNat_lt, UInt64.le_iff_toNat_le]
  simp only [UInt64.reduceToNat, Nat.reducePow, ← Nat.lt_add_one_iff, Nat.reduceAdd]
  split_ifs <;> simp [Bytes.ofNat]

theorem shortest_lt {arg : UInt64} : (shortest arg).1 < 32 := by
  simp only [shortest]
  split_ifs <;> simp [UInt8.lt_iff_toNat_lt]
  omega

theorem shortest_of_lt {arg : UInt64} (h : arg.toNat < 24) : shortest arg = (arg.toUInt8, []) := by
  simp [shortest, h]

namespace Decoder

def rest (d : Decoder) : Bytes :=
  d.input.drop d.pos

-- `d'` is the decoder `d` after it has read exactly `bs`.
structure Reads (d : Decoder) (bs : Bytes) (d' : Decoder) : Prop where
  input : d'.input = d.input
  pos   : d'.pos = d.pos + bs.length
  rest  : d.rest = bs ++ d'.rest

variable {d d' d₁ d₂ : Decoder} {bs bs' : Bytes}

theorem length_rest : d.rest.length = d.remaining := by
  simp [Decoder.rest, remaining]

namespace Reads

theorem nil_iff : d.Reads [] d' ↔ d = d' where
  mp r := by
    have hi := r.input
    have hp := r.pos
    cases d; cases d'
    simp_all
  mpr h := by
    subst h
    exact ⟨rfl, rfl, rfl⟩

theorem append_iff : d.Reads (bs ++ bs') d' ↔ ∃ d₁, d.Reads bs d₁ ∧ d₁.Reads bs' d' where
  mp r := by
    let d₁ : Decoder := { d with pos := d.pos + bs.length }
    have hr : d₁.rest = bs' ++ d'.rest := by
      have h : d₁.rest = d.rest.drop bs.length := by simp [d₁, Decoder.rest]
      rw [h, r.rest, List.append_assoc, List.drop_left]
    refine ⟨d₁, ⟨rfl, rfl, ?_⟩, ⟨r.input, ?_, hr⟩⟩
    · rw [hr, r.rest, List.append_assoc]
    · rw [r.pos, List.length_append, Nat.add_assoc]
  mpr := fun ⟨d₁, r, r'⟩ => {
    input := r'.input.trans r.input
    pos   := by rw [r'.pos, r.pos, List.length_append, Nat.add_assoc]
    rest  := by rw [r.rest, r'.rest, List.append_assoc]
  }

theorem length_le (r : d.Reads bs d') : bs.length ≤ d.remaining := by
  rw [← length_rest, r.rest, List.length_append]
  omega

theorem since_eq (r : d.Reads bs d') : since d.pos d' = .ok (bs, d') := by
  have h : d'.input.drop d.pos = bs ++ d'.rest := by rw [r.input, ← r.rest, Decoder.rest]
  simp [since, h, r.pos]

end Reads

theorem take_ok_iff {n : Nat} : take n d = .ok (bs, d') ↔ d.Reads bs d' ∧ bs.length = n := by
  constructor
  case mp =>
    intro h
    simp only [take] at h
    split at h <;> simp only [Except.ok.injEq, Prod.mk.injEq, reduceCtorEq] at h
    obtain ⟨rfl, rfl⟩ := h
    have hn : (d.rest.take n).length = n := by
      rw [List.length_take, length_rest]
      omega
    refine ⟨⟨rfl, by rw [← Decoder.rest, hn], ?_⟩, hn⟩
    rw [Decoder.rest, Decoder.rest, ← List.drop_drop, List.take_append_drop]
  case mpr =>
    rintro ⟨r, rfl⟩
    have hle := r.length_le
    have hd : ({ d with pos := d.pos + bs.length } : Decoder) = d' := by
      have hi := r.input
      have hp := r.pos
      cases d'
      simp_all
    rw [take, if_neg (by omega), ← Decoder.rest, hd, r.rest, List.take_left]

theorem byte_ok_iff {b : UInt8} : byte d = .ok (b, d') ↔ d.Reads [b] d' := by
  simp only [byte, StateT.bind_eq_ok, take_ok_iff, StateT.pure_eq_ok]
  constructor
  case mp =>
    rintro ⟨bs, d₁, ⟨r, hl⟩, rfl, rfl⟩
    obtain ⟨b, rfl⟩ := List.length_eq_one_iff.mp hl
    exact r
  case mpr => exact fun r => ⟨[b], d', ⟨r, rfl⟩, rfl, rfl⟩

theorem length_ok_iff {arg : UInt64} {n : Nat} :
    length arg d = .ok (n, d') ↔ arg.toNat = n ∧ d = d' ∧ n ≤ d.remaining := by
  simp only [length]
  split <;> simp
  all_goals omega

theorem wide_ok_iff {major : UInt8} {width : Nat} {shorter arg : UInt64} (hw : width ≤ 8) :
    wide major width shorter d = .ok (arg, d') ↔
    d.Reads (Bytes.ofNat width arg.toNat) d' ∧ arg.toNat < 256 ^ width ∧
    (major ≠ 7 → shorter < arg) := by
  have hp : 256 ^ width ≤ 2 ^ 64 := by
    calc 256 ^ width ≤ 256 ^ 8 := Nat.pow_le_pow_right (by omega) hw
      _ = 2 ^ 64 := by norm_num
  simp only [wide, StateT.bind_eq_ok, take_ok_iff]
  constructor
  case mp =>
    rintro ⟨bs, d₁, ⟨r, hl⟩, h⟩
    split at h <;> simp only [StateT.pure_eq_ok, StateT.throw_ne_ok] at h
    case isFalse hs =>
      obtain ⟨rfl, rfl⟩ := h
      have hlt : Bytes.toNat bs < 256 ^ width := hl ▸ Bytes.toNat_lt
      have hn : (UInt64.ofNat (Bytes.toNat bs)).toNat = Bytes.toNat bs :=
        UInt64.toNat_ofNat_of_lt (lt_of_lt_of_le hlt hp)
      rw [hn, ← Bytes.eq_ofNat_toNat hl]
      refine ⟨r, hlt, fun hm => ?_⟩
      push Not at hs
      by_contra hc
      exact hm (hs (UInt64.not_lt.mp hc))
  case mpr =>
    rintro ⟨r, hlt, hs⟩
    refine ⟨_, d', ⟨r, Bytes.length_ofNat⟩, ?_⟩
    rw [Bytes.toNat_ofNat hlt, UInt64.ofNat_toNat, if_neg, StateT.pure_eq_ok]
    · exact ⟨rfl, rfl⟩
    · rintro ⟨h₁, h₂⟩
      exact absurd h₁ (UInt64.not_le.mpr (hs h₂))

theorem argument_ok_iff {major ai : UInt8} {arg : UInt64} (hm : major ≠ 7) :
    argument major ai d = .ok (arg, d') ↔ ai = (shortest arg).1 ∧ d.Reads (shortest arg).2 d' := by
  constructor
  case mp =>
    intro h
    simp only [argument] at h
    split_ifs at h
    case pos h' =>
      obtain ⟨rfl, rfl⟩ := StateT.pure_eq_ok.mp h
      have hlt : ai.toUInt64.toNat < 24 := by simpa using Nat.lt_succ_of_le h'
      rw [shortest_of_lt hlt, Reads.nil_iff]
      simp
    case pos | pos | pos | pos =>
      obtain ⟨r, hlt, hs⟩ := (wide_ok_iff (by decide)).mp h
      have hs := UInt64.lt_iff_toNat_lt.mp (hs hm)
      simp only [UInt64.reduceToNat, Nat.reducePow] at hs hlt
      simp only [shortest, Nat.reducePow]
      split_ifs <;> first | omega | exact ⟨‹_›, r⟩
    all_goals exact (StateT.throw_ne_ok.mp h).elim
  case mpr =>
    rintro ⟨rfl, r⟩
    have hlt := arg.toNat_lt
    simp only [shortest] at r ⊢
    split_ifs at r ⊢
    case pos h =>
      have hle : arg.toUInt8 ≤ 23 := by
        simp only [UInt8.le_iff_toNat_le, UInt64.toNat_toUInt8, UInt8.reduceToNat]
        omega
      have he : arg.toUInt8.toUInt64 = arg := by
        simp only [← UInt64.toNat_inj, UInt8.toNat_toUInt64, UInt64.toNat_toUInt8]
        omega
      rw [argument, if_pos hle, he, StateT.pure_eq_ok]
      exact ⟨rfl, Reads.nil_iff.mp r⟩
    all_goals
      simp only [argument]
      refine (wide_ok_iff (by decide)).mpr ⟨r, by omega, fun _ => ?_⟩
      simp only [UInt64.lt_iff_toNat_lt, UInt64.reduceToNat]
      omega

theorem head_ok_iff {major ai : UInt8} {arg : UInt64} (hm : major < 7) :
    head d = .ok ((major, ai, arg), d') ↔
    ai = (shortest arg).1 ∧ d.Reads (writeHead major arg) d' := by
  have hm₇ : major ≠ 7 := by rintro rfl; exact absurd hm (by decide)
  have hm₈ : major < 8 := UInt8.lt_trans hm (by decide)
  have hc : writeHead major arg = [major <<< 5 ||| (shortest arg).1] ++ (shortest arg).2 := writeHead_eq
  simp only [head, StateT.bind_eq_ok, StateT.pure_eq_ok, byte_ok_iff, Prod.mk.injEq]
  rw [hc, Reads.append_iff]
  constructor
  case mp =>
    rintro ⟨b, d₁, r, arg', d₂, ha, ⟨rfl, rfl, rfl⟩, rfl⟩
    obtain ⟨hai, r'⟩ := (argument_ok_iff hm₇).mp ha
    refine ⟨hai, d₁, ?_, r'⟩
    rwa [← hai, initial_join]
  case mpr =>
    rintro ⟨rfl, d₁, r, r'⟩
    obtain ⟨h₁, h₂⟩ := initial_split hm₈ (@shortest_lt arg)
    refine ⟨_, d₁, r, arg, d', ?_, ⟨h₁, h₂, rfl⟩, rfl⟩
    rw [h₁, h₂]
    exact (argument_ok_iff hm₇).mpr ⟨rfl, r'⟩

-- The values `false`, `true` and `null` are written in the initial byte alone.
theorem head_simple_ok_iff {ai : UInt8} {arg : UInt64} (ha : ai ≤ 23) :
    head d = .ok ((7, ai, arg), d') ↔ arg = ai.toUInt64 ∧ d.Reads [(7 : UInt8) <<< 5 ||| ai] d' := by
  have ha' : ai < 32 := UInt8.lt_of_le_of_lt ha (by decide)
  simp only [head, StateT.bind_eq_ok, StateT.pure_eq_ok, byte_ok_iff, Prod.mk.injEq]
  constructor
  case mp =>
    rintro ⟨b, d₁, r, arg', d₂, h, ⟨h₁, h₂, rfl⟩, rfl⟩
    rw [argument, h₂, if_pos ha] at h
    obtain ⟨rfl, rfl⟩ := StateT.pure_eq_ok.mp h
    refine ⟨rfl, ?_⟩
    rwa [← h₁, ← h₂, initial_join]
  case mpr =>
    rintro ⟨rfl, r⟩
    obtain ⟨h₁, h₂⟩ := @initial_split 7 ai (by decide) ha'
    refine ⟨_, d', r, ai.toUInt64, d', ?_, ⟨h₁, h₂, rfl⟩, rfl⟩
    rw [h₁, h₂, argument, if_pos ha, StateT.pure_eq_ok]
    exact ⟨rfl, rfl⟩

theorem head_major_le {major ai : UInt8} {arg : UInt64} (h : head d = .ok ((major, ai, arg), d')) :
    major < 8 := by
  simp only [head, StateT.bind_eq_ok, StateT.pure_eq_ok, Prod.mk.injEq] at h
  obtain ⟨b, _, _, _, _, _, ⟨rfl, _, _⟩, _⟩ := h
  exact (initial_bounds b).left

end Decoder
end Cbor
