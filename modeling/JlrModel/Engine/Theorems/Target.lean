import JlrModel.Engine.Authority
import JlrModel.Model.Theorems.Epn

-- What the target of a revocation means.

open Text

variable {d : Digest} {id : EpnId} {s t : String}

theorem Digest.isWhitespace_hex : ∀ c ∈ d.hex.toList, isWhitespace c = false := by
  intro c hc
  rw [hex, Text.hex, String.toList_ofList] at hc
  obtain ⟨n, hn, hc⟩ := mem_hexDigits hc
  exact hc ▸ isWhitespace_fromDigit hn

theorem Digest.spells_hex_iff : Spells t d.hex ↔ eqIgnoreAsciiCase (trim t) d.hex := by
  refine spells_iff (fun h => ?_) isWhitespace_hex
  have hl : len (Text.hex d.bytes.val) = 2 * d.bytes.val.length := len_hex
  rw [← hex, h, d.bytes.property] at hl
  cases hl

theorem Digest.spells_display_iff : Spells t d.display ↔ eqIgnoreAsciiCase (trim t) d.display := by
  have hs : "sha256:".toList.all fun c => isWhitespace c = false := by decide
  refine spells_iff (by simp [display]) fun c hc => ?_
  rw [display, String.toList_append, List.mem_append] at hc
  exact hc.elim (fun hc => of_decide_eq_true (List.all_eq_true.mp hs c hc)) (isWhitespace_hex c)

theorem EpnId.spells_display_iff : Spells t id.display ↔ eqIgnoreAsciiCase (trim t) id.display := by
  have hs (cls : ArtifactClass) :
      ("EPN-1-" ++ Coded.asStr cls ++ "-").toList.all fun c => isWhitespace c = false := by
    cases cls <;> decide
  refine spells_iff (by simp [display]) fun c hc => ?_
  rw [display, String.toList_append, List.mem_append] at hc
  exact hc.elim (fun hc => of_decide_eq_true (List.all_eq_true.mp (hs id.cls) c hc)) (Digest.isWhitespace_hex c)

-- The first character of `sha256:` is not a digit, so what is written without it is not mistaken for it.
theorem Digest.not_sha256 (h : eqIgnoreAsciiCase s d.hex) : ¬ eqIgnoreAsciiCase (.ofList (s.toList.take 7)) "sha256:" := by
  intro h'
  rw [eqIgnoreAsciiCase_iff] at h h'
  rw [String.toList_ofList, List.map_take, h] at h'
  have hm : 's' ∈ (d.hex.toList.map Char.toLower).take 7 := h' ▸ by decide
  have hm := List.mem_of_mem_take hm
  rw [hex, Text.hex, String.toList_ofList, map_toLower_hexDigits] at hm
  obtain ⟨n, hn, he⟩ := mem_hexDigits hm
  exact fromDigit_ne_s hn he.symm

theorem Digest.eq_display_iff : eqIgnoreAsciiCase s d.display ↔
    eqIgnoreAsciiCase (.ofList (s.toList.take 7)) "sha256:" ∧ eqIgnoreAsciiCase (.ofList (s.toList.drop 7)) d.hex := by
  simp only [eqIgnoreAsciiCase_iff, display, String.toList_append, String.toList_ofList, List.map_append, List.map_take,
    List.map_drop]
  generalize s.toList.map Char.toLower = cs
  constructor
  case mp =>
    rintro rfl
    exact ⟨List.take_left' rfl, List.drop_left' rfl⟩
  case mpr =>
    rintro ⟨ht, hd⟩
    rw [← ht, ← hd, List.take_append_drop]

theorem normalizeRevocationTarget_digest_iff {stored : String} : normalizeRevocationTarget .digest t = .ok stored ↔
    ∃ d : Digest, (Spells t d.hex ∨ Spells t d.display) ∧ stored = d.display := by
  simp only [Digest.spells_hex_iff, Digest.spells_display_iff]
  rw [normalizeRevocationTarget]
  generalize trim t = s
  refine (Except.map_eq_ok (f := Digest.display)).trans (exists_congr fun d => ?_)
  rw [Except.okOr_eq_ok, eq_comm (a := d.display), Digest.fromHex_eq_some_iff, Digest.eq_display_iff]
  refine and_congr_left fun _ => ?_
  split
  case isTrue h =>
    have hn : ¬ eqIgnoreAsciiCase s d.hex := fun hx => Digest.not_sha256 hx h
    exact ⟨fun hd => .inr ⟨h, hd⟩, fun hd => (hd.resolve_left hn).right⟩
  case isFalse h => exact ⟨.inl, fun hd => hd.resolve_right fun hd => h hd.left⟩

theorem normalizeRevocationTarget_epn_iff {stored : String} : normalizeRevocationTarget .epn t = .ok stored ↔
    ∃ id : EpnId, Spells t id.display ∧ stored = id.display := by
  refine (Except.map_eq_ok (f := EpnId.display)).trans (exists_congr fun id => ?_)
  rw [Except.okOr_eq_ok, EpnId.parse_toAsciiUppercase_iff, EpnId.spells_display_iff, eq_comm (a := id.display)]

variable [Crypto]

namespace Revocations

variable {list : Revocations} {r : EpnRecord} {reason : String}

theorem hit_add_digest : (list.add ⟨.digest, d.display, reason⟩).hit r =
    (list.hit r).or (if d = r.digest then some ⟨.digest, d.display, reason⟩ else none) := by
  have hd : d.display = r.digest.display ↔ d = r.digest := Digest.display_injective.eq_iff
  rw [hit, add, List.find?_append, List.find?_singleton]
  simp only [hd, decide_eq_true_eq]
  rfl

theorem hit_add_epn : (list.add ⟨.epn, id.display, reason⟩).hit r =
    (list.hit r).or (if id = r.id then some ⟨.epn, id.display, reason⟩ else none) := by
  have hd : id.display = r.id.display ↔ id = r.id := EpnId.display_injective.eq_iff
  rw [hit, add, List.find?_append, List.find?_singleton]
  simp only [hd, decide_eq_true_eq]
  rfl

end Revocations

-- A target of a revocation means what was written, and the entry that is stored for it matches exactly what it means.
theorem revocation_targets_exact (list : Revocations) (reason : String) :
    (∀ (r : EpnRecord) (t : String), Spells t r.digest.hex ∨ Spells t r.digest.display → ∃ stored,
      normalizeRevocationTarget .digest t = .ok stored ∧
      (list.add ⟨.digest, stored, reason⟩).hit r = some ((list.hit r).getD ⟨.digest, stored, reason⟩)) ∧
    (∀ (r : EpnRecord) (t : String), Spells t r.id.display → ∃ stored,
      normalizeRevocationTarget .epn t = .ok stored ∧
      (list.add ⟨.epn, stored, reason⟩).hit r = some ((list.hit r).getD ⟨.epn, stored, reason⟩)) ∧
    (∀ t stored, normalizeRevocationTarget .digest t = .ok stored → ∃ d : Digest,
      (Spells t d.hex ∨ Spells t d.display) ∧ stored = d.display ∧ ∀ r, list.hit r = none →
        ((list.add ⟨.digest, stored, reason⟩).hit r = some ⟨.digest, stored, reason⟩ ↔ r.digest = d)) ∧
    (∀ t stored, normalizeRevocationTarget .epn t = .ok stored → ∃ id : EpnId,
      Spells t id.display ∧ stored = id.display ∧ ∀ r, list.hit r = none →
        ((list.add ⟨.epn, stored, reason⟩).hit r = some ⟨.epn, stored, reason⟩ ↔ r.id = id)) := by
  refine ⟨fun r t h => ?_, fun r t h => ?_, fun t stored h => ?_, fun t stored h => ?_⟩
  · refine ⟨_, normalizeRevocationTarget_digest_iff.mpr ⟨_, h, rfl⟩, ?_⟩
    rw [Revocations.hit_add_digest, if_pos rfl]
    cases list.hit r <;> rfl
  · refine ⟨_, normalizeRevocationTarget_epn_iff.mpr ⟨_, h, rfl⟩, ?_⟩
    rw [Revocations.hit_add_epn, if_pos rfl]
    cases list.hit r <;> rfl
  · obtain ⟨d, hs, rfl⟩ := normalizeRevocationTarget_digest_iff.mp h
    refine ⟨d, hs, rfl, fun r hr => ?_⟩
    rw [Revocations.hit_add_digest, hr, Option.none_or, eq_comm (a := r.digest)]
    simp
  · obtain ⟨id, hs, rfl⟩ := normalizeRevocationTarget_epn_iff.mp h
    refine ⟨id, hs, rfl, fun r hr => ?_⟩
    rw [Revocations.hit_add_epn, hr, Option.none_or, eq_comm (a := r.id)]
    simp
