import JlrModel.Lib.Spelling
import JlrModel.Model.Artifact

variable {d d' : Digest} {id id' : EpnId} {s t : String}

theorem Digest.fromHex_hex : fromHex d.hex = some d := by
  have hl : Text.len d.hex = 64 := by rw [hex, Text.len_hex, d.bytes.property]
  have hu : Text.unhex d.hex.toList = some d.bytes.val := by
    rw [hex, Text.hex, String.toList_ofList, Text.unhex_hexDigits]
  simp [fromHex, hl, hu, show Text.isAscii d.hex from Text.isAscii_hex, d.bytes.property]

theorem Digest.hex_injective : Function.Injective hex :=
  fun _ _ h => Option.some.inj <| fromHex_hex.symm.trans <| h ▸ fromHex_hex

theorem Digest.display_injective : Function.Injective display :=
  fun _ _ h => hex_injective (by simpa [display] using h)

-- The digits are read in either case.
theorem Digest.fromHex_eq_some_iff : fromHex s = some d ↔ Text.eqIgnoreAsciiCase s d.hex := by
  have hd : d.hex.toList.map Char.toLower = Text.hexDigits d.bytes.val := by
    rw [hex, Text.hex, String.toList_ofList, Text.map_toLower_hexDigits]
  rw [Text.eqIgnoreAsciiCase_iff, hd]
  constructor
  case mp =>
    intro h
    unfold fromHex at h
    split at h
    case isTrue => cases h
    case isFalse hc =>
      obtain ⟨hl, ha⟩ := not_or.mp hc
      have ha : ∀ c ∈ s.toList, c.val < 128 := by simpa [Text.isAscii] using ha
      obtain ⟨out, hu, h⟩ := Option.bind_eq_some_iff.mp h
      split at h
      case isFalse => cases h
      case isTrue ho =>
        cases h
        refine Text.map_toLower_of_unhex hu ?_
        rw [ho, ← Text.len_ofList_of_ascii ha, String.ofList_toList]
        exact not_not.mp hl
  case mpr =>
    intro h
    have hu : Text.unhex s.toList = some d.bytes.val := by
      rw [← Text.unhex_map_toLower, h, Text.unhex_hexDigits]
    have ha : ∀ c ∈ s.toList, c.val < 128 := by
      intro c hc
      have hm : c.toLower ∈ Text.hexDigits d.bytes.val := h ▸ List.mem_map_of_mem hc
      obtain ⟨n, hn, he⟩ := Text.mem_hexDigits hm
      exact Text.isAscii_toLower c (he ▸ Text.fromDigit_ascii hn)
    have hl : Text.len s = 64 := by
      rw [← String.ofList_toList (s := s), Text.len_ofList_of_ascii ha, ← List.length_map Char.toLower, h,
        Text.length_hexDigits, d.bytes.property]
    have hs : Text.isAscii s := by simpa [Text.isAscii] using ha
    simp [fromHex, hl, hs, hu, d.bytes.property]

theorem Coded.eqIgnoreAsciiCase_of_parse [DecidableEq α] [Coded α] {s : String} {a : α} (h : parse α s = some a) :
    Text.eqIgnoreAsciiCase s (asStr a) := by
  rw [parse] at h
  have h := List.find?_some h
  exact h

namespace EpnId

theorem parse_asStr (c : ArtifactClass) : Coded.parse ArtifactClass (Coded.asStr c) = some c := by
  cases c <;> decide

theorem dash_not_mem (c : ArtifactClass) : '-' ∉ (Coded.asStr c).toList := by
  cases c <;> decide

-- What an identifier is written as is read back.
theorem parse_display : parse id.display = some id := by
  have hs : Text.splitOnce '-' (Coded.asStr id.cls ++ "-" ++ id.digest.hex) =
      some (Coded.asStr id.cls, id.digest.hex) := by
    apply Text.splitOnce_eq_some_iff.mpr
    simp [dash_not_mem]
  have hp : Text.stripPrefix "EPN-1-" id.display = some (Coded.asStr id.cls ++ "-" ++ id.digest.hex) := by
    rw [show id.display = "EPN-1-" ++ (Coded.asStr id.cls ++ "-" ++ id.digest.hex) by
      simp only [display, String.append_assoc]]
    exact Text.stripPrefix_append
  simp [parse, hp, hs, parse_asStr, Digest.fromHex_hex]

theorem display_injective : Function.Injective display :=
  fun _ _ h => Option.some.inj <| parse_display.symm.trans <| h ▸ parse_display

theorem map_toUpper_asStr (c : ArtifactClass) : (Coded.asStr c).toList.map Char.toUpper = (Coded.asStr c).toList := by
  cases c <;> decide

-- In upper case an identifier is read however it was written.
theorem parse_toAsciiUppercase_iff : parse (Text.toAsciiUppercase t) = some id ↔ Text.eqIgnoreAsciiCase t id.display := by
  rw [Text.eqIgnoreAsciiCase_iff]
  constructor
  case mp =>
    intro h
    have ⟨rest, hr, h⟩ := Option.bind_eq_some_iff.mp h
    have ⟨(cls, hex), hs, h⟩ := Option.bind_eq_some_iff.mp h
    have ⟨c, hc, h⟩ := Option.bind_eq_some_iff.mp h
    have ⟨d, hd, h⟩ := Option.bind_eq_some_iff.mp h
    cases h
    have hc := Text.eqIgnoreAsciiCase_iff.mp (Coded.eqIgnoreAsciiCase_of_parse hc)
    have hd := Text.eqIgnoreAsciiCase_iff.mp (Digest.fromHex_eq_some_iff.mp hd)
    have ⟨hs, _⟩ := Text.splitOnce_eq_some_iff.mp hs
    have hr := Text.toList_of_stripPrefix hr
    rw [Text.toAsciiUppercase, String.toList_ofList, hs] at hr
    rw [← Text.map_toLower_map_toUpper, hr, display]
    simp [hc, hd]
  case mpr =>
    intro h
    have hu : Text.toAsciiUppercase t =
        "EPN-1-" ++ (Coded.asStr id.cls ++ "-" ++ Text.toAsciiUppercase id.digest.hex) := by
      rw [Text.toAsciiUppercase, ← Text.map_toUpper_map_toLower, h, Text.map_toUpper_map_toLower, display,
        ← String.toList_inj]
      simp [Text.toAsciiUppercase, map_toUpper_asStr]
    have hs : Text.splitOnce '-' (Coded.asStr id.cls ++ "-" ++ Text.toAsciiUppercase id.digest.hex) =
        some (Coded.asStr id.cls, Text.toAsciiUppercase id.digest.hex) := by
      apply Text.splitOnce_eq_some_iff.mpr
      simp [dash_not_mem]
    have hd : Digest.fromHex (Text.toAsciiUppercase id.digest.hex) = some id.digest := by
      rw [Digest.fromHex_eq_some_iff, Text.eqIgnoreAsciiCase_iff, Text.toAsciiUppercase, String.toList_ofList,
        Text.map_toLower_map_toUpper]
    rw [hu]
    simp [parse, Text.stripPrefix_append, hs, parse_asStr, hd]

end EpnId
