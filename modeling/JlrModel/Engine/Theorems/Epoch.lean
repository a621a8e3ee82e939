import JlrModel.Engine.Authority
import JlrModel.Engine.Open
import JlrModel.Model.Theorems.Sanitize

open Cbor Program

-- The epochs that the engine writes into the texts of events are read back from them, whatever else is in these texts.

theorem Digest.printable_display {d : Digest} : Printable d.display.toList := by
  rw [display, String.toList_append, printable_append]
  exact ⟨printable_of_all (by decide), printable_hex⟩

theorem Digest.space_not_mem_display {d : Digest} : ' ' ∉ d.display.toList := by
  rw [display, String.toList_append, List.mem_append, not_or]
  refine ⟨by decide, fun h => ?_⟩
  rw [hex, Text.hex, String.toList_ofList] at h
  obtain ⟨n, hn, h⟩ := Text.mem_hexDigits h
  exact Text.fromDigit_ne_space hn h.symm

theorem Digest.len_display {d : Digest} : Text.len d.display = 71 := by
  rw [display, Text.len_append, hex, Text.len_hex, d.bytes.property]
  rfl

theorem parseUint_epoch {n : UInt64} : (Text.parseUint (2 ^ 64) (toString n)).map UInt64.ofNat = some n := by
  have h : Text.parseUint (2 ^ 64) (toString n.toNat) = some n.toNat := Text.parseUint_toString n.toNat_lt
  have hs : toString n = toString n.toNat := rfl
  rw [hs, h, Option.map_some, UInt64.ofNat_toNat]

theorem len_epoch {n : UInt64} : Text.len (toString n) ≤ 20 :=
  Text.len_toString (n.toNat_lt.trans (by decide)) (by decide)

-- The last epoch before the last digest counts.
theorem parseEpoch_of_digest {t u : String} {n : UInt64} (hu : ' ' ∉ u.toList) :
    parseEpoch ("policy=" ++ t ++ " epoch=" ++ toString n ++ " digest=" ++ u) = some n := by
  have hp : Text.stripPrefix "revocations epoch=" ("policy=" ++ t ++ " epoch=" ++ toString n ++ " digest=" ++ u) =
      none := by
    simp [Text.stripPrefix]
  have hd : Text.rsplitOnceAt " digest=" ("policy=" ++ t ++ " epoch=" ++ toString n ++ " digest=" ++ u) =
      some ("policy=" ++ t ++ " epoch=" ++ toString n, u) :=
    Text.rsplitOnceAt_append rfl (by decide) hu
  have hn : ' ' ∉ (toString n).toList := Text.not_mem_toString (n := n.toNat) (by decide)
  have he : Text.rsplitOnceAt " epoch=" ("policy=" ++ t ++ " epoch=" ++ toString n) =
      some ("policy=" ++ t, toString n) :=
    Text.rsplitOnceAt_append rfl (by decide) hn
  simp only [parseEpoch, hp, hd, he, Option.bind_eq_bind, Option.bind_some]
  exact parseUint_epoch

section

variable [Crypto]

-- The text about a policy with an escaped name.
def escapedDetail (p : Policy) : String :=
  "policy=" ++ .ofList (p.name.toList.flatMap piece) ++ " epoch=" ++ toString p.epoch ++ " digest=" ++ p.digest.display

theorem pieces_policyDetail {p : Policy} :
    (Engine.policyDetail p).toList.flatMap piece = (escapedDetail p).toList := by
  have hp : "policy=".toList.flatMap piece = "policy=".toList := by decide
  have he : " epoch=".toList.flatMap piece = " epoch=".toList := by decide
  have hd : " digest=".toList.flatMap piece = " digest=".toList := by decide
  have hn : (toString p.epoch).toList.flatMap piece = (toString p.epoch).toList :=
    pieces_of_printable (printable_toString (n := p.epoch.toNat))
  have hh := pieces_of_printable p.digest.printable_display
  simp only [Engine.policyDetail, escapedDetail, String.toList_append, List.flatMap_append, String.toList_ofList, hp, he,
    hd, hn, hh]

-- It is not cut off, as a policy that may be loaded has a name of at most 128 bytes.
theorem len_escapedDetail {p : Policy} (h : Text.len p.name ≤ 128) : Text.len (escapedDetail p) ≤ 1024 := by
  have hl : Text.len (.ofList (p.name.toList.flatMap piece)) ≤ 6 * Text.len (.ofList p.name.toList) := len_pieces_le
  have he := len_epoch (n := p.epoch)
  rw [String.ofList_toList] at hl
  simp only [escapedDetail, Text.len_append, Digest.len_display, show Text.len "policy=" = 7 by rfl,
    show Text.len " epoch=" = 7 by rfl, show Text.len " digest=" = 8 by rfl]
  omega

theorem parseEpoch_policyDetail {p : Policy} (h : Text.len p.name ≤ 128) :
    parseEpoch (sanitize (Engine.policyDetail p)) = some p.epoch := by
  have hs : sanitize (Engine.policyDetail p) = escapedDetail p := by
    rw [sanitize, sanitizeTo_of_fits, pieces_policyDetail, String.ofList_toList]
    rw [pieces_policyDetail, String.ofList_toList]
    exact len_escapedDetail h
  rw [hs]
  exact parseEpoch_of_digest Digest.space_not_mem_display

end

-- The text about a list may be cut off, but not its beginning.
theorem parseEpoch_revocations {n : UInt64} {t : String} :
    parseEpoch (sanitize ("revocations epoch=" ++ toString n ++ " added " ++ t)) = some n := by
  have hh : Printable ("revocations epoch=" ++ toString n ++ " added ").toList := by
    rw [String.toList_append, String.toList_append, printable_append, printable_append]
    exact ⟨⟨printable_of_all (by decide), printable_toString (n := n.toNat)⟩, printable_of_all (by decide)⟩
  have hl : Text.len ("revocations epoch=" ++ toString n ++ " added ") ≤ 1024 := by
    have hn := len_epoch (n := n)
    rw [Text.len_append, Text.len_append, show Text.len "revocations epoch=" = 18 by rfl,
      show Text.len " added " = 7 by rfl]
    omega
  obtain ⟨t', ht⟩ := sanitizeTo_append (t := t) hh hl
  rw [sanitize, ht, String.append_assoc, String.append_assoc, parseEpoch, Text.stripPrefix_append]
  have hw : toString n ++ (" added " ++ t') = .ofList ((toString n).toList ++ ' ' :: ("added " ++ t').toList) := by
    rw [← String.toList_inj]
    simp
  have hf : Text.firstWord (toString n ++ (" added " ++ t')) = some (toString n) := by
    rw [hw, Text.firstWord_append, String.ofList_toList]
    · exact Text.toString_ne_nil
    · exact fun c hc => Text.not_isWhitespace_of_isDigit (Text.isDigit_of_mem_toString (n := n.toNat) hc)
    · decide
  simp only [hf, Option.bind_eq_bind, Option.bind_some]
  exact parseUint_epoch

theorem parseEpoch_listDetail {n : UInt64} {kind target reason : String} :
    parseEpoch (sanitize ("revocations epoch=" ++ toString n ++ " added " ++ kind ++ " " ++ target ++ ": " ++ reason)) =
      some n := by
  have h := parseEpoch_revocations (n := n) (t := kind ++ " " ++ target ++ ": " ++ reason)
  simpa only [String.append_assoc] using h
