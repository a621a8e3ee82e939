import JlrModel.Cbor.Theorems.Exact
import JlrModel.Crypto.Digest

-- Parts that are hashed behind their lengths are known from what is hashed.

namespace Digest

open Cbor (utf8)

variable {a a' rest rest' : Bytes} {ps ps' : List Bytes}

-- The length says where the part ends.
theorem part_inj (h : a.length < 2 ^ 64) (h' : a'.length < 2 ^ 64) (he : part a ++ rest = part a' ++ rest') :
    a = a' ∧ rest = rest' := by
  rw [part, part, List.append_assoc, List.append_assoc] at he
  have ⟨hn, he⟩ := List.append_inj he (by rw [Bytes.length_ofNat, Bytes.length_ofNat])
  exact List.append_inj he (Bytes.ofNat_inj h h' hn)

theorem part_ne_nil : part a ≠ [] := by
  simp [part, Bytes.ofNat]

-- After each part, what is left of both sides is again a sequence of parts.
theorem parts_inj (h : ∀ p ∈ ps, p.length < 2 ^ 64) (h' : ∀ p ∈ ps', p.length < 2 ^ 64)
    (he : ps.flatMap part = ps'.flatMap part) : ps = ps' := by
  induction ps generalizing ps'
  case nil =>
    cases ps'
    case nil => rfl
    case cons p' ps' => exact absurd (List.append_eq_nil_iff.mp he.symm).left part_ne_nil
  case cons p ps ih =>
    cases ps'
    case nil => exact absurd (List.append_eq_nil_iff.mp he).left part_ne_nil
    case cons p' ps' =>
      have ⟨hp, hs⟩ := List.forall_mem_cons.mp h
      have ⟨hp', hs'⟩ := List.forall_mem_cons.mp h'
      have ⟨hp, he⟩ := part_inj hp hp' he
      rw [hp, ih hs hs' he]

-- What is hashed for a context and parts.
def message (context : String) (parts : List Bytes) : Bytes :=
  part (utf8 context) ++ parts.flatMap part

section

variable [Crypto]

-- Unless what is hashed collides, a digest is that of one context and one sequence of parts.
theorem parts_unambiguous (c c' : String) (ps ps' : List Bytes)
    (hc : (utf8 c).length < 2 ^ 64) (hc' : (utf8 c').length < 2 ^ 64)
    (hp : ∀ p ∈ ps, p.length < 2 ^ 64) (hp' : ∀ p ∈ ps', p.length < 2 ^ 64)
    (inj : Set.InjOn Crypto.sha256 {message c ps, message c' ps'})
    (h : ofParts c ps = ofParts c' ps') : c = c' ∧ ps = ps' := by
  have hm : message c ps = message c' ps' := inj (by simp) (by simp) (Digest.mk.inj h)
  have ⟨hu, hf⟩ := part_inj hc hc' hm
  exact ⟨Cbor.utf8_inj hu, parts_inj hp hp' hf⟩

end

namespace Framed

-- The context `a` with the part `b`, which are hashed to the SHA-256 of the two behind their lengths.
abbrev hashing : Crypto where
  sha256 data        :=
    if data = [0, 0, 0, 0, 0, 0, 0, 1, 0x61, 0, 0, 0, 0, 0, 0, 0, 1, 0x62] then
      Bytes.fixed 32 0x3c9d591045bc8876f9d0399bbfb05c6a412096e906f73278f98406cd5dca86df
    else
      Bytes.fixed 32 0
  publicKey seed     := seed
  isPoint _          := true
  sign _ _           := Bytes.fixed 64 0
  verifyStrict _ _ _ := false

theorem parts_unambiguous_framed :
    @ofParts hashing "a" [[0x62]] =
      ⟨Bytes.fixed 32 0x3c9d591045bc8876f9d0399bbfb05c6a412096e906f73278f98406cd5dca86df⟩ ∧
    "a" = "a" ∧ ([[0x62]] : List Bytes) = [[0x62]] :=
  ⟨rfl, @parts_unambiguous hashing "a" "a" [[0x62]] [[0x62]] (by decide) (by decide) (by decide) (by decide)
    (by rw [Set.pair_eq_singleton]; exact Set.injOn_singleton _ _) rfl⟩

end Framed

end Digest
