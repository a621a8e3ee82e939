import JlrModel.Crypto.Theorems.Envelope
import JlrModel.Policy.Signed
import JlrModel.Theorems.Records

open Cbor

variable [Crypto] {scope : String} {key : SigningKeypair} {anchors : TrustAnchors} {bytes : Bytes}

-- A grant that was signed and verified is for the one that it was made for.

theorem Approval.verify_ok {a : Approval} (h : verify bytes scope anchors = .ok a) :
    ∃ v, Envelope.verify bytes RecordType.APPROVAL scope anchors (RecordType.allowedSigners RecordType.APPROVAL) = .ok v ∧
      fromCbor Approval v.payload = .ok a ∧ (EpnId.parse a.epn).isSome := by
  have ⟨v, hv, h⟩ := Except.bind_eq_ok.mp h
  have ⟨a', ha, h⟩ := Except.bind_eq_ok.mp h
  have ⟨id, hi, h⟩ := Except.bind_eq_ok.mp h
  cases h
  refine ⟨v, Except.mapError_eq_ok.mp hv, Except.mapError_eq_ok.mp ha, ?_⟩
  rw [Except.okOr_eq_ok.mp hi]
  rfl

theorem Approval.epn_of_verify_sign {a a' : Approval} (hl : (a.sign scope key).length < 2 ^ 64)
    (h : verify (a.sign scope key) scope anchors = .ok a') : a'.epn = a.epn := by
  have ⟨v, hv, ha, _⟩ := verify_ok h
  have hp : v.payload = toCbor a := Envelope.payload_of_verify_sign hl hv
  have hc : toCbor a' = toCbor a := (toCbor_of_fromCbor ha).trans hp
  have hs : (toCbor a').length < 2 ^ 64 := by
    rw [hc]
    exact lt_of_le_of_lt Envelope.length_le_sign hl
  have he : some (Value.text a'.epn) = some (.text a.epn) := entries_of_toCbor hs hc 1
  exact Value.text.inj (Option.some.inj he)

theorem Baseline.verify_ok {b : VerifiedBaseline} (h : verify bytes scope anchors = .ok b) :
    ∃ v, Envelope.verify bytes RecordType.APPROVAL scope anchors (RecordType.allowedSigners RecordType.APPROVAL) = .ok v ∧
      fromCbor Baseline v.payload = .ok b.toBaseline := by
  have ⟨v, hv, h⟩ := Except.bind_eq_ok.mp h
  have ⟨b', hb, h⟩ := Except.bind_eq_ok.mp h
  split at h
  case isTrue =>
    cases h
    exact ⟨v, Except.mapError_eq_ok.mp hv, Except.mapError_eq_ok.mp hb⟩
  case isFalse => cases h

theorem Baseline.name_of_verify_sign {b : Baseline} {b' : VerifiedBaseline} (hl : (b.sign scope key).length < 2 ^ 64)
    (h : verify (b.sign scope key) scope anchors = .ok b') : b'.name = b.name := by
  have ⟨v, hv, hb⟩ := verify_ok h
  have hp : v.payload = toCbor b := Envelope.payload_of_verify_sign hl hv
  have hc : toCbor b'.toBaseline = toCbor b := (toCbor_of_fromCbor hb).trans hp
  have hs : (toCbor b'.toBaseline).length < 2 ^ 64 := by
    rw [hc]
    exact lt_of_le_of_lt Envelope.length_le_sign hl
  have he : some (Value.text b'.name) = some (.text b.name) := entries_of_toCbor hs hc 2
  exact Value.text.inj (Option.some.inj he)
