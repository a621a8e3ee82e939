import JlrModel.Boot.State
import JlrModel.Cell.Spec
import JlrModel.Engine.Index
import JlrModel.Ledger.Checkpoint
import JlrModel.Model.Theorems.Capability
import JlrModel.Policy.Grant
import JlrModel.Policy.Policy
import JlrModel.Policy.Revocation

open Cbor

instance [DecidableEq α] [Coded α] : LawfulCbor α := by
  refine .scalar (fun a => ?_) (fun _ => .uint) (fun _ => rfl) (fun _ => rfl)
  refine Except.bind_eq_ok.mpr ⟨Coded.code a, Value.asU8_uint _, ?_⟩
  exact Except.okOr_eq_ok.mpr (Coded.fromCode_code a)

instance : LawfulCbor Digest where
  Valid _ := True
  levels  := 2
  roundTrip {d} _ := by
    refine Except.bind_eq_ok.mpr ⟨_, rfl, ?_⟩
    refine Except.bind_eq_ok.mpr ⟨ALG_SHA256, Value.asI64_ok_iff.mpr rfl, ?_⟩
    rw [if_neg (by simp)]
    exact Except.bind_eq_ok.mpr ⟨d.bytes, Value.asByteArray_bytes _, rfl⟩
  wellFormed _ := .array <| by
    simp only [List.mem_cons, List.not_mem_nil, or_false, forall_eq_or_imp, forall_eq]
    exact ⟨LawfulCbor.wellFormed ALG_SHA256, .bytes⟩
  depth_lt _   := Nat.one_lt_two
  not_null _   := rfl

instance : LawfulCbor RevocationKind := by
  refine .scalar (fun k => ?_) (fun k => ?_) (fun k => ?_) (fun k => ?_) <;> cases k <;> first | rfl | constructor

instance : LawfulCbor Anchor := by
  refine .scalar (fun k => ?_) (fun k => ?_) (fun k => ?_) (fun k => ?_) <;> cases k <;> first | rfl | constructor

instance : LawfulCbor Status := by
  refine .scalar (fun k => ?_) (fun k => ?_) (fun k => ?_) (fun k => ?_) <;> cases k <;> first | rfl | constructor

-- The values of this type are the results of `Capability.parse`.
instance : LawfulCbor Capability where
  Valid c      := ∃ s, Capability.parse s = .ok c
  levels       := 1
  roundTrip h  := Except.bind_eq_ok.mpr ⟨_, rfl, Except.mapError_eq_ok.mpr <|
    Capability.parse_display <| h.elim fun _ => Capability.parse_canonical⟩
  wellFormed _ := .text
  depth_lt _   := Nat.one_pos
  not_null _   := rfl

-- The records that are declared with `record!`.
inductive RecordType
  | epnRecord | source | event | evidenceItem | decision | tier | policy | approval | baseline
  | revocationEntry | revocations | checkpoint | nodeInfo | indexRow | indexFile
  | enforcementReport | cellSpec | slotState | bootState | component | releaseManifest

namespace RecordType

abbrev Carrier : RecordType → Type
  | epnRecord         => EpnRecord
  | source            => Source
  | event             => Event
  | evidenceItem      => EvidenceItem
  | decision          => Decision
  | tier              => Tier
  | policy            => Policy
  | approval          => Approval
  | baseline          => Baseline
  | revocationEntry   => RevocationEntry
  | revocations       => Revocations
  | checkpoint        => Checkpoint
  | nodeInfo          => NodeInfo
  | indexRow          => IndexRow
  | indexFile         => IndexFile
  | enforcementReport => EnforcementReport
  | cellSpec          => CellSpec
  | slotState         => SlotState
  | bootState         => BootState
  | component         => Component
  | releaseManifest   => ReleaseManifest

instance instCbor : (t : RecordType) → Cbor t.Carrier
  | epnRecord         => inferInstanceAs (Cbor EpnRecord)
  | source            => inferInstanceAs (Cbor Source)
  | event             => inferInstanceAs (Cbor Event)
  | evidenceItem      => inferInstanceAs (Cbor EvidenceItem)
  | decision          => inferInstanceAs (Cbor Decision)
  | tier              => inferInstanceAs (Cbor Tier)
  | policy            => inferInstanceAs (Cbor Policy)
  | approval          => inferInstanceAs (Cbor Approval)
  | baseline          => inferInstanceAs (Cbor Baseline)
  | revocationEntry   => inferInstanceAs (Cbor RevocationEntry)
  | revocations       => inferInstanceAs (Cbor Revocations)
  | checkpoint        => inferInstanceAs (Cbor Checkpoint)
  | nodeInfo          => inferInstanceAs (Cbor NodeInfo)
  | indexRow          => inferInstanceAs (Cbor IndexRow)
  | indexFile         => inferInstanceAs (Cbor IndexFile)
  | enforcementReport => inferInstanceAs (Cbor EnforcementReport)
  | cellSpec          => inferInstanceAs (Cbor CellSpec)
  | slotState         => inferInstanceAs (Cbor SlotState)
  | bootState         => inferInstanceAs (Cbor BootState)
  | component         => inferInstanceAs (Cbor Component)
  | releaseManifest   => inferInstanceAs (Cbor ReleaseManifest)

-- The capabilities that a record holds.
def capabilities : (t : RecordType) → t.Carrier → List Capability
  | decision, r => Decision.capabilities r
  | approval, r => Approval.capabilities r
  | baseline, r => Baseline.capabilities r
  | cellSpec, r => CellSpec.capabilities r
  | _, _        => []

instance instLawfulCbor : (t : RecordType) → LawfulCbor t.Carrier
  | epnRecord         => inferInstanceAs (LawfulCbor EpnRecord)
  | source            => inferInstanceAs (LawfulCbor Source)
  | event             => inferInstanceAs (LawfulCbor Event)
  | evidenceItem      => inferInstanceAs (LawfulCbor EvidenceItem)
  | decision          => inferInstanceAs (LawfulCbor Decision)
  | tier              => inferInstanceAs (LawfulCbor Tier)
  | policy            => inferInstanceAs (LawfulCbor Policy)
  | approval          => inferInstanceAs (LawfulCbor Approval)
  | baseline          => inferInstanceAs (LawfulCbor Baseline)
  | revocationEntry   => inferInstanceAs (LawfulCbor RevocationEntry)
  | revocations       => inferInstanceAs (LawfulCbor Revocations)
  | checkpoint        => inferInstanceAs (LawfulCbor Checkpoint)
  | nodeInfo          => inferInstanceAs (LawfulCbor NodeInfo)
  | indexRow          => inferInstanceAs (LawfulCbor IndexRow)
  | indexFile         => inferInstanceAs (LawfulCbor IndexFile)
  | enforcementReport => inferInstanceAs (LawfulCbor EnforcementReport)
  | cellSpec          => inferInstanceAs (LawfulCbor CellSpec)
  | slotState         => inferInstanceAs (LawfulCbor SlotState)
  | bootState         => inferInstanceAs (LawfulCbor BootState)
  | component         => inferInstanceAs (LawfulCbor Component)
  | releaseManifest   => inferInstanceAs (LawfulCbor ReleaseManifest)

theorem levels_le (t : RecordType) : LawfulCbor.levels t.Carrier ≤ MAX_DEPTH + 1 := by
  cases t <;> decide

theorem valid_of_capabilities {t : RecordType} {r : t.Carrier}
    (h : ∀ c ∈ t.capabilities r, ∃ s, Capability.parse s = .ok c) : LawfulCbor.Valid r := by
  cases t <;> simp_all [LawfulCbor.Valid, Schema.Lawful.Valid, LawfulField.Valid, capabilities]

end RecordType

-- Every record survives the round trip through its bytes, and these are the only bytes that are read
-- as that record. A record whose encoding fits into memory is any record that the source can encode.
theorem record_round_trip (t : RecordType) :
    (∀ r : t.Carrier, (∀ c ∈ t.capabilities r, ∃ s, Capability.parse s = .ok c) →
      (toCbor r).length < 2 ^ 64 → fromCbor t.Carrier (toCbor r) = .ok r) ∧
    (∀ (bytes : Bytes) (r : t.Carrier), fromCbor t.Carrier bytes = .ok r → bytes = toCbor r) where
  left  := fun _ hc hl => fromCbor_toCbor t.levels_le (RecordType.valid_of_capabilities hc) hl
  right := fun _ _ h => (toCbor_of_fromCbor h).symm
