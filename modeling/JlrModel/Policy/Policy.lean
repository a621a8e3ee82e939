import JlrModel.Model.Artifact
import JlrModel.Model.Decision

open Cbor

-- One rule of the tier list. The first tier whose conditions hold decides.
structure Tier where
  name            : String
  classes         : List ArtifactClass
  maxProvenance   : ProvenanceRank
  requireEvidence : List EvidenceKind
  state           : AdmissionState
  cell            : CellClass
  network         : NetworkMode
  needsUser       : Bool
  reason          : ReasonCode
  deriving DecidableEq

instance : Record Tier .mk <|
    .field 1 Tier.name <| .field 2 Tier.classes <| .field 3 Tier.maxProvenance <|
    .field 4 Tier.requireEvidence <| .field 5 Tier.state <| .field 6 Tier.cell <|
    .field 7 Tier.network <| .field 8 Tier.needsUser <| .field 9 Tier.reason .done where

-- A complete trust policy.
structure Policy where
  schema              : UInt32
  name                : String
  epoch               : UInt64
  tiers               : List Tier
  blockClasses        : List ArtifactClass
  setuidMinProvenance : ProvenanceRank
  writablePathMaxCell : CellClass
  maxManualCell       : CellClass
  evidenceMaxAgeSecs  : UInt64
  enforceExec         : Bool
  deriving DecidableEq

instance : Record Policy .mk <|
    .field 1 Policy.schema <| .field 2 Policy.name <| .field 3 Policy.epoch <|
    .field 4 Policy.tiers <| .field 5 Policy.blockClasses <| .field 6 Policy.setuidMinProvenance <|
    .field 7 Policy.writablePathMaxCell <| .field 8 Policy.maxManualCell <|
    .field 9 Policy.evidenceMaxAgeSecs <| .field 10 Policy.enforceExec .done where
