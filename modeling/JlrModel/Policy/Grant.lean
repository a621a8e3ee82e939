import JlrModel.Model.Artifact
import JlrModel.Model.Capability

open Cbor

-- A grant by an operator for one artifact.
structure Approval where
  epn          : String
  cell         : CellClass
  network      : NetworkMode
  capabilities : List Capability
  expiresAt    : UInt64
  grantedBy    : String
  deriving DecidableEq

instance : Record Approval .mk <|
    .field 1 Approval.epn <| .field 2 Approval.cell <| .field 3 Approval.network <|
    .field 4 Approval.capabilities <| .field 5 Approval.expiresAt <| .field 6 Approval.grantedBy .done where

-- A set of artifacts that an operator enrolled as the known initial state of a host.
structure Baseline where
  schema       : UInt32
  name         : String
  cell         : CellClass
  network      : NetworkMode
  capabilities : List Capability
  grantedBy    : String
  expiresAt    : UInt64
  members      : List Digest
  deriving DecidableEq

instance : Record Baseline .mk <|
    .field 1 Baseline.schema <| .field 2 Baseline.name <| .field 3 Baseline.cell <|
    .field 4 Baseline.network <| .field 5 Baseline.capabilities <| .field 6 Baseline.grantedBy <|
    .field 7 Baseline.expiresAt <| .field 8 Baseline.members .done where

namespace Approval

-- Whether the approval is for the artifact and has not expired.
def appliesTo (a : Approval) (id : EpnId) (now : UInt64) : Bool :=
  a.epn = id.display ∧ now < a.expiresAt

end Approval
