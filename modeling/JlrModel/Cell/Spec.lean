import JlrModel.Model.Capability

open Cbor

-- The overall result of establishing a cell.
inductive Status
  | full | partly | refused
  deriving DecidableEq

instance : Cbor Status where
  toValue
    | .full    => .uint 1
    | .partly  => .uint 2
    | .refused => .uint 3
  fromValue v := do
    match ← v.asU64 with
    | 1 => return .full
    | 2 => return .partly
    | 3 => return .refused
    | _ => throw <| .invalid "unknown enforcement status"

-- What was actually enforced.
structure EnforcementReport where
  kernel           : String
  requested        : List String
  active           : List String
  unavailable      : List String
  mandatoryMissing : List String
  status           : Status
  landlockAbi      : Option UInt32
  seccompDenied    : UInt32
  deriving DecidableEq

namespace EnforcementReport

instance : Record EnforcementReport .mk <|
    .field 1 kernel <| .field 2 requested <| .field 3 active <| .field 4 unavailable <|
    .field 5 mandatoryMissing <| .field 6 status <| .field 7 landlockAbi <|
    .field 8 seccompDenied .done where

end EnforcementReport

-- A complete description of one cell.
structure CellSpec where
  cls          : CellClass
  network      : NetworkMode
  capabilities : List Capability
  memoryBytes  : Option UInt64
  pidsMax      : Option UInt64
  cpuSecs      : Option UInt64
  wallSecs     : Option UInt64
  nofile       : Option UInt64
  tmpMib       : UInt64
  hostname     : String
  mandatory    : List String
  env          : List String
  argv         : List String
  deriving DecidableEq

namespace CellSpec

instance : Record CellSpec .mk <|
    .field 1 cls <| .field 2 network <| .field 3 capabilities <| .field 4 memoryBytes <|
    .field 5 pidsMax <| .field 6 cpuSecs <| .field 7 wallSecs <| .field 8 nofile <|
    .field 9 tmpMib <| .field 10 hostname <| .field 11 mandatory <| .field 12 env <|
    .field 13 argv .done where

end CellSpec
