import JlrModel.Model.Artifact

open Cbor

-- What a revocation entry names.
inductive RevocationKind
  | epn | digest | signer
  deriving DecidableEq

instance : Cbor RevocationKind where
  toValue
    | .epn    => .uint 1
    | .digest => .uint 2
    | .signer => .uint 3
  fromValue v := do
    match ← v.asU64 with
    | 1 => return .epn
    | 2 => return .digest
    | 3 => return .signer
    | _ => throw <| .invalid "unknown revocation kind"

structure RevocationEntry where
  kind   : RevocationKind
  target : String
  reason : String
  deriving DecidableEq

instance : Record RevocationEntry .mk <|
    .field 1 RevocationEntry.kind <| .field 2 RevocationEntry.target <|
    .field 3 RevocationEntry.reason .done where

-- A list of revocations with its own epoch.
structure Revocations where
  schema  : UInt32
  epoch   : UInt64
  entries : List RevocationEntry
  deriving DecidableEq

instance : Record Revocations .mk <|
    .field 1 Revocations.schema <| .field 2 Revocations.epoch <| .field 3 Revocations.entries .done where

namespace Revocations

def empty : Revocations where
  schema  := 1
  epoch   := 1
  entries := []

-- The first entry that names the artifact.
def hit [Crypto] (r : Revocations) (record : EpnRecord) : Option RevocationEntry :=
  r.entries.find? fun e =>
    match e.kind with
    | .epn    => e.target = record.id.display
    | .digest => e.target = record.digest.display
    | .signer => record.signer = some e.target

end Revocations
