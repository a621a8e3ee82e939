import JlrModel.Crypto.Digest

open Cbor

-- What kind of external assurance backs the counter of a checkpoint.
inductive Anchor
  | software | tpm
  deriving DecidableEq

instance : Cbor Anchor where
  toValue
    | .software => .uint 1
    | .tpm      => .uint 2
  fromValue v := do
    match ← v.asU64 with
    | 1 => return .software
    | 2 => return .tpm
    | _ => throw <| .invalid "unknown anchor"

-- A commitment to the head of the ledger.
structure Checkpoint where
  origin   : String
  size     : UInt64
  root     : Digest
  bootId   : Bytes.Fixed 16
  wallTime : UInt64
  counter  : UInt64
  anchor   : Anchor
  deriving DecidableEq

instance : Record Checkpoint .mk <|
    .field 1 Checkpoint.origin <| .field 2 Checkpoint.size <| .field 3 Checkpoint.root <|
    .field 4 Checkpoint.bootId <| .field 5 Checkpoint.wallTime <| .field 6 Checkpoint.counter <|
    .field 7 Checkpoint.anchor .done where
