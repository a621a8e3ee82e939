import JlrModel.Crypto.Digest

open Cbor

-- Boot bookkeeping for one slot.
structure SlotState where
  name       : String
  priority   : UInt16
  tries      : UInt16
  successful : Bool
  deriving DecidableEq

instance : Record SlotState .mk <|
    .field 1 SlotState.name <| .field 2 SlotState.priority <| .field 3 SlotState.tries <|
    .field 4 SlotState.successful .done where

-- The persistent boot state.
structure BootState where
  floor : UInt64
  slots : List SlotState
  deriving DecidableEq

instance : Record BootState .mk <|
    .field 1 BootState.floor <| .field 2 BootState.slots .done where

-- A named piece of a release with its digest.
structure Component where
  name   : String
  digest : Digest
  deriving DecidableEq

instance : Record Component .mk <|
    .field 1 Component.name <| .field 2 Component.digest .done where

-- What a release signer vouches for.
structure ReleaseManifest where
  schema       : UInt32
  name         : String
  version      : String
  epoch        : UInt64
  imageDigest  : Digest
  imageSize    : UInt64
  minEpoch     : UInt64
  policyDigest : Option Digest
  components   : List Component
  deriving DecidableEq

namespace ReleaseManifest

instance : Record ReleaseManifest .mk <|
    .field 1 schema <| .field 2 name <| .field 3 version <| .field 4 epoch <|
    .field 5 imageDigest <| .field 6 imageSize <| .field 7 minEpoch <| .field 8 policyDigest <|
    .field 9 components .done where

end ReleaseManifest
