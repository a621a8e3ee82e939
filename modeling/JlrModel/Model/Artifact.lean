import JlrModel.Crypto.Digest
import JlrModel.Model.Coded

open Cbor

-- What kind of governed object an EPN describes.
inductive ArtifactClass
  | boot | kernel | initrd | module | exe | lib | script | service | config | package | container
  | image | policy | key | firmware | dataset | recovery | other
  deriving DecidableEq

namespace ArtifactClass

instance : Coded ArtifactClass where
  typeName := "ArtifactClass"
  table    := [
    (boot,       1, "BOOT"),
    (kernel,     2, "KERNEL"),
    (initrd,     3, "INITRD"),
    (module,     4, "MODULE"),
    (exe,        5, "EXE"),
    (lib,        6, "LIB"),
    (script,     7, "SCRIPT"),
    (service,    8, "SERVICE"),
    (config,     9, "CONFIG"),
    (package,   10, "PACKAGE"),
    (container, 11, "CONTAINER"),
    (image,     12, "IMAGE"),
    (policy,    13, "POLICY"),
    (key,       14, "KEY"),
    (firmware,  15, "FIRMWARE"),
    (dataset,   16, "DATASET"),
    (recovery,  17, "RECOVERY"),
    (other,     18, "OTHER")
  ]

end ArtifactClass

-- The quality of provenance evidence, a smaller code is stronger.
inductive ProvenanceRank
  | reproduced | pinnedVendor | distroSigned | verifiedChecksum | sourceKnown | unknown
  deriving DecidableEq

namespace ProvenanceRank

instance : Coded ProvenanceRank where
  typeName := "ProvenanceRank"
  table    := [
    (reproduced,       1, "REPRODUCED"),
    (pinnedVendor,     2, "PINNED_VENDOR"),
    (distroSigned,     3, "DISTRO_SIGNED"),
    (verifiedChecksum, 4, "VERIFIED_CHECKSUM"),
    (sourceKnown,      5, "SOURCE_KNOWN"),
    (unknown,          6, "UNKNOWN")
  ]

def satisfies (rank required : ProvenanceRank) : Bool :=
  Coded.code rank ≤ Coded.code required

end ProvenanceRank

-- Where an artifact was found and how it arrived.
structure Source where
  channel : String
  origin  : Option String
  path    : Option String
  deriving DecidableEq

namespace Source

instance : Record Source .mk <|
    .field 1 channel <| .field 2 origin <| .field 3 path .done where

end Source

-- The immutable identity of an artifact.
structure EpnRecord where
  schema       : UInt32
  cls          : ArtifactClass
  name         : String
  version      : Option String
  size         : UInt64
  digest       : Digest
  provenance   : ProvenanceRank
  signer       : Option String
  source       : Source
  dependencies : List Digest
  deriving DecidableEq

structure EpnId where
  cls    : ArtifactClass
  digest : Digest
  deriving DecidableEq

namespace EpnId

def parse (s : String) : Option EpnId := do
  let rest ← Text.stripPrefix "EPN-1-" s
  let (cls, hex) ← Text.splitOnce '-' rest
  return { cls := ← Coded.parse ArtifactClass cls, digest := ← Digest.fromHex hex }

def display (id : EpnId) : String :=
  "EPN-1-" ++ Coded.asStr id.cls ++ "-" ++ id.digest.hex

end EpnId

namespace EpnRecord

instance : Record EpnRecord .mk <|
    .field 1 schema <| .field 2 cls <| .field 3 name <| .field 4 version <| .field 5 size <|
    .field 6 digest <| .field 7 provenance <| .field 8 signer <| .field 9 source <|
    .field 10 dependencies .done where

def digestOfRecord [Crypto] (r : EpnRecord) : Digest :=
  Digest.of <| toCbor r

def id [Crypto] (r : EpnRecord) : EpnId :=
  { cls := r.cls, digest := r.digestOfRecord }

end EpnRecord
