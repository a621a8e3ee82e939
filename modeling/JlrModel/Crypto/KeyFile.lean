import JlrModel.Crypto.Keys

open Cbor

-- The files that keys are kept in: the private key of one role, and the public keys that are trusted.

namespace Role

def code : Role → UInt64
  | .root     => 1
  | .release  => 2
  | .policy   => 3
  | .recovery => 4
  | .device   => 5

def fromU64 (n : UInt64) : Option Role :=
  if n = 1 then some .root
  else if n = 2 then some .release
  else if n = 3 then some .policy
  else if n = 4 then some .recovery
  else if n = 5 then some .device
  else none

instance : Cbor Role where
  toValue r   := .uint r.code
  fromValue v := do Except.okOr (.invalid "unknown role") (fromU64 (← v.asU64))

end Role

-- The points of low order, which no key may be. Which they are is not part of the program either.
class WeakPoints where
  isWeak (key : Bytes.Fixed 32) : Bool

inductive KeyFileError
  | key (e : KeyError)
  | cbor (e : Error)
  | io (e : String)

namespace SigningKeypair

-- The record of a private key: a version, the role and the seed.
def record (key : SigningKeypair) : Value :=
  .map <| ((Map.new.put 0 (.uint 1)).put 1 (toValue key.role)).put 2 (toValue key.seed)

def fileBytes (key : SigningKeypair) : Bytes :=
  encode key.record

-- Reads the record of a private key, which must not be accessible by anybody else.
def load (mode : UInt32) (bytes : Bytes) : Except KeyFileError SigningKeypair := do
  Except.ensure (mode &&& 0o077 = 0) (.key (.malformed "key file is accessible by group or others"))
  let v ← (decode bytes).mapError .cbor
  let f ← (Fields.new v).mapError .cbor
  let (version, f) ← ((Field.get 0 : Fields.Read UInt64) f).mapError .cbor
  Except.ensure (version = 1) (.key (.malformed "unsupported key file version"))
  let (code, f) ← ((Field.get 1 : Fields.Read UInt64) f).mapError .cbor
  let role ← Except.okOr (.key (.malformed "unknown role")) (Role.fromU64 code)
  let (seed, f) ← ((Field.get 2 : Fields.Read (Bytes.Fixed 32)) f).mapError .cbor
  f.finish.mapError .cbor
  return { seed, role }

end SigningKeypair

-- A public key as it is written.
structure KeyRecord where
  role  : Role
  bytes : Bytes.Fixed 32

instance : Record KeyRecord .mk <| .field 1 KeyRecord.role <| .field 2 KeyRecord.bytes .done where

variable [Crypto] [WeakPoints]

namespace PublicKey

def fromBytes (bytes : Bytes.Fixed 32) (role : Role) : Except KeyError PublicKey :=
  if ¬ Crypto.isPoint bytes then .error (.malformed "not a curve point")
  else if WeakPoints.isWeak bytes then .error .weakKey
  else .ok { bytes, role }

instance : Cbor PublicKey where
  toValue k   := toValue (KeyRecord.mk k.role k.bytes)
  fromValue v := do
    let r : KeyRecord ← fromValue v
    (fromBytes r.bytes r.role).mapError fun _ => .invalid "invalid public key"

end PublicKey

namespace TrustAnchors

def add (anchors : TrustAnchors) (item : Value) : Except Error TrustAnchors := do
  let k : PublicKey ← fromValue item
  Except.ensure (anchors.get k.id = none) (.invalid "duplicate trust anchor")
  return anchors.insert k

instance : Cbor TrustAnchors where
  toValue anchors := .array <| anchors.keys.map fun e => toValue e.2
  fromValue v     := do (← v.asArray).foldlM add .new

end TrustAnchors
