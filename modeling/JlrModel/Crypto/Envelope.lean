import JlrModel.Crypto.Keys

open Cbor

def COSE_SIGN1_TAG : UInt64 := 18
-- The COSE algorithm identifier of fully specified Ed25519.
def ALG_ED25519 : Int64 := -19

def LABEL_ALG : UInt64 := 1
def LABEL_KID : UInt64 := 4
def LABEL_TYP : UInt64 := 16

inductive EnvelopeError
  | encoding (e : Cbor.Error)
  | structure (what : String)
  | algorithm
  | recordType
  | unknownKey (kid : KeyId)
  | roleNotAllowed (role : Role)
  | badSignature
  deriving DecidableEq

def EnvelopeError.display : EnvelopeError → String
  | .encoding e          => "envelope encoding: " ++ e.display
  | .structure what      => "envelope structure: " ++ what
  | .algorithm           => "unsupported signature algorithm"
  | .recordType          => "record type does not match"
  | .unknownKey kid      => "signing key " ++ kid.display ++ " is not trusted"
  | .roleNotAllowed role => "key role " ++ role.name ++ " may not sign this record type"
  | .badSignature        => "signature verification failed"

-- A successfully verified envelope.
structure Verified where
  payload        : Bytes
  kid            : KeyId
  role           : Role
  recordDigest   : Digest
  envelopeDigest : Digest
  deriving DecidableEq

namespace Envelope

def typString (recordType : String) : String :=
  "application/vnd.jlr." ++ recordType ++ "+cbor;v=1"

def externalAad (recordType scope : String) : Bytes :=
  utf8 <| "JLR/1/" ++ recordType ++ "/" ++ scope

def sigStructure (protect aad payload : Bytes) : Bytes :=
  encode <| .array [.text "Signature1", .bytes protect, .bytes aad, .bytes payload]

-- The three labels of the protected header.
structure Header where
  alg : Int64
  kid : KeyId
  typ : String
  deriving DecidableEq

-- The value of a label, and the error that stands for any failure to read it.
def label (key : UInt64) (read : Value → Except Cbor.Error α) (what : String) (fields : Fields) :
    Except EnvelopeError (α × Fields) :=
  (do read (← Fields.req key) : Fields.Read α) fields |>.mapError fun _ => .structure what

def Header.read (protect : Bytes) : Except EnvelopeError Header := do
  let header ← (decode protect).mapError .encoding
  let fields ← (Fields.new header).mapError fun _ => .structure "protected map"
  let (alg, fields) ← label LABEL_ALG Value.asI64 "alg" fields
  let (kid, fields) ← label LABEL_KID (Value.asByteArray 32) "kid" fields
  let (typ, fields) ← label LABEL_TYP Value.asText "typ" fields
  fields.finish.mapError fun _ => .structure "unknown protected header label"
  return { alg, kid := ⟨kid⟩, typ }

-- The labels are distinct, so that the builder of the source does not panic.
def Header.write (header : Header) : Bytes :=
  encode <| .map <| Map.new
    |>.put LABEL_ALG (.ofI64 header.alg)
    |>.put LABEL_KID (.bytes header.kid.bytes.val)
    |>.put LABEL_TYP (.text header.typ)

-- The four parts of an envelope, without any look at the protected header.
structure Parts where
  protect   : Bytes
  payload   : Bytes
  signature : Bytes.Fixed 64

def Parts.read (bytes : Bytes) : Except EnvelopeError Parts := do
  let top ← (decode bytes).mapError .encoding
  let inner ← (top.asTag COSE_SIGN1_TAG).mapError fun _ => .structure "missing COSE_Sign1 tag"
  let parts ← inner.asArray.mapError fun _ => .structure "not an array"
  match parts with
  | [protect, unprotected, payload, signature] =>
    let protect ← protect.asBytes.mapError fun _ => .structure "protected header"
    match unprotected with
    | .map [] =>
      let payload ← payload.asBytes.mapError fun _ => .structure "payload"
      let signature ← (signature.asByteArray 64).mapError fun _ =>
        .structure "signature must be 64 bytes"
      return { protect, payload, signature }
    | _ => throw <| .structure "unprotected header must be empty"
  | _ => throw <| .structure "COSE_Sign1 must have four elements"

def Parts.write (parts : Parts) : Bytes :=
  encode <| .tag COSE_SIGN1_TAG <| .array [
    .bytes parts.protect, .map Map.new, .bytes parts.payload, .bytes parts.signature.val
  ]

variable [Crypto]

def sign (recordType scope : String) (payload : Bytes) (key : SigningKeypair) : Bytes :=
  let protect   := Header.write { alg := ALG_ED25519, kid := key.pub.id, typ := typString recordType }
  let aad       := externalAad recordType scope
  let signature := key.sign (sigStructure protect aad payload)
  Parts.write { protect, payload, signature }

def verify (bytes : Bytes) (recordType scope : String) (anchors : TrustAnchors) (allowed : List Role) :
    Except EnvelopeError Verified := do
  let parts ← Parts.read bytes
  let header ← Header.read parts.protect
  Except.ensure (header.alg = ALG_ED25519) .algorithm
  Except.ensure (header.typ = typString recordType) .recordType
  let key ← Except.okOr (.unknownKey header.kid) (anchors.get header.kid)
  Except.ensure (key.role ∈ allowed) (.roleNotAllowed key.role)
  let aad := externalAad recordType scope
  (verifySignature key (sigStructure parts.protect aad parts.payload) parts.signature).mapError
    fun _ => .badSignature
  return {
    payload        := parts.payload
    kid            := header.kid
    role           := key.role
    recordDigest   := Digest.of parts.payload
    envelopeDigest := Digest.of bytes
  }

-- The payload of a well-formed envelope whose signature nobody has looked at.
def unverifiedPayload (bytes : Bytes) : Option Bytes := do
  let top ← (decode bytes).toOption
  let inner ← (top.asTag COSE_SIGN1_TAG).toOption
  match ← inner.asArray.toOption with
  | [_, _, payload, _] => payload.asBytes.toOption
  | _                  => none

end Envelope
