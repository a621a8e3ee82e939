import JlrModel.Cbor.Record

open Cbor

-- The primitives that are not part of the program: SHA-256, and Ed25519 with strict verification.
-- Nothing is assumed about them here, theorems name the properties that they need.
class Crypto where
  sha256       (data : Bytes) : Bytes.Fixed 32
  publicKey    (seed : Bytes.Fixed 32) : Bytes.Fixed 32
  isPoint      (key : Bytes.Fixed 32) : Bool
  sign         (seed : Bytes.Fixed 32) (message : Bytes) : Bytes.Fixed 64
  verifyStrict (key : Bytes.Fixed 32) (message : Bytes) (signature : Bytes.Fixed 64) : Bool

-- The COSE algorithm identifier of SHA-256.
def ALG_SHA256 : Int64 := -16

structure Digest where
  bytes : Bytes.Fixed 32
  deriving DecidableEq

namespace Digest

def of [Crypto] (data : Bytes) : Digest :=
  ⟨Crypto.sha256 data⟩

-- A string behind its length, so that parts cannot be shifted into one another.
def part (data : Bytes) : Bytes :=
  Bytes.ofNat 8 data.length ++ data

def ofParts [Crypto] (context : String) (parts : List Bytes) : Digest :=
  of <| part (utf8 context) ++ parts.flatMap part

def ZERO : Digest :=
  ⟨List.replicate 32 0, by decide⟩

def hex (d : Digest) : String :=
  Text.hex d.bytes.val

def fromHex (s : String) : Option Digest := do
  if Text.len s ≠ 64 ∨ ¬ Text.isAscii s then none else
  let out ← Text.unhex s.toList
  if h : out.length = 32 then some ⟨out, h⟩ else none

def display (d : Digest) : String :=
  "sha256:" ++ d.hex

-- No digest is written without its algorithm.
instance : Cbor Digest where
  toValue d := .array [.ofI64 ALG_SHA256, .bytes d.bytes.val]
  fromValue v := do
    match ← v.asArray with
    | [alg, bytes] =>
      if (← alg.asI64) ≠ ALG_SHA256 then
        throw <| .invalid "unsupported digest algorithm"
      else
        return ⟨← bytes.asByteArray 32⟩
    | _ => throw <| .invalid "digest must be [alg, bytes]"

end Digest
