import JlrModel.Crypto.Envelope
import JlrModel.Model.RecordType
import JlrModel.Policy.Grant
import Mathlib.Data.List.Destutter

-- The grants of an operator as they are signed and verified.

open Cbor

inductive ApprovalError
  | envelope (e : EnvelopeError)
  | payload (what : String)
  | badEpn

def ApprovalError.display : ApprovalError → String
  | .envelope e   => "approval refused: " ++ e.display
  | .payload what => "approval malformed: " ++ what
  | .badEpn       => "approval names an invalid EPN"

-- A baseline that was verified. Its members are sorted and unique.
structure VerifiedBaseline extends Baseline where
  sorted : members.IsChain (·.bytes.val < ·.bytes.val)

namespace VerifiedBaseline

-- A binary search in a sorted list finds what is in it.
def contains (b : VerifiedBaseline) (id : EpnId) : Bool :=
  id.digest ∈ b.members

-- The approval that membership comes to.
def approvalFor (b : VerifiedBaseline) (id : EpnId) (now : UInt64) : Option Approval :=
  if b.expiresAt ≤ now ∨ ¬ b.contains id then
    none
  else
    some {
      epn          := id.display
      cell         := b.cell
      network      := b.network
      capabilities := b.capabilities
      expiresAt    := b.expiresAt
      grantedBy    := "baseline:" ++ b.name ++ ":" ++ b.grantedBy
    }

end VerifiedBaseline

variable [Crypto]

namespace Baseline

def normalize (b : Baseline) : Baseline :=
  { b with members := (b.members.mergeSort fun x y => x.bytes.val ≤ y.bytes.val).destutter (· ≠ ·) }

def sign (b : Baseline) (scope : String) (key : SigningKeypair) : Bytes :=
  Envelope.sign RecordType.APPROVAL scope (toCbor b) key

def verify (bytes : Bytes) (scope : String) (anchors : TrustAnchors) : Except ApprovalError VerifiedBaseline := do
  let v ← (Envelope.verify bytes RecordType.APPROVAL scope anchors
    (RecordType.allowedSigners RecordType.APPROVAL)).mapError .envelope
  let b ← (fromCbor Baseline v.payload).mapError fun e => .payload e.display
  if h : b.members.IsChain (·.bytes.val < ·.bytes.val) then
    .ok { b with sorted := h }
  else
    .error (.payload "baseline members must be sorted and unique")

end Baseline

namespace Approval

def sign (a : Approval) (scope : String) (key : SigningKeypair) : Bytes :=
  Envelope.sign RecordType.APPROVAL scope (toCbor a) key

def verify (bytes : Bytes) (scope : String) (anchors : TrustAnchors) : Except ApprovalError Approval := do
  let v ← (Envelope.verify bytes RecordType.APPROVAL scope anchors
    (RecordType.allowedSigners RecordType.APPROVAL)).mapError .envelope
  let a ← (fromCbor Approval v.payload).mapError fun e => .payload e.display
  let _ ← Except.okOr .badEpn (EpnId.parse a.epn)
  return a

end Approval
