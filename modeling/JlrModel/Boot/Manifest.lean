import JlrModel.Boot.State
import JlrModel.Crypto.Envelope
import JlrModel.Lib.File
import JlrModel.Model.RecordType

open Cbor

-- Why a boot step was refused.
inductive BootError
  | signature (e : EnvelopeError)
  | manifest (what : String)
  | rollback (epoch floor : UInt64)
  | imageDigest (expected actual : Digest)
  | imageSize (expected actual : UInt64)
  | noBootableSlot
  | io (e : String)
  deriving DecidableEq

namespace BootError

def display : BootError → String
  | signature e                 => "manifest signature refused: " ++ e.display
  | manifest what               => "manifest invalid: " ++ what
  | rollback epoch floor        =>
    "release epoch " ++ toString epoch ++ " is below the rollback floor " ++ toString floor
  | imageDigest expected actual =>
    "image digest mismatch: manifest " ++ expected.display ++ ", image " ++ actual.display
  | imageSize expected actual   =>
    "image size mismatch: manifest " ++ toString expected ++ ", image " ++ toString actual
  | noBootableSlot              => "no slot can be booted"
  | io e                        => "boot media: " ++ e

-- Whether the content of a slot is bad, and will be on every boot.
def provesBadContent : BootError → Bool
  | imageDigest _ _ | imageSize _ _ => true
  | _                               => false

end BootError

def ReleaseManifest.SCHEMA : UInt32 := 1

variable [Crypto]

-- Verifies a signed manifest. The floor is checked here, so that a rollback never gets to the image.
def verifyManifest (bytes : Bytes) (anchors : TrustAnchors) (floor : UInt64) : Except BootError ReleaseManifest := do
  let v ← (Envelope.verify bytes RecordType.RELEASE "*" anchors [.release]).mapError .signature
  let m ← (fromCbor ReleaseManifest v.payload).mapError fun e => .manifest e.display
  Except.ensure (m.schema = ReleaseManifest.SCHEMA) (.manifest ("unsupported schema " ++ toString m.schema))
  Except.ensure (floor ≤ m.epoch) (.rollback m.epoch floor)
  Except.ensure (m.minEpoch ≤ m.epoch) (.manifest "min_epoch exceeds epoch")
  return m

-- The checks of what was copied, when the end has been reached.
def ReleaseManifest.judge (m : ReleaseManifest) (data : Bytes) : Except BootError UInt64 := do
  let total := UInt64.ofNat data.length
  Except.ensure (total = m.imageSize) (.imageSize m.imageSize total)
  let actual := Digest.of data
  Except.ensure (actual = m.imageDigest) (.imageDigest m.imageDigest actual)
  return total

-- Copies an image into memory and checks its size and its digest. The copy is what gets mounted.
def verifyImage (m : ReleaseManifest) (source : Reader IoError) (write : Nat → Bytes → Except IoError Unit) :
    Except BootError File := do
  let source : Reader BootError := source.mapError .io
  let sink ← source.copy m.imageSize (.imageSize m.imageSize) (fun i bytes => (write i bytes).mapError .io) 0 .empty
  let _ ← m.judge sink.data
  return sink

-- The same as `verifyImage`, with what has been written to the copy by then if it fails.
def verifyImageInto (m : ReleaseManifest) (source : Reader IoError)
    (write : Nat → Bytes → Except (IoError × Nat) Unit) : Except BootError UInt64 × File :=
  let source : Reader BootError := source.mapError .io
  let copied := source.transfer m.imageSize (.imageSize m.imageSize)
    (fun i bytes => (write i bytes).mapError fun (e, n) => (.io e, n)) 0 .empty
  let sink := copied.2
  (do copied.1; m.judge sink.data, sink)
