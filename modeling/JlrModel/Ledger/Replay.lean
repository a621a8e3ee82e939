import JlrModel.Crypto.Envelope
import JlrModel.Ledger.Checkpoint
import JlrModel.Ledger.Frame
import JlrModel.Ledger.Merkle
import JlrModel.Model.Event
import JlrModel.Model.RecordType

open Cbor

structure Replayed where
  eventsParsed : List Event
  tree         : Merkle.Tree Digest
  lastEnv      : Digest
  events       : UInt64
  torn         : UInt64
  checkpoints  : List Checkpoint
  bootIds      : List (Bytes.Fixed 16)
  validLen     : UInt64
  cpTorn       : UInt64
  cpValidLen   : UInt64
  deriving DecidableEq

structure VerifyReport where
  events                    : UInt64
  root                      : Digest
  checkpoints               : UInt64
  externalCheckpointMatched : Bool
  tornTailBytes             : UInt64
  checkpointTornBytes       : UInt64
  anchor                    : Option Anchor
  deriving DecidableEq

namespace Ledger

def envErr (seq : UInt64) (what : String) (e : EnvelopeError) : LedgerError :=
  .corrupt seq (what ++ ": " ++ e.display)

-- The identity of the ledger of a node.
def origin (node : String) : String :=
  "jlr/" ++ node ++ "/evidence"

def wentBackwards (cp : Checkpoint) : Option Checkpoint → Bool
  | none      => false
  | some last => cp.counter ≤ last.counter || cp.size < last.size

variable [Crypto]

-- The checkpoint of one frame, which follows `last`. A size always fits into a `usize` of 64 bits.
def replayCheckpoint (node : String) (anchors : TrustAnchors) (tree : Merkle.Tree Digest) (seq : UInt64)
    (last : Option Checkpoint) (env : Bytes) : Except LedgerError Checkpoint := do
  let v ← (Envelope.verify env RecordType.CHECKPOINT node anchors
    (RecordType.allowedSigners RecordType.CHECKPOINT)).mapError (envErr seq "checkpoint signature")
  let cp ← (fromCbor Checkpoint v.payload).mapError fun e =>
    .corrupt seq ("checkpoint payload: " ++ e.display)
  Except.ensure (cp.origin = origin node) (.corrupt seq "checkpoint belongs to another ledger")
  Except.ensure (¬ wentBackwards cp last) (.corrupt seq "checkpoint counter or size went backwards")
  let root ← Except.okOr (.truncated cp.size (.ofNat tree.size)) (tree.rootAt cp.size.toNat)
  Except.ensure (root = cp.root) (.forked cp.size)
  return cp

def replayCheckpoints (node : String) (anchors : TrustAnchors) (tree : Merkle.Tree Digest) :
    (i : Nat) → (last : Option Checkpoint) → List Bytes → Except LedgerError (List Checkpoint)
  | _, _, []             => return []
  | i, last, env :: envs => do
    let cp ← replayCheckpoint node anchors tree (.ofNat i) last env
    let cps ← replayCheckpoints node anchors tree (i + 1) (some cp) envs
    return cp :: cps

-- The payload and the digest of the envelope of an event. The signatures of the trusted events, which
-- come first, are not looked at.
def openEvent (node : String) (anchors : TrustAnchors) (trusted i : Nat) (env : Bytes) :
    Except LedgerError (Bytes × Digest) :=
  if i < trusted then do
    let payload ← Except.okOr (.corrupt (.ofNat i) "malformed envelope") (Envelope.unverifiedPayload env)
    return (payload, Digest.of env)
  else do
    let v ← (Envelope.verify env RecordType.EVENT node anchors
      (RecordType.allowedSigners RecordType.EVENT)).mapError (envErr (.ofNat i) "event signature")
    return (v.payload, v.envelopeDigest)

def replayEvent (node : String) (anchors : TrustAnchors) (trusted i : Nat) (prev : Digest) (env : Bytes) :
    Except LedgerError (Event × Digest) := do
  let seq := UInt64.ofNat i
  let (payload, digest) ← openEvent node anchors trusted i env
  let ev ← (fromCbor Event payload).mapError fun e => .corrupt seq ("event payload: " ++ e.display)
  Except.ensure (ev.seq = seq)
    (.corrupt seq ("sequence number " ++ toString ev.seq ++ " out of place"))
  Except.ensure (ev.prev = prev) (.corrupt seq "previous-event link does not match")
  Except.ensure (i = 0 → ev.kind = .genesis) (.corrupt seq "first event is not GENESIS")
  Except.ensure (0 < i → ev.kind ≠ .genesis) (.corrupt seq "GENESIS may appear only once")
  return (ev, digest)

-- The events of all frames, and the digest of the last envelope.
def replayEvents (node : String) (anchors : TrustAnchors) (trusted : Nat) :
    (i : Nat) → (prev : Digest) → List Bytes → Except LedgerError (List Event × Digest)
  | _, prev, []          => return ([], prev)
  | i, prev, env :: envs => do
    let (ev, digest) ← replayEvent node anchors trusted i prev env
    let (evs, last) ← replayEvents node anchors trusted (i + 1) digest envs
    return (ev :: evs, last)

-- The boots that wrote the events, one after the other.
def bootIds (events : List Event) : List (Bytes.Fixed 16) :=
  events.foldl (fun ids ev => if ids.getLast? = some ev.bootId then ids else ids ++ [ev.bootId]) []

-- The number of events that a verified checkpoint covers.
def trustedPrefix (full : Bool) (checkpoints : List Checkpoint) : Nat :=
  if full then 0 else (checkpoints.getLast?.map (·.size.toNat)).getD 0

-- Replays the contents of the two logs of a directory. Without `full`, the events that the last checkpoint covers are
-- trusted.
def replay (node : String) (anchors : TrustAnchors) (full : Bool) (cpData eventsData : Bytes) :
    Except LedgerError Replayed := do
  let (frames, validLen, torn) ← splitFrames eventsData
  let tree : Merkle.Tree Digest := .of (frames.map leafHash)
  let (cpFrames, cpValidLen, cpTorn) ← splitFrames cpData
  let checkpoints ← replayCheckpoints node anchors tree 0 none cpFrames
  let trusted := trustedPrefix full checkpoints
  let (parsed, lastEnv) ← replayEvents node anchors trusted 0 Digest.ZERO frames
  return {
    eventsParsed := parsed
    tree, lastEnv
    events       := .ofNat frames.length
    torn, checkpoints
    bootIds      := bootIds parsed
    validLen     := .ofNat validLen
    cpTorn
    cpValidLen   := .ofNat cpValidLen
  }

-- Whether the checkpoint that was kept elsewhere is one of this history.
def verifyExternal (node : String) (anchors : TrustAnchors) (r : Replayed) (external : Bytes) :
    Except LedgerError Unit := do
  let v ← (Envelope.verify external RecordType.CHECKPOINT node anchors
    (RecordType.allowedSigners RecordType.CHECKPOINT)).mapError (envErr 0 "external checkpoint")
  let cp ← (fromCbor Checkpoint v.payload).mapError fun e =>
    .corrupt 0 ("external checkpoint: " ++ e.display)
  Except.ensure (cp.origin = origin node) (.corrupt 0 "external checkpoint belongs to another ledger")
  Except.ensure (cp.size ≤ r.events) (.truncated cp.size r.events)
  Except.ensure (r.tree.rootAt cp.size.toNat = some cp.root) (.forked cp.size)

def verifyDir (node : String) (anchors : TrustAnchors) (external : Option Bytes)
    (cpData eventsData : Bytes) : Except LedgerError VerifyReport := do
  let r ← replay node anchors true cpData eventsData
  Except.ensure (r.events ≠ 0) .empty
  match external with
  | none       => return report r false
  | some bytes => verifyExternal node anchors r bytes; return report r true
where
  report (r : Replayed) (matched : Bool) : VerifyReport := {
    events                    := r.events
    root                      := r.tree.root
    checkpoints               := .ofNat r.checkpoints.length
    externalCheckpointMatched := matched
    tornTailBytes             := r.torn
    checkpointTornBytes       := r.cpTorn
    anchor                    := r.checkpoints.getLast?.map (·.anchor)
  }

def readEvents (node : String) (anchors : TrustAnchors) (cpData eventsData : Bytes) :
    Except LedgerError (List Event) := do
  let r ← replay node anchors false cpData eventsData
  Except.ensure (r.events ≠ 0) .empty
  return r.eventsParsed

end Ledger
