import JlrModel.Crypto.Theorems.Envelope
import JlrModel.Ledger.Open

-- The runs of a ledger in a world with an adversary, who may put any bytes into its directory.

open Cbor

variable [Crypto]

-- The strings that are hashed for the root over a list of envelopes.
def rootInputs (envs : List Bytes) : List Bytes :=
  envs.map (0x00 :: ·) ++
  (Merkle.nodes (envs.map leafHash)).map fun p => 0x01 :: (p.1.bytes.val ++ p.2.bytes.val)

-- The strings that are hashed while a tree grows, when there is a root for each number of leaves.
def treeInputs (envs : List Bytes) : Set Bytes :=
  { b | ∃ n, b ∈ rootInputs (envs.take n) }

-- All calls of `sign` that are ever made, and the strings that are hashed for the trees.
structure World where
  calls  : Set Envelope.SignCall
  hashed : Set Bytes

namespace World

structure Ideal (w : World) : Prop where
  signatures : Envelope.Ideal w.calls
  hashes     : Set.InjOn Crypto.sha256 w.hashed

def Signs (w : World) (recordType scope : String) (payload : Bytes) (key : SigningKeypair) : Prop :=
  ∃ h, ⟨recordType, scope, payload, key, h⟩ ∈ w.calls

end World

-- A key that the anchors know as a device key.
def DeviceAnchor (anchors : TrustAnchors) (key : SigningKeypair) : Prop :=
  ∃ pub, anchors.get key.pub.id = some pub ∧ pub.bytes = key.pub.bytes ∧ pub.role = .device

-- A checkpoint with the key that signed it, and the events that the ledger held.
structure Seal where
  key        : SigningKeypair
  checkpoint : Checkpoint
  events     : List Bytes

namespace Ledger

-- Every checkpoint that a device anchor vouches for is one of the seals.
def Authentic (node : String) (anchors : TrustAnchors) (seals : Set Seal) (envs : List Bytes) : Prop :=
  ∀ env ∈ envs, ∀ v, Envelope.verify env RecordType.CHECKPOINT node anchors [.device] = .ok v →
    ∃ s ∈ seals, DeviceAnchor anchors s.key ∧ v.payload = toCbor s.checkpoint

-- The runs of a ledger, with the envelopes of the events that it holds. A ledger may be opened in a
-- directory with any contents, but the seals in it have been made before.
inductive Writer (w : World) (node : String) (anchors : TrustAnchors) (seals : Set Seal) :
    Ledger → List Bytes → Prop
  | create {l : Ledger} {dir : Dir} {key : SigningKeypair} {bootId : Bytes.Fixed 16} :
      w.Signs RecordType.EVENT node (toCbor ((fresh dir node key bootId).event clock (genesis node))) key →
      (create dir io clock node key bootId).1 = .ok l →
      Writer w node anchors seals l [(fresh dir node key bootId).eventEnvelope clock (genesis node)]
  | append {l l' : Ledger} {envs : List Bytes} : Writer w node anchors seals l envs →
      w.Signs RecordType.EVENT l.node (toCbor (l.event clock d)) l.key →
      l.append io clock d = (.ok r, l') → Writer w node anchors seals l' (envs ++ [l.eventEnvelope clock d])
  | appendFailed {l l' : Ledger} : Writer w node anchors seals l envs →
      l.append io clock d = (.error e, l') → Writer w node anchors seals l' envs
  | checkpoint {l l' : Ledger} : Writer w node anchors seals l envs →
      l.checkpoint io now = (r, l') → Writer w node anchors seals l' envs
  | setSync {l : Ledger} {sync : Bool} : Writer w node anchors seals l envs →
      Writer w node anchors seals (l.setSync sync) envs
  | reopen {l : Ledger} {dir : Dir} {key : SigningKeypair} {bootId : Bytes.Fixed 16} {envs cpEnvs : List Bytes} :
      splitFrames (dir.readAll .events) = .ok (envs, len, tornLen) → treeInputs envs ⊆ w.hashed →
      splitFrames (dir.readAll .checkpoints) = .ok (cpEnvs, cpLen, cpTornLen) →
      Authentic node anchors seals cpEnvs →
      (openWithEvents dir node key anchors bootId).2 = .ok (l, report, evs) →
      Writer w node anchors seals l envs

-- The seals that runs make which find only the seals of earlier runs.
def Seals (w : World) (node : String) (anchors : TrustAnchors) : Nat → Set Seal
  | 0     => ∅
  | n + 1 => { s | treeInputs s.events ⊆ w.hashed ∧ ∃ l now,
      Writer w node anchors (Seals w node anchors n) l s.events ∧
      s.key = l.key ∧ s.checkpoint = l.nextCheckpoint now }

end Ledger
