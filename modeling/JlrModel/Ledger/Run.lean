import JlrModel.Ledger.Journal

-- A device key that the verifiers of a ledger know. What was signed with it is accepted.
structure DeviceKey [Crypto] (anchors : TrustAnchors) (key : SigningKeypair) : Prop where
  anchored : anchors.get key.pub.id = some key.pub
  role     : key.role = .device
  correct  : ∀ message, verifySignature key.pub message (key.sign message) = .ok ()

namespace Ledger

variable [Crypto]

-- The calls that succeed, with what they add to the history. An event is one that a reader accepts:
-- its envelope is not too long, and it is not the start of another ledger.
inductive Step (node : String) (anchors : TrustAnchors) : Ledger × Journal → Ledger × Journal → Prop
  | append {l l' : Ledger} :
      d.kind ≠ .genesis → (l.eventEnvelope clock d).length ≤ MAX_FRAME →
      l.append io clock d = (.ok r, l') →
      Step node anchors (l, j) (l', j.append (l.event clock d) (l.eventEnvelope clock d))
  | checkpoint {l l' : Ledger} :
      l.checkpoint io now = (.ok env, l') →
      Step node anchors (l, j) (l', j.commit (l.nextCheckpoint now) env)
  | setSync {l : Ledger} {sync : Bool} : Step node anchors (l, j) (l.setSync sync, j)
  -- The ledger is dropped, and opened with a key that the verifiers know.
  | reopen {l l' : Ledger} {key : SigningKeypair} {anchors' : TrustAnchors} {bootId : Bytes.Fixed 16} :
      DeviceKey anchors key →
      (openWithEvents l.dir node key anchors' bootId).2 = .ok (l', report, evs) →
      Step node anchors (l, j) (l', j)

-- The runs from the creation of a ledger on, in a directory without logs.
inductive Run (node : String) (anchors : TrustAnchors) : Ledger → Journal → Prop
  | create {l : Ledger} {dir : Dir} {key : SigningKeypair} {bootId : Bytes.Fixed 16} :
      DeviceKey anchors key → dir.readAll .checkpoints = [] →
      ((fresh dir node key bootId).eventEnvelope clock (genesis node)).length ≤ MAX_FRAME →
      (create dir io clock node key bootId).1 = .ok l →
      Run node anchors l (Journal.new.append ((fresh dir node key bootId).event clock (genesis node))
        ((fresh dir node key bootId).eventEnvelope clock (genesis node)))
  | step {l l' : Ledger} : Run node anchors l j → Step node anchors (l, j) (l', j') →
      Run node anchors l' j'

-- The runs of a ledger whose directory may have any contents when it is opened, with the envelopes of the
-- events that the ledger holds. A call may fail.
inductive Holding (node : String) : Ledger → List Bytes → Prop
  | create {l : Ledger} {dir : Dir} {key : SigningKeypair} {bootId : Bytes.Fixed 16} :
      (create dir io clock node key bootId).1 = .ok l →
      Holding node l [(fresh dir node key bootId).eventEnvelope clock (genesis node)]
  | append {l l' : Ledger} {envs : List Bytes} : Holding node l envs → l.append io clock d = (.ok r, l') →
      Holding node l' (envs ++ [l.eventEnvelope clock d])
  | appendFailed {l l' : Ledger} : Holding node l envs → l.append io clock d = (.error e, l') →
      Holding node l' envs
  | checkpoint {l l' : Ledger} : Holding node l envs → l.checkpoint io now = (r, l') → Holding node l' envs
  | setSync {l : Ledger} {sync : Bool} : Holding node l envs → Holding node (l.setSync sync) envs
  | reopen {l : Ledger} {dir : Dir} {key : SigningKeypair} {bootId : Bytes.Fixed 16} {envs cpEnvs : List Bytes} :
      splitFrames (dir.readAll .events) = .ok (envs, len, tornLen) →
      splitFrames (dir.readAll .checkpoints) = .ok (cpEnvs, cpLen, cpTornLen) →
      (openWithEvents dir node key anchors bootId).2 = .ok (l, report, evs) →
      Holding node l envs

end Ledger
