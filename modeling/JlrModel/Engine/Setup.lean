import JlrModel.Engine.Authority
import JlrModel.Engine.Open
import JlrModel.Policy.Defaults

open Cbor Program

inductive PolicyKind
  | workstation | strict

def PolicyKind.policy : PolicyKind → Policy
  | .workstation => .workstation 1
  | .strict      => .strict 1

variable [Crypto]

-- A directory in which nothing has been set up.
def StateDir.empty (root : String) : StateDir where
  root         := root
  node         := none
  anchors      := .error (.io "No such file or directory (os error 2)")
  deviceKey    := .error "No such file or directory (os error 2)"
  policyKey    := .error "No such file or directory (os error 2)"
  policy       := none
  revocations  := none
  grants _     := []
  unreadable _ := []
  objects _ _  := none
  index        := none
  log          := { events := [], left := none, torn := 0, cpTorn := 0, covered := 0 }

namespace Host

-- Creates the ledger with its first event, as `Ledger::create`.
def createLedger (node : String) : HostM Unit := do
  let locked ← view (·.locked)
  let log ← view (·.dir.log)
  if locked then
    fail (.ledger .locked)
  -- A file that has only a part of an event counts as well.
  else if log.replayed ≠ [] ∨ log.torn ≠ 0 then
    fail (.ledger (.corrupt 0 "ledger already exists"))
  else do
    update (setLedger fun _ => .new)
    append (Ledger.genesis node)

end Host

namespace Engine

-- The random values that a new installation is made of.
structure Seeds where
  device : Bytes.Fixed 32
  policy : Bytes.Fixed 32
  node   : Bytes.Fixed 16

def keyDetail (key : PublicKey) : String :=
  "enrolled " ++ key.role.name ++ " key " ++ key.id.display

-- What the setup logs.
def setupNote (kind : EventKind) (detail : String) : EventDraft :=
  { EventDraft.new "jlr-init" kind detail with basis := .policy }

-- Initialises a state directory: the keys, the policy, an empty revocation list and the first events. The record of
-- the node is written last.
def init (kind : PolicyKind) (time : UInt64) (seeds : Seeds) : HostM NodeInfo := do
  let dir ← view (·.dir)
  if dir.node.isSome then
    Host.fail .alreadyInitialised
  else do
    let device : SigningKeypair := { seed := seeds.device, role := .device }
    let policyKey : SigningKeypair := { seed := seeds.policy, role := .policy }
    Host.operate (.invalid ∘ .text) fun dir => { dir with deviceKey := .ok device }
    Host.operate (.invalid ∘ .text) fun dir => { dir with policyKey := .ok policyKey }
    let anchors := (TrustAnchors.new.insert device.pub).insert policyKey.pub
    Host.operate .io fun dir => { dir with anchors := .ok anchors }
    let policy := kind.policy
    ofExcept (policy.validate.mapError (.error ∘ .invalid ∘ .policy))
    Host.writeAtomic (Envelope.sign RecordType.POLICY "*" (toCbor policy) policyKey)
      fun f dir => { dir with policy := some f }
    Host.writeAtomic (Envelope.sign RecordType.REVOCATIONS "*" (toCbor Revocations.empty) policyKey)
      fun f dir => { dir with revocations := some f }
    let node : NodeInfo := {
      nodeId    := "node-" ++ Text.hex seeds.node.val
      createdAt := time
      mode      := "companion"
    }
    Host.createLedger node.nodeId
    fold (fun _ k => Host.append (setupNote .keyEvent (keyDetail k))) () (anchors.keys.map Prod.snd)
    Host.append { setupNote .policyLoad (policyDetail policy) with policy := policy.digest }
    Host.checkpoint
    Host.writeAtomic (toCbor node) fun f dir => { dir with node := some f }
    return node

end Engine
