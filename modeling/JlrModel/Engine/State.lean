import JlrModel.Engine.Route
import JlrModel.Engine.Store
import JlrModel.Lib.Saturating
import JlrModel.Policy.Evaluate
import JlrModel.Policy.Signed
import Mathlib.Data.List.AList

open Cbor Program

-- A checkpoint is written after this many events.
def CHECKPOINT_EVERY : Nat := 256

abbrev States := AList fun _ : EpnId => AdmissionState

variable [Crypto]

-- An open engine.
structure Engine where
  node        : NodeInfo
  anchors     : TrustAnchors
  policy      : ValidPolicy
  revocations : Revocations
  baselines   : List (String × VerifiedBaseline)
  approvals   : AList fun _ : EpnId => Approval
  states      : States
  index       : List (String × IndexRow)

structure Machine where
  host   : Host
  engine : Engine

abbrev EngineM := Program Machine Halt

namespace Machine

def dir (m : Machine) : StateDir :=
  m.host.dir

def setHost (h : Host) (m : Machine) : Machine :=
  { m with host := h }

def setEngine (f : Engine → Engine) (m : Machine) : Machine :=
  { m with engine := f m.engine }

end Machine

def runnable (s : AdmissionState) : Bool :=
  s = .observed ∨ s = .verified ∨ s = .admitted

-- The subject of the events about a baseline.
def baselineSubject (name : String) : String :=
  "baseline:" ++ name

def joinReasons (reasons : List ReasonCode) : String :=
  String.intercalate "," (reasons.map Coded.asStr)

namespace Engine

def onHost (x : HostM α) : EngineM α :=
  zoom Machine.host Machine.setHost x

def fail (e : EngineError) : EngineM α :=
  halt (.error e)

def now : EngineM UInt64 :=
  onHost Host.now

-- The authority that an operator has given for an artifact.
def approvalFor (e : Engine) (id : EpnId) (now : UInt64) : Option Approval :=
  match (e.approvals.lookup id).filter (·.appliesTo id now) with
  | some a => some a
  | none   => e.baselines.findSome? fun b => b.2.approvalFor id now

def facts (e : Engine) (record : EpnRecord) (evidence : List EvidenceItem) (requested : List Capability)
    (now : UInt64) : Facts where
  artifact    := record
  evidence    := evidence
  requested   := requested
  prior       := e.states.lookup record.id
  revocations := e.revocations
  approval    := e.approvalFor record.id now

def evaluateAt (e : Engine) (record : EpnRecord) (evidence : List EvidenceItem) (requested : List Capability)
    (now : UInt64) : Decision :=
  evaluate e.policy (e.facts record evidence requested now) now

def evaluateNow (record : EpnRecord) (evidence : List EvidenceItem) (requested : List Capability) :
    EngineM Decision := do
  let time ← now
  view fun m => m.engine.evaluateAt record evidence requested time

-- A decision that holds an artifact back, without an evaluation.
def heldBack (e : Engine) (state : AdmissionState) (reason : ReasonCode) (basis : Basis) : Decision where
  state        := state
  cell         := .cell0
  network      := .none
  capabilities := []
  reasons      := [reason]
  basis        := basis
  needsUser    := none
  policy       := e.policy.digest

-- Makes every object durable, then the ledger.
def flush : EngineM Unit := do
  onHost Host.syncFs
  let log ← view (·.dir.log)
  onlyIf (CHECKPOINT_EVERY ≤ log.events.length - log.covered) (onHost Host.checkpoint)
  onHost Host.syncLedger

def draft (e : Engine) (kind : EventKind) (subject : Option String) (old new : Option AdmissionState)
    (evidence : List Digest) (basis : Basis) (detail : String) : EventDraft where
  actor    := "jlr-engine"
  subject  := subject
  kind     := kind
  oldState := old
  newState := new
  policy   := e.policy.digest
  evidence := evidence
  basis    := basis
  detail   := sanitize detail

def logSubject (kind : EventKind) (subject : Option String) (old new : Option AdmissionState)
    (evidence : List Digest) (basis : Basis) (detail : String) : EngineM Unit := do
  let sync ← view (·.host.ledger.sync)
  onlyIf (evidence ≠ [] ∧ sync) (onHost Host.syncFs)
  let e ← view (·.engine)
  onHost (Host.append (e.draft kind subject old new evidence basis detail))

def log (kind : EventKind) (subject : Option EpnId) (old new : Option AdmissionState)
    (evidence : List Digest) (basis : Basis) (detail : String) : EngineM Unit :=
  logSubject kind (subject.map EpnId.display) old new evidence basis detail

def setSync (sync : Bool) : EngineM Unit :=
  onHost (Host.setSync sync)

def storeEvidence (items : List EvidenceItem) : EngineM Digest :=
  onHost (Host.putObject .evidence (encode (.array (items.map toValue))))

-- Whether the record was not there before.
def storeRecord (record : EpnRecord) : EngineM Bool := do
  let existed ← view (·.dir.hasObject .epn record.id.digest)
  let _ ← onHost (Host.putObject .epn (toCbor record))
  return !existed

def saveIndex : EngineM Unit := do
  let index ← view (·.engine.index)
  onHost (Host.saveIndex index)

def setState (id : EpnId) (state : AdmissionState) : EngineM Unit :=
  update (Machine.setEngine fun e => { e with states := e.states.insert id state })

-- One step of a route, the event and then the state.
def applyStep (id : EpnId) (decision : Decision) (evidence : Digest) (detail : String) (n i : Nat)
    (cur : Option AdmissionState) (step : AdmissionState) : EngineM Unit := do
  log .transition id cur step [evidence] decision.basis
    (detail ++ " [" ++ joinReasons decision.reasons ++ "] step " ++ toString (i + 1) ++ "/" ++ toString n)
  setState id step

-- The steps of a route, of which those before the `i`th have been made.
def applySteps (id : EpnId) (decision : Decision) (evidence : Digest) (detail : String) (n : Nat) :
    (i : Nat) → (cur : Option AdmissionState) → List AdmissionState → EngineM Unit
  | _, _, []              => return ()
  | i, cur, step :: steps => do
    applyStep id decision evidence detail n i cur step
    applySteps id decision evidence detail n (i + 1) step steps

-- Applies a decision to the ledger, one legal step at a time. Returns the number of steps.
def applyDecision (id : EpnId) (decision : Decision) (evidence : Digest) (detail : String) : EngineM Nat := do
  let prior ← view (·.engine.states.lookup id)
  if prior = some decision.state then
    return 0
  else
    let start := prior.getD .unknown
    match AdmissionState.route start decision.state with
    | none       =>
      fail <| .invalid <| .text <| "no legal route " ++ Coded.asStr start ++ " -> " ++ Coded.asStr decision.state
    | some steps => do
      applySteps id decision evidence detail steps.length 0 prior steps
      return steps.length

end Engine
