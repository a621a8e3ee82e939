import JlrModel.Policy.Grant
import JlrModel.Policy.Revocation
import JlrModel.Policy.Validate
import Mathlib.Data.List.Destutter

deriving instance Ord for Capability

-- Everything that a decision depends on.
structure Facts where
  artifact    : EpnRecord
  evidence    : List EvidenceItem
  requested   : List Capability
  prior       : Option AdmissionState
  revocations : Revocations
  approval    : Option Approval

namespace Facts

def has (f : Facts) (kind : EvidenceKind) : Bool :=
  f.evidence.any (·.kind = kind)

end Facts

-- The network that a cell may hold at most.
def capNetwork (cell : CellClass) (network : NetworkMode) : NetworkMode :=
  match cell with
  | .cell0 => .none
  | .cell1 =>
    if Coded.code NetworkMode.destinationAllowlist < Coded.code network then .destinationAllowlist else network
  | _      => network

namespace Tier

def matchesFacts (t : Tier) (f : Facts) : Bool :=
  (t.classes = [] ∨ f.artifact.cls ∈ t.classes) ∧
  f.artifact.provenance.satisfies t.maxProvenance ∧
  t.requireEvidence.all f.has

def basis (t : Tier) : Basis :=
  if t.requireEvidence.any (· ∈ [.signatureValid, .packageSignature, .reproducibleMatch]) then .cryptographic
  else if t.grantsRun then .policy
  else .none

end Tier

namespace ValidPolicy

-- The first tier that matches. The last one matches every artifact.
def tier (p : ValidPolicy) (f : Facts) : Tier :=
  (p.tiers.find? (·.matchesFacts f)).getD (p.tiers.getLast p.rules.nonempty)

end ValidPolicy

-- A decision while it is being made. Its lists are sorted in the end.
structure Draft where
  state        : AdmissionState
  cell         : CellClass
  network      : NetworkMode
  capabilities : List Capability
  reasons      : List ReasonCode
  basis        : Basis
  needsUser    : Option String

namespace Draft

def finish (d : Draft) (policy : Digest) : Decision where
  state        := d.state
  cell         := d.cell
  network      := d.network
  capabilities := (d.capabilities.mergeSort fun a b => (compare a b).isLE).destutter (· ≠ ·)
  reasons      := (d.reasons.mergeSort fun a b => Coded.code a ≤ Coded.code b).destutter (· ≠ ·)
  basis        := d.basis
  needsUser    := d.needsUser
  policy       := policy

-- An artifact that is held back.
def held (state : AdmissionState) (reason : ReasonCode) (basis : Basis) : Draft where
  state        := state
  cell         := .cell0
  network      := .none
  capabilities := []
  reasons      := [reason]
  basis        := basis
  needsUser    := none

-- What the first matching tier says.
def ofTier (t : Tier) (f : Facts) : Draft where
  state        := t.state
  cell         := t.cell
  network      := t.network
  capabilities := []
  reasons      := [t.reason]
  basis        := t.basis
  needsUser    := if t.needsUser then some ("Allow " ++ f.artifact.name ++ " (" ++ t.name ++ ")?") else none

-- The decision before the guards: an invalid signature, or else the tier.
def base (p : ValidPolicy) (f : Facts) : Draft :=
  if f.has .signatureInvalid then
    { held .quarantined .badSignature .none with needsUser := some "signature did not verify" }
  else
    ofTier (p.tier f) f

def guardSetuid (p : ValidPolicy) (f : Facts) (d : Draft) : Draft :=
  if f.has .setuidBit ∧ ¬ f.artifact.provenance.satisfies p.setuidMinProvenance then { d with
    state     := .quarantined
    cell      := .cell0
    network   := .none
    basis     := .none
    needsUser := some (f.artifact.name ++ " is setuid and its origin is not trusted enough")
    reasons   := d.reasons ++ [.setuidExecutable]
  } else
    d

def guardWritable (p : ValidPolicy) (f : Facts) (d : Draft) : Draft :=
  if f.has .writablePath ∧ p.writablePathMaxCell < d.cell then { d with
    cell    := p.writablePathMaxCell
    network := capNetwork p.writablePathMaxCell d.network
    reasons := d.reasons ++ [.writableLocation, .cellCapped]
  } else
    d

-- One requested capability. Those with a high risk are withheld and raise a question.
def request (f : Facts) (d : Draft) (c : Capability) : Draft :=
  if c.isHighRisk then { d with
    reasons   := d.reasons ++ [.highRiskCapability]
    needsUser := d.needsUser.or (some (f.artifact.name ++ " requests " ++ c.display))
  } else
    { d with capabilities := d.capabilities ++ [c] }

-- Only artifacts that run normally receive any capabilities, and never in CELL-0.
def grantRequested (f : Facts) (d : Draft) : Draft :=
  if d.state.permitsNormalExecution ∧ .cell0 < d.cell then f.requested.foldl (request f) d else d

-- An operator approval raises the artifact within the policy's manual ceiling.
def approve (p : ValidPolicy) (a : Approval) (d : Draft) : Draft :=
  let cell := if a.cell ≤ p.maxManualCell then a.cell else p.maxManualCell
  { d with
    state        := .admitted
    cell         := cell
    network      := capNetwork cell a.network
    capabilities := if .cell0 < cell then a.capabilities else []
    basis        := if d.state.permitsNormalExecution then d.basis else .manualOverride
    needsUser    := none
    reasons      := (if p.maxManualCell < a.cell then d.reasons ++ [.cellCapped] else d.reasons) ++
      [.operatorAuthorized]
  }

end Draft

variable [Crypto]

namespace Facts

-- The approval that is presented, if it is for this artifact and still in force.
def grant (f : Facts) (now : UInt64) : Option Approval :=
  f.approval.filter (·.appliesTo f.artifact.id now)

-- The reasons that nothing overrides. Revocation comes first, then a change of the content of
-- something that was trusted, then the prohibitions.
def verdict (f : Facts) (p : ValidPolicy) : Option Draft :=
  if (f.revocations.hit f.artifact).isSome ∨ f.has .revocationHit then
    some (.held .revoked .revoked .policy)
  else if f.prior = some .revoked then
    some (.held .revoked .previouslyRevoked .policy)
  else if f.has .contentDigestMismatch then
    some (.held (if f.prior = some .verified ∨ f.prior = some .admitted then .degraded else .quarantined)
      .contentChanged .none)
  else if f.has .forbiddenBehavior ∨ f.artifact.cls ∈ p.blockClasses then
    some (.held .policyBlocked .policyProhibition .policy)
  else
    none

end Facts

namespace Draft

-- The tier with its guards, and the capabilities that are granted without an operator.
def automatic (p : ValidPolicy) (f : Facts) : Draft :=
  grantRequested f (guardWritable p f (guardSetuid p f (base p f)))

def decide (p : ValidPolicy) (f : Facts) (now : UInt64) : Draft :=
  match f.verdict p with
  | some d => d
  | none   =>
    match f.grant now with
    | some a => (automatic p f).approve p a
    | none   => automatic p f

end Draft

-- Evaluates one artifact under one policy.
def evaluate (p : ValidPolicy) (f : Facts) (now : UInt64) : Decision :=
  (Draft.decide p f now).finish p.digest
