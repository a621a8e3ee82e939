import JlrModel.Engine.Process
import JlrModel.Policy.Theorems.Validate

open Cbor Program

-- Puts the target of a revocation into the one form that the matcher compares.
def normalizeRevocationTarget (kind : RevocationKind) (target : String) : Except EngineError String :=
  let target := Text.trim target
  match kind with
  | .digest =>
    let chars := target.toList
    let hex := if Text.eqIgnoreAsciiCase (.ofList (chars.take 7)) "sha256:" then .ofList (chars.drop 7) else target
    (Except.okOr (.invalid <| .text <|
      "not a SHA-256 digest (64 hex digits, optionally prefixed sha256:): " ++ sanitize target)
      (Digest.fromHex hex)).map Digest.display
  | .epn    =>
    (Except.okOr (.invalid <| .text <| "not an EPN identifier: " ++ sanitize target)
      (EpnId.parse (Text.toAsciiUppercase target))).map EpnId.display
  | .signer =>
    if target = "" ∨ 256 < Text.len target ∨ sanitize target ≠ target then
      .error (.invalid <| .text "a signer identifier must be 1 to 256 printable characters")
    else
      .ok target

-- The name of a variant, as it is written for debugging.
def RevocationKind.debug : RevocationKind → String
  | .epn    => "Epn"
  | .digest => "Digest"
  | .signer => "Signer"

structure EnrollOptions where
  name             : String
  cell             : CellClass
  network          : NetworkMode
  ttlSecs          : UInt64
  grantedBy        : String
  includeUnmanaged : Bool

structure GrantOptions where
  cell         : CellClass
  network      : NetworkMode
  capabilities : List Capability
  ttlSecs      : UInt64
  grantedBy    : String

structure RevokeReport where
  moved     : Nat
  unchecked : Nat
  deriving DecidableEq

-- The artifacts that become members of a baseline: those that the package database vouches for, unless
-- others are included, and against which nothing speaks.
def enrols (includeUnmanaged : Bool) (s : Seen) : Bool :=
  let has (k : EvidenceKind) := s.evidence.any (·.kind = k)
  (includeUnmanaged ∨ (has .managedInstaller ∧ has .packageManifestMatch)) ∧
  ¬ has .contentDigestMismatch ∧ ¬ has .signatureInvalid ∧ ¬ has .forbiddenBehavior

-- The next list, with one more entry.
def Revocations.add (r : Revocations) (entry : RevocationEntry) : Revocations :=
  { r with
    epoch   := r.epoch + 1
    entries := r.entries ++ [entry]
  }

variable [Crypto]

-- The name of the file of a grant: its subject, and the first digits of the digest of its envelope.
def grantFile (stem : String) (bytes : Bytes) : String :=
  stem ++ "." ++ .ofList ((Text.hexDigits (Digest.of bytes).bytes.val).take 16) ++ ".cose"

namespace Host

-- Removes the other files of a subject. A file that can not be removed does no harm.
def removeSuperseded (kind : GrantKind) (beginning keep : String) : HostM Unit := do
  let names ← view fun h => (h.dir.grants kind).map Prod.fst
  let superseded := names.filter fun n =>
    Text.startsWith n beginning ∧ Text.endsWith n ".cose" ∧ n ≠ keep
  fold (fun _ name => do
    let _ ← attempt Halt.error? (operate .io (StateDir.removeGrant kind name))
    return ()) () superseded

end Host

namespace Engine

def loadPolicyKey : EngineM SigningKeypair := do
  let key ← view (·.dir.policyKey)
  ofExcept (key.mapError fun e => .error (.verification (.text ("policy key: " ++ e))))

-- Signs a file, which must pass the check that it is going to be loaded with.
def signChecked (recordType : String) (payload : Bytes) (key : SigningKeypair) (anchors : TrustAnchors) :
    Except EngineError Bytes := do
  let bytes := Envelope.sign recordType "*" payload key
  let _ ← (Envelope.verify bytes recordType "*" anchors (RecordType.allowedSigners recordType)).mapError
    fun err => .verification (.text err.display)
  return bytes

-- Writes the event that makes a grant the current one. Only then are the older files removed. If the event can not be
-- written, the engine goes back to what it knew before, and the file stays.
def makeCurrent (kind : GrantKind) (stem : String) (bytes : Bytes) (restore : Engine → Engine)
    (subject detail : String) : EngineM Unit := do
  let logged ← attempt Halt.error?
    (logSubject .override subject none none [Digest.of bytes] .manualOverride detail)
  match logged with
  | .error e => do update (Machine.setEngine restore); fail e
  | .ok ()   => onHost (Host.removeSuperseded kind (stem ++ ".") (grantFile stem bytes))

-- Installs a signed grant, first its file, under a name of its own.
def supersede (kind : GrantKind) (stem : String) (bytes : Bytes) (enter : Engine → Engine)
    (restore : Engine → Engine → Engine) (subject detail : String) : EngineM Unit := do
  onHost (Host.writeAtomic bytes (StateDir.putGrant kind (grantFile stem bytes)))
  let before ← view (·.engine)
  update (Machine.setEngine enter)
  makeCurrent kind stem bytes (restore before) subject detail

def enterBaseline (name : String) (b : VerifiedBaseline) (e : Engine) : Engine :=
  { e with baselines := e.baselines.filter (·.1 ≠ name) ++ [(name, b)] }

def restoreBaselines (before e : Engine) : Engine :=
  { e with baselines := before.baselines }

def enterApproval (id : EpnId) (a : Approval) (e : Engine) : Engine :=
  { e with approvals := e.approvals.insert id a }

def restoreApproval (id : EpnId) (before e : Engine) : Engine :=
  { e with approvals :=
    match before.approvals.lookup id with
    | some a => e.approvals.insert id a
    | none   => e.approvals.erase id }

-- The baseline of the artifacts that were seen.
def baselineOf (opts : EnrollOptions) (seen : List Seen) (now : UInt64) : Baseline :=
  Baseline.normalize {
    schema       := 1
    name         := opts.name
    cell         := opts.cell
    network      := opts.network
    capabilities := []
    grantedBy    := opts.grantedBy
    expiresAt    := now.saturatingAdd opts.ttlSecs
    members      := (seen.filter (enrols opts.includeUnmanaged)).map (·.record.id.digest)
  }

-- A baseline that was signed, with what the scan for its members has come to.
structure SignedBaseline where
  report   : ScanReport
  seen     : List Seen
  baseline : Baseline
  bytes    : Bytes
  verified : VerifiedBaseline

-- Signs the baseline of the given files.
def signBaseline (files : List Target) (opts : EnrollOptions) (full : Bool) : EngineM SignedBaseline := do
  let key ← loadPolicyKey
  let (report, seen) ← scanFilesInner files full true
  let time ← now
  let baseline := baselineOf opts seen time
  let e ← view (·.engine)
  let bytes := baseline.sign e.node.nodeId key
  let verified ← ofExcept ((Baseline.verify bytes e.node.nodeId e.anchors).mapError fun err =>
    .error (.verification (.text err.display)))
  return { report, seen, baseline, bytes, verified }

-- Enrols the given files as a baseline, and processes them under it.
def enrollBaseline (files : List Target) (opts : EnrollOptions) (full : Bool) : EngineM (ScanReport × Nat) := do
  let name := opts.name
  if name = "" ∨ ¬ name.toList.all fun c => c.isAlphanum ∨ c = '-' ∨ c = '_' then
    fail (.invalid (.text "baseline name must be alphanumeric, '-' or '_'"))
  else do
    let b ← signBaseline files opts full
    let count := b.baseline.members.length
    supersede .baseline name b.bytes (enterBaseline name b.verified) restoreBaselines (baselineSubject name)
      ("baseline " ++ name ++ " enrolled by " ++ sanitizeTo opts.grantedBy 100 ++ ": " ++ toString count ++ " members")
    setSync false
    let result ← attempt Halt.error?
      (fold (fun r s => do return ScanReport.count r s.path (← process s [])) b.report b.seen)
    setSync true
    flush
    saveIndex
    let report ← ofExcept (result.mapError .error)
    return (report, count)

-- Decides about an artifact that was approved, with the evidence that is true now. `look` is what is at a path.
def reassess (id : EpnId) (record : EpnRecord) (look : String → Option (Except String Observation)) :
    EngineM Decision := do
  let row ← view fun m => m.engine.index.find? (·.2.epn = id.display)
  match row.bind fun r => look r.2.path with
  | none          => evaluateNow record [] []
  | some observed => do
    let obs ← ofExcept (observed.mapError (.error ∘ .measure))
    let seen ← seenFrom obs
    let p ← process seen []
    flush
    saveIndex
    return p.decision

-- An approval that was signed, with the record of its artifact.
structure SignedApproval where
  id       : EpnId
  record   : EpnRecord
  bytes    : Bytes
  verified : Approval

-- Signs an approval for a known artifact.
def signApproval (epn : String) (opts : GrantOptions) : EngineM SignedApproval := do
  let id ← ofExcept (Except.okOr (.error (.invalid (.text ("not an EPN identifier: " ++ epn)))) (EpnId.parse epn))
  let known ← view fun m => (m.engine.states.lookup id).isSome
  if ¬ known then
    fail (.invalid (.text (id.display ++ " is not known to this machine")))
  else do
    let stored ← view (·.dir.loadRecord id)
    let record ← ofExcept (Except.okOr
      (.error (.invalid (.text "the artifact's record is missing from the object store"))) stored)
    let key ← loadPolicyKey
    let time ← now
    let approval : Approval := {
      epn          := id.display
      cell         := opts.cell
      network      := opts.network
      capabilities := opts.capabilities
      expiresAt    := time.saturatingAdd opts.ttlSecs
      grantedBy    := opts.grantedBy
    }
    let e ← view (·.engine)
    let bytes := approval.sign e.node.nodeId key
    let verified ← ofExcept ((Approval.verify bytes e.node.nodeId e.anchors).mapError fun err =>
      .error (.verification (.text err.display)))
    return { id, record, bytes, verified }

-- Records an operator approval for a known artifact and applies it.
def approve (epn : String) (opts : GrantOptions) (look : String → Option (Except String Observation)) :
    EngineM Decision := do
  let a ← signApproval epn opts
  supersede .approval a.id.digest.hex a.bytes (enterApproval a.id a.verified) (restoreApproval a.id) a.id.display
    ("operator " ++ sanitizeTo opts.grantedBy 100 ++ " approved " ++ sanitizeTo a.record.name 100 ++
      " cell=" ++ Coded.asStr opts.cell ++ " network=" ++ Coded.asStr opts.network)
  let decision ← reassess a.id a.record look
  flush
  return decision

-- Applies a new revocation to one artifact that is not revoked yet.
def revokeOne (kind : RevocationKind) (target reason : String) (r : RevokeReport) (id : EpnId) :
    EngineM RevokeReport := do
  let e ← view (·.engine)
  match ← view (·.dir.loadRecord id) with
  | some record =>
    if (e.revocations.hit record).isSome then do
      let d ← evaluateNow record [] []
      let ev ← storeEvidence []
      let n ← applyDecision id d ev ("revoked: " ++ reason)
      return { r with moved := r.moved + n }
    else
      return r
  | none        =>
    -- An identifier can be revoked without the record of its artifact, the other kinds need its fields.
    if kind = .epn ∧ id.display = target then do
      let ev ← storeEvidence []
      let n ← applyDecision id (e.heldBack .revoked .revoked .policy) ev ("revoked: " ++ reason)
      return { r with moved := r.moved + n }
    else if kind ≠ .epn then
      return { r with unchecked := r.unchecked + 1 }
    else
      return r

-- The known artifacts that are not revoked, in an order that is not specified.
def unrevoked (e : Engine) (order : List EpnId → List EpnId) : List EpnId :=
  order ((e.states.entries.filter (·.2 ≠ .revoked)).map (·.1))

-- Adds a revocation, signs the new list and applies it to the known artifacts.
def revokeReport (order : List EpnId → List EpnId) (kind : RevocationKind) (target reason : String) :
    EngineM RevokeReport := do
  let target ← ofExcept ((normalizeRevocationTarget kind target).mapError .error)
  let reason := sanitize reason
  let key ← loadPolicyKey
  let e ← view (·.engine)
  let list := e.revocations.add { kind, target, reason }
  let bytes ← ofExcept ((signChecked RecordType.REVOCATIONS (toCbor list) key e.anchors).mapError .error)
  onHost (Host.writeAtomic bytes fun f dir => { dir with revocations := some f })
  update (Machine.setEngine fun e => { e with revocations := list })
  log .revocation none none none [Digest.of bytes] .policy
    ("revocations epoch=" ++ toString list.epoch ++ " added " ++ kind.debug ++ " " ++ target ++ ": " ++ reason)
  let ids ← view fun m => m.engine.unrevoked order
  let r ← fold (revokeOne kind target reason) ⟨0, 0⟩ ids
  onlyIf (0 < r.unchecked) <| log .degraded none none none [] .none <|
    toString r.unchecked ++ " known artifacts could not be checked against the new revocation: " ++
    "their records are missing from the object store"
  flush
  return r

-- What is logged about a policy that was installed.
def policyDetail (p : Policy) : String :=
  "policy=" ++ p.name ++ " epoch=" ++ toString p.epoch ++ " digest=" ++ p.digest.display

-- Installs a new policy, whose epoch must be greater than the current one.
def setPolicy (new : Policy) : EngineM Digest := do
  let e ← view (·.engine)
  match h : new.validateReplacing e.policy.toPolicy with
  | .error err => fail (.invalid (.policy err))
  | .ok ()     =>
    if new.epoch ≤ e.policy.epoch then
      fail <| .rollback <| "policy epoch " ++ toString new.epoch ++ " must be greater than the current epoch " ++
        toString e.policy.epoch
    else do
      let key ← loadPolicyKey
      let bytes ← ofExcept ((signChecked RecordType.POLICY (toCbor new) key e.anchors).mapError .error)
      onHost (Host.writeAtomic bytes fun f dir => { dir with policy := some f })
      let valid : ValidPolicy := ⟨new, Policy.validateLoaded_of_replacing h⟩
      update (Machine.setEngine fun e => { e with policy := valid })
      log .policyLoad none none none [new.digest] .policy (policyDetail new)
      flush
      return new.digest

-- Records the outcome of an exec decision.
def recordExec (id : Option EpnId) (path verdict : String) (d : Decision) : EngineM Unit := do
  log .enforcement id none none [] .policy
    ("exec gate: " ++ verdict ++ " " ++ shown path ++ ": state " ++ Coded.asStr d.state ++ " [" ++
      joinReasons d.reasons ++ "]")
  flush

-- Records several degraded conditions with one flush at the end.
def recordDegradedMany (details : List String) : EngineM Unit := do
  setSync false
  let result ← attempt Halt.error? (fold (fun _ d => log .degraded none none none [] .none d) () details)
  setSync true
  ofExcept (result.mapError .error)
  flush

def recordDegraded (detail : String) : EngineM Unit := do
  log .degraded none none none [] .none detail
  flush

def checkpoint : EngineM Unit :=
  onHost Host.checkpoint

end Engine
