import JlrModel.Engine.State

open Cbor Program

-- The metadata of a file, with its times in seconds and nanoseconds.
structure Metadata where
  len       : UInt64
  mtime     : Int64
  mtimeNsec : Int64
  ctime     : Int64
  ctimeNsec : Int64
  ino       : UInt64
  dev       : UInt64

-- The state of a file before it was hashed.
structure Stamp where
  size    : UInt64
  mtimeNs : UInt64
  ctimeNs : UInt64
  ino     : UInt64
  dev     : UInt64

def nowNs (secs nsec : Int64) : UInt64 :=
  let nonneg (i : Int64) := if i < 0 then 0 else i.toUInt64
  ((nonneg secs).saturatingMul 1000000000).saturatingAdd (nonneg nsec)

-- What observing a file comes to. Its record says where it was found.
structure Observation where
  record   : EpnRecord
  evidence : List EvidenceItem
  path     : String
  stamp    : Stamp
  located  : record.source.path = some path

structure Seen where
  path     : String
  record   : EpnRecord
  evidence : List EvidenceItem
  row      : IndexRow

structure Processed where
  decision      : Decision
  transitions   : Nat
  isNew         : Bool
  degradedPrior : Bool

-- One file of a scan: its path, its metadata if there are any, and what observing it comes to.
structure Target where
  path     : String
  metadata : Option Metadata
  observed : Except String Observation

structure ScanReport where
  examined     : Nat
  unchanged    : Nat
  newArtifacts : Nat
  transitions  : Nat
  degraded     : List String
  byState      : AdmissionState → Nat
  errors       : List (String × String)

def ScanReport.new : ScanReport where
  examined     := 0
  unchanged    := 0
  newArtifacts := 0
  transitions  := 0
  degraded     := []
  byState _    := 0
  errors       := []

-- Counts what processing the file at a path has come to.
def ScanReport.count (r : ScanReport) (path : String) (p : Processed) : ScanReport :=
  { r with
    transitions  := r.transitions + p.transitions
    newArtifacts := r.newArtifacts + p.isNew.toNat
    byState      := Function.update r.byState p.decision.state (r.byState p.decision.state + 1)
    degraded     := if p.degradedPrior ∨ p.decision.state = .degraded then r.degraded ++ [path] else r.degraded
  }

variable [Crypto]

-- The verdict on one attempted execution.
structure ExecVerdict where
  id           : Option EpnId
  unmeasurable : Option String
  decision     : Decision
  allowed      : Bool
  enforce      : Bool
  maxAgeSecs   : UInt64

def rowOf (path : String) (epn : EpnId) (st : Stamp) (measuredAt : UInt64) : IndexRow where
  path        := path
  epn         := epn.display
  size        := st.size
  mtimeNs     := st.mtimeNs
  ctimeNs     := st.ctimeNs
  ino         := st.ino
  dev         := st.dev
  measuredAt  := measuredAt
  validUntil  := 0
  policyEpoch := 0

-- Whether a row is about a file with this metadata.
def IndexRow.describes (row : IndexRow) (m : Metadata) : Bool :=
  row.size = m.len ∧ row.mtimeNs = nowNs m.mtime m.mtimeNsec ∧ row.ctimeNs = nowNs m.ctime m.ctimeNsec ∧
  row.ino = m.ino ∧ row.dev = m.dev

-- Whether the row on disk is as good as the new one, which may have been measured later and be valid longer.
def rowsEquivalent : Option IndexRow → Option IndexRow → Bool
  | some x, some y =>
    x.validUntil ≤ y.validUntil ∧
    { x with measuredAt := 0, validUntil := 0 } = { y with measuredAt := 0, validUntil := 0 }
  | none, none     => true
  | _, _           => false

namespace Engine

-- The path is the attacker's, and bounded on its own.
def shown (path : String) : String :=
  sanitizeTo path 300

-- Degrading an identity whose bytes changed does not need its record.
def replacedDecision (record : Option EpnRecord) (oldState : AdmissionState) (mismatch : EvidenceItem) :
    EngineM Decision :=
  match record with
  | some r => evaluateNow r [mismatch] []
  | none   =>
    let state := if oldState = .verified ∨ oldState = .admitted then .degraded else .quarantined
    view fun m => m.engine.heldBack state .contentChanged .none

-- Handles a path whose content is no longer that of `old`. Returns the number of steps, and whether the
-- old artifact is degraded now.
def onReplaced (old : EpnId) (path : String) : EngineM (Nat × Bool) := do
  match ← view (·.engine.states.lookup old) with
  | none          => return (0, false)
  | some oldState =>
    if oldState = .revoked ∨ oldState = .degraded ∨ oldState = .quarantined then
      return (0, false)
    else do
      let record ← view (·.dir.loadRecord old)
      let time ← now
      let mismatch : EvidenceItem := {
        kind   := .contentDigestMismatch
        source := "measure"
        «at»   := time
        detail := "content at " ++ shown path ++ " no longer matches " ++ old.display
        digest := none
      }
      let ev ← storeEvidence [mismatch]
      log .mismatch old oldState none [ev] .none ("content at " ++ shown path ++ " changed")
      let decision ← replacedDecision record oldState mismatch
      let n ← applyDecision old decision ev ("content changed at " ++ shown path)
      let state ← view (·.engine.states.lookup old)
      return (n, state = some .degraded)

-- Steps back an artifact that another one has replaced at its path.
def replaced (path : String) (id : EpnId) : EngineM (Nat × Bool) := do
  match (← view fun m => SortedMap.get path m.engine.index).bind fun r => EpnId.parse r.epn with
  | some old => if old ≠ id then onReplaced old path else return (0, false)
  | none     => return (0, false)

def setRow (path : String) (row : IndexRow) : EngineM Unit :=
  update (Machine.setEngine fun e => { e with index := SortedMap.insert path row e.index })

-- A row may be reused only while the evidence and every authority it relied on are still valid.
def validUntil (e : Engine) (id : EpnId) (now : UInt64) : UInt64 :=
  let limit := now.saturatingAdd e.policy.evidenceMaxAgeSecs
  match e.approvalFor id now with
  | some a => if a.expiresAt < limit then a.expiresAt else limit
  | none   => limit

-- The events about an artifact that has been evaluated.
def settle (seen : Seen) (isNew : Bool) (decision : Decision) : EngineM Nat := do
  let id := seen.record.id
  let state ← view (·.engine.states.lookup id)
  -- Evidence is stored only when an event is going to cite it.
  let ev ← (if isNew ∨ state ≠ some decision.state then storeEvidence seen.evidence else pure Digest.ZERO)
  let name := sanitizeTo seen.record.name 100
  onlyIf isNew <| log .discover id none none [ev] .none
    (Coded.asStr seen.record.cls ++ " " ++ name ++ " at " ++ shown seen.path)
  applyDecision id decision ev (name ++ " at " ++ shown seen.path)

-- The row that an artifact is given at a time.
def entry (e : Engine) (seen : Seen) (time : UInt64) : IndexRow :=
  { seen.row with validUntil := e.validUntil seen.record.id time, policyEpoch := e.policy.epoch }

def process (seen : Seen) (requested : List Capability) : EngineM Processed := do
  let id := seen.record.id
  let (n, degradedPrior) ← replaced seen.path id
  let stored ← storeRecord seen.record
  let isNew ← view fun m => stored || (m.engine.states.lookup id).isNone
  let decision ← evaluateNow seen.record seen.evidence requested
  let steps ← settle seen isNew decision
  let time ← now
  let row ← view (·.engine.entry seen time)
  setRow seen.path row
  return { decision, transitions := n + steps, isNew, degradedPrior }

-- The row is made from the stamp that was taken before the file was hashed.
def seenFrom (obs : Observation) : EngineM Seen := do
  let time ← now
  return {
    path     := obs.path
    record   := obs.record
    evidence := obs.evidence
    row      := rowOf obs.path obs.record.id obs.stamp time
  }

-- The part of the test for an unchanged file that needs no clock.
def rowFits (e : Engine) (row : IndexRow) : Bool :=
  row.policyEpoch = e.policy.epoch ∧ (EpnId.parse row.epn).any fun id => (e.states.lookup id).isSome

-- Whether the file at a path is taken to be the one that its row is about.
def unchanged (path : String) (metadata : Metadata) : EngineM Bool := do
  match (← view fun m => SortedMap.get path m.engine.index).filter (·.describes metadata) with
  | none     => return false
  | some row => do
    let time ← now
    let fits ← view (·.engine.rowFits row)
    return time < row.validUntil && fits

-- One file of a scan. Those that are collected are not skipped, and are processed later.
def scanFile (full collect : Bool) (r : ScanReport × List Seen) (t : Target) :
    EngineM (ScanReport × List Seen) := do
  match t.metadata with
  | none          => return r
  | some metadata => do
    let skip ← (if full ∨ collect then pure false else unchanged t.path metadata)
    if skip then
      return ({ r.1 with unchanged := r.1.unchanged + 1 }, r.2)
    else
      match t.observed with
      | .error e => return ({ r.1 with errors := r.1.errors ++ [(t.path, e)] }, r.2)
      | .ok obs  => do
        let report := { r.1 with examined := r.1.examined + 1 }
        let seen ← seenFrom obs
        if collect then
          return (report, r.2 ++ [seen])
        else do
          let p ← process seen []
          return (report.count t.path p, r.2)

-- The events of the files are made durable together, after the objects that they name.
def scanFilesInner (files : List Target) (full collect : Bool) : EngineM (ScanReport × List Seen) := do
  setSync false
  let result ← attempt Halt.error? (fold (scanFile full collect) (.new, []) files)
  setSync true
  flush
  saveIndex
  ofExcept (result.mapError .error)

def scan (files : List Target) (full : Bool) : EngineM ScanReport := do
  let (report, _) ← scanFilesInner files full false
  return report

def unmeasurableVerdict (e : Engine) (why : String) : ExecVerdict where
  id           := none
  unmeasurable := sanitize why
  decision     := { e.heldBack .quarantined .evidenceMissing .none with
    needsUser := "the file could not be measured: " ++ sanitize why }
  allowed      := false
  enforce      := e.policy.enforceExec
  maxAgeSecs   := 5

-- Processes one artifact outside a scan.
def processAlone (seen : Seen) (requested : List Capability) : EngineM Processed := do
  setSync false
  let processed ← attempt Halt.error? (process seen requested)
  setSync true
  ofExcept (processed.mapError .error)

-- For how long a row may still be used.
def remaining (row : Option IndexRow) : EngineM UInt64 :=
  match row with
  | some row => do return row.validUntil.saturatingSub (← now)
  | none     => return 0

-- Decides whether a file may be executed. A decision that has changed nothing is not written anywhere.
def decideExec (observed : Except String Observation) : EngineM ExecVerdict := do
  match observed with
  | .error e => view (·.engine.unmeasurableVerdict e)
  | .ok obs  => do
    let seen ← seenFrom obs
    let before ← view fun m => SortedMap.get seen.path m.engine.index
    let p ← processAlone seen []
    let after ← view fun m => SortedMap.get seen.path m.engine.index
    onlyIf (0 < p.transitions ∨ p.isNew ∨ ¬ rowsEquivalent before after) (do flush; saveIndex)
    let validFor ← remaining after
    let enforce ← view (·.engine.policy.enforceExec)
    return {
      id           := some obs.record.id
      unmeasurable := none
      decision     := p.decision
      allowed      := p.decision.state.permitsNormalExecution
      enforce
      maxAgeSecs   := if validFor < 1 then 1 else validFor
    }

-- A program that has been measured and decided on.
structure PreparedRun where
  spec     : CellSpec
  decision : Decision
  id       : EpnId
  path     : String

-- Measures a program, decides, and prepares its cell. `sealed` is what copying the program while hashing it
-- again comes to.
def prepareRun (observed : Except String Observation) (args env : List String) (requested : List Capability)
    («sealed» : Except String Unit) : EngineM PreparedRun := do
  let obs ← ofExcept (observed.mapError (.error ∘ .measure))
  let seen ← seenFrom obs
  let p ← processAlone seen requested
  flush
  saveIndex
  let id := obs.record.id
  let d := p.decision
  if ¬ runnable d.state then do
    log .enforcement id none none [] .none
      ("denied execution of " ++ shown seen.path ++ ": state " ++ Coded.asStr d.state)
    flush
    fail (.notRunnable d)
  else do
    let spec ← ofExcept ((CellSpec.fromDecision d (obs.record.name :: args) env).mapError (.error ∘ .cell))
    ofExcept («sealed».mapError (.error ∘ .seal))
    log .enforcement id none none [] d.basis
      ("starting " ++ shown seen.path ++ " in " ++ Coded.asStr d.cell ++ " network=" ++ Coded.asStr d.network)
    flush
    return { spec, decision := d, id, path := seen.path }

end Engine
