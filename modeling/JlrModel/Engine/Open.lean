import JlrModel.Engine.State
import Mathlib.Data.List.Sort

open Cbor Program

-- The epoch that the text of an event gives. It is read from a fixed position, and never from text that
-- the author of a policy or of a revocation controls.
def parseEpoch (detail : String) : Option UInt64 :=
  match Text.stripPrefix "revocations epoch=" detail with
  | some rest => do
    let word ← Text.firstWord rest
    (Text.parseUint (2 ^ 64) word).map .ofNat
  | none      => do
    let (head, _) ← Text.rsplitOnceAt " digest=" detail
    let (_, n) ← Text.rsplitOnceAt " epoch=" head
    (Text.parseUint (2 ^ 64) n).map .ofNat

namespace EventLog

-- The events that a reader of the log finds.
def replayed (log : EventLog) : List EventDraft :=
  log.events ++ log.left.toList

-- The log after the tail of the events was cut off and kept elsewhere.
def trimmed (log : EventLog) : EventLog :=
  { log with torn := 0 }

-- The log after both tails were cut off and kept elsewhere.
def repaired (log : EventLog) : EventLog :=
  { log with events := log.replayed, left := none, torn := 0, cpTorn := 0 }

end EventLog

-- What a list of events says, whether it is read from the ledger or written to it.
namespace History

-- The state that an event gives to an artifact.
def move (d : EventDraft) : Option (EpnId × AdmissionState) := do
  return (← EpnId.parse (← d.subject), ← d.newState)

def addState (states : States) (d : EventDraft) : States :=
  match move d with
  | some (id, s) => states.insert id s
  | none         => states

def states (events : List EventDraft) : States :=
  events.foldl addState ∅

-- The highest epoch that events of a kind have recorded.
def floor (kind : EventKind) (events : List EventDraft) : UInt64 :=
  events.foldl (fun n d => if d.kind = kind then max n ((parseEpoch d.detail).getD 0) else n) 0

-- The envelope that an event makes the current one for its subject.
def grant (d : EventDraft) : Option (String × Digest) := do
  if d.kind ≠ .override then none else
  return (← d.subject, ← d.evidence.head?)

-- The envelopes that are current, by subject.
def current (events : List EventDraft) : AList fun _ : String => Digest :=
  events.foldl (fun m d => match grant d with | some (s, e) => m.insert s e | none => m) ∅

end History

variable [Crypto]

namespace Host

-- Opens the ledger for appending, as `Ledger::open_with_events`. The events come first when the tails are cut off.
-- Returns the log as it was found.
def openLedger : HostM EventLog := do
  let locked ← view (·.locked)
  let log ← view (·.dir.log)
  if locked then
    fail (.ledger .locked)
  else if log.replayed = [] then
    fail (.ledger .empty)
  else do
    operate (fun e => .ledger (.io e)) fun dir => { dir with log := dir.log.trimmed }
    operate (fun e => .ledger (.io e)) fun dir => { dir with log := dir.log.repaired }
    update (setLedger fun _ => .new)
    return log

end Host

namespace Engine

def loadNode (dir : StateDir) : Except EngineError NodeInfo := do
  let file ← Except.okOr .notInitialised dir.node
  (fromCbor NodeInfo file.data).mapError fun e => .verification (.text ("node record: " ++ e.display))

-- The error of a file that is not there.
def noFile : EngineError :=
  .io "No such file or directory (os error 2)"

def loadPolicy (dir : StateDir) (anchors : TrustAnchors) : Except EngineError ValidPolicy := do
  let file ← Except.okOr noFile dir.policy
  let v ← (Envelope.verify file.data RecordType.POLICY "*" anchors
    (RecordType.allowedSigners RecordType.POLICY)).mapError fun e => .verification (.text ("policy: " ++ e.display))
  let p ← (fromCbor Policy v.payload).mapError fun e => .verification (.text ("policy payload: " ++ e.display))
  match h : p.validateLoaded with
  | .ok ()   => return ⟨p, h⟩
  | .error e => throw (.verification (.policy e))

def loadRevocations (dir : StateDir) (anchors : TrustAnchors) : Except EngineError Revocations := do
  let file ← Except.okOr noFile dir.revocations
  let v ← (Envelope.verify file.data RecordType.REVOCATIONS "*" anchors
    (RecordType.allowedSigners RecordType.REVOCATIONS)).mapError fun e =>
      .verification (.text ("revocations: " ++ e.display))
  (fromCbor Revocations v.payload).mapError fun e => .verification (.text ("revocations payload: " ++ e.display))

-- A baseline counts only if the ledger says that its envelope is the current one.
def loadBaseline (node : String) (anchors : TrustAnchors) (current : AList fun _ : String => Digest)
    (bytes : Bytes) : Except String VerifiedBaseline := do
  let b ← (Baseline.verify bytes node anchors).mapError ApprovalError.display
  Except.ensure (current.lookup (baselineSubject b.name) = some (Digest.of bytes))
    "it is not the baseline the ledger records as current"
  return b

def loadApproval (node : String) (anchors : TrustAnchors) (current : AList fun _ : String => Digest)
    (bytes : Bytes) : Except String (EpnId × Approval) := do
  let a ← (Approval.verify bytes node anchors).mapError ApprovalError.display
  let id ← Except.okOr "it names no valid EPN" (EpnId.parse a.epn)
  Except.ensure (current.lookup id.display = some (Digest.of bytes))
    "it is not the approval the ledger records as current"
  return (id, a)

-- Whether the extension of a file name is `cose`.
def isCose (name : String) : Bool :=
  match Text.rsplitOnce '.' name with
  | some (stem, ext) => stem ≠ "" ∧ ext = "cose"
  | none             => false

-- The signed files of a directory, in the order of their names, with what loading each one comes to.
def loadAll (load : Bytes → Except String α) (files : List (String × File)) : List (String × Except String α) :=
  (files.filter (isCose ·.1)).map fun f => (f.1, load f.2.data)

-- The same, with the entries that can not be read in between.
def loadGrants (load : Bytes → Except String α) (dir : StateDir) (kind : GrantKind) :
    List (String × Except String α) :=
  let unread := (dir.unreadable kind).filter (isCose ·.1) |>.map fun f => (f.1, .error f.2)
  unread.foldr (List.orderedInsert fun x y => x.1 ≤ y.1) (loadAll load (dir.grants kind))

def loaded (results : List (String × Except String α)) : List α :=
  results.filterMap (·.2.toOption)

-- What is said about the files that do not count. `what` is the kind of the files, and `where'` their directory.
def problems (what where' : String) (results : List (String × Except String α)) : List String :=
  results.filterMap fun (name, r) =>
    match r with
    | .ok _    => none
    | .error e => some (what ++ " " ++ where' ++ "/" ++ name ++ ": " ++ e)

def degradedNote (p : ValidPolicy) (detail : String) : EventDraft :=
  { EventDraft.new "jlr-engine" .degraded detail with policy := p.digest }

-- Appends an event whose loss does no harm.
def appendBestEffort (d : EventDraft) : HostM Unit := do
  let _ ← attempt Halt.error? (Host.append d)
  return ()

-- Reports a file that does not count once, and not on every start.
def noteProblem (p : ValidPolicy) (already : List String) (problem : String) : HostM Unit :=
  let detail := sanitize ("ignored unverifiable object: " ++ problem)
  onlyIf (detail ∉ already) (appendBestEffort (degradedNote p detail))

-- A row without a stamp, so that the next scan measures the file again.
def rebuiltRow (path : String) (id : EpnId) : IndexRow where
  path        := path
  epn         := id.display
  size        := 0
  mtimeNs     := 0
  ctimeNs     := 0
  ino         := 0
  dev         := 0
  measuredAt  := 0
  validUntil  := 0
  policyEpoch := 0

-- The artifact that an event has discovered, and its path if the record is still there.
def discovered (dir : StateDir) (d : EventDraft) : Option (EpnId × String) := do
  if d.kind ≠ .discover then none else
  let id ← EpnId.parse (← d.subject)
  let record ← dir.loadRecord id
  return (id, ← record.source.path)

-- The rows that the discoveries come to, in their order, so that the latest wins. Counts the paths.
def rebuild (dir : StateDir) (r : List (String × IndexRow) × Nat) (d : EventDraft) :
    List (String × IndexRow) × Nat :=
  match discovered dir d with
  | none            => r
  | some (id, path) =>
    (SortedMap.insert path (rebuiltRow path id) r.1, if (SortedMap.get path r.1).isNone then r.2 + 1 else r.2)

def indexOf (rows : List IndexRow) : List (String × IndexRow) :=
  rows.foldl (fun m row => SortedMap.insert row.path row m) []

-- Takes the index from its file. If it was lost, rebuilds it from the ledger and the object store.
def openIndex (p : ValidPolicy) (events : List EventDraft) (states : States) :
    HostM (List (String × IndexRow)) := do
  let dir ← view (·.dir)
  let (file, lost) := dir.loadIndex
  let index := indexOf file.rows
  if lost ∧ states.entries ≠ [] then do
    let (index, recovered) := events.foldl (rebuild dir) (index, 0)
    let unrecovered := states.entries.length - index.length
    appendBestEffort <| degradedNote p <|
      "the path index was missing or damaged; rebuilt " ++ toString recovered ++
      " rows from the ledger and the object store, " ++ toString unrecovered ++
      " known artifacts could not be placed. Run a full scan"
    let _ ← attempt Halt.error? (Host.saveIndex index)
    return index
  else
    return index

-- An incomplete record that was found at the end of a log is worth a signed trace.
def noteTorn (p : ValidPolicy) (log : EventLog) : HostM Unit := do
  onlyIf (0 < log.cpTorn) <| Host.append <| degradedNote p <|
    "recovered an incomplete checkpoint record of " ++ toString log.cpTorn ++
    " bytes; the newest checkpoints may be missing; kept in a quarantine file"
  onlyIf (0 < log.torn) <| Host.append <| degradedNote p <|
    "recovered an incomplete ledger record of " ++ toString log.torn ++ " bytes; kept in a quarantine file"

-- A list must not be older than the ledger says.
def checkFloor (what : String) (epoch floor : UInt64) : Except EngineError Unit :=
  Except.ensure (floor ≤ epoch) <| .rollback <|
    what ++ " epoch " ++ toString epoch ++ " is older than the recorded epoch " ++ toString floor

-- The part of opening that comes after the ledger, which was found in some state.
def assemble (node : NodeInfo) (anchors : TrustAnchors) (policy : ValidPolicy) (revocations : Revocations)
    (log : EventLog) : HostM Engine := do
  let events := log.replayed
  ofExcept ((checkFloor "policy" policy.epoch (History.floor .policyLoad events)).mapError .error)
  ofExcept ((checkFloor "revocation" revocations.epoch (History.floor .revocation events)).mapError .error)
  let current := History.current events
  let dir ← view (·.dir)
  let baselines := loadGrants (loadBaseline node.nodeId anchors current) dir .baseline
  let approvals := loadGrants (loadApproval node.nodeId anchors current) dir .approval
  noteTorn policy log
  let already := (events.filter (·.kind = .degraded)).map (·.detail)
  fold (fun _ problem => noteProblem policy already problem) () <|
    problems "baseline" (dir.root ++ "/baselines") baselines ++
    problems "approval" (dir.root ++ "/approvals") approvals
  let states := History.states events
  let index ← openIndex policy events states
  return {
    node, anchors, policy, revocations
    baselines := (loaded baselines).map fun b => (b.name, b)
    approvals := (loaded approvals).foldl (fun m a => m.insert a.1 a.2) ∅
    states, index
  }

-- The part of opening that starts with the lock of the ledger.
def openLocked (node : NodeInfo) (anchors : TrustAnchors) (policy : ValidPolicy) (revocations : Revocations) :
    HostM Engine := do
  let log ← Host.openLedger
  assemble node anchors policy revocations log

-- Opens an initialised state directory, verifying everything it loads.
def «open» : HostM Engine := do
  let dir ← view (·.dir)
  let node ← ofExcept ((loadNode dir).mapError .error)
  let anchors ← ofExcept (dir.anchors.mapError .error)
  let policy ← ofExcept ((loadPolicy dir anchors).mapError .error)
  let revocations ← ofExcept ((loadRevocations dir anchors).mapError .error)
  let _ ← ofExcept (dir.deviceKey.mapError fun e => .error (.verification (.text ("device key: " ++ e))))
  openLocked node anchors policy revocations

end Engine
