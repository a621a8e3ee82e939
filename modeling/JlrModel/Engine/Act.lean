import JlrModel.Engine.Run

-- The single changes that the programs of an engine make. What holds in every run is shown for each of them.

variable [Crypto]

-- An event that changes neither a state nor a grant.
structure EventDraft.Note (d : EventDraft) : Prop where
  state      : d.newState = none
  transition : d.kind ≠ .transition
  override   : d.kind ≠ .override

namespace Host

-- Only the log is different.
def LogOnly (h h' : Host) : Prop :=
  h'.dir = { h.dir with log := h'.dir.log }

-- Nothing has changed but the rest of the logs, and the ledger does not accept more than before.
structure Quiet (h h' : Host) : Prop where
  dir      : LogOnly h h'
  events   : h'.dir.log.events = h.dir.log.events
  left     : h'.dir.log.left = h.dir.log.left
  open'    : h'.ledger.poisoned = false → h.ledger.poisoned = false

def logged (d : EventDraft) (h : Host) : Host :=
  h.setLog fun log => { log with events := log.events ++ [d] }

-- The event is there, although its append has failed.
def lost (d : EventDraft) (h : Host) : Host :=
  (h.setLog fun log => { log with left := some d }).setLedger fun l => { l with poisoned := true }

inductive Act : Host → Host → Prop
  | quiet {h h' : Host}             : Quiet h h' → Act h h'
  | event {h : Host} {d}            : h.ledger.poisoned = false → d.Note → Act h (h.logged d)
  | lost {h : Host} {d}             : h.ledger.poisoned = false → d.Note → Act h (h.lost d)
  | object {h : Host} {kind} {f : File} : Act h (h.setDir (StateDir.putFile kind (Digest.of f.data) f))
  | index {h : Host} {f : File}     : Act h (h.setDir fun dir => { dir with index := some f })

end Host

-- Who a grant is for.
inductive Grantee
  | approval (id : EpnId)
  | baseline (name : String)

namespace Grantee

def kind : Grantee → GrantKind
  | approval _ => .approval
  | baseline _ => .baseline

-- What the names of its files start with.
def stem : Grantee → String
  | approval id   => id.digest.hex
  | baseline name => name

-- The subject of its events.
def subject : Grantee → String
  | approval id   => id.display
  | baseline name => baselineSubject name

def file (g : Grantee) (bytes : Bytes) : String :=
  grantFile g.stem bytes

-- Whether a grant can be made at all.
def Eligible (e : Engine) : Grantee → Prop
  | approval id   => (e.states.lookup id).isSome
  | baseline name => name ≠ "" ∧ name.toList.all fun c => c.isAlphanum ∨ c = '-' ∨ c = '_'

-- The files that are valid grants.
def Accepts (node : String) (anchors : TrustAnchors) (bytes : Bytes) : Grantee → Prop
  | approval id   => ∃ a, Approval.verify bytes node anchors = .ok a ∧ a.epn = id.display
  | baseline name => ∃ b, Baseline.verify bytes node anchors = .ok b ∧ b.name = name

end Grantee

-- The event of one step of an artifact.
structure Engine.Moves (w : Setting) (e : Engine) (id : EpnId) (s : AdmissionState) (d : EventDraft) : Prop where
  kind    : d.kind = .transition
  subject : d.subject = some id.display
  old     : d.oldState = e.states.lookup id
  new     : d.newState = some s
  legal   : ((e.states.lookup id).getD .unknown).canBecome s
  other   : (e.states.lookup id).getD .unknown ≠ s
  known   : (e.states.lookup id).isSome ∨ ∃ r ∈ w.known, r.id = id

-- The event that makes a file the current grant.
structure Grantee.Grants (g : Grantee) (bytes : Bytes) (d : EventDraft) : Prop where
  kind     : d.kind = .override
  subject  : d.subject = some g.subject
  evidence : d.evidence = [Digest.of bytes]
  new      : d.newState = none

namespace Machine

def setDir (f : StateDir → StateDir) (m : Machine) : Machine :=
  m.setHost (m.host.setDir f)

def moved (id : EpnId) (s : AdmissionState) (d : EventDraft) (m : Machine) : Machine :=
  (m.setHost (m.host.logged d)).setEngine fun e => { e with states := e.states.insert id s }

-- Only the authorities that an engine knows are different.
structure Rules (e e' : Engine) : Prop where
  node    : e'.node = e.node
  anchors : e'.anchors = e.anchors
  states  : e'.states = e.states
  index   : e'.index = e.index

inductive Act (w : Setting) : Machine → Machine → Prop
  | host {m : Machine} {h} : Host.Act m.host h → Act w m (m.setHost h)
  | move {m : Machine} {id s d} : m.host.ledger.poisoned = false → m.engine.Moves w id s d → Act w m (m.moved id s d)
  | loseMove {m : Machine} {id s d} : m.host.ledger.poisoned = false → m.engine.Moves w id s d →
      Act w m (m.setHost (m.host.lost d))
  | row {m : Machine} {path row} :
      Act w m (m.setEngine fun e => { e with index := SortedMap.insert path row e.index })
  | policyFile {m : Machine} {f : File} : Act w m (m.setDir fun dir => { dir with policy := some f })
  -- The list grows by one entry, first in its file and then in the engine.
  | listFile {m : Machine} {f : File} {entry} :
      Engine.loadRevocations { m.dir with revocations := some f } m.engine.anchors =
        .ok (m.engine.revocations.add entry) →
      Act w m (m.setDir fun dir => { dir with revocations := some f })
  | list {m : Machine} {entry} : Act w m (m.setEngine fun e => { e with revocations := e.revocations.add entry })
  | rules {m : Machine} {e} : Rules m.engine e → e.revocations = m.engine.revocations →
      Act w m (m.setEngine fun _ => e)
  | grantFile {m : Machine} {f : File} (g : Grantee) : g.Eligible m.engine → f.data ∈ w.signed →
      g.Accepts m.engine.node.nodeId m.engine.anchors f.data →
      Act w m (m.setDir (StateDir.putGrant g.kind (g.file f.data) f))
  | grant {m : Machine} {f : File} {d} (g : Grantee) : m.host.ledger.poisoned = false → g.Eligible m.engine →
      SortedMap.get (g.file f.data) (m.dir.grants g.kind) = some f → g.Grants f.data d →
      Act w m (m.setHost (m.host.logged d))
  | loseGrant {m : Machine} {f : File} {d} (g : Grantee) : m.host.ledger.poisoned = false → g.Eligible m.engine →
      SortedMap.get (g.file f.data) (m.dir.grants g.kind) = some f → g.Grants f.data d →
      Act w m (m.setHost (m.host.lost d))
  -- Only a file that is not the current grant is removed.
  | removeGrant {m : Machine} {bytes name} (g : Grantee) : m.host.ledger.poisoned = false → g.Eligible m.engine →
      (History.current m.dir.log.events).lookup g.subject = some (Digest.of bytes) →
      Text.startsWith name (g.stem ++ ".") → name ≠ g.file bytes →
      Act w m (m.setDir (StateDir.removeGrant g.kind name))

end Machine

namespace Machine

-- The events that may be written.
inductive Writes (w : Setting) (m : Machine) : EventDraft → Prop
  | note {d} : d.Note → Writes w m d
  | move {id s d} : m.engine.Moves w id s d → Writes w m d
  | grant {g : Grantee} {f : File} {d} : g.Eligible m.engine →
      SortedMap.get (g.file f.data) (m.dir.grants g.kind) = some f → g.Grants f.data d → Writes w m d

-- What a change means for the log and for the states.
structure Same (m m' : Machine) : Prop where
  events   : m'.dir.log.events = m.dir.log.events
  left     : m'.dir.log.left = m.dir.log.left
  states   : m'.engine.states = m.engine.states
  open'    : m'.host.ledger.poisoned = false → m.host.ledger.poisoned = false

structure Logs (d : EventDraft) (m m' : Machine) : Prop where
  events : m'.dir.log.events = m.dir.log.events ++ [d]
  left   : m'.dir.log.left = m.dir.log.left
  states : m'.engine.states = History.addState m.engine.states d

structure Loses (d : EventDraft) (m m' : Machine) : Prop where
  events   : m'.dir.log.events = m.dir.log.events
  left     : m'.dir.log.left = some d
  states   : m'.engine.states = m.engine.states
  poisoned : m'.host.ledger.poisoned

end Machine

-- The log is repaired when it is opened, the events first.
def Host.trimmed (h : Host) : Host :=
  h.advance.setLog EventLog.trimmed

def Host.repaired (h : Host) : Host :=
  h.trimmed.advance.setLog EventLog.repaired

-- What an engine that was opened is made of.
structure Engine.Opens (d : StateDir) (e : Engine) : Prop where
  node        : Engine.loadNode d = .ok e.node
  anchors     : d.anchors = .ok e.anchors
  policy      : Engine.loadPolicy d e.anchors = .ok e.policy
  revocations : Engine.loadRevocations d e.anchors = .ok e.revocations
  device      : ∃ key, d.deviceKey = .ok key
  policyFloor : History.floor .policyLoad d.log.replayed ≤ e.policy.epoch
  listFloor   : History.floor .revocation d.log.replayed ≤ e.revocations.epoch
  baselines   : e.baselines = (Engine.loaded (Engine.loadAll
    (Engine.loadBaseline e.node.nodeId e.anchors (History.current d.log.replayed)) (d.grants .baseline))).map
      fun b => (b.name, b)
  approvals   : e.approvals = (Engine.loaded (Engine.loadAll
    (Engine.loadApproval e.node.nodeId e.anchors (History.current d.log.replayed)) (d.grants .approval))).foldl
      (fun m a => m.insert a.1 a.2) ∅
  states      : e.states = History.states d.log.replayed
  index       : e.index =
    if d.loadIndex.2 ∧ e.states.entries ≠ [] then
      (d.log.replayed.foldl (Engine.rebuild d) (Engine.indexOf d.loadIndex.1.rows, 0)).1
    else
      Engine.indexOf d.loadIndex.1.rows
