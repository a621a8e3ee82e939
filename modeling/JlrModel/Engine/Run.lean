import JlrModel.Engine.Setup

open Program

variable [Crypto]

-- The calls of an engine. The order in which a map is gone through is not specified.
inductive Call
  | scan (files : List Target) (full : Bool)
  | decideExec (observed : Except String Observation)
  | prepareRun (observed : Except String Observation) (args env : List String) (requested : List Capability)
      («sealed» : Except String Unit)
  | enrollBaseline (files : List Target) (opts : EnrollOptions) (full : Bool)
  | approve (epn : String) (opts : GrantOptions) (look : String → Option (Except String Observation))
  | revoke (order : List EpnId → List EpnId) (perm : ∀ ids, (order ids).Perm ids) (kind : RevocationKind)
      (target reason : String)
  | setPolicy (new : Policy)
  | recordExec (id : Option EpnId) (path verdict : String) (d : Decision)
  | recordDegraded (detail : String)
  | recordDegradedMany (details : List String)
  | checkpoint

namespace Call

def run : Call → EngineM Unit
  | scan files full                    => do let _ ← Engine.scan files full
  | decideExec obs                     => do let _ ← Engine.decideExec obs
  | prepareRun obs args env caps seal' => do let _ ← Engine.prepareRun obs args env caps seal'
  | enrollBaseline files opts full     => do let _ ← Engine.enrollBaseline files opts full
  | approve epn opts look              => do let _ ← Engine.approve epn opts look
  | revoke order _ kind target reason  => do let _ ← Engine.revokeReport order kind target reason
  | setPolicy new                      => do let _ ← Engine.setPolicy new
  | recordExec id path verdict d       => Engine.recordExec id path verdict d
  | recordDegraded detail              => Engine.recordDegraded detail
  | recordDegradedMany details         => Engine.recordDegradedMany details
  | checkpoint                         => Engine.checkpoint

-- The records of the files that are observed during a call.
def Observes : Call → EpnRecord → Prop
  | scan files _, r             => ∃ t ∈ files, ∃ obs, t.observed = .ok obs ∧ obs.record = r
  | decideExec obs, r           => ∃ o, obs = .ok o ∧ o.record = r
  | prepareRun obs _ _ _ _, r   => ∃ o, obs = .ok o ∧ o.record = r
  | enrollBaseline files _ _, r => ∃ t ∈ files, ∃ obs, t.observed = .ok obs ∧ obs.record = r
  | approve _ _ look, r         => ∃ path obs, look path = some (.ok obs) ∧ obs.record = r
  | _, _                        => False

-- The files of grants that are signed during a call.
def Signs (m : Machine) : Call → Bytes → Prop
  | enrollBaseline files opts full, b => ∃ s m', Engine.signBaseline files opts full m = (.ok s, m') ∧ s.bytes = b
  | approve epn opts _, b             => ∃ s m', Engine.signApproval epn opts m = (.ok s, m') ∧ s.bytes = b
  | _, _                              => False

end Call

-- What is around an installation: what others may do to its directory, the records of the files that may be observed,
-- the grants that may be signed, and whether an operation may fail.
structure Setting where
  tamper : StateDir → StateDir → Prop
  known  : Set EpnRecord
  signed : Set Bytes
  fails  : Prop

-- A call that stays within what is given.
structure Call.Within (w : Setting) (m : Machine) (c : Call) : Prop where
  observes : ∀ r, c.Observes r → r ∈ w.known
  signs    : ∀ b, c.Signs m b → b ∈ w.signed

-- An installation, whose engine is open in some process or not.
structure System where
  dir    : StateDir
  engine : Option (Engine × LedgerHandle)

namespace System

-- A process that starts to work on a directory, with nobody else having the ledger open.
def host (dir : StateDir) (ledger : LedgerHandle) (o : Oracle) : Host where
  dir    := dir
  ledger := ledger
  locked := false
  oracle := o
  tick   := 0

def machine (dir : StateDir) (e : Engine) (ledger : LedgerHandle) (o : Oracle) : Machine where
  host   := host dir ledger o
  engine := e

def ofMachine (m : Machine) : System where
  dir    := m.dir
  engine := some (m.engine, m.host.ledger)

-- What can happen to an installation. A call that fails leaves the engine open, unless its process stops.
inductive Step (w : Setting) : System → System → Prop
  | tamper {d d' : StateDir} : w.tamper d d' → Step w ⟨d, e⟩ ⟨d', e⟩
  | open {h : Host} : Engine.open (host d .new o) = (.ok e, h) → Step w ⟨d, none⟩ ⟨h.dir, some (e, h.ledger)⟩
  | refuse {h : Host} : w.fails → Engine.open (host d .new o) = (.error why, h) → Step w ⟨d, none⟩ ⟨h.dir, none⟩
  | call {c : Call} {m : Machine} : c.Within w (machine d e l o) → c.run (machine d e l o) = (.ok (), m) →
      Step w ⟨d, some (e, l)⟩ (ofMachine m)
  | failed {c : Call} {m : Machine} : w.fails → c.Within w (machine d e l o) →
      c.run (machine d e l o) = (.error (.error err), m) → Step w ⟨d, some (e, l)⟩ (ofMachine m)
  | stopped {c : Call} {m : Machine} : w.fails → c.Within w (machine d e l o) →
      c.run (machine d e l o) = (.error .stopped, m) → Step w ⟨d, some (e, l)⟩ ⟨m.dir, none⟩
  | close : Step w ⟨d, e⟩ ⟨d, none⟩

def Reaches (w : Setting) : System → System → Prop :=
  Relation.ReflTransGen (Step w)

-- An installation right after its setup.
def Initial (s : System) : Prop :=
  ∃ root kind time seeds o node h,
    Engine.init kind time seeds (host (.empty root) .new o) = (.ok node, h) ∧ s = ⟨h.dir, none⟩

-- The installations that come out of a setup.
def Reachable (w : Setting) (s : System) : Prop :=
  ∃ s₀, Initial s₀ ∧ Reaches w s₀ s

end System
