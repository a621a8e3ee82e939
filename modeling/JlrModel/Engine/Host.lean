import JlrModel.Cell.Derive
import JlrModel.Crypto.Envelope
import JlrModel.Engine.Index
import JlrModel.Ledger.Store
import JlrModel.Lib.Program
import JlrModel.Policy.Validate

-- A text that an error quotes. That of a policy error is given by its data.
inductive Reason
  | text (s : String)
  | policy (e : PolicyError)

inductive EngineError
  | alreadyInitialised
  | notInitialised
  | verification (why : Reason)
  | rollback (what : String)
  | ledger (e : LedgerError)
  | measure (e : String)
  | notRunnable (d : Decision)
  | cell (e : CellError)
  | seal (e : String)
  | invalid (why : Reason)
  | io (e : IoError)

-- A program ends early with an error, or because its process stops.
inductive Halt
  | error (e : EngineError)
  | stopped

def Halt.error? : Halt → Option EngineError
  | .error e => some e
  | .stopped => none

-- The ledger of a state directory, as far as a reader can tell: its events, each without its place in the
-- chain, and what comes after the last complete record.
structure EventLog where
  events  : List EventDraft
  -- An event whose append has failed, although it is there now.
  left    : Option EventDraft
  torn    : UInt64
  cpTorn  : UInt64
  -- The number of events below the newest checkpoint.
  covered : Nat

inductive ObjectKind
  | epn | evidence | report
  deriving DecidableEq

-- The directories of signed grants.
inductive GrantKind
  | approval | baseline
  deriving DecidableEq

-- What an operation on a file has changed when it fails.
inductive Left
  | nothing
  | part (bytes : UInt64)
  | whole

-- How an operation on a file goes. A write that is `broken` could not be undone.
inductive Fate
  | done
  | failed (e : IoError)
  | broken (e : IoError) (left : Left)
  | stopped (left : Left)

-- What a process meets with from its start on: how its operations go, and what the clock says.
structure Oracle where
  fate  : Nat → Fate
  clock : Nat → UInt64

-- The handle of a ledger that is open for appending.
structure LedgerHandle where
  sync     : Bool
  poisoned : Bool

def LedgerHandle.new : LedgerHandle where
  sync     := true
  poisoned := false

variable [Crypto]

-- The files of an installation. A file that can not be read counts as missing, except for a grant. Those
-- that are only written once are given by what loading them comes to.
structure StateDir where
  root        : String
  node        : Option File
  anchors     : Except EngineError TrustAnchors
  deviceKey   : Except String SigningKeypair
  policyKey   : Except String SigningKeypair
  policy      : Option File
  revocations : Option File
  grants      : GrantKind → List (String × File)
  -- The entries beside them that can not be read, such as directories, with the error.
  unreadable  : GrantKind → List (String × IoError)
  objects     : ObjectKind → Digest → Option File
  index       : Option File
  log         : EventLog

-- A process and the directory that it works on.
structure Host where
  dir    : StateDir
  ledger : LedgerHandle
  -- Whether another process holds the lock of the ledger.
  locked : Bool
  oracle : Oracle
  tick   : Nat

abbrev HostM := Program Host Halt

namespace Host

open Program

def fail (e : EngineError) : HostM α :=
  halt (.error e)

def setDir (f : StateDir → StateDir) (h : Host) : Host :=
  { h with dir := f h.dir }

def setLog (f : EventLog → EventLog) (h : Host) : Host :=
  h.setDir fun d => { d with log := f d.log }

def setLedger (f : LedgerHandle → LedgerHandle) (h : Host) : Host :=
  { h with ledger := f h.ledger }

def advance (h : Host) : Host :=
  { h with tick := h.tick + 1 }

-- How the next operation goes.
def nextFate : HostM Fate := do
  let fate ← view fun h => h.oracle.fate h.tick
  update advance
  return fate

-- The configured clock.
def now : HostM UInt64 := do
  let time ← view fun h => h.oracle.clock h.tick
  update advance
  return time

-- An operation that makes one change. If it fails, the change may have been made all the same.
def operate (error : IoError → EngineError) (change : StateDir → StateDir) : HostM Unit := do
  match ← nextFate with
  | .done            => update (setDir change)
  | .failed e        => fail (error e)
  | .broken e .whole => do update (setDir change); fail (error e)
  | .broken e _      => fail (error e)
  | .stopped .whole  => do update (setDir change); halt .stopped
  | .stopped _       => halt .stopped

def syncFs : HostM Unit :=
  operate .io id

-- The file is replaced as a whole.
def writeAtomic (data : Bytes) (change : File → StateDir → StateDir) : HostM Unit :=
  if h : data.length < 2 ^ 63 then
    operate .io (change ⟨data, h⟩)
  else
    fail (.io "File too large (os error 27)")

-- What an append leaves behind that could not be rolled back.
def leave (d : EventDraft) (left : Left) (log : EventLog) : EventLog :=
  match left with
  | .nothing => log
  | .part n  => { log with torn := n }
  | .whole   => { log with left := some d }

def leaveCheckpoint (left : Left) (log : EventLog) : EventLog :=
  match left with
  | .nothing => log
  | .part n  => { log with cpTorn := n }
  | .whole   => { log with covered := log.events.length }

-- Writes one record to a log. If a failed write can not be undone, the ledger refuses all others.
def record (write : EventLog → EventLog) (leave : Left → EventLog → EventLog) : HostM Unit := do
  if (← view (·.ledger.poisoned)) then
    fail (.ledger Ledger.refused)
  else
    match ← nextFate with
    | .done          => update (setLog write)
    | .failed e      => fail (.ledger (.io e))
    | .broken e left => do
      update fun h => (h.setLog (leave left)).setLedger fun l => { l with poisoned := true }
      fail (.ledger (.io e))
    | .stopped left  => do
      update fun h => (h.setLog (leave left)).setLedger fun l => { l with poisoned := true }
      halt .stopped

def append (d : EventDraft) : HostM Unit :=
  record (fun log => { log with events := log.events ++ [d] }) (leave d)

def checkpoint : HostM Unit :=
  record (fun log => { log with covered := log.events.length }) leaveCheckpoint

def syncLedger : HostM Unit :=
  operate (fun e => .ledger (.io e)) id

def setSync (sync : Bool) : HostM Unit :=
  update (setLedger fun l => { l with sync })

end Host
