import JlrModel.Ledger.Open

-- What a ledger is for: a history of events and of checkpoints, each with the envelope that it is kept in.
structure Journal where
  events      : List (Event × Bytes)
  checkpoints : List (Checkpoint × Bytes)

namespace Journal

def new : Journal :=
  { events := [], checkpoints := [] }

def append (j : Journal) (ev : Event) (env : Bytes) : Journal :=
  { j with events := j.events ++ [(ev, env)] }

def commit (j : Journal) (cp : Checkpoint) (env : Bytes) : Journal :=
  { j with checkpoints := j.checkpoints ++ [(cp, env)] }

def envelopes (j : Journal) : Log → List Bytes
  | .events      => j.events.map Prod.snd
  | .checkpoints => j.checkpoints.map Prod.snd

def tree [Crypto] (j : Journal) : Merkle.Tree Digest :=
  .of ((j.envelopes .events).map leafHash)

def lastCheckpoint (j : Journal) : Option Checkpoint :=
  (j.checkpoints.map Prod.fst).getLast?

variable {j : Journal} {ev : Event} {cp : Checkpoint} {env : Bytes}

@[simp]
theorem lastCheckpoint_append : (j.append ev env).lastCheckpoint = j.lastCheckpoint :=
  rfl

@[simp]
theorem lastCheckpoint_commit : (j.commit cp env).lastCheckpoint = some cp := by
  simp [commit, lastCheckpoint]

@[simp]
theorem envelopes_new : new.envelopes log = [] := by
  cases log <;> rfl

@[simp]
theorem envelopes_append_events : (j.append ev env).envelopes .events = j.envelopes .events ++ [env] := by
  simp [append, envelopes]

@[simp]
theorem envelopes_append_checkpoints :
    (j.append ev env).envelopes .checkpoints = j.envelopes .checkpoints :=
  rfl

@[simp]
theorem envelopes_commit_events : (j.commit cp env).envelopes .events = j.envelopes .events :=
  rfl

@[simp]
theorem envelopes_commit_checkpoints :
    (j.commit cp env).envelopes .checkpoints = j.envelopes .checkpoints ++ [env] := by
  simp [commit, envelopes]

end Journal

namespace Ledger

-- A call that writes to the ledger, with what happens during the call.
inductive Call
  | append (io : Io) (clock : Clock) (d : EventDraft)
  | checkpoint (io : Io) (now : UInt64)

variable [Crypto]

-- Whether a call fails, and the ledger after it.
def exec (l : Ledger) : Call → Option LedgerError × Ledger
  | .append io clock d =>
    match l.append io clock d with
    | (.ok _, l')    => (none, l')
    | (.error e, l') => (some e, l')
  | .checkpoint io now =>
    match l.checkpoint io now with
    | (.ok _, l')    => (none, l')
    | (.error e, l') => (some e, l')

-- What a call adds to the history if it does not fail.
def record (l : Ledger) (j : Journal) : Call → Journal
  | .append _ clock d  => j.append (l.event clock d) (l.eventEnvelope clock d)
  | .checkpoint _ now  => j.commit (l.nextCheckpoint now) (l.checkpointEnvelope now)

def step (s : Ledger × Journal) (c : Call) : Ledger × Journal :=
  match s.1.exec c with
  | (none, l)   => (l, s.1.record s.2 c)
  | (some _, l) => (l, s.2)

-- The ledger after a number of calls, and the history of those that did not fail.
def run (l : Ledger) (calls : List Call) : Ledger × Journal :=
  calls.foldl step (l, .new)

end Ledger
