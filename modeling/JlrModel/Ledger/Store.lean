import JlrModel.Ledger.Replay

open Cbor

inductive Log
  | events | checkpoints
  deriving DecidableEq

-- The files of a ledger directory: the logs, and the torn tails `<log>.torn.N` of earlier repairs.
structure Dir where
  logs : Log → Option File
  torn : Log → Nat → Option File

namespace Dir

def new : Dir where
  logs _   := none
  torn _ _ := none

-- The bytes of a log, which need not exist.
def readAll (dir : Dir) (log : Log) : Bytes :=
  match dir.logs log with
  | some file => file.data
  | none      => []

end Dir

-- What each operation of a `FrameSink` comes to during one call. A write that fails may leave any
-- number of bytes behind.
structure Io where
  len      : Except IoError Unit
  append   : Except (Nat × IoError) Unit
  sync     : Except IoError Unit
  truncate : Except IoError Unit

def Io.success : Io where
  len      := .ok ()
  append   := .ok ()
  sync     := .ok ()
  truncate := .ok ()

inductive AppendError
  | failed (e : IoError)
  | rollbackFailed (write rollback : IoError)

def File.append (io : Io) (bytes : Bytes) (f : File) : Except IoError Unit × File :=
  match io.append with
  | .ok ()         =>
    match f.extend bytes with
    | some f' => (.ok (), f')
    | none    => (.error "File too large (os error 27)", f)
  | .error (n, e)  => (.error e, (f.extend (bytes.take n)).getD f)

-- If the write or the sync fails, the file is cut back to its previous length.
def appendFrame (io : Io) (f : File) (bytes : Bytes) (sync : Bool) : Except AppendError Unit × File :=
  match io.len with
  | .error e => (.error (.failed e), f)
  | .ok ()   =>
    let before := f.data.length
    let (result, f') := f.append io bytes
    match (do result; if sync then io.sync else return ()) with
    | .ok ()       => (.ok (), f')
    | .error write =>
      match io.truncate with
      | .ok ()          => (.error (.failed write), f'.truncate before)
      | .error rollback => (.error (.rollbackFailed write rollback), f')

-- The fields of an event that a caller supplies.
structure EventDraft where
  actor    : String
  subject  : Option String
  kind     : EventKind
  oldState : Option AdmissionState
  newState : Option AdmissionState
  policy   : Digest
  evidence : List Digest
  basis    : Basis
  detail   : String

def EventDraft.new (actor : String) (kind : EventKind) (detail : String) : EventDraft where
  actor    := actor
  subject  := none
  kind     := kind
  oldState := none
  newState := none
  policy   := Digest.ZERO
  evidence := []
  basis    := .none
  detail   := detail

-- The readings of the two clocks during a call.
structure Clock where
  now    : UInt64
  monoNs : UInt64

-- A ledger that is open for appending. The handles of the two logs stand for their contents.
structure Ledger where
  logs               : Log → File
  torn               : Log → Nat → Option File
  node               : String
  key                : SigningKeypair
  tree               : Merkle.Tree Digest
  lastEnv            : Digest
  nextSeq            : UInt64
  counter            : UInt64
  lastCheckpointSize : UInt64
  bootId             : Bytes.Fixed 16
  sync               : Bool
  poisoned           : Bool

namespace Ledger

-- The directory that is left behind when a ledger is dropped.
def dir (l : Ledger) : Dir where
  logs log := some (l.logs log)
  torn     := l.torn

def setLog (l : Ledger) (log : Log) (f : File) : Ledger :=
  { l with logs := Function.update l.logs log f }

def setSync (l : Ledger) (sync : Bool) : Ledger :=
  { l with sync }

def refused : LedgerError :=
  .io "the ledger refuses writes: an earlier failed write could not be rolled back; reopen it"

def appendChecked (l : Ledger) (io : Io) (log : Log) (bytes : Bytes) : Except LedgerError Unit × Ledger :=
  if l.poisoned then
    (.error refused, l)
  else
    match appendFrame io (l.logs log) bytes l.sync with
    | (.ok (), f)                                => (.ok (), l.setLog log f)
    | (.error (.failed e), f)                    => (.error (.io e), l.setLog log f)
    | (.error (.rollbackFailed write rollback), f) =>
      (.error <| .io <| "append failed (" ++ write ++ ") and could not be rolled back (" ++ rollback ++
        "); the ledger refuses further writes", { l.setLog log f with poisoned := true })

variable [Crypto]

-- The event that a draft becomes, with its position in the chain.
def event (l : Ledger) (clock : Clock) (d : EventDraft) : Event where
  seq      := l.nextSeq
  bootId   := l.bootId
  wallTime := clock.now
  monoNs   := clock.monoNs
  actor    := d.actor
  subject  := d.subject
  kind     := d.kind
  oldState := d.oldState
  newState := d.newState
  policy   := d.policy
  evidence := d.evidence
  basis    := d.basis
  detail   := d.detail
  prev     := l.lastEnv

def eventEnvelope (l : Ledger) (clock : Clock) (d : EventDraft) : Bytes :=
  Envelope.sign RecordType.EVENT l.node (toCbor (l.event clock d)) l.key

def append (l : Ledger) (io : Io) (clock : Clock) (d : EventDraft) :
    Except LedgerError (UInt64 × Digest) × Ledger :=
  let env := l.eventEnvelope clock d
  match l.appendChecked io .events (frame env) with
  | (.error e, l') => (.error e, l')
  | (.ok (), l')   =>
    (.ok (l.nextSeq, Digest.of env), { l' with
      tree    := l.tree.push (leafHash env)
      lastEnv := Digest.of env
      nextSeq := l.nextSeq + 1
    })

-- The checkpoint of the current head.
def nextCheckpoint (l : Ledger) (now : UInt64) : Checkpoint where
  origin   := origin l.node
  size     := .ofNat l.tree.size
  root     := l.tree.root
  bootId   := l.bootId
  wallTime := now
  counter  := l.counter + 1
  anchor   := .software

def checkpointEnvelope (l : Ledger) (now : UInt64) : Bytes :=
  Envelope.sign RecordType.CHECKPOINT l.node (toCbor (l.nextCheckpoint now)) l.key

def checkpoint (l : Ledger) (io : Io) (now : UInt64) : Except LedgerError Bytes × Ledger :=
  let cp  := l.nextCheckpoint now
  let env := l.checkpointEnvelope now
  match l.appendChecked io .checkpoints (frame env) with
  | (.error e, l') => (.error e, l')
  | (.ok (), l')   => (.ok env, { l' with counter := cp.counter, lastCheckpointSize := cp.size })

def genesis (node : String) : EventDraft :=
  .new "jlr-ledger" .genesis ("ledger created for node " ++ node)

-- The new ledger before its first event. Logs that do not exist are created empty.
def fresh (dir : Dir) (node : String) (key : SigningKeypair) (bootId : Bytes.Fixed 16) : Ledger where
  logs log           := (dir.logs log).getD .empty
  torn               := dir.torn
  node               := node
  key                := key
  tree               := .new
  lastEnv            := Digest.ZERO
  nextSeq            := 0
  counter            := 0
  lastCheckpointSize := 0
  bootId             := bootId
  sync               := true
  poisoned           := false

def create (dir : Dir) (io : Io) (clock : Clock) (node : String) (key : SigningKeypair)
    (bootId : Bytes.Fixed 16) : Except LedgerError Ledger × Dir :=
  if dir.readAll .events ≠ [] then
    (.error (.corrupt 0 "ledger already exists"), dir)
  else
    match (fresh dir node key bootId).append io clock (genesis node) with
    | (.error e, l) => (.error e, l.dir)
    | (.ok _, l)    => (.ok l, l.dir)

end Ledger
