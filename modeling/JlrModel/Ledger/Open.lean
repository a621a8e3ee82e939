import JlrModel.Ledger.Store

-- Opening a ledger, with the effects on the directory in program order.

inductive DirOp
  | openAppend (log : Log)
  | createTorn (log : Log) (n : Nat)
  | writeTorn (log : Log) (n : Nat) (byte : UInt8)
  | setLen (log : Log) (len : Nat)

namespace Dir

-- Opening a log for appending creates it, and a torn tail is written byte by byte.
def apply (dir : Dir) : DirOp → Dir
  | .openAppend log       => { dir with
      logs := Function.update dir.logs log (some ((dir.logs log).getD .empty)) }
  | .createTorn log n     => { dir with
      torn := Function.update dir.torn log (Function.update (dir.torn log) n (some .empty)) }
  | .writeTorn log n byte => { dir with
      torn := Function.update dir.torn log (Function.update (dir.torn log) n
        ((dir.torn log n).map fun f => (f.extend [byte]).getD f)) }
  | .setLen log len       => { dir with
      logs := Function.update dir.logs log ((dir.logs log).map (·.truncate len)) }

def applyAll (dir : Dir) (ops : List DirOp) : Dir :=
  ops.foldl apply dir

end Dir

-- The first number from `n` on that is not taken, among as many as are left.
def firstFree (taken : Nat → Bool) : (left n : Nat) → Option Nat
  | 0, _        => none
  | left + 1, n => if taken n then firstFree taken left (n + 1) else some n

-- The names of torn tails are numbered from zero up to the largest `u32`, which is not used.
def TORN_NAMES : Nat := 2 ^ 32 - 1

structure OpenReport where
  events              : UInt64
  checkpoints         : UInt64
  tornTailBytes       : UInt64
  checkpointTornBytes : UInt64
  deriving DecidableEq

namespace Ledger

-- Copies the bytes of a log after `validLen` into a new file, so that a repair never destroys evidence.
def quarantineTail (dir : Dir) (log : Log) (validLen : UInt64) : List DirOp × Except LedgerError Unit :=
  let tail := (dir.readAll log).drop validLen.toNat
  match firstFree (fun n => (dir.torn log n).isSome) TORN_NAMES 0 with
  | some n => (.createTorn log n :: tail.map (.writeTorn log n), .ok ())
  | none   => ([], .error (.io "too many torn-tail files"))

-- Opens one log, and moves an incomplete last record out of the way.
def repair (dir : Dir) (log : Log) (torn validLen : UInt64) : List DirOp × Except LedgerError Unit :=
  if torn = 0 then
    ([.openAppend log], .ok ())
  else
    match quarantineTail (dir.apply (.openAppend log)) log validLen with
    | (ops, .ok ())   => (.openAppend log :: (ops ++ [.setLen log validLen.toNat]), .ok ())
    | (ops, .error e) => (.openAppend log :: ops, .error e)

def repairs (dir : Dir) (r : Replayed) : List DirOp × Except LedgerError Unit :=
  match repair dir .events r.torn r.validLen with
  | (ops, .error e) => (ops, .error e)
  | (ops, .ok ())   =>
    match repair (dir.applyAll ops) .checkpoints r.cpTorn r.cpValidLen with
    | (ops', result) => (ops ++ ops', result)

def opened (dir : Dir) (r : Replayed) (node : String) (key : SigningKeypair) (bootId : Bytes.Fixed 16) :
    Ledger where
  logs log           := (dir.logs log).getD .empty
  torn               := dir.torn
  node               := node
  key                := key
  tree               := r.tree
  lastEnv            := r.lastEnv
  nextSeq            := r.events
  counter            := (r.checkpoints.getLast?.map (·.counter)).getD 0
  lastCheckpointSize := (r.checkpoints.getLast?.map (·.size)).getD 0
  bootId             := bootId
  sync               := true
  poisoned           := false

def openReport (r : Replayed) : OpenReport where
  events              := r.events
  checkpoints         := .ofNat r.checkpoints.length
  tornTailBytes       := r.torn
  checkpointTornBytes := r.cpTorn

variable [Crypto]

-- The effects on the directory, and the result. The effects of a call that fails stay.
def openWithEvents (dir : Dir) (node : String) (key : SigningKeypair) (anchors : TrustAnchors)
    (bootId : Bytes.Fixed 16) : List DirOp × Except LedgerError (Ledger × OpenReport × List Event) :=
  match replay node anchors false (dir.readAll .checkpoints) (dir.readAll .events) with
  | .error e => ([], .error e)
  | .ok r    =>
    if r.events = 0 then
      ([], .error .empty)
    else
      match repairs dir r with
      | (ops, .error e) => (ops, .error e)
      | (ops, .ok ())   =>
        (ops, .ok (opened (dir.applyAll ops) r node key bootId, openReport r, r.eventsParsed))

end Ledger
