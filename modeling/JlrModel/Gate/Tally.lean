import JlrModel.Engine.Process
import Mathlib.Data.List.Sort

-- What the gate counts between two summaries, and how it is put into words.

namespace Gate

def TALLY_LIMIT : Nat := 50000

-- At most so many single lines of a kind are written at once. The rest is folded into one.
def SUMMARY_EVENTS : Nat := 20

structure Tally where
  path    : String
  audited : Nat
  denied  : Nat
  deriving DecidableEq

namespace Tally

def new : Tally where
  path    := ""
  audited := 0
  denied  := 0

def total (t : Tally) : Nat :=
  t.audited + t.denied

def reset (t : Tally) : Tally :=
  { t with audited := 0, denied := 0 }

-- Counts an execution by its verdict and its answer.
def note (shown : String) (allowed allow : Bool) (t : Tally) : Tally where
  path    := shown
  audited := if ! allowed && allow then t.audited + 1 else t.audited
  denied  := if ! allowed && ! allow then t.denied + 1 else t.denied

-- What a file is counted under: its identity, or its path if it has none.
def key (v : ExecVerdict) (shown : String) : String :=
  match v.id with
  | some id => id.display
  | none    => "unmeasurable:" ++ shown

end Tally

abbrev Tallies := List (String × Tally)

namespace Tallies

-- Changes the tally of a file, from an empty one if there is none.
def upsert (key : String) (f : Tally → Tally) : Tallies → Tallies
  | []           => [(key, f .new)]
  | (k, t) :: ts => if k = key then (k, f t) :: ts else (k, t) :: upsert key f ts

def note (v : ExecVerdict) (shown : String) (allow : Bool) (ts : Tallies) : Tallies :=
  upsert (Tally.key v shown) (Tally.note shown v.allowed allow) (if TALLY_LIMIT < ts.length then [] else ts)

def reset (ts : Tallies) : Tallies :=
  ts.map fun (k, t) => (k, t.reset)

-- The highest counts first, then by key.
def before (a b : String × Tally) : Bool :=
  b.2.total < a.2.total ∨ a.2.total = b.2.total ∧ a.1 ≤ b.1

def repeated (ts : Tallies) : Tallies :=
  (ts.filter (0 < ·.2.total)).insertionSort (before · ·)

-- The files that get a line of their own.
def single (ts : Tallies) : Tallies :=
  ts.repeated.take SUMMARY_EVENTS

-- The counts stand before what an attacker may choose.
def line (s : String × Tally) : String :=
  let key :=
    if "unmeasurable:".toList.isPrefixOf s.1.toList then "" else " " ++ sanitizeTo s.1 100
  "exec gate summary: audited " ++ toString s.2.audited ++ " denied " ++ toString s.2.denied ++ key ++ " " ++
    sanitizeTo s.2.path 300

end Tallies

-- The executions of users who have used up the time for measurements.
abbrev Throttled := List (UInt32 × Nat)

namespace Throttled

def before (a b : UInt32 × Nat) : Bool :=
  b.2 < a.2 ∨ a.2 = b.2 ∧ a.1 ≤ b.1

def line (t : Throttled) : String :=
  let top := (t.insertionSort (before · ·)).take 3
  "exec gate: " ++ toString (t.map Prod.snd).sum ++ " executions from " ++ toString t.length ++
    " users exceeded the slow-path budget and were answered by policy without being measured (most: " ++
    ", ".intercalate (top.map fun (u, n) => "uid " ++ toString u ++ ": " ++ toString n) ++ ")"

-- Only so many users are counted.
def note (uid : UInt32) (t : Throttled) : Throttled :=
  if t.any (·.1 = uid) then
    t.map fun (u, n) => if u = uid then (u, n + 1) else (u, n)
  else if t.length < 4096 then
    t ++ [(uid, 1)]
  else
    t

end Throttled

-- What is recorded of the errors, the throttling and the counts.
def summaryLines (pending : List String) (throttled : Throttled) (ts : Tallies) : List String :=
  pending.take SUMMARY_EVENTS ++
  (if SUMMARY_EVENTS < pending.length then
    ["exec gate: " ++ toString (pending.length - SUMMARY_EVENTS) ++
      " more internal errors were not recorded individually"]
  else []) ++
  (if throttled ≠ [] then [throttled.line] else []) ++
  ts.single.map Tallies.line ++
  (if SUMMARY_EVENTS < ts.repeated.length then
    ["exec gate summary: " ++ toString (ts.repeated.length - SUMMARY_EVENTS) ++
      " more files were audited or denied repeatedly"]
  else [])

end Gate
