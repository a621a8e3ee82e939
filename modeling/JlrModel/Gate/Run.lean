import JlrModel.Gate.Cache
import JlrModel.Gate.Tally

-- The event loop of the gate, beside the thread that scans again and the processes that change the signed state.

namespace Gate

def CACHE_LIMIT : Nat := 100000

structure Args where
  forceAudit : Bool
  failClosed : Bool

-- One attempted execution, as it is held by the kernel. The path is missing if it can not be told.
structure Execution where
  self   : Bool
  cloned : Bool
  info   : Option FileMeta
  path   : Option String
  uid    : UInt32

def Execution.shown (x : Execution) : String :=
  sanitize (x.path.getD "<unknown>")

-- Where an entry has come from. The gate itself does not keep it.
structure Origin where
  opened  : Nat
  clock   : Clock
  verdict : ExecVerdict
  file    : String

structure Cached where
  entry  : CacheEntry
  origin : Origin

abbrev Cache := List (FileKey × Cached)

namespace Cache

def get (key : FileKey) (cache : Cache) : Option Cached :=
  cache.lookup key

def insert (key : FileKey) (c : Cached) (cache : Cache) : Cache :=
  (key, c) :: cache.filter (·.1 ≠ key)

end Cache

-- The variables of the loop.
structure Locals where
  cache       : Cache
  tally       : Tallies
  throttled   : Throttled
  pending     : List String
  lastFlush   : Nat
  seenGen     : Nat
  enforceHint : Bool

-- Where the loop is.
inductive Phase
  | polling
  | reading (ready : Bool)
  | bumping (ready : Bool)
  | hinting (ready : Bool)
  | loading (ready : Bool)
  | clearing (ready : Bool) (g : Nat)
  | fetching (g : Nat)
  | answering (g : Nat) (batch : List (Option Execution))
  | deciding (g : Nat) (x : Execution) (info : FileMeta) (batch : List (Option Execution))
  | opened (g : Nat) (x : Execution) (info : FileMeta) (batch : List (Option Execution)) (placed : Nat)
  | flushing
  | stopped

-- The changes of the signed state are numbered in the order in which they get in place. A notification is the number
-- of a change. The generation has 64 bits in the daemon, and does not come to an end there before 2 ^ 64 changes and
-- scans: it is a number without a bound here, and in the entries that are marked with it.
structure System where
  phase      : Phase
  locals     : Locals
  clock      : Clock
  generation : Nat
  placed     : Nat
  queue      : List Nat

def System.start (clock : Clock) (enforceHint : Bool) : System where
  phase      := .polling
  locals     := {
    cache       := []
    tally       := []
    throttled   := []
    pending     := []
    lastFlush   := clock.mono
    seenGen     := 1
    enforceHint
  }
  clock      := clock
  generation := 1
  placed     := 0
  queue      := []

-- What an answer rests on.
inductive Ground
  | own
  | unreadable
  | hit (c : Cached)
  | throttled (c : Option Cached)
  | verdict (v : ExecVerdict) (file : String)
  | failed

-- How writing a summary has gone.
inductive Summary
  | unopened
  | unrecorded
  | recorded

-- What can be seen of a step.
inductive Label
  | silent
  | noticed (changes : List Nat)
  | fetched (batch : List (Option Execution))
  | answered (x : Execution) (ground : Ground) (allow : Bool) (clock : Clock)
  | summary (outcome : Summary) (tally : Tallies) (lines : List String)

-- Whether a verdict lets a file run.
def decided (args : Args) (v : ExecVerdict) : Bool :=
  ! (v.enforce && ! args.forceAudit && ! v.allowed)

def Locals.summary (l : Locals) : List String :=
  summaryLines l.pending l.throttled l.tally

-- The queue of errors and the counts of users are only emptied if there was somebody to record them.
def Locals.flushed (l : Locals) (outcome : Summary) (now : Nat) : Locals :=
  let l := match outcome with
    | .unopened => l
    | _         => { l with pending := [], throttled := [] }
  { l with tally := l.tally.reset, lastFlush := now }

-- The entry of a verdict, by the clock before and the clock after.
def entryOf (args : Args) (g : Nat) (info : FileMeta) (v : ExecVerdict) (now now' : Clock) : CacheEntry where
  stamp      := info.stamp
  generation := g
  allow      := decided args v
  expires    := now.mono + (min v.maxAgeSecs 3600).toNat * 10 ^ 9
  validUntil := now'.wallSecs.saturatingAdd v.maxAgeSecs

-- The entry that answers an execution without any work.
def System.hit (s : System) (g : Nat) (info : FileMeta) : Option Cached :=
  (s.locals.cache.get info.key).filter fun c => c.entry.answers info.stamp g s.clock.mono

-- The entry that answers for a user whose executions are not measured any more.
def System.known (s : System) (g : Nat) (info : FileMeta) : Option Cached :=
  (s.locals.cache.get info.key).filter fun c => c.entry.knownGood info.stamp g s.clock.wallSecs

def System.to (s : System) (phase : Phase) : System :=
  { s with phase }

inductive Step (args : Args) : System → Label → System → Prop
  -- What the others do.
  | tick (clock : Clock) : s.clock ≤ clock → Step args s .silent { s with clock }
  | place : Step args s .silent { s with placed := s.placed + 1 }
  | notify (i : Nat) : 1 ≤ i → i ≤ s.placed → Step args s .silent { s with queue := s.queue ++ [i] }
  | rescan : Step args s .silent { s with generation := s.generation + 1 }
  -- The loop up to the load of the generation.
  | poll (changed ready : Bool) : s.phase = .polling →
    Step args s .silent (s.to (if changed then .reading ready else .loading ready))
  | read (is queue : List Nat) : s.phase = .reading ready → s.queue = is ++ queue →
    Step args s (.noticed is) { s.to (.bumping ready) with queue }
  | bump : s.phase = .bumping ready →
    Step args s .silent { s.to (.hinting ready) with generation := s.generation + 1 }
  | hint (policy : Option Bool) : s.phase = .hinting ready →
    Step args s .silent
      { s.to (.loading ready) with
        locals := { s.locals with enforceHint := policy.getD s.locals.enforceHint && ! args.forceAudit } }
  | load : s.phase = .loading ready → Step args s .silent (s.to (.clearing ready s.generation))
  | clear : s.phase = .clearing ready g → g ≠ s.locals.seenGen ∨ CACHE_LIMIT < s.locals.cache.length →
    Step args s .silent
      { s.to (if ready then .fetching g else .flushing) with locals := { s.locals with cache := [], seenGen := g } }
  | keep : s.phase = .clearing ready g → ¬ (g ≠ s.locals.seenGen ∨ CACHE_LIMIT < s.locals.cache.length) →
    Step args s .silent (s.to (if ready then .fetching g else .flushing))
  -- The executions that wait.
  | none : s.phase = .fetching g → Step args s .silent (s.to .polling)
  | broken : s.phase = .fetching g → Step args s .silent (s.to .stopped)
  | fetch (batch : List (Option Execution)) : s.phase = .fetching g →
    Step args s (.fetched batch) (s.to (.answering g batch))
  | skip : s.phase = .answering g (.none :: batch) → Step args s .silent (s.to (.answering g batch))
  | own : s.phase = .answering g (some x :: batch) → x.self →
    Step args s (.answered x .own true s.clock) (s.to (.answering g batch))
  | unreadable : s.phase = .answering g (some x :: batch) → ¬ x.self → ¬ x.cloned ∨ x.info = .none →
    Step args s (.answered x .unreadable (! args.failClosed) s.clock) (s.to (.answering g batch))
  | hit : s.phase = .answering g (some x :: batch) → ¬ x.self → x.cloned → x.info = some info →
    s.hit g info = some c → Step args s (.answered x (.hit c) c.entry.allow s.clock) (s.to (.answering g batch))
  | throttle : s.phase = .answering g (some x :: batch) → ¬ x.self → x.cloned → x.info = some info →
    s.hit g info = .none → x.uid ≠ 0 →
    Step args s
      (.answered x (.throttled (s.known g info))
        (throttledAnswer ((s.locals.cache.get info.key).map Cached.entry) info.stamp g s.clock.wallSecs
          s.locals.enforceHint) s.clock)
      { s.to (.answering g batch) with locals := { s.locals with throttled := s.locals.throttled.note x.uid } }
  | miss : s.phase = .answering g (some x :: batch) → ¬ x.self → x.cloned → x.info = some info →
    s.hit g info = .none → Step args s .silent (s.to (.deciding g x info batch))
  | «open» : s.phase = .deciding g x info batch → Step args s .silent (s.to (.opened g x info batch s.placed))
  | decide (v : ExecVerdict) {clock : Clock} : s.phase = .opened g x info batch placed → s.clock ≤ clock →
    Step args s (.answered x (.verdict v (Tally.key v x.shown)) (decided args v) clock)
      { s.to (.answering g batch) with
        clock
        locals := {
          s.locals with
          cache       := s.locals.cache.insert info.key
            ⟨entryOf args g info v s.clock clock, placed, ⟨s.clock.mono, clock.wall, clock.wall_lt⟩, v,
              Tally.key v x.shown⟩
          tally       := s.locals.tally.note v x.shown (decided args v)
          enforceHint := v.enforce && ! args.forceAudit } }
  | fail (recorded : Bool) (message : String) : s.phase = .opened g x info batch placed →
    Step args s (.answered x .failed (! args.failClosed) s.clock)
      { s.to (.answering g batch) with
        locals := { s.locals with pending :=
          if recorded = true ∨ 256 ≤ s.locals.pending.length then s.locals.pending else
          s.locals.pending ++ ["exec gate error for " ++ x.shown ++ ": " ++ message] } }
  | answered : s.phase = .answering g [] → Step args s .silent (s.to .flushing)
  -- The summaries.
  | flush (outcome : Summary) : s.phase = .flushing → s.locals.lastFlush + 30 * 10 ^ 9 < s.clock.mono →
    s.locals.tally ≠ [] ∨ s.locals.pending ≠ [] ∨ s.locals.throttled ≠ [] →
    Step args s (.summary outcome s.locals.tally s.locals.summary)
      { s.to .polling with locals := s.locals.flushed outcome s.clock.mono }
  | wait : s.phase = .flushing →
    ¬ (s.locals.lastFlush + 30 * 10 ^ 9 < s.clock.mono ∧
      (s.locals.tally ≠ [] ∨ s.locals.pending ≠ [] ∨ s.locals.throttled ≠ [])) →
    Step args s .silent (s.to .polling)
  | stop (outcome : Summary) : s.phase = .polling →
    Step args s (.summary outcome s.locals.tally s.locals.summary)
      { s.to .stopped with locals := { s.locals with tally := [], pending := [], throttled := [], cache := [] } }

-- The runs of the gate, with all that was seen of them.
inductive Runs (args : Args) (start : System) : List Label → System → Prop
  | start : Runs args start [] start
  | step : Runs args start ls s → Step args s l s' → Runs args start (ls ++ [l]) s'

end Gate
