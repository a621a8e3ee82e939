import JlrModel.Engine.Theorems.Outcomes
import JlrModel.Ledger.Theorems.Recover

-- The log that an engine works with stands for the files of its ledger. However the operations on the files go, there
-- is a way for those on the log to go that has the same result, and that leaves a log which says what the files do.

open Program

-- An event without its place in the chain.
def Event.draft (ev : Event) : EventDraft where
  actor    := ev.actor
  subject  := ev.subject
  kind     := ev.kind
  oldState := ev.oldState
  newState := ev.newState
  policy   := ev.policy
  evidence := ev.evidence
  basis    := ev.basis
  detail   := ev.detail

namespace Journal

def drafts (j : Journal) : List EventDraft :=
  j.events.map (·.1.draft)

def covered (j : Journal) : Nat :=
  (j.lastCheckpoint.map (·.size.toNat)).getD 0

end Journal

namespace EventLog

-- The log of a history that nothing comes after.
def of (j : Journal) : EventLog where
  events  := j.drafts
  left    := none
  torn    := 0
  cpTorn  := 0
  covered := j.covered

theorem of_append {j : Journal} {ev : Event} {env : Bytes} :
    { of j with events := (of j).events ++ [ev.draft] } = of (j.append ev env) := by
  simp only [of, Journal.drafts, Journal.append, List.map_append, List.map_cons, List.map_nil]
  rfl

theorem of_commit {j : Journal} {cp : Checkpoint} {env : Bytes} (hs : cp.size.toNat = j.events.length) :
    { of j with covered := (of j).events.length } = of (j.commit cp env) := by
  simp only [of, Journal.drafts, Journal.covered, Journal.lastCheckpoint_commit, Option.map_some, Option.getD_some, hs,
    List.length_map]
  rfl

end EventLog

variable [Crypto] {node : String} {anchors : TrustAnchors} {j : Journal} {dir : Dir} {tail : Log → Bytes}
variable {l : Ledger} {handle : LedgerHandle} {log : EventLog}

namespace EventLog

-- The log says what is in a directory: a history that is empty or that a reader accepts, and a tail after it.
structure Describes (node : String) (anchors : TrustAnchors) (log : EventLog) (dir : Dir) (j : Journal)
    (tail : Log → Bytes) : Prop where
  valid      : j = .new ∨ ∃ l, Ledger.Sound node anchors l j
  content    : ∀ file, dir.readAll file = framed (j.envelopes file) ++ tail file
  incomplete : ∀ file, Incomplete (tail file)
  events     : log.replayed = j.drafts
  torn       : log.torn = .ofNat (tail .events).length
  cpTorn     : log.cpTorn = .ofNat (tail .checkpoints).length
  covered    : log.covered = j.covered

def Shows (node : String) (anchors : TrustAnchors) (log : EventLog) (dir : Dir) : Prop :=
  ∃ j tail, Describes node anchors log dir j tail

namespace Describes

theorem replays (s : Describes node anchors log dir j tail) (full : Bool) :
    Ledger.Replays node anchors full (j.envelopes .events) (j.envelopes .checkpoints) (tail .events)
      (tail .checkpoints) (j.events.map Prod.fst) (j.checkpoints.map Prod.fst) := by
  obtain rfl | ⟨l, hl⟩ := s.valid
  case inl => exact {
      framable     := nofun
      incomplete   := s.incomplete .events
      cpFramable   := nofun
      cpIncomplete := s.incomplete .checkpoints
      commits      := .nil
      chain        := .nil
      verified _ h := nomatch List.mem_of_mem_drop h
    }
  case inr => exact { hl.replays full with
      incomplete   := s.incomplete .events
      cpIncomplete := s.incomplete .checkpoints
    }

-- The tail of the events was cut off, or both were.
theorem trimmed {dir' : Dir} (s : Describes node anchors log dir j tail)
    (hd : ∀ file, dir'.readAll file = framed (j.envelopes file) ++ Ledger.Log.pick [] (tail .checkpoints) file) :
    Describes node anchors log.trimmed dir' j (Ledger.Log.pick [] (tail .checkpoints)) where
  valid           := s.valid
  content         := hd
  incomplete file := file.casesOn incomplete_nil (s.incomplete .checkpoints)
  events          := s.events
  torn            := rfl
  cpTorn          := s.cpTorn
  covered         := s.covered

theorem repaired {dir' : Dir} (s : Describes node anchors log dir j tail)
    (hd : ∀ file, dir'.readAll file = framed (j.envelopes file) ++ []) :
    Describes node anchors log.repaired dir' j fun _ => [] where
  valid        := s.valid
  content      := hd
  incomplete _ := incomplete_nil
  events       := (List.append_nil _).trans s.events
  torn         := rfl
  cpTorn       := rfl
  covered      := s.covered

-- A file of events that is empty has no event, and no part of one.
theorem readAll_eq_nil (s : Describes node anchors log dir j tail) :
    dir.readAll .events = [] ↔ log.replayed = [] ∧ log.torn = 0 := by
  have hj : framed (j.envelopes .events) = [] ↔ log.replayed = [] := by
    rw [s.events, Journal.drafts, List.map_eq_nil_iff, ← List.map_eq_nil_iff (f := Prod.snd)]
    refine ⟨fun h => ?_, fun h => congrArg framed h⟩
    have hl : (j.envelopes .events).length ≤ (framed (j.envelopes .events)).length := length_le_framed
    rw [h] at hl
    exact List.eq_nil_of_length_eq_zero (Nat.le_zero.mp hl)
  have ht : tail .events = [] ↔ log.torn = 0 := by
    rw [s.torn]
    exact ⟨fun h => h ▸ rfl, not_imp_not.mp (Ledger.torn_ne_zero (s.content .events))⟩
  rw [s.content .events, List.append_eq_nil_iff, hj, ht]

end Describes

-- What a reader makes of the files is what the log says.
theorem Shows.replay (s : log.Shows node anchors dir) (full : Bool) :
    ∃ r, Ledger.replay node anchors full (dir.readAll .checkpoints) (dir.readAll .events) = .ok r ∧
      r.eventsParsed.map Event.draft = log.replayed ∧ r.torn = log.torn ∧ r.cpTorn = log.cpTorn ∧
      (r.checkpoints.getLast?.map (·.size.toNat)).getD 0 = log.covered := by
  have ⟨j, tail, s⟩ := s
  refine ⟨_, Ledger.replay_split s.content (s.replays full), ?_, s.torn.symm, s.cpTorn.symm, s.covered.symm⟩
  rw [s.events]
  exact List.map_map

-- The log of a history that fills its files.
theorem of_shows (hv : j = .new ∨ ∃ l, Ledger.Sound node anchors l j)
    (hd : ∀ file, dir.readAll file = framed (j.envelopes file)) : (of j).Shows node anchors dir := by
  refine ⟨j, fun _ => [], ?_⟩
  exact {
    valid        := hv
    content file := (hd file).trans (List.append_nil _).symm
    incomplete _ := incomplete_nil
    events       := List.append_nil _
    torn         := rfl
    cpTorn       := rfl
    covered      := rfl
  }

end EventLog

namespace Ledger

-- A ledger that is open, and the handle and the log that stand for it. Of a poisoned ledger, only the files count.
inductive Refines (node : String) (anchors : TrustAnchors) (l : Ledger) : LedgerHandle → EventLog → Prop
  | sound {k : Journal} : Sound node anchors l k → l.poisoned = false → Refines node anchors l ⟨l.sync, false⟩ (.of k)
  | poisoned {g : EventLog} : l.poisoned = true → g.Shows node anchors l.dir → Refines node anchors l ⟨l.sync, true⟩ g

theorem Refines.shows (r : Refines node anchors l handle log) : log.Shows node anchors l.dir := by
  cases r
  case sound s _ => exact EventLog.of_shows (.inr ⟨l, s⟩) s.data
  case poisoned s => exact s

end Ledger

namespace EventLog

variable {ev : Event} {cp : Checkpoint} {env t : Bytes}

-- An event of which a part was written: it is there as a whole, or as a tail.
theorem leave_shows (hv : j = .new ∨ ∃ l, Ledger.Sound node anchors l j)
    (hw : t = frame env → ∃ l, Ledger.Sound node anchors l (j.append ev env)) (hf : Framable env) (ht : t <+: frame env)
    (hd : dir.readAll .events = framed (j.envelopes .events) ++ t)
    (hc : dir.readAll .checkpoints = framed (j.envelopes .checkpoints)) :
    ∃ left, (Host.leave ev.draft left (of j)).Shows node anchors dir := by
  by_cases he : t = frame env
  case pos =>
    refine ⟨.whole, j.append ev env, fun _ => [], ?_⟩
    exact {
      valid      := .inr (hw he)
      content    := by
        intro file
        cases file
        case events => simp [hd, he]
        case checkpoints => simp [hc]
      incomplete := fun _ => incomplete_nil
      events     := by simp [Host.leave, replayed, of, Journal.drafts, Journal.append]
      torn       := rfl
      cpTorn     := rfl
      covered    := rfl
    }
  case neg =>
    refine ⟨.part (.ofNat t.length), j, Ledger.Log.pick t [], ?_⟩
    exact {
      valid      := hv
      content    := fun file => file.casesOn hd (hc.trans (List.append_nil _).symm)
      incomplete := fun file => file.casesOn (incomplete_of_isPrefix hf ht he) incomplete_nil
      events     := List.append_nil _
      torn       := rfl
      cpTorn     := rfl
      covered    := rfl
    }

theorem leaveCheckpoint_shows (hv : ∃ l, Ledger.Sound node anchors l j)
    (hw : t = frame env → ∃ l, Ledger.Sound node anchors l (j.commit cp env)) (hs : cp.size.toNat = j.events.length)
    (hf : Framable env) (ht : t <+: frame env) (hd : dir.readAll .events = framed (j.envelopes .events))
    (hc : dir.readAll .checkpoints = framed (j.envelopes .checkpoints) ++ t) :
    ∃ left, (Host.leaveCheckpoint left (of j)).Shows node anchors dir := by
  by_cases he : t = frame env
  case pos =>
    refine ⟨.whole, ?_⟩
    rw [Host.leaveCheckpoint, of_commit hs]
    refine of_shows (.inr (hw he)) fun file => ?_
    cases file
    case events => simp [hd]
    case checkpoints => simp [hc, he]
  case neg =>
    refine ⟨.part (.ofNat t.length), j, Ledger.Log.pick [] t, ?_⟩
    exact {
      valid      := .inr hv
      content    := fun file => file.casesOn (hd.trans (List.append_nil _).symm) hc
      incomplete := fun file => file.casesOn incomplete_nil (incomplete_of_isPrefix hf ht he)
      events     := List.append_nil _
      torn       := rfl
      cpTorn     := rfl
      covered    := rfl
    }

end EventLog

namespace Host

-- What is answered to a request to the ledger.
def reply : Option LedgerError → Except EngineError Unit
  | none   => .ok ()
  | some e => .error (.ledger e)

def request : Ledger.Call → HostM Unit
  | .append _ _ d   => append d
  | .checkpoint _ _ => checkpoint

-- The requests of a process that goes on after an error.
def requests : List Ledger.Call → HostM (List (Except EngineError Unit))
  | []         => return []
  | c :: calls => do
    let answer ← attempt Halt.error? (request c)
    let answers ← requests calls
    return answer :: answers

end Host

namespace Ledger

-- An event that a reader accepts.
def Call.Acceptable (l : Ledger) : Call → Prop
  | .append _ clock d => d.kind ≠ .genesis ∧ (l.eventEnvelope clock d).length ≤ MAX_FRAME
  | .checkpoint _ _   => True

-- The files after a part of the record of a call was written.
inductive Call.Leaves (l : Ledger) : Call → Dir → Prop
  | event {io : Io} {clock : Clock} {d : EventDraft} {t : Bytes} {f : File} :
      t <+: frame (l.eventEnvelope clock d) → f.data = (l.logs .events).data ++ t →
      Leaves l (.append io clock d) (l.setLog .events f).dir
  | checkpoint {io : Io} {now : UInt64} {t : Bytes} {f : File} :
      t <+: frame (l.checkpointEnvelope now) →
      f.data = (l.logs .checkpoints).data ++ t → Leaves l (.checkpoint io now) (l.setLog .checkpoints f).dir

-- A call that is interrupted, in a process that stops or that finds the ledger poisoned from then on.
theorem Sound.interrupted {c : Call} (s : Sound node anchors l j) (ha : c.Acceptable l) (hd : c.Leaves l dir)
    (hi : Host.Interrupts fate why) (sync : Bool) :
    ∃ log', log'.Shows node anchors dir ∧
      Host.Runs (Host.request c) ⟨sync, false⟩ (.of j) (.error why) ⟨sync, true⟩ log' := by
  cases hd
  case event io clock d t f ht hf =>
    have hw (he : t = frame (l.eventEnvelope clock d)) :
        ∃ l', Sound node anchors l' (j.append (l.event clock d) (l.eventEnvelope clock d)) :=
      ⟨_, s.written ha.left ha.right (he ▸ hf)⟩
    have hr : (l.setLog .events f).dir.readAll .events = framed (j.envelopes .events) ++ t := by
      rw [readAll_setLog_self, hf, s.data]
    have hc : (l.setLog .events f).dir.readAll .checkpoints = framed (j.envelopes .checkpoints) :=
      (readAll_setLog_of_ne (by decide) f).trans (s.data .checkpoints)
    have ⟨left, hs⟩ := EventLog.leave_shows (.inr ⟨l, s⟩) hw (framable_sign ha.right) ht hr hc
    exact ⟨_, hs, Host.record_runs_interrupted rfl hi left⟩
  case checkpoint io now t f ht hf =>
    have hw (he : t = frame (l.checkpointEnvelope now)) :
        ∃ l', Sound node anchors l' (j.commit (l.nextCheckpoint now) (l.checkpointEnvelope now)) :=
      ⟨_, s.committed (he ▸ hf)⟩
    have hr : (l.setLog .checkpoints f).dir.readAll .checkpoints = framed (j.envelopes .checkpoints) ++ t := by
      rw [readAll_setLog_self, hf, s.data]
    have he : (l.setLog .checkpoints f).dir.readAll .events = framed (j.envelopes .events) :=
      (readAll_setLog_of_ne (by decide) f).trans (s.data .events)
    have ⟨left, hs⟩ := EventLog.leaveCheckpoint_shows ⟨l, s⟩ hw (s.size_nextCheckpoint now)
      (framable_sign (s.fits_checkpoint now)) ht he hr
    exact ⟨_, hs, Host.record_runs_interrupted rfl hi left⟩

-- Whatever a call does to the files, the request may do to the log.
theorem exec_refines {c : Call} (r : Refines node anchors l handle log) (ha : c.Acceptable l) :
    ∃ handle' log', Refines node anchors (l.exec c).2 handle' log' ∧
      Host.Runs (attempt Halt.error? (Host.request c)) handle log (.ok (Host.reply (l.exec c).1)) handle' log' := by
  cases r
  case poisoned hp s =>
    rw [exec_poisoned hp]
    have hr : Host.Runs (Host.request c) ⟨l.sync, true⟩ log (.error (.error (.ledger refused))) ⟨l.sync, true⟩ log := by
      cases c <;> exact Host.record_runs_refused rfl
    exact ⟨_, _, .poisoned hp s, hr.attempt_error⟩
  case sound j s hp =>
    cases c
    case append io clock d =>
      have o := l.append_outcome io clock d
      simp only [exec]
      generalize l.append io clock d = r at o ⊢
      cases o
      case written f _ hf =>
        have hs := Refines.sound (s.written ha.left ha.right hf) hp
        rw [← EventLog.of_append] at hs
        exact ⟨_, _, hs, (Host.record_runs rfl).attempt_ok⟩
      case restored e => exact ⟨_, _, .sound s hp, (Host.record_runs_failed rfl).attempt_error⟩
      case poisoned t e f _ ht hf =>
        obtain ⟨log', hs, hr⟩ := s.interrupted (c := .append io clock d) ha (.event ht hf) (.broken (e := e)) l.sync
        exact ⟨_, log', .poisoned rfl hs, hr.attempt_error⟩
    case checkpoint io now =>
      have o := l.checkpoint_outcome io now
      simp only [exec]
      generalize l.checkpoint io now = r at o ⊢
      cases o
      case written f _ hf =>
        have hs := Refines.sound (s.committed hf) hp
        rw [← EventLog.of_commit (s.size_nextCheckpoint now)] at hs
        exact ⟨_, _, hs, (Host.record_runs rfl).attempt_ok⟩
      case restored e => exact ⟨_, _, .sound s hp, (Host.record_runs_failed rfl).attempt_error⟩
      case poisoned t e f _ ht hf =>
        obtain ⟨log', hs, hr⟩ := s.interrupted (c := .checkpoint io now) ha (.checkpoint ht hf) (.broken (e := e)) l.sync
        exact ⟨_, log', .poisoned rfl hs, hr.attempt_error⟩

-- All calls of a process are acceptable, each at its time.
def Acceptable (l : Ledger) : List Call → Prop
  | []         => True
  | c :: calls => c.Acceptable l ∧ Acceptable (l.exec c).2 calls

def answers (l : Ledger) : List Call → List (Except EngineError Unit)
  | []         => []
  | c :: calls => Host.reply (l.exec c).1 :: answers (l.exec c).2 calls

theorem step_fst {c : Call} : (step (l, j) c).1 = (l.exec c).2 := by
  rw [step]
  cases hx : l.exec c
  case mk e l' => cases e <;> rfl

-- A process can not tell its ledger from the log that stands for it: it gets the same answers to all of its requests,
-- and what is then in the files is what the log says.
theorem run_refines {calls : List Call} (r : Refines node anchors l handle log) (ha : l.Acceptable calls) :
    ∃ handle' log', Refines node anchors (l.run calls).1 handle' log' ∧
      Host.Runs (Host.requests calls) handle log (.ok (l.answers calls)) handle' log' := by
  rw [run]
  generalize Journal.new = j
  induction calls generalizing l handle log j
  case nil => exact ⟨handle, log, r, .pure⟩
  case cons c calls ih =>
    obtain ⟨handle₁, log₁, r₁, hx⟩ := exec_refines r ha.left
    obtain ⟨handle', log', r', hy⟩ := ih r₁ ha.right (step (l, j) c).2
    refine ⟨handle', log', ?_, hx.bind (hy.bind .pure)⟩
    rw [List.foldl_cons, show step (l, j) c = ((l.exec c).2, (step (l, j) c).2) from Prod.ext step_fst rfl]
    exact r'

-- If the process stops during a call instead, the log says what it has left in the files.
theorem stop_refines {c : Call} (r : Refines node anchors l handle log) (hp : l.poisoned = false) (ha : c.Acceptable l)
    (hd : c.Leaves l dir) :
    ∃ handle' log', log'.Shows node anchors dir ∧
      Host.Runs (Host.request c) handle log (.error .stopped) handle' log' := by
  cases r
  case poisoned hq _ => exact absurd (hp.symm.trans hq) Bool.false_ne_true
  case sound s _ =>
    have ⟨log', hs, hr⟩ := s.interrupted ha hd .stopped l.sync
    exact ⟨_, log', hs, hr⟩

theorem setSync_refines (r : Refines node anchors l handle log) (sync : Bool) :
    Refines node anchors (l.setSync sync) { handle with sync } log ∧
      Host.Runs (Host.setSync sync) handle log (.ok ()) { handle with sync } log := by
  refine ⟨?_, Host.setSync_runs⟩
  cases r
  case sound s hp => exact .sound (s.setSync sync) hp
  case poisoned hp s => exact .poisoned hp s

section

variable {io : Io} {clock : Clock} {key : SigningKeypair} {bootId : Bytes.Fixed 16} {f : File} {t : Bytes}

-- The log of a directory without any records.
theorem shows_new (s : log.Shows node anchors dir) (he : log.replayed = [] ∧ log.torn = 0)
    (hc : dir.readAll .checkpoints = []) : log = .of .new := by
  have ⟨j, tail, s⟩ := s
  have hj : j = .new := by
    obtain hj | ⟨l, hl⟩ := s.valid
    case inl => exact hj
    case inr => exact absurd (List.map_eq_nil_iff.mp (s.events.symm.trans he.left)) hl.started
  have ht : tail .checkpoints = [] := (List.append_eq_nil_iff.mp ((s.content .checkpoints).symm.trans hc)).right
  have hcp : log.cpTorn = 0 := by rw [s.cpTorn, ht]; rfl
  have hcov : log.covered = 0 := by rw [s.covered, hj]; rfl
  have ⟨hev, hl⟩ := List.append_eq_nil_iff.mp he.left
  cases log
  cases he.right
  cases hcp
  cases hcov
  cases hev
  cases Option.toList_eq_nil_iff.mp hl
  rfl

-- The creation of a ledger that is interrupted while its first event is written.
theorem create_interrupted (s : log.Shows node anchors dir) (dk : DeviceKey anchors key)
    (he : dir.readAll .events = []) (hc : dir.readAll .checkpoints = [])
    (hf : ((fresh dir node key bootId).eventEnvelope clock (genesis node)).length ≤ MAX_FRAME)
    (ht : t <+: frame ((fresh dir node key bootId).eventEnvelope clock (genesis node)))
    (hd : f.data = ((fresh dir node key bootId).logs .events).data ++ t) (hi : Host.Interrupts fate why) :
    ∃ handle' log', log'.Shows node anchors ((fresh dir node key bootId).setLog .events f).dir ∧
      Host.Runs (Host.createLedger node) handle log (.error why) handle' log' := by
  have ⟨j, tail, sd⟩ := s
  have hn := sd.readAll_eq_nil.mp he
  obtain rfl := shows_new s hn hc
  have hw (hx : t = frame ((fresh dir node key bootId).eventEnvelope clock (genesis node))) :
      ∃ l, Sound node anchors l (Journal.new.append ((fresh dir node key bootId).event clock (genesis node))
        ((fresh dir node key bootId).eventEnvelope clock (genesis node))) :=
    ⟨_, .begun dk he hc hf (hx ▸ hd)⟩
  have hr : ((fresh dir node key bootId).setLog .events f).dir.readAll .events = framed [] ++ t := by
    have hev : ((fresh dir node key bootId).logs .events).data = [] := data_getD.trans he
    rw [readAll_setLog_self, hd, hev]
    rfl
  have hq : ((fresh dir node key bootId).setLog .events f).dir.readAll .checkpoints = framed [] :=
    (readAll_setLog_of_ne (by decide) f).trans (data_getD.trans hc)
  have ⟨left, hs⟩ := EventLog.leave_shows (.inl rfl) hw (framable_sign hf) ht hr hq
  exact ⟨_, _, hs, Host.createLedger_runs hn (Host.record_runs_interrupted rfl hi left)⟩

-- The same of the creation of a ledger.
theorem create_refines (s : log.Shows node anchors dir) (dk : DeviceKey anchors key)
    (hc : dir.readAll .checkpoints = [])
    (hf : ((fresh dir node key bootId).eventEnvelope clock (genesis node)).length ≤ MAX_FRAME) :
    ∃ handle' log', log'.Shows node anchors (create dir io clock node key bootId).2 ∧
      match (create dir io clock node key bootId).1 with
      | .ok l    => Refines node anchors l handle' log' ∧
        Host.Runs (Host.createLedger node) handle log (.ok ()) handle' log'
      | .error e => Host.Runs (Host.createLedger node) handle log (.error (.error (.ledger e))) handle' log' := by
  have ⟨j, tail, sd⟩ := s
  rw [create]
  by_cases he : dir.readAll .events = []
  case neg =>
    rw [if_pos he]
    exact ⟨handle, log, s, Host.createLedger_runs_exists (sd.readAll_eq_nil.not.mp he)⟩
  case pos =>
    have hn := sd.readAll_eq_nil.mp he
    obtain rfl := shows_new s hn hc
    rw [if_neg (not_not.mpr he)]
    have o := (fresh dir node key bootId).append_outcome io clock (genesis node)
    generalize (fresh dir node key bootId).append io clock (genesis node) = r at o ⊢
    cases o
    case written f _ hd =>
      have hs := Refines.sound (Sound.begun dk he hc hf hd) rfl
      rw [← EventLog.of_append] at hs
      exact ⟨_, _, hs.shows, hs, Host.createLedger_runs hn (Host.record_runs rfl)⟩
    case restored e =>
      refine ⟨_, _, EventLog.of_shows (.inl rfl) ?_, Host.createLedger_runs hn (Host.record_runs_failed rfl)⟩
      exact fun file => file.casesOn (data_getD.trans he) (data_getD.trans hc)
    case poisoned ht hd => exact create_interrupted s dk he hc hf ht hd .broken

-- The repair of a directory that is interrupted.
theorem repair_interrupted (s : log.Describes node anchors dir j tail) (hne : log.replayed ≠ [])
    (hi : Host.Interrupts fate why)
    (hp : ops <+: (repairs dir (replayed (j.envelopes .events) (j.envelopes .checkpoints) (tail .events)
      (tail .checkpoints) (j.events.map Prod.fst) (j.checkpoints.map Prod.fst))).1) :
    ∃ log', log'.Shows node anchors (dir.applyAll ops) ∧
      Host.Runs Host.openLedger handle log (.error why) handle log' := by
  have ⟨left, hd, h⟩ := (split_replayed s.content).stage hp
  have ⟨hf, ht, hr⟩ := Host.openLedger_runs_interrupted handle hne hi
  obtain rfl | rfl | rfl := h
  case inl => exact ⟨_, ⟨j, _, { s with content := hd }⟩, hf⟩
  case inr.inl => exact ⟨_, ⟨j, _, s.trimmed hd⟩, ht⟩
  case inr.inr => exact ⟨_, ⟨j, _, s.repaired hd⟩, hr⟩

theorem shows_started (s : log.Describes node anchors dir j tail) (hne : log.replayed ≠ []) :
    j.envelopes .events ≠ [] ∧ ∃ l, Sound node anchors l j := by
  rw [s.events] at hne
  have hj : j.events ≠ [] := fun h => hne (congrArg (List.map _) h)
  refine ⟨fun h => hj (List.map_eq_nil_iff.mp h), s.valid.resolve_left ?_⟩
  rintro rfl
  exact hj rfl

-- And of the opening of one.
theorem open_refines (s : log.Shows node anchors dir) (dk : DeviceKey anchors key) :
    match openWithEvents dir node key anchors bootId with
    | (_, .ok (l, report, evs)) => ∃ log', Refines node anchors l .new log' ∧
        Host.Runs Host.openLedger handle log (.ok log) .new log' ∧ evs.map Event.draft = log.replayed ∧
        report.tornTailBytes = log.torn ∧ report.checkpointTornBytes = log.cpTorn
    | (ops, .error e) => ∃ log', log'.Shows node anchors (dir.applyAll ops) ∧
        Host.Runs Host.openLedger handle log (.error (.error (.ledger e))) handle log' := by
  obtain ⟨j, tail, sd⟩ := s
  have hr := replay_split sd.content (sd.replays false)
  by_cases hn : log.replayed = []
  case pos =>
    have hj : j.envelopes .events = [] := congrArg (List.map _) (List.map_eq_nil_iff.mp (sd.events.symm.trans hn))
    have hx : openWithEvents dir node key anchors bootId = ([], .error .empty) := by
      rw [openWithEvents, hr]
      simp only [replayed, hj, List.length_nil]
      rfl
    rw [hx]
    exact ⟨log, ⟨j, tail, sd⟩, Host.openLedger_runs_empty hn⟩
  case neg =>
    obtain ⟨he, l, hl⟩ := shows_started sd hn
    have hz := events_ne_zero (sd.content .events) he
    cases hk : repairs dir (replayed (j.envelopes .events) (j.envelopes .checkpoints) (tail .events)
      (tail .checkpoints) (j.events.map Prod.fst) (j.checkpoints.map Prod.fst))
    case mk ops res =>
      cases res
      case error e =>
        obtain ⟨why, rfl⟩ := repairs_error hk
        rw [openWithEvents_error hr hz hk]
        exact repair_interrupted sd hn .broken (by rw [hk])
      case ok =>
        have hd := (split_replayed sd.content).repaired (congrArg Prod.snd hk)
        rw [hk] at hd
        rw [openWithEvents_eq hr hz hk]
        have hg : log.repaired = .of j := by rw [EventLog.repaired, EventLog.of, sd.events, sd.covered]
        refine ⟨_, ?_, Host.openLedger_runs hn, ?_, sd.torn.symm, sd.cpTorn.symm⟩
        · rw [hg]
          exact .sound (hl.opened dk fun file => (hd file).left) rfl
        · rw [sd.events]
          exact List.map_map

-- An opening that stops on the way.
theorem open_stop_refines (s : log.Shows node anchors dir) (hne : log.replayed ≠ [])
    (hp : ops <+: (openWithEvents dir node key anchors bootId).1) :
    ∃ log', log'.Shows node anchors (dir.applyAll ops) ∧
      Host.Runs Host.openLedger handle log (.error .stopped) handle log' := by
  have ⟨j, tail, sd⟩ := s
  have hr := replay_split sd.content (sd.replays false)
  have hz := events_ne_zero (sd.content .events) (shows_started sd hne).left
  rw [openWithEvents_fst hr hz] at hp
  exact repair_interrupted sd hne .stopped hp

end

end Ledger
