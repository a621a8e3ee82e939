import JlrModel.Engine.Theorems.Replaced
import JlrModel.Engine.Theorems.Spares

-- What becomes of an artifact that is looked at twice.

open Cbor Program

section

variable [Crypto]

namespace Facts

variable {f : Facts} {p : ValidPolicy} {now : UInt64}

-- An artifact that ran and whose content is said to have changed. It is degraded, and no longer counts as one
-- that ran.
structure Wavers (f : Facts) : Prop where
  hit      : f.revocations.hit f.artifact = none
  revoked  : f.has .revocationHit = false
  mismatch : f.has .contentDigestMismatch
  prior    : f.prior = some .verified ∨ f.prior = some .admitted

def after (f : Facts) (state : AdmissionState) : Facts :=
  { f with prior := some state }

theorem state_of_verdict {d : Draft} (h : f.verdict p = some d) : (evaluate p f now).state = d.state := by
  change (Draft.decide p f now).state = _
  rw [Draft.decide_of_verdict h]

section

variable (hr : ¬ ((f.revocations.hit f.artifact).isSome ∨ f.has .revocationHit))
include hr

-- Unless it is revoked, what becomes of an artifact whose content is said to have changed depends on whether it
-- ran before.
theorem state_of_mismatch (hp : f.prior ≠ some .revoked) (hm : f.has .contentDigestMismatch) :
    (evaluate p f now).state =
    if f.prior = some .verified ∨ f.prior = some .admitted then .degraded else .quarantined := by
  have hv : f.verdict p = some (.held (if f.prior = some .verified ∨ f.prior = some .admitted then .degraded
      else .quarantined) .contentChanged .none) := by
    rw [verdict, if_neg hr, if_neg hp, if_pos hm]
  rw [state_of_verdict hv]
  rfl

-- Apart from that, its state does not depend on the one before.
theorem state_after (hp : f.prior ≠ some .revoked) (hm : ¬ f.has .contentDigestMismatch) {s : AdmissionState}
    (hs : s ≠ .revoked) : (evaluate p (f.after s) now).state = (evaluate p f now).state := by
  have hv : (f.after s).verdict p = f.verdict p := by
    have hs : (f.after s).prior ≠ some .revoked := fun h => hs (Option.some.inj h)
    rw [verdict, verdict, if_neg hr, if_neg hp, if_neg hm]
    exact (if_neg hr).trans ((if_neg hs).trans (if_neg hm))
  change (Draft.decide p (f.after s) now).state = (Draft.decide p f now).state
  rw [Draft.decide, Draft.decide, hv]
  rfl

theorem state_ne_revoked (hp : f.prior ≠ some .revoked) : (evaluate p f now).state ≠ .revoked := by
  change (Draft.decide p f now).state ≠ _
  cases hv : f.verdict p
  case some d =>
    rw [Draft.decide_of_verdict hv]
    rw [verdict, if_neg hr, if_neg hp] at hv
    split_ifs at hv <;> cases hv <;> rintro ⟨⟩
  case none =>
    cases hg : f.grant now
    case none =>
      rw [Draft.decide_automatic hv hg]
      exact Draft.automatic_assignable.right.left
    case some a =>
      simp only [Draft.decide, hv, hg, Draft.approve]
      rintro ⟨⟩

end

-- An evaluation is repeated with the same outcome, unless the first one degrades the artifact.
theorem state_again_iff (p : ValidPolicy) (f : Facts) (now : UInt64) :
    (evaluate p (f.after (evaluate p f now).state) now).state = (evaluate p f now).state ↔ ¬ f.Wavers := by
  by_cases hr : (f.revocations.hit f.artifact).isSome ∨ f.has .revocationHit
  case pos =>
    have hv (g : Facts) (hg : (g.revocations.hit g.artifact).isSome ∨ g.has .revocationHit) :
        (evaluate p g now).state = .revoked := state_of_verdict (if_pos hg)
    refine iff_of_true ((hv (f.after _) hr).trans (hv f hr).symm) fun h => ?_
    simp [h.hit, h.revoked] at hr
  case neg =>
    by_cases hp : f.prior = some .revoked
    case pos =>
      have he : (evaluate p f now).state = .revoked := evaluate_of_revoked hp
      rw [he]
      refine iff_of_true (evaluate_of_revoked rfl) fun h => ?_
      obtain h | h := h.prior <;> cases hp.symm.trans h
    case neg =>
      have hs : (evaluate p f now).state ≠ .revoked := state_ne_revoked hr hp
      by_cases hm : f.has .contentDigestMismatch
      case neg => exact iff_of_true (state_after hr hp hm hs) fun h => hm h.mismatch
      case pos =>
        generalize ht : (evaluate p f now).state = t at hs ⊢
        rw [state_of_mismatch hr hp hm] at ht
        have hp' : (f.after t).prior ≠ some .revoked := fun h => hs (Option.some.inj h)
        rw [state_of_mismatch (f := f.after t) hr hp' hm]
        split_ifs at ht with hf
        case pos =>
          have ⟨hh, hr⟩ := not_or.mp hr
          refine iff_of_false (by simp [after, ← ht]) fun h => h ⟨?_, by simpa using hr, hm, hf⟩
          simpa using hh
        case neg => exact iff_of_true (by simp [after, ← ht]) fun h => hf h.prior

end Facts

namespace Engine

variable {m m' : Machine}

theorem storeRecord_of_intact {r : EpnRecord} (h : m.dir.Intact .epn (toCbor r)) :
    storeRecord r m = (.ok false, m) := by
  have hs : m.dir.hasObject .epn r.id.digest := by
    have ⟨f, hf, _⟩ := h
    exact Option.isSome_of_mem hf
  have hp : onHost (Host.putObject .epn (toCbor r)) m = (.ok r.id.digest, m) := by
    have h : m.host.dir.Intact .epn (toCbor r) := h
    rw [onHost_apply, Host.putObject, view_bind, StateDir.intact_iff.mp h]
    rfl
  rw [storeRecord, view_bind, bind_ok hp, hs]
  rfl

theorem storeRecord_engine {r : EpnRecord} {isNew : Bool} (h : storeRecord r m = (.ok isNew, m')) :
    m'.engine = m.engine := by
  rw [storeRecord, view_bind] at h
  obtain ⟨_, m₁, hp, h⟩ := bind_eq_ok.mp h
  obtain ⟨_, _, hm⟩ := zoom_eq_ok.mp hp
  rw [← (Program.pure_eq_ok.mp h).right, hm]
  rfl

-- An evaluation depends on the state of its artifact, and on the authorities.
theorem evaluateAt_congr {r : EpnRecord} {ev : List EvidenceItem} {caps : List Capability} {time : UInt64}
    (g : m.Goes m') (hs : m'.engine.states.lookup r.id = m.engine.states.lookup r.id) :
    m'.engine.evaluateAt r ev caps time = m.engine.evaluateAt r ev caps time := by
  have ⟨states, index, he⟩ := g.engine
  rw [he] at hs ⊢
  rw [evaluateAt, evaluateAt, facts, facts]
  dsimp only at hs ⊢
  rw [hs]
  rfl

end Engine

-- What processing an observation goes by, when it is made at a time.
def Observation.seen (obs : Observation) (time : UInt64) : Seen where
  path     := obs.path
  record   := obs.record
  evidence := obs.evidence
  row      := rowOf obs.path obs.record.id obs.stamp time

-- From now on the clock stands still.
def Host.Still (h : Host) (time : UInt64) : Prop :=
  ∀ n, h.tick ≤ n → h.oracle.clock n = time

theorem Host.Proceeds.still {K : EventDraft → Prop} {h h' : Host} {time : UInt64} (p : h.Proceeds K h')
    (hs : h.Still time) : h'.Still time := by
  intro n hn
  rw [p.oracle]
  exact hs n (p.tick.trans hn)

namespace Engine

variable {obs : Observation} {requested : List Capability} {time stamped : UInt64} {m m' : Machine} {p : Processed}

-- What has been processed is known, and what was decided is its state.
structure Looked (obs : Observation) (requested : List Capability) (time : UInt64) (m : Machine) (p : Processed)
    (m' : Machine) : Prop where
  goes     : m.Goes m'
  decision : p.decision = m.engine.evaluateAt obs.record obs.evidence requested time
  state    : m'.engine.states.lookup obs.record.id = some p.decision.state
  intact   : m'.dir.Intact .epn (toCbor obs.record)
  named    : m'.engine.namedAt obs.path = some obs.record.id

theorem process_looks (hc : m.host.Still time) (h : process (obs.seen stamped) requested m = (.ok p, m')) :
    Looked obs requested time m p m' := by
  have hd := process_decides h
  have ⟨m₁, m₂, m₃, m₄, h⟩ := process_passes h
  refine ⟨hd.goes, ?_, hd.state, h.intact, ?_⟩
  · have ⟨_, hr⟩ := h.replaced
    have ⟨_, hs⟩ := h.stored
    have hlookup : m₂.engine.states.lookup obs.record.id = m.engine.states.lookup obs.record.id := by
      rw [storeRecord_engine hs]
      exact (Machine.Spares.of_ok replaced_spares hr).states _ rfl
    have hnow : m₂.host.oracle.clock m₂.host.tick = time := h.goes_stored.host.still hc _ le_rfl
    rw [← evaluateAt_congr h.goes_stored hlookup, ← hnow]
    exact (evaluateNow_ok h.evaluated).left
  · cases h.entered
    change (SortedMap.get obs.path (SortedMap.insert obs.path _ _)).bind _ = _
    rw [SortedMap.get_insert_self]
    exact EpnId.parse_display

theorem evaluateNow_still {r : EpnRecord} {ev : List EvidenceItem} {caps : List Capability} (hc : m.host.Still time) :
    evaluateNow r ev caps m = (.ok (m.engine.evaluateAt r ev caps time), m.setHost m.host.advance) := by
  have ht : m.host.oracle.clock m.host.tick = time := hc _ le_rfl
  rw [← ht]
  rfl

theorem applyDecision_same {id : EpnId} {d : Decision} {ev : Digest} {detail : String}
    (h : m.engine.states.lookup id = some d.state) : applyDecision id d ev detail m = (.ok 0, m) := by
  rw [applyDecision, view_bind, if_pos h]
  rfl

theorem settle_same {seen : Seen} {d : Decision} (h : m.engine.states.lookup seen.record.id = some d.state) :
    settle seen false d m = (.ok 0, m) := by
  rw [settle, view_bind, if_neg (by simp [h]), bind_ok pure_apply, onlyIf, if_neg (by simp), bind_ok pure_apply,
    applyDecision_same h]

-- What is known already and stays in its state is only looked up.
theorem process_of_settled (seen : Seen) (hi : m.dir.Intact .epn (toCbor seen.record))
    (hn : m.engine.namedAt seen.path = some seen.record.id) (hc : m.host.Still time)
    (hs : m.engine.states.lookup seen.record.id =
      some (m.engine.evaluateAt seen.record seen.evidence requested time).state) :
    ∃ p m', process seen requested m = (.ok p, m') ∧
      p.decision = m.engine.evaluateAt seen.record seen.evidence requested time ∧ p.transitions = 0 ∧
      m'.dir.log = m.dir.log := by
  have he : evaluateNow seen.record seen.evidence requested m =
      (.ok (m.engine.evaluateAt seen.record seen.evidence requested time), m.setHost m.host.advance) :=
    evaluateNow_still hc
  generalize m.engine.evaluateAt seen.record seen.evidence requested time = d at hs he ⊢
  have hk : (false || (m.engine.states.lookup seen.record.id).isNone) = false := by rw [hs]; rfl
  have hs : (m.setHost m.host.advance).engine.states.lookup seen.record.id = some d.state := hs
  rw [process, bind_ok (replaced_of_settled hn (.inl rfl))]
  dsimp only
  rw [bind_ok (storeRecord_of_intact hi), view_bind, hk, bind_ok he, bind_ok (settle_same hs)]
  exact ⟨_, _, rfl, rfl, rfl, rfl⟩

-- The next evaluation differs from this one at most in the state before.
theorem Looked.evaluateAt (l : Looked obs requested time m p m') :
    m'.engine.evaluateAt obs.record obs.evidence requested time =
    evaluate m.engine.policy ((m.engine.facts obs.record obs.evidence requested time).after p.decision.state) time := by
  have ⟨states, index, he⟩ := l.goes.engine
  have hs := l.state
  rw [he] at hs ⊢
  rw [Engine.evaluateAt, facts, facts]
  dsimp only at hs ⊢
  rw [hs]
  rfl

-- Looking at the same thing again changes nothing, unless the first look has degraded it.
theorem process_again_iff (obs : Observation) (requested : List Capability) (time stamped : UInt64) (m m' : Machine)
    (p : Processed) (hc : m.host.Still time) (h : process (obs.seen stamped) requested m = (.ok p, m')) :
    (∃ p' m'', process (obs.seen stamped) requested m' = (.ok p', m'') ∧ p'.decision.state = p.decision.state ∧
      p'.transitions = 0 ∧ m''.dir.log.events = m'.dir.log.events) ↔
    ¬ (m.engine.facts obs.record obs.evidence requested time).Wavers := by
  have l := process_looks hc h
  have hc' : m'.host.Still time := l.goes.host.still hc
  have he : p.decision = evaluate m.engine.policy (m.engine.facts obs.record obs.evidence requested time) time :=
    l.decision
  rw [← Facts.state_again_iff m.engine.policy _ time, ← he, ← l.evaluateAt]
  constructor
  case mp =>
    intro ⟨p', m'', h', hs, _, _⟩
    rw [← (process_looks hc' h').decision, hs]
  case mpr =>
    intro hs
    have hs' : m'.engine.states.lookup obs.record.id =
      some (m'.engine.evaluateAt obs.record obs.evidence requested time).state := l.state.trans (congrArg some hs.symm)
    have ⟨p', m'', h', hd, ht, hl⟩ := process_of_settled (obs.seen stamped) l.intact l.named hc' hs'
    exact ⟨p', m'', h', (congrArg Decision.state hd).trans hs, ht, congrArg EventLog.events hl⟩

end Engine

end

-- A file of a package whose manifest lists another checksum by now.
namespace Relisted

open Installed Repackaged

def relisted : DpkgDb :=
  { db "1.0" with manifest _ p := if p = "/opt/tool" then some "00000000000000000000000000000000" else none }

def observation : Observation :=
  { Repackaged.observation "1.0" with
    evidence := [
      Observe.item .contentDigestMatch "measure" 0 "hashed through the open descriptor",
      Observe.item .managedInstaller "dpkg" 0 "owned by tool",
      Observe.item .contentDigestMismatch "dpkg" 0 "differs from the local package manifest"
    ] }

abbrev relisting : Crypto :=
  crypto [
    (script.data, scriptDigest),
    (toCbor observation.record, firstId),
    (encode (.array ((Repackaged.observation "1.0").evidence.map toValue)),
      Bytes.fixed 32 0x04f1eacb6bf0a56074e5904ca60336e04fd6f2aa09005c1ea2321231653e5f93),
    (encode (.array (observation.evidence.map toValue)),
      Bytes.fixed 32 0xe6fd53e0307631fade615aee974c20220026c2773ceb80ee744f5099595cde93),
    (baselineBytes, Bytes.fixed 32 0xa0f2857528c56d639066685a4f43ca311c92454854a955821aebccfd2a18738d)
  ] Repackaged.signatures

attribute [local instance] relisting checksums

theorem observe_relisted :
    observe tool (some relisted) ⟨MAX_PROGRAM, 0⟩ (.ok ()) launch.measure = .ok observation :=
  Except.bind_eq_ok.mpr ⟨_, measured_script true, rfl⟩

-- What looking twice comes to: the two states, and the steps and events of the second look.
def twice (obs : Observation) (m : Machine) : Option (AdmissionState × AdmissionState × Nat × Nat) :=
  match Engine.process (obs.seen 0) [] m with
  | (.error _, _) => none
  | (.ok p, m')   =>
    match Engine.process (obs.seen 0) [] m' with
    | (.error _, _) => none
    | (.ok p', m'') =>
      some (p.decision.state, p'.decision.state, p'.transitions,
        m''.dir.log.events.length - m'.dir.log.events.length)

theorem enrolled_ok : enrolled.any fun s => s.engine.any fun (e, l) =>
    e.states.lookup observation.record.id = some .admitted ∧
    twice observation (System.machine s.dir e l (steady 0)) = some (.degraded, .quarantined, 1, 1) ∧
    (Engine.process ((Repackaged.observation "1.0").seen 0) []
      (System.machine s.dir e l (steady 0))).1.toOption.isSome := by
  rw [enrolled, started_system (verify_policy _ _)]
  decide +kernel

theorem enrolled_reachable : ∃ s e l, System.Reachable calm s ∧ s.engine = some (e, l) ∧
    e.states.lookup observation.record.id = some .admitted ∧
    twice observation (System.machine s.dir e l (steady 0)) = some (.degraded, .quarantined, 1, 1) ∧
    (Engine.process ((Repackaged.observation "1.0").seen 0) []
      (System.machine s.dir e l (steady 0))).1.toOption.isSome := by
  have ⟨s, hs, h⟩ := (Option.any_eq_true _ _).mp enrolled_ok
  have ⟨(e, l), he, h⟩ := (Option.any_eq_true _ _).mp h
  have ⟨s₁, hs₁, hs⟩ := Option.bind_eq_some_iff.mp hs
  refine ⟨s, e, l, reachable_called rfl rfl (reachable_started ?_ rfl hs₁) hs, he, of_decide_eq_true h⟩
  exact ⟨system, initial, .refl⟩

-- The second look at the same file quarantines what the first one has degraded, and logs it.
theorem degraded_by_first_look_only : ∃ s e l p m' p' m'', System.Reachable calm s ∧ s.engine = some (e, l) ∧
    observe tool (some relisted) ⟨MAX_PROGRAM, 0⟩ (.ok ()) launch.measure = .ok observation ∧
    (System.machine s.dir e l (steady 0)).host.Still 0 ∧
    Engine.process (observation.seen 0) [] (System.machine s.dir e l (steady 0)) = (.ok p, m') ∧
    p.decision.state = .degraded ∧
    Engine.process (observation.seen 0) [] m' = (.ok p', m'') ∧ p'.decision.state = .quarantined ∧
    p'.transitions = 1 ∧ m''.dir.log.events.length - m'.dir.log.events.length = 1 := by
  have ⟨s, e, l, hr, he, _, ht, _⟩ := enrolled_reachable
  unfold twice at ht
  split at ht
  case h_1 => cases ht
  case h_2 p m' hx =>
    split at ht
    case h_1 => cases ht
    case h_2 p' m'' hx' =>
      simp only [Option.some.injEq, Prod.mk.injEq] at ht
      have ⟨h₁, h₂, h₃, h₄⟩ := ht
      exact ⟨s, e, l, p, m', p', m'', hr, he, observe_relisted, fun _ _ => rfl, hx, h₁, hx', h₂, h₃, h₄⟩

theorem process_again_enrolled : ∃ s e l p m', System.Reachable calm s ∧ s.engine = some (e, l) ∧
    Engine.process ((Repackaged.observation "1.0").seen 0) [] (System.machine s.dir e l (steady 0)) = (.ok p, m') ∧
    ∃ p' m'', Engine.process ((Repackaged.observation "1.0").seen 0) [] m' = (.ok p', m'') ∧
      p'.decision.state = p.decision.state ∧ p'.transitions = 0 ∧ m''.dir.log.events = m'.dir.log.events := by
  have ⟨s, e, l, hr, he, _, _, hx⟩ := enrolled_reachable
  have ⟨p, hx⟩ := eq_ok_of_isSome hx
  refine ⟨s, e, l, p, _, hr, he, hx, (Engine.process_again_iff _ _ 0 0 _ _ p (fun _ _ => rfl) hx).mpr fun h => ?_⟩
  have hm := h.mismatch
  contradiction

end Relisted
