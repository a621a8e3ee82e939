import JlrModel.Engine.Theorems.Act
import JlrModel.Policy.Theorems.Evaluate

-- What processing an artifact leaves as it is, and what it comes to.

open Program Relation

variable [Crypto] {K : EventDraft → Prop}

namespace Host

-- Time goes on, and only events of a kind are written.
structure Proceeds (K : EventDraft → Prop) (h h' : Host) : Prop where
  oracle : h'.oracle = h.oracle
  tick   : h.tick ≤ h'.tick
  events : ∃ es, h'.dir.log.events = h.dir.log.events ++ es ∧ ∀ d ∈ es, K d
  left   : ∀ d, h'.dir.log.left = some d → h.dir.log.left = some d ∨ K d

namespace Proceeds

variable {h h₁ h₂ : Host}

theorem refl : Proceeds K h h where
  oracle := rfl
  tick   := Nat.le_refl _
  events := ⟨[], by rw [List.append_nil], fun _ hd => absurd hd List.not_mem_nil⟩
  left _ := .inl

theorem trans (p : Proceeds K h h₁) (p' : Proceeds K h₁ h₂) : Proceeds K h h₂ where
  oracle := p'.oracle.trans p.oracle
  tick   := p.tick.trans p'.tick
  events := by
    have ⟨es, he, hk⟩ := p.events
    have ⟨es', he', hk'⟩ := p'.events
    refine ⟨es ++ es', by rw [he', he, List.append_assoc], fun d hd => ?_⟩
    cases List.mem_append.mp hd
    case inl hd => exact hk d hd
    case inr hd => exact hk' d hd
  left d hd := by
    cases p'.left d hd
    case inl hd => exact p.left d hd
    case inr hd => exact .inr hd

theorem of_steps (hs : ReflTransGen (Proceeds K) h h₁) : Proceeds K h h₁ := by
  induction hs
  case refl => exact .refl
  case tail p ih => exact ih.trans p

theorem advance : Proceeds K h h.advance :=
  { refl with tick := Nat.le_succ _ }

theorem setLedger {f : LedgerHandle → LedgerHandle} : Proceeds K h (h.setLedger f) :=
  { refl with }

theorem setDir {change : StateDir → StateDir} (hl : (change h.dir).log = h.dir.log) :
    Proceeds K h (h.setDir change) where
  oracle := rfl
  tick   := Nat.le_refl _
  events := by
    change ∃ es, (change h.dir).log.events = _ ∧ _
    rw [hl]
    exact refl.events
  left := by
    change ∀ d, (change h.dir).log.left = some d → _
    rw [hl]
    exact refl.left

theorem logged (hd : K d) : Proceeds K h (h.logged d) :=
  { refl with events := ⟨[d], rfl, fun _ h' => List.mem_singleton.mp h' ▸ hd⟩ }

-- What a failed append has left may be the event itself.
theorem leave {left : Left} (hd : K d) : Proceeds K h (h.setLog (Host.leave d left)) := by
  cases left
  case whole => exact { refl with left := fun d' hd' => .inr (Option.some.inj hd' ▸ hd) }
  all_goals exact { refl with }

end Proceeds

theorem nextFate_proceeds : Does (Proceeds K) nextFate :=
  .bind .view fun _ => .bind (.update fun _ => .advance) fun _ => .pure

theorem now_proceeds : Does (Proceeds K) now :=
  .bind .view fun _ => .bind (.update fun _ => .advance) fun _ => .pure

theorem operate_proceeds {error : IoError → EngineError} {change : StateDir → StateDir}
    (hc : ∀ dir, (change dir).log = dir.log) : Does (Proceeds K) (operate error change) :=
  operate_does (fun _ => .advance) fun h => .setDir (hc h.dir)

theorem putObject_proceeds {kind : ObjectKind} {data : Bytes} : Does (Proceeds K) (putObject kind data) := by
  refine .bind .view fun _ => .bind (.onlyIf fun _ => ?_) fun _ => .pure
  exact writeAtomic_does (fun _ => .advance) fun _ _ _ => .setDir rfl

theorem saveIndex_proceeds {index : List (String × IndexRow)} : Does (Proceeds K) (saveIndex index) :=
  writeAtomic_does (fun _ => .advance) fun _ _ _ => .setDir rfl

-- Only an object that fits into a file is ever stored.
theorem putObject_length {kind : ObjectKind} {data : Bytes} {d : Digest} {h h' : Host}
    (hx : putObject kind data h = (.ok d, h')) : data.length < 2 ^ 63 := by
  rw [putObject, view_bind] at hx
  have ⟨_, _, hw, _⟩ := bind_eq_ok.mp hx
  by_cases hi : (h.dir.objects kind (Digest.of data)).any (·.data.length = data.length)
  case pos =>
    have ⟨f, _, hl⟩ := (Option.any_eq_true _ _).mp hi
    exact of_decide_eq_true hl ▸ f.size_lt
  case neg =>
    rw [onlyIf, if_pos hi, writeAtomic] at hw
    split at hw
    case isTrue hl => exact hl
    case isFalse => cases hw

theorem record_proceeds {write : EventLog → EventLog} {leave : Left → EventLog → EventLog}
    (hw : ∀ h, Proceeds K h (h.setLog write)) (hl : ∀ h left, Proceeds K h (h.setLog (leave left))) :
    Does (Proceeds K) (record write leave) := by
  refine .bind .view fun _ => .ite (fun _ => .halt) fun _ => .bind nextFate_proceeds fun fate => ?_
  have broken (left) : Does (ε := Halt) (Proceeds K)
      (update fun h => (h.setLog (leave left)).setLedger fun l => { l with poisoned := true }) :=
    .update fun h => .trans (hl h left) .setLedger
  cases fate
  case done => exact .update hw
  case failed => exact .halt
  case broken => exact .bind (broken _) fun _ => .halt
  case stopped => exact .bind (broken _) fun _ => .halt

theorem append_proceeds (hd : K d) : Does (Proceeds K) (append d) :=
  record_proceeds (fun _ => .logged hd) fun _ _ => .leave hd

theorem checkpoint_proceeds : Does (Proceeds K) checkpoint := by
  refine record_proceeds (fun _ => { Proceeds.refl with }) fun _ left => ?_
  cases left <;> exact { Proceeds.refl with }

end Host

namespace Machine

-- An engine is at work, under the same authorities.
structure Proceeds (K : EventDraft → Prop) (m m' : Machine) : Prop where
  engine : ∃ states index, m'.engine = { m.engine with states, index }
  host   : m.host.Proceeds K m'.host

namespace Proceeds

variable {m m₁ m₂ : Machine}

theorem refl : Proceeds K m m :=
  ⟨⟨_, _, rfl⟩, .refl⟩

theorem trans (p : Proceeds K m m₁) (p' : Proceeds K m₁ m₂) : Proceeds K m m₂ := by
  have ⟨_, _, he⟩ := p.engine
  have ⟨_, _, he'⟩ := p'.engine
  exact ⟨⟨_, _, he ▸ he'⟩, p.host.trans p'.host⟩

theorem of_steps (h : ReflTransGen (Proceeds K) m m₁) : Proceeds K m m₁ := by
  induction h
  case refl => exact .refl
  case tail p ih => exact ih.trans p

theorem of_ok {x : EngineM α} {a : α} (h : Does (Proceeds K) x) (hx : x m = (.ok a, m₁)) : Proceeds K m m₁ :=
  of_steps (h.of_ok hx)

theorem mono {K' : EventDraft → Prop} (p : Proceeds K m m₁) (hk : ∀ d, K d → K' d) : Proceeds K' m m₁ where
  engine := p.engine
  host   := {
    oracle := p.host.oracle
    tick   := p.host.tick
    events := have ⟨es, he, hd⟩ := p.host.events; ⟨es, he, fun d h => hk d (hd d h)⟩
    left   := fun d hd => (p.host.left d hd).imp_right (hk d)
  }

-- The authority for an artifact stays the same.
theorem approvalFor (p : Proceeds K m m₁) : m₁.engine.approvalFor = m.engine.approvalFor := by
  have ⟨_, _, he⟩ := p.engine
  rw [he]
  rfl

theorem policy (p : Proceeds K m m₁) : m₁.engine.policy = m.engine.policy := by
  have ⟨_, _, he⟩ := p.engine
  rw [he]

theorem of_mem_events (p : Proceeds K m m₁) (h : d ∈ m.dir.log.events) : d ∈ m₁.dir.log.events := by
  have ⟨es, he, _⟩ := p.host.events
  exact he ▸ List.mem_append_left es h

end Proceeds

-- Whatever events are written.
abbrev Goes : Machine → Machine → Prop :=
  Proceeds fun _ => True

end Machine

namespace Engine

variable {m m' : Machine}

theorem onHost_proceeds {x : HostM α} (h : Does (Host.Proceeds K) x) : Does (Machine.Proceeds K) (onHost x) :=
  h.zoom (fun _ => rfl) fun _ _ _ ha => ⟨⟨_, _, rfl⟩, ha⟩

theorem now_proceeds : Does (Machine.Proceeds K) now :=
  onHost_proceeds Host.now_proceeds

theorem evaluateNow_proceeds {r : EpnRecord} {ev : List EvidenceItem} {caps : List Capability} :
    Does (Machine.Proceeds K) (evaluateNow r ev caps) :=
  .bind now_proceeds fun _ => .view

-- An evaluation is made with the time that the clock says.
theorem evaluateNow_ok {r : EpnRecord} {ev : List EvidenceItem} {caps : List Capability} {d : Decision}
    (h : evaluateNow r ev caps m = (.ok d, m')) :
    d = m.engine.evaluateAt r ev caps (m.host.oracle.clock m.host.tick) ∧ m.host.tick < m'.host.tick := by
  cases h
  exact ⟨rfl, Nat.lt_succ_self _⟩

theorem storeEvidence_proceeds {items : List EvidenceItem} : Does (Machine.Proceeds K) (storeEvidence items) :=
  onHost_proceeds Host.putObject_proceeds

theorem storeRecord_proceeds {r : EpnRecord} : Does (Machine.Proceeds K) (storeRecord r) :=
  .bind .view fun _ => .bind (onHost_proceeds Host.putObject_proceeds) fun _ => .pure

theorem setSync_proceeds {sync : Bool} : Does (Machine.Proceeds K) (setSync sync) :=
  onHost_proceeds (.update fun _ => .setLedger)

theorem flush_proceeds : Does (Machine.Proceeds K) flush :=
  .bind (onHost_proceeds (Host.operate_proceeds fun _ => rfl)) fun _ => .bind .view fun _ =>
    .bind (.onlyIf fun _ => onHost_proceeds Host.checkpoint_proceeds) fun _ =>
      onHost_proceeds (Host.operate_proceeds fun _ => rfl)

theorem saveIndex_proceeds : Does (Machine.Proceeds K) saveIndex :=
  .bind .view fun _ => onHost_proceeds Host.saveIndex_proceeds

theorem setRow_proceeds {path : String} {row : IndexRow} : Does (Machine.Proceeds K) (setRow path row) :=
  .update fun _ => ⟨⟨_, _, rfl⟩, .refl⟩

theorem setState_proceeds {id : EpnId} {s : AdmissionState} : Does (Machine.Proceeds K) (setState id s) :=
  .update fun _ => ⟨⟨_, _, rfl⟩, .refl⟩

section

variable {kind : EventKind} {subject : Option EpnId} {old new : Option AdmissionState} {evidence : List Digest}
  {basis : Basis} {detail : String}

theorem log_proceeds (hd : ∀ d : EventDraft, d.kind = kind → d.subject = subject.map EpnId.display → K d) :
    Does (Machine.Proceeds K) (log kind subject old new evidence basis detail) := by
  refine .bind .view fun _ => .bind (.onlyIf fun _ => ?_) fun _ => .bind .view fun e => ?_
  · exact onHost_proceeds (Host.operate_proceeds fun _ => rfl)
  · exact onHost_proceeds (Host.append_proceeds (hd _ rfl rfl))

-- A logged event comes after those that were there before.
theorem log_ok (h : log kind subject old new evidence basis detail m = (.ok (), m')) :
    ∃ d ∈ m'.dir.log.events.drop m.dir.log.events.length, d.kind = kind ∧ d.subject = subject.map EpnId.display := by
  let d := m.engine.draft kind (subject.map EpnId.display) old new evidence basis detail
  obtain ⟨h₁, q, _, rfl⟩ := logSubject_ok h
  have he : (h₁.logged d).dir.log.events = m.dir.log.events ++ [d] := congrArg (· ++ [d]) q.events
  refine ⟨d, ?_, rfl, rfl⟩
  change d ∈ (h₁.logged d).dir.log.events.drop _
  rw [he, List.drop_left]
  exact List.mem_cons_self

end

section

variable {id : EpnId} {decision : Decision} {ev : Digest} {detail : String}

theorem applySteps_proceeds {n : Nat} {steps : List AdmissionState} (hd : ∀ d : EventDraft, d.kind = .transition → K d) :
    ∀ i cur, Does (Machine.Proceeds K) (applySteps id decision ev detail n i cur steps) := by
  induction steps
  case nil => exact fun _ _ => .pure
  case cons step steps ih =>
    exact fun i cur => .bind (.bind (log_proceeds fun d hk _ => hd d hk) fun _ => setState_proceeds) fun _ => ih _ _

theorem applyDecision_proceeds (hd : ∀ d : EventDraft, d.kind = .transition → K d) :
    Does (Machine.Proceeds K) (applyDecision id decision ev detail) := by
  refine .bind .view fun prior => .ite (fun _ => .pure) fun _ => ?_
  dsimp only
  cases AdmissionState.route (prior.getD .unknown) decision.state
  case none => exact .halt
  case some => exact .bind (applySteps_proceeds hd _ _) fun _ => .pure

theorem applyStep_ok {n i : Nat} {step : AdmissionState} {cur : Option AdmissionState}
    (h : applyStep id decision ev detail n i cur step m = (.ok (), m')) : m'.engine.states.lookup id = some step := by
  have ⟨_, m₁, _, h⟩ := bind_eq_ok.mp h
  have ⟨_, h⟩ := Prod.mk.inj h
  rw [← h]
  exact AList.lookup_insert _

-- The steps of a route end in its last state.
theorem applySteps_ok {n : Nat} {steps : List AdmissionState} {i : Nat} {cur : Option AdmissionState}
    (h : applySteps id decision ev detail n i cur steps m = (.ok (), m')) (hs : steps ≠ []) :
    m'.engine.states.lookup id = some (steps.getLast hs) := by
  induction steps generalizing m i cur
  case nil => contradiction
  case cons step steps ih =>
    have ⟨_, m₁, hx, h⟩ := bind_eq_ok.mp h
    cases steps
    case nil =>
      have ⟨_, h⟩ := Prod.mk.inj h
      rw [← h]
      exact applyStep_ok hx
    case cons step' steps =>
      rw [List.getLast_cons_cons]
      exact ih h (List.cons_ne_nil _ _)

theorem applyDecision_ok {n : Nat} (hd : decision.state ≠ .unknown)
    (h : applyDecision id decision ev detail m = (.ok n, m')) : m'.engine.states.lookup id = some decision.state := by
  rw [applyDecision, view_bind] at h
  split at h
  case isTrue hp => exact (Prod.mk.inj h).right ▸ hp
  case isFalse hp =>
    dsimp only at h
    cases hr : AdmissionState.route ((m.engine.states.lookup id).getD .unknown) decision.state <;> rw [hr] at h
    case none       => cases h
    case some steps =>
      obtain ⟨_, m₁, hx, h⟩ := bind_eq_ok.mp h
      rw [← (Prod.mk.inj h).right]
      obtain ⟨_, hl⟩ := AdmissionState.route_legal hr
      cases steps
      case nil =>
        -- A route without steps only leads from a state to itself.
        have hl : (m.engine.states.lookup id).getD .unknown = decision.state := hl
        cases hs : m.engine.states.lookup id <;> rw [hs] at hl hp
        case none => exact absurd hl.symm hd
        case some => exact absurd (congrArg some hl) hp
      case cons step steps =>
        rw [List.getLast_cons_cons] at hl
        rw [applySteps_ok hx (List.cons_ne_nil _ _), hl]

end

theorem replacedDecision_proceeds {r : Option EpnRecord} {s : AdmissionState} {mismatch : EvidenceItem} :
    Does (Machine.Proceeds K) (replacedDecision r s mismatch) := by
  cases r
  case none => exact .view
  case some => exact evaluateNow_proceeds

theorem onReplaced_proceeds {old : EpnId} {path : String}
    (hd : ∀ d : EventDraft, d.kind = .transition ∨ d.kind = .mismatch → K d) :
    Does (Machine.Proceeds K) (onReplaced old path) := by
  refine .bind .view fun state => ?_
  cases state
  case none => exact .pure
  case some =>
    refine .ite (fun _ => .pure) fun _ => .bind .view fun record => .bind now_proceeds fun time => ?_
    refine .bind storeEvidence_proceeds fun ev => .bind (log_proceeds fun d hk _ => hd d (.inr hk)) fun _ => ?_
    refine .bind replacedDecision_proceeds fun decision => ?_
    exact .bind (applyDecision_proceeds fun d hk => hd d (.inl hk)) fun n => .bind .view fun _ => .pure

theorem replaced_proceeds {path : String} {id : EpnId}
    (hd : ∀ d : EventDraft, d.kind = .transition ∨ d.kind = .mismatch → K d) :
    Does (Machine.Proceeds K) (replaced path id) := by
  refine .bind .view fun row => ?_
  cases row.bind fun r => EpnId.parse r.epn
  case none => exact .pure
  case some old => exact .ite (fun _ => onReplaced_proceeds hd) fun _ => .pure

section

variable {seen : Seen} {requested : List Capability} {p : Processed}

theorem settle_proceeds {isNew : Bool} {decision : Decision}
    (hd : ∀ d : EventDraft, d.kind = .transition ∨ d.kind = .discover → K d) :
    Does (Machine.Proceeds K) (settle seen isNew decision) := by
  refine .bind .view fun state => .bind (.ite (fun _ => storeEvidence_proceeds) fun _ => .pure) fun ev => ?_
  refine .bind (.onlyIf fun _ => log_proceeds fun d hk _ => hd d (.inr hk)) fun _ => ?_
  exact applyDecision_proceeds fun d hk => hd d (.inl hk)

theorem settle_ok {isNew : Bool} {decision : Decision} {n : Nat} (hd : decision.state ≠ .unknown)
    (h : settle seen isNew decision m = (.ok n, m')) :
    m'.engine.states.lookup seen.record.id = some decision.state := by
  rw [settle, view_bind] at h
  have ⟨_, _, _, h⟩ := bind_eq_ok.mp h
  have ⟨_, _, _, h⟩ := bind_eq_ok.mp h
  exact applyDecision_ok hd h

-- The part of a process that comes after the one about what was there before.
theorem process_proceeds {r : Nat × Bool} (hd : ∀ d : EventDraft, d.kind = .transition ∨ d.kind = .discover → K d)
    (hr : replaced seen.path seen.record.id m = (.ok r, m')) :
    Machine.Proceeds K m' (process seen requested m).2 := by
  rw [process, bind_ok hr]
  refine .of_steps ?_
  suffices h : Does (Machine.Proceeds K) _ from h m'
  refine .bind storeRecord_proceeds fun stored => .bind .view fun isNew => .bind evaluateNow_proceeds fun decision => ?_
  refine .bind (settle_proceeds hd) fun steps => .bind now_proceeds fun time => ?_
  exact .bind .view fun _ => .bind setRow_proceeds fun _ => .pure

-- The parts of a process that succeeds. The artifact is evaluated in `m₂`, and its row is made in `m₄`.
structure Passes (seen : Seen) (requested : List Capability) (m : Machine) (p : Processed) (m' m₁ m₂ m₃ m₄ : Machine) :
    Prop where
  replaced  : ∃ r, Engine.replaced seen.path seen.record.id m = (.ok r, m₁)
  stored    : ∃ isNew, storeRecord seen.record m₁ = (.ok isNew, m₂)
  evaluated : evaluateNow seen.record seen.evidence requested m₂ = (.ok p.decision, m₃)
  settled   : ∃ isNew n, settle seen isNew p.decision m₃ = (.ok n, m₄)
  entered   : setRow seen.path (m₄.engine.entry seen (m₄.host.oracle.clock m₄.host.tick)) (m₄.setHost m₄.host.advance) =
    (.ok (), m')

theorem process_passes (h : process seen requested m = (.ok p, m')) :
    ∃ m₁ m₂ m₃ m₄, Passes seen requested m p m' m₁ m₂ m₃ m₄ := by
  have ⟨_, m₁, hr, h⟩ := bind_eq_ok.mp h
  have ⟨_, m₂, hs, h⟩ := bind_eq_ok.mp h
  rw [view_bind] at h
  have ⟨_, m₃, he, h⟩ := bind_eq_ok.mp h
  have ⟨_, m₄, hd, h⟩ := bind_eq_ok.mp h
  cases h
  exact ⟨m₁, m₂, m₃, m₄, ⟨_, hr⟩, ⟨_, hs⟩, he, ⟨_, _, hd⟩, rfl⟩

namespace Passes

variable {m₁ m₂ m₃ m₄ : Machine} (h : Passes seen requested m p m' m₁ m₂ m₃ m₄)
include h

theorem goes_stored : m.Goes m₂ :=
  have ⟨_, hr⟩ := h.replaced
  have ⟨_, hs⟩ := h.stored
  .trans (.of_ok (replaced_proceeds fun _ _ => trivial) hr) (.of_ok storeRecord_proceeds hs)

theorem goes_settled : m₃.Goes m₄ :=
  have ⟨_, _, hd⟩ := h.settled
  .of_ok (settle_proceeds fun _ _ => trivial) hd

theorem goes_entered : m₄.Goes m' :=
  .trans (.of_ok now_proceeds rfl) (.of_ok setRow_proceeds h.entered)

theorem goes : m.Goes m' :=
  h.goes_stored.trans (.trans (.of_ok evaluateNow_proceeds h.evaluated) (h.goes_settled.trans h.goes_entered))

end Passes

-- What processing an artifact comes to: it was evaluated at a time in between, and its state is the outcome.
structure Decides (seen : Seen) (requested : List Capability) (m : Machine) (p : Processed) (m' : Machine) : Prop where
  goes      : m.Goes m'
  evaluated : ∃ m₁, m.Goes m₁ ∧ m₁.host.tick < m'.host.tick ∧
    p.decision = m₁.engine.evaluateAt seen.record seen.evidence requested (m₁.host.oracle.clock m₁.host.tick)
  state     : m'.engine.states.lookup seen.record.id = some p.decision.state

theorem process_decides (h : process seen requested m = (.ok p, m')) : Decides seen requested m p m' := by
  have ⟨m₁, m₂, m₃, m₄, h⟩ := process_passes h
  have ⟨he, ht⟩ := evaluateNow_ok h.evaluated
  have ⟨_, _, hd⟩ := h.settled
  have hs := settle_ok (he ▸ evaluate_state_ne_unknown) hd
  refine ⟨h.goes, ⟨m₂, h.goes_stored, ht.trans_le (h.goes_settled.trans h.goes_entered).host.tick, he⟩, ?_⟩
  cases h.entered
  exact hs

-- The same artifact, decided on in a part of a program.
theorem Decides.within {m₁ m₂ : Machine} (d : Decides seen requested m₁ p m₂) (g : m.Goes m₁) (g' : m₂.Goes m')
    (hs : m'.engine.states = m₂.engine.states) : Decides seen requested m p m' where
  goes      := g.trans (d.goes.trans g')
  evaluated :=
    have ⟨m₃, g₃, ht, hd⟩ := d.evaluated
    ⟨m₃, g.trans g₃, ht.trans_le g'.host.tick, hd⟩
  state     := hs ▸ d.state

theorem processAlone_decides (h : processAlone seen requested m = (.ok p, m')) : Decides seen requested m p m' := by
  have ⟨_, m₁, hs, h⟩ := bind_eq_ok.mp h
  have ⟨r, m₂, hp, h⟩ := bind_eq_ok.mp h
  have ⟨_, m₃, hs', h⟩ := bind_eq_ok.mp h
  have ⟨hr, hm⟩ := ofExcept_eq_ok.mp h
  rw [Except.mapError_eq_ok.mp hr] at hp
  refine (process_decides (attempt_eq_ok.mp hp)).within (.of_ok setSync_proceeds hs) ?_ ?_
  · exact hm ▸ .of_ok setSync_proceeds hs'
  · cases hs'
    exact hm ▸ rfl

end

end Engine
