import JlrModel.Engine.Theorems.Host
import JlrModel.Engine.Theorems.Route
import JlrModel.Model.Theorems.Epn

open Program Relation

variable [Crypto] {w : Setting} {m m' : Machine}

namespace Machine

-- What an engine knows an artifact by is never forgotten.
theorem Act.known {id : EpnId} (a : Act w m m') (h : (m.engine.states.lookup id).isSome) :
    (m'.engine.states.lookup id).isSome := by
  cases a
  case move id' s d _ _ =>
    change ((m.engine.states.insert id' s).lookup id).isSome
    by_cases hi : id = id'
    · rw [hi, AList.lookup_insert]
      rfl
    · rwa [AList.lookup_insert_ne hi]
  case rules r _ => exact r.states ▸ h
  all_goals exact h

end Machine

namespace Engine

theorem onHost_apply {x : HostM α} : onHost x m = ((x m.host).1, m.setHost (x m.host).2) :=
  rfl

theorem onHost_does {x : HostM α} (h : Does Host.Act x) : Does (Machine.Act w) (onHost x) :=
  h.zoom (fun _ => rfl) fun m h₁ _ ha => Machine.Act.host (m := m.setHost h₁) ha

-- What a program leaves of the things that the engine goes by.
def Keeps (f : Engine → β) (m m' : Machine) : Prop :=
  f m'.engine = f m.engine

theorem Keeps.of_does {f : Engine → β} {x : EngineM α} {r : Except Halt α} (hd : Does (Keeps f) x)
    (hx : x m = (r, m')) : Keeps f m m' := by
  have h := hd m
  rw [hx] at h
  exact Does.kept (P := Keeps f m) h (fun _ _ h h' => h.trans h') rfl

section

variable {f : Engine → β}

-- Neither the directory nor the ledger is one of them.
theorem onHost_keeps {x : HostM α} : Does (Keeps f) (onHost x) :=
  fun _ => .single rfl

end

section

variable {data : Bytes} {change : File → StateDir → StateDir}

theorem writeAtomic_does
    (hc : ∀ f : File, f.data = data → Machine.Act w (m.setHost m.host.advance)
      (m.setHost (m.host.advance.setDir (change f)))) :
    ReflTransGen (Machine.Act w) m (onHost (Host.writeAtomic data change) m).2 := by
  rw [onHost_apply]
  obtain ⟨why, h, q, hx⟩ | ⟨f, hf, hx | ⟨why, hx⟩⟩ := Host.writeAtomic_cases data change m.host <;> rw [hx]
  · exact .single (.host (.quiet q))
  · exact .tail (.single (.host (.quiet .advance))) (hc f hf)
  · exact .tail (.single (.host (.quiet .advance))) (hc f hf)

theorem writeAtomic_ok (h : onHost (Host.writeAtomic data change) m = (.ok (), m')) :
    ∃ f : File, f.data = data ∧ m' = m.setHost (m.host.advance.setDir (change f)) := by
  have ⟨hx, hm⟩ := Prod.mk.inj h
  have ⟨f, hf, hh⟩ := Host.writeAtomic_eq_ok (Prod.ext hx rfl)
  exact ⟨f, hf, hm.symm.trans (congrArg m.setHost hh)⟩

end

theorem now_does : Does (Machine.Act w) now :=
  onHost_does Host.now_does

theorem evaluateNow_does {r : EpnRecord} {ev : List EvidenceItem} {caps : List Capability} :
    Does (Machine.Act w) (evaluateNow r ev caps) :=
  .bind now_does fun _ => .view

theorem flush_does : Does (Machine.Act w) flush :=
  .bind (onHost_does Host.syncFs_does) fun _ => .bind .view fun _ =>
    .bind (.onlyIf fun _ => onHost_does Host.checkpoint_does) fun _ => onHost_does Host.syncLedger_does

theorem setSync_does {sync : Bool} : Does (Machine.Act w) (setSync sync) :=
  onHost_does Host.setSync_does

theorem storeEvidence_does {items : List EvidenceItem} : Does (Machine.Act w) (storeEvidence items) :=
  onHost_does Host.putObject_does

theorem storeRecord_does {r : EpnRecord} : Does (Machine.Act w) (storeRecord r) :=
  .bind .view fun _ => .bind (onHost_does Host.putObject_does) fun _ => .pure

theorem saveIndex_does : Does (Machine.Act w) saveIndex :=
  .bind .view fun _ => onHost_does Host.saveIndex_does

theorem flush_keeps {f : Engine → β} : Does (Keeps f) flush :=
  .bind onHost_keeps fun _ => .bind .view fun _ => .bind (.onlyIf fun _ => onHost_keeps) fun _ => onHost_keeps

theorem saveIndex_keeps {f : Engine → β} : Does (Keeps f) saveIndex :=
  .bind .view fun _ => onHost_keeps

theorem log_keeps {f : Engine → β} {kind : EventKind} {subject : Option EpnId} {old new : Option AdmissionState}
    {evidence : List Digest} {basis : Basis} {detail : String} :
    Does (Keeps f) (log kind subject old new evidence basis detail) :=
  .bind .view fun _ => .bind (.onlyIf fun _ => onHost_keeps) fun _ => .bind .view fun _ => onHost_keeps

theorem checkpoint_does : Does (Machine.Act w) checkpoint :=
  onHost_does Host.checkpoint_does

section

variable (kind : EventKind) (subject : Option String) (old new : Option AdmissionState) (evidence : List Digest)
  (basis : Basis) (detail : String)

-- Logging an event is appending it, after the objects that it names are durable.
theorem logSubject_appends (m : Machine) :
    ∃ r, Host.Appends (m.engine.draft kind subject old new evidence basis detail) m.host r ∧
      logSubject kind subject old new evidence basis detail m = (r.1, m.setHost r.2) := by
  rw [logSubject, bind_ok view_apply, onlyIf]
  split
  case isFalse => exact ⟨_, Host.append_appends, rfl⟩
  case isTrue =>
    have q : m.host.Quiet (Host.syncFs m.host).2 := Host.syncFs_quiet
    match hx : Host.syncFs m.host with
    | (.ok (), h)     =>
      rw [hx] at q
      have hs : onHost Host.syncFs m = (.ok (), m.setHost h) := by rw [onHost_apply, hx]
      rw [bind_ok hs]
      exact ⟨_, Host.append_appends.of_quiet q, rfl⟩
    | (.error why, h) =>
      rw [hx] at q
      have hs : onHost Host.syncFs m = (.error why, m.setHost h) := by rw [onHost_apply, hx]
      rw [bind_error hs]
      exact ⟨_, .failed q, rfl⟩

variable {kind subject old new evidence basis detail}

theorem logSubject_ok {m m' : Machine} (h : logSubject kind subject old new evidence basis detail m = (.ok (), m')) :
    ∃ h₁, m.host.Quiet h₁ ∧ h₁.ledger.poisoned = false ∧
      m' = m.setHost (h₁.logged (m.engine.draft kind subject old new evidence basis detail)) := by
  have ⟨r, ha, hl⟩ := logSubject_appends kind subject old new evidence basis detail m
  have h := hl.symm.trans h
  cases ha
  case done h₁ q hp => exact ⟨h₁, q, hp, (Prod.mk.inj h).right.symm⟩
  case failed => cases h
  case lost => cases h

theorem logSubject_does (hn : new = none) (ht : kind ≠ .transition) (ho : kind ≠ .override) :
    Does (Machine.Act w) (logSubject kind subject old new evidence basis detail) := by
  refine .bind .view fun _ => .bind (.onlyIf fun _ => onHost_does Host.syncFs_does) fun _ => .bind .view fun e => ?_
  exact onHost_does (Host.append_does ⟨hn, ht, ho⟩)

theorem log_does {subject : Option EpnId} (hn : new = none) (ht : kind ≠ .transition) (ho : kind ≠ .override) :
    Does (Machine.Act w) (log kind subject old new evidence basis detail) :=
  logSubject_does hn ht ho

end

section

variable {id : EpnId} {decision : Decision} {ev : Digest} {detail : String} {n i : Nat} {step : AdmissionState}

-- The event of a step.
def stepDraft (e : Engine) (id : EpnId) (decision : Decision) (ev : Digest) (detail : String) (n i : Nat)
    (step : AdmissionState) : EventDraft :=
  e.draft .transition (some id.display) (e.states.lookup id) step [ev] decision.basis
    (detail ++ " [" ++ joinReasons decision.reasons ++ "] step " ++ toString (i + 1) ++ "/" ++ toString n)

-- The ways in which a step can go. The event and the state are new together.
inductive Steps (id : EpnId) (step : AdmissionState) (d : EventDraft) (m : Machine) : Except Halt Unit × Machine → Prop
  | done   : m.host.Quiet h → h.ledger.poisoned = false → Steps id step d m (.ok (), (m.setHost h).moved id step d)
  | failed : m.host.Quiet h → Steps id step d m (.error why, m.setHost h)
  | lost   : m.host.Quiet h → h.ledger.poisoned = false → Steps id step d m (.error why, m.setHost (h.lost d))

variable (id decision ev detail n i step) in
theorem applyStep_steps (m : Machine) :
    Steps id step (m.engine.stepDraft id decision ev detail n i step) m
      (applyStep id decision ev detail n i (m.engine.states.lookup id) step m) := by
  have ⟨r, ha, hl⟩ := logSubject_appends .transition (some id.display) (m.engine.states.lookup id) (some step) [ev]
    decision.basis
    (detail ++ " [" ++ joinReasons decision.reasons ++ "] step " ++ toString (i + 1) ++ "/" ++ toString n) m
  have hl : log .transition (some id) (m.engine.states.lookup id) (some step) [ev] decision.basis
      (detail ++ " [" ++ joinReasons decision.reasons ++ "] step " ++ toString (i + 1) ++ "/" ++ toString n) m =
      (r.1, m.setHost r.2) := hl
  rw [applyStep]
  cases ha with
  | done q hp =>
    rw [bind_ok hl]
    exact .done q hp
  | failed q =>
    rw [bind_error hl]
    exact .failed q
  | lost q hp =>
    rw [bind_error hl]
    exact .lost q hp

theorem Steps.acts {d : EventDraft} (s : Steps id step d m r) (hd : m.engine.Moves w id step d) :
    ReflTransGen (Machine.Act w) m r.2 := by
  cases s
  case done q hp => exact .tail (.single (.host (.quiet q))) (.move hp hd)
  case failed q => exact .single (.host (.quiet q))
  case lost q hp => exact .tail (.single (.host (.quiet q))) (.loseMove hp hd)

end

-- The steps of a route are made from where the artifact is.
theorem applySteps_does {id : EpnId} {decision : Decision} {ev : Digest} {detail : String} {n : Nat}
    {steps : List AdmissionState} (m : Machine) (i : Nat)
    (hk : (m.engine.states.lookup id).isSome ∨ ∃ r ∈ w.known, r.id = id)
    (hc : ((m.engine.states.lookup id).getD .unknown :: steps).IsChain AdmissionState.Leads) :
    ReflTransGen (Machine.Act w) m
      (applySteps id decision ev detail n i (m.engine.states.lookup id) steps m).2 := by
  induction steps generalizing m i
  case nil => exact .refl
  case cons step steps ih =>
    have ⟨hl, hc⟩ := List.isChain_cons_cons.mp hc
    have hs := applyStep_steps id decision ev detail n i step m
    have hd : m.engine.Moves w id step (m.engine.stepDraft id decision ev detail n i step) :=
      ⟨rfl, rfl, rfl, rfl, hl.left, hl.right, hk⟩
    refine Does.bind_at (hs.acts hd) fun _ m' hx => ?_
    have hm : m'.engine.states.lookup id = some step := by
      rw [hx] at hs
      cases hs
      exact AList.lookup_insert _
    have ih := ih m' (i + 1) (.inl (hm ▸ rfl)) (hm ▸ hc)
    rwa [hm] at ih

theorem applyDecision_does {id : EpnId} {decision : Decision} {ev : Digest} {detail : String} (m : Machine)
    (hk : (m.engine.states.lookup id).isSome ∨ ∃ r ∈ w.known, r.id = id) :
    ReflTransGen (Machine.Act w) m (applyDecision id decision ev detail m).2 := by
  rw [applyDecision, bind_ok view_apply]
  split
  case isTrue => exact .refl
  case isFalse =>
    dsimp only
    cases hr : AdmissionState.route ((m.engine.states.lookup id).getD .unknown) decision.state
    case none => exact .refl
    case some steps =>
      have ⟨hc, _⟩ := AdmissionState.route_legal hr
      exact Does.bind_at (applySteps_does m 0 hk hc) fun _ _ _ => .refl

theorem replacedDecision_does {r : Option EpnRecord} {s : AdmissionState} {mismatch : EvidenceItem} :
    Does (Machine.Act w) (replacedDecision r s mismatch) := by
  cases r
  case none => exact .view
  case some => exact evaluateNow_does

-- The changes that are made after an artifact has become known.
abbrev Knowing (w : Setting) (id : EpnId) : Machine → Machine → Prop :=
  Does.Keeping (fun m => (m.engine.states.lookup id).isSome) (Machine.Act w)

theorem knowing {x : EngineM α} {id : EpnId} (h : Does (Machine.Act w) x) : Does (Knowing w id) x :=
  Does.keeping (fun _ _ a => a.known) fun m _ => h m

theorem applyDecision_knowing {id : EpnId} {decision : Decision} {ev : Digest} {detail : String} :
    Does (Knowing w id) (applyDecision id decision ev detail) :=
  Does.keeping (fun _ _ a => a.known) fun m hk => applyDecision_does m (.inl hk)

theorem onReplaced_does {old : EpnId} {path : String} : Does (Machine.Act w) (onReplaced old path) := by
  intro m
  refine Does.view_at fun state hs => ?_
  cases state
  case none => exact .refl
  case some s =>
    have hk : (m.engine.states.lookup old).isSome := hs ▸ rfl
    refine Does.of_keeping (I := fun m => (m.engine.states.lookup old).isSome) (.ite (fun _ => .pure) fun _ => ?_) hk
    refine .bind .view fun record => .bind (knowing now_does) fun time => ?_
    refine .bind (knowing storeEvidence_does) fun ev => .bind (knowing (log_does rfl nofun nofun)) fun _ => ?_
    refine .bind (knowing replacedDecision_does) fun decision => .bind applyDecision_knowing fun n => ?_
    exact .bind .view fun _ => .pure

theorem replaced_does {path : String} {id : EpnId} : Does (Machine.Act w) (replaced path id) := by
  refine .bind .view fun row => ?_
  cases row.bind fun r => EpnId.parse r.epn
  case none => exact .pure
  case some old => exact .ite (fun _ => onReplaced_does) fun _ => .pure

theorem settle_does {seen : Seen} {isNew : Bool} {decision : Decision} (hk : seen.record ∈ w.known) :
    Does (Machine.Act w) (settle seen isNew decision) := by
  refine .bind .view fun state => .bind (.ite (fun _ => storeEvidence_does) fun _ => .pure) fun ev => ?_
  refine .bind (.onlyIf fun _ => log_does rfl nofun nofun) fun _ => ?_
  exact fun m => applyDecision_does m (.inr ⟨_, hk, rfl⟩)

theorem process_does {seen : Seen} {caps : List Capability} (hk : seen.record ∈ w.known) :
    Does (Machine.Act w) (process seen caps) := by
  refine .bind replaced_does fun (n, degraded) => .bind storeRecord_does fun stored => .bind .view fun isNew => ?_
  refine .bind evaluateNow_does fun decision => .bind (settle_does hk) fun steps => .bind now_does fun time => ?_
  exact .bind .view fun _ => .bind (.update fun _ => .row) fun _ => .pure

theorem seenFrom_does {obs : Observation} : Does (Machine.Act w) (seenFrom obs) :=
  .bind now_does fun _ => .pure

-- What is seen at a path has the record that was observed.
theorem seenFrom_record {obs : Observation} {seen : Seen} (h : seenFrom obs m = (.ok seen, m')) :
    seen.record = obs.record := by
  cases h
  rfl

theorem unchanged_does {path : String} {metadata : Metadata} : Does (Machine.Act w) (unchanged path metadata) := by
  refine .bind .view fun row => ?_
  cases row.filter (·.describes metadata)
  case none => exact .pure
  case some => exact .bind now_does fun _ => .bind .view fun _ => .pure

theorem scanFile_does {full collect : Bool} {r : ScanReport × List Seen} {t : Target}
    (hk : ∀ obs, t.observed = .ok obs → obs.record ∈ w.known) :
    Does (Machine.Act w) (scanFile full collect r t) := by
  unfold scanFile
  cases t.metadata
  case none => exact .pure
  case some metadata =>
    refine .bind (.ite (fun _ => .pure) fun _ => unchanged_does) fun skip => .ite (fun _ => .pure) fun _ => ?_
    cases ho : t.observed
    case error => exact .pure
    case ok obs =>
      intro m
      refine Does.bind_at (seenFrom_does m) fun seen m' hs => ?_
      have hk : seen.record ∈ w.known := seenFrom_record hs ▸ hk obs ho
      exact Does.ite (fun _ => .pure) (fun _ => .bind (process_does hk) fun _ => .pure) m'

theorem scanFilesInner_does {files : List Target} {full collect : Bool}
    (hk : ∀ t ∈ files, ∀ obs, t.observed = .ok obs → obs.record ∈ w.known) :
    Does (Machine.Act w) (scanFilesInner files full collect) := by
  refine .bind setSync_does fun _ => .bind (.attempt (.fold (fun _ t ht => scanFile_does (hk t ht)) _)) fun result => ?_
  exact .bind setSync_does fun _ => .bind flush_does fun _ => .bind saveIndex_does fun _ => .ofExcept

theorem processAlone_does {seen : Seen} {caps : List Capability} (hk : seen.record ∈ w.known) :
    Does (Machine.Act w) (processAlone seen caps) :=
  .bind setSync_does fun _ => .bind (.attempt (process_does hk)) fun _ => .bind setSync_does fun _ => .ofExcept

theorem remaining_does {row : Option IndexRow} : Does (Machine.Act w) (remaining row) := by
  cases row
  case none => exact .pure
  case some => exact .bind now_does fun _ => .pure

theorem decideExec_does {observed : Except String Observation} (hk : ∀ obs, observed = .ok obs → obs.record ∈ w.known) :
    Does (Machine.Act w) (decideExec observed) := by
  cases observed
  case error => exact .view
  case ok obs =>
    intro m
    refine Does.bind_at (seenFrom_does m) fun seen m' hs => ?_
    have hk : seen.record ∈ w.known := seenFrom_record hs ▸ hk obs rfl
    refine Does.bind .view (fun before => .bind (processAlone_does hk) fun p => .bind .view fun after => ?_) m'
    refine .bind (.onlyIf fun _ => .bind flush_does fun _ => saveIndex_does) fun _ => ?_
    exact .bind remaining_does fun _ => .bind .view fun _ => .pure

theorem prepareRun_does {observed : Except String Observation} {args env : List String} {caps : List Capability}
    {seal' : Except String Unit} (hk : ∀ obs, observed = .ok obs → obs.record ∈ w.known) :
    Does (Machine.Act w) (prepareRun observed args env caps seal') := by
  intro m
  refine Does.ofExcept_at fun obs ho => ?_
  have hk := hk obs (Except.mapError_eq_ok.mp ho)
  refine Does.bind_at (seenFrom_does m) fun seen m' hs => ?_
  have hk : seen.record ∈ w.known := seenFrom_record hs ▸ hk
  refine Does.bind (processAlone_does hk) (fun p => .bind flush_does fun _ => .bind saveIndex_does fun _ => ?_) m'
  refine .ite (fun _ => ?_) fun _ => ?_
  · exact .bind (log_does rfl nofun nofun) fun _ => .bind flush_does fun _ => .halt
  · refine .bind .ofExcept fun spec => .bind .ofExcept fun _ => ?_
    exact .bind (log_does rfl nofun nofun) fun _ => .bind flush_does fun _ => .pure

end Engine
