import JlrModel.Engine.Theorems.Process

-- What processing an artifact does to the index.

open Program Relation

variable [Crypto]

-- The row of a path, as an engine that is opened reads it from the disk.
def StateDir.row (dir : StateDir) (path : String) : Option IndexRow :=
  SortedMap.get path (Engine.indexOf dir.loadIndex.1.rows)

def Engine.row (e : Engine) (path : String) : Option IndexRow :=
  SortedMap.get path e.index

namespace Machine

-- The rows are the same, on disk and in the engine.
structure Steady (m m' : Machine) : Prop where
  disk : m'.dir.index = m.dir.index
  rows : m'.engine.index = m.engine.index

namespace Steady

variable {m m₁ m₂ : Machine}

theorem refl : Steady m m :=
  ⟨rfl, rfl⟩

theorem trans (s : Steady m m₁) (s' : Steady m₁ m₂) : Steady m m₂ :=
  ⟨s'.disk.trans s.disk, s'.rows.trans s.rows⟩

instance : IsTrans Machine Steady :=
  ⟨fun _ _ _ => trans⟩

theorem of_does {x : EngineM α} (h : Does Steady x) (m : Machine) : Steady m (x m).2 :=
  Does.kept (P := Steady m) (h m) (fun _ _ s' s => s.trans s') refl

theorem of_ok {x : EngineM α} {a : α} (h : Does Steady x) (hx : x m = (.ok a, m₁)) : Steady m m₁ := by
  have s := of_does h m
  rwa [hx] at s

end Steady

end Machine

namespace Engine

open Machine

theorem onHost_steady {x : HostM α} (h : Does (fun h h' : Host => h'.dir.index = h.dir.index) x) :
    Does Steady (onHost x) :=
  h.zoom (fun _ => rfl) fun _ _ _ ha => ⟨ha, rfl⟩

theorem onHost_steady_of_quiet {x : HostM α} (h : ∀ host : Host, host.Quiet (x host).2) : Does Steady (onHost x) :=
  onHost_steady fun host => .single ((h host).dir.same (f := StateDir.index) fun _ _ => rfl)

theorem now_steady : Does Steady now :=
  onHost_steady_of_quiet fun _ => .advance

theorem setSync_steady {sync : Bool} : Does Steady (setSync sync) :=
  onHost_steady_of_quiet fun _ => .setSync

theorem syncFs_steady : Does Steady (onHost Host.syncFs) :=
  onHost_steady_of_quiet fun _ => Host.syncFs_quiet

theorem putObject_steady {kind : ObjectKind} {data : Bytes} : Does Steady (onHost (Host.putObject kind data)) := by
  refine onHost_steady (.bind .view fun _ => .bind (.onlyIf fun _ => ?_) fun _ => .pure)
  exact Host.writeAtomic_does (fun _ => rfl) fun _ _ _ => rfl

theorem storeEvidence_steady {items : List EvidenceItem} : Does Steady (storeEvidence items) :=
  putObject_steady

theorem storeRecord_steady {r : EpnRecord} : Does Steady (storeRecord r) :=
  .bind .view fun _ => .bind putObject_steady fun _ => .pure

theorem evaluateNow_steady {r : EpnRecord} {ev : List EvidenceItem} {caps : List Capability} :
    Does Steady (evaluateNow r ev caps) :=
  .bind now_steady fun _ => .view

theorem flush_steady : Does Steady flush :=
  .bind syncFs_steady fun _ => .bind .view fun _ =>
    .bind (.onlyIf fun _ => onHost_steady_of_quiet fun _ => Host.checkpoint_quiet) fun _ =>
      onHost_steady (Host.operate_does (fun _ => rfl) fun _ => rfl)

section

variable {id : EpnId} {decision : Decision} {ev : Digest} {detail : String}

theorem log_steady {kind : EventKind} {subject : Option EpnId} {old new : Option AdmissionState}
    {evidence : List Digest} {basis : Basis} : Does Steady (log kind subject old new evidence basis detail) := by
  refine .bind .view fun _ => .bind (.onlyIf fun _ => syncFs_steady) fun _ => .bind .view fun e => ?_
  exact onHost_steady fun _ => .single (Host.append_appends.logOnly.same (f := StateDir.index) fun _ _ => rfl)

theorem applySteps_steady {n : Nat} {steps : List AdmissionState} :
    ∀ i cur, Does Steady (applySteps id decision ev detail n i cur steps) := by
  induction steps
  case nil => exact fun _ _ => .pure
  case cons step steps ih =>
    exact fun i cur => .bind (.bind log_steady fun _ => .update fun _ => ⟨rfl, rfl⟩) fun _ => ih _ _

theorem applyDecision_steady : Does Steady (applyDecision id decision ev detail) := by
  refine .bind .view fun prior => .ite (fun _ => .pure) fun _ => ?_
  dsimp only
  cases AdmissionState.route (prior.getD .unknown) decision.state
  case none => exact .halt
  case some => exact .bind (applySteps_steady _ _) fun _ => .pure

end

theorem onReplaced_steady {old : EpnId} {path : String} : Does Steady (onReplaced old path) := by
  refine .bind .view fun state => ?_
  cases state
  case none => exact .pure
  case some s =>
    refine .ite (fun _ => .pure) fun _ => .bind .view fun record => .bind now_steady fun time => ?_
    refine .bind storeEvidence_steady fun ev => .bind log_steady fun _ => .bind ?_ fun decision => ?_
    · cases record
      case none => exact .view
      case some => exact evaluateNow_steady
    · exact .bind applyDecision_steady fun n => .bind .view fun _ => .pure

theorem replaced_steady {path : String} {id : EpnId} : Does Steady (replaced path id) := by
  refine .bind .view fun row => ?_
  cases row.bind fun r => EpnId.parse r.epn
  case none => exact .pure
  case some old => exact .ite (fun _ => onReplaced_steady) fun _ => .pure

variable {m m' : Machine} {seen : Seen} {requested : List Capability} {p : Processed}

-- What processing an artifact comes to. The clock is read for its evaluation, and once more for its row.
structure Enters (seen : Seen) (requested : List Capability) (m : Machine) (p : Processed) (m' : Machine) (i j : Nat) :
    Prop where
  goes      : m.Goes m'
  first     : m.host.tick ≤ i
  later     : i < j
  last      : j < m'.host.tick
  evaluated : ∃ states index, p.decision =
    ({ m.engine with states, index } : Engine).evaluateAt seen.record seen.evidence requested (m.host.oracle.clock i)
  disk      : m'.dir.index = m.dir.index
  rows      : m'.engine.index =
    SortedMap.insert seen.path (m.engine.entry seen (m.host.oracle.clock j)) m.engine.index

theorem settle_steady {isNew : Bool} {decision : Decision} : Does Steady (settle seen isNew decision) := by
  refine .bind .view fun state => .bind (.ite (fun _ => storeEvidence_steady) fun _ => .pure) fun ev => ?_
  exact .bind (.onlyIf fun _ => log_steady) fun _ => applyDecision_steady

theorem process_enters (h : process seen requested m = (.ok p, m')) : ∃ i j, Enters seen requested m p m' i j := by
  have ⟨m₁, m₂, m₃, m₄, h⟩ := process_passes h
  have ⟨_, hr⟩ := h.replaced
  have ⟨_, hs⟩ := h.stored
  have ⟨_, _, hd⟩ := h.settled
  have ⟨he, ht⟩ := evaluateNow_ok h.evaluated
  have s : Steady m m₄ := .trans (.trans (.of_ok replaced_steady hr) (.of_ok storeRecord_steady hs))
    (.trans (.of_ok evaluateNow_steady h.evaluated) (.of_ok settle_steady hd))
  have g : m.Goes m₄ := h.goes_stored.trans (.trans (.of_ok evaluateNow_proceeds h.evaluated) h.goes_settled)
  have ⟨states, index, he₂⟩ := h.goes_stored.engine
  have ⟨_, _, he₄⟩ := g.engine
  refine ⟨m₂.host.tick, m₄.host.tick, h.goes, h.goes_stored.host.tick, ht.trans_le h.goes_settled.host.tick, ?_,
    ⟨states, index, ?_⟩, ?_, ?_⟩
  · cases h.entered
    exact Nat.lt_succ_self _
  · rw [← he₂, ← h.goes_stored.host.oracle]
    exact he
  · cases h.entered
    exact s.disk
  · cases h.entered
    change SortedMap.insert seen.path (m₄.engine.entry seen (m₄.host.oracle.clock m₄.host.tick)) m₄.engine.index = _
    rw [s.rows, g.host.oracle, he₄]
    rfl

-- If processing an artifact fails, the rows are what they were.
theorem process_keeps :
    Triple (Steady m) (process seen requested) (fun _ _ => True) (fun _ => Steady m) := by
  refine .bind (.of_does replaced_steady) fun (n, degraded) => .bind (.of_does storeRecord_steady) fun stored => ?_
  refine .bind (.of_does .view) fun isNew => .bind (.of_does evaluateNow_steady) fun decision => ?_
  refine .bind (.of_does settle_steady) fun steps => .bind (.of_does now_steady) fun time => ?_
  refine .bind (.of_does .view) fun _ => ?_
  exact .bind (Q := fun _ _ => True) (.update fun _ _ => trivial) fun _ => .pure fun _ _ => trivial

theorem processAlone_keeps :
    Triple (Steady m) (processAlone seen requested) (fun _ _ => True) (fun _ => Steady m) := by
  let R (r : Except EngineError Processed) (m' : Machine) : Prop := r.toOption = none → Steady m m'
  refine .bind (.of_does setSync_steady) fun _ => .bind (Q := R) (process_keeps.attempt ?_ ?_ ?_) fun r => ?_
  · exact fun _ _ _ => nofun
  · exact fun _ _ _ _ s _ => s
  · exact fun _ _ _ s => s
  cases r
  case ok => exact fun _ _ => trivial
  case error =>
    refine .mono (?_ : Triple (Steady m) _ _ _) (fun _ h => h rfl) (fun _ _ => id) fun _ _ => id
    exact .bind (.of_does setSync_steady) fun _ => .halt fun _ => id

theorem processAlone_enters (h : processAlone seen requested m = (.ok p, m')) :
    ∃ i j, Enters seen requested m p m' i j := by
  have ⟨_, m₁, hs, h⟩ := bind_eq_ok.mp h
  have ⟨r, m₂, hp, h⟩ := bind_eq_ok.mp h
  have ⟨_, m₃, hs', h⟩ := bind_eq_ok.mp h
  have ⟨hr, hm⟩ := ofExcept_eq_ok.mp h
  rw [Except.mapError_eq_ok.mp hr] at hp
  have ⟨i, j, e⟩ := process_enters (attempt_eq_ok.mp hp)
  cases hs
  cases hs'
  cases hm
  refine ⟨i, j, ?_, e.first, e.later, e.last, e.evaluated, e.disk, e.rows⟩
  have g : m.Goes _ := .of_ok (x := setSync false) setSync_proceeds rfl
  have g' : m₂.Goes _ := .of_ok (x := setSync true) setSync_proceeds rfl
  exact g.trans (e.goes.trans g')

theorem remaining_steady {row : Option IndexRow} : Does Steady (remaining row) := by
  cases row
  case none => exact .pure
  case some => exact .bind now_steady fun _ => .pure

-- What deciding about a file comes to. The clock is read for a third time, for how long the decision may be used.
structure Judges (obs : Observation) (m : Machine) (v : ExecVerdict) (m' : Machine) (i j k : Nat) : Prop where
  entered : ∃ seen m₁ p m₂, seen.path = obs.path ∧ seen.record = obs.record ∧ seen.evidence = obs.evidence ∧
    m.Goes m₁ ∧ m₁.engine = m.engine ∧ Enters seen [] m₁ p m₂ i j ∧ m₂.host.tick ≤ k ∧
    m'.engine.index = m₂.engine.index ∧ v.decision = p.decision
  last    : k < m'.host.tick
  maxAge  : ∃ row, m'.engine.row obs.path = some row ∧
    let validFor := row.validUntil.saturatingSub (m.host.oracle.clock k)
    v.maxAgeSecs = if validFor < 1 then 1 else validFor

theorem decideExec_judges {obs : Observation} {v : ExecVerdict} (h : decideExec (.ok obs) m = (.ok v, m')) :
    ∃ i j k, Judges obs m v m' i j k := by
  have ⟨seen, m₁, hs, h⟩ := bind_eq_ok.mp h
  rw [view_bind] at h
  have ⟨p, m₂, hp, h⟩ := bind_eq_ok.mp h
  rw [view_bind] at h
  have ⟨_, m₃, hf, hv⟩ := bind_eq_ok.mp h
  have ⟨i, j, e⟩ := processAlone_enters hp
  have hr : SortedMap.get seen.path m₂.engine.index = some (m₁.engine.entry seen (m₁.host.oracle.clock j)) := by
    rw [e.rows, SortedMap.get_insert_self]
  have g₃ : m₂.Goes m₃ := .of_ok (.onlyIf fun _ => .bind flush_proceeds fun _ => saveIndex_proceeds) hf
  have h₃ : m₃.engine.index = m₂.engine.index := Keeps.of_does (f := Engine.index)
    (.onlyIf fun _ => .bind flush_keeps fun _ => saveIndex_keeps) hf
  cases hs
  rw [hr] at hv
  cases hv
  have ho : m₃.host.oracle = m.host.oracle := g₃.host.oracle.trans e.goes.host.oracle
  refine ⟨i, j, m₃.host.tick, ⟨_, _, p, m₂, rfl, rfl, rfl, .of_ok now_proceeds rfl, rfl, e, g₃.host.tick, h₃, rfl⟩,
    Nat.lt_succ_self _, _, (congrArg (SortedMap.get obs.path) h₃).trans hr, ?_⟩
  rw [← ho]

end Engine
