import JlrModel.Engine.Theorems.Authority
import JlrModel.Engine.Theorems.Open

open Program Relation

-- The authorities of an installation, and what the programs of an engine leave of them as it is.

-- An authority has its files, what an engine knows of it, and a kind of events.
inductive Area
  | policy | list | grants

namespace Area

def kind : Area → EventKind
  | policy => .policyLoad
  | list   => .revocation
  | grants => .override

theorem all {S : Set Area} {P : Area → Prop} (hp : .policy ∈ S → P .policy) (hl : .list ∈ S → P .list)
    (hg : .grants ∈ S → P .grants) : ∀ a ∈ S, P a
  | policy => hp
  | list   => hl
  | grants => hg

-- The other kinds of events are about artifacts and about the engine.
theorem kind_ne {kind : EventKind} {S : Set Area} (h : kind ∉ [.policyLoad, .revocation, .override]) :
    ∀ a ∈ S, kind ≠ a.kind := by
  simp only [List.mem_cons, List.not_mem_nil, or_false, not_or] at h
  exact all (fun _ => h.left) (fun _ => h.right.left) fun _ => h.right.right

variable [Crypto]

def SameFiles (d d' : StateDir) : Area → Prop
  | policy => d'.policy = d.policy
  | list   => d'.revocations = d.revocations
  | grants => d'.grants = d.grants

def SameKnown (e e' : Engine) : Area → Prop
  | policy => e'.policy = e.policy
  | list   => e'.revocations = e.revocations
  | grants => e'.baselines = e.baselines ∧ e'.approvals = e.approvals

theorem sameFiles_of_logOnly {h h' : Host} (hl : h.LogOnly h') (a : Area) : a.SameFiles h.dir h'.dir := by
  cases a
  case policy => exact hl.same fun _ _ => rfl
  case list => exact hl.same fun _ _ => rfl
  case grants => exact hl.same fun _ _ => rfl

theorem sameKnown_refl {e : Engine} (a : Area) : a.SameKnown e e := by
  cases a
  case policy => exact rfl
  case list => exact rfl
  case grants => exact ⟨rfl, rfl⟩

end Area

variable [Crypto]

-- What is only written when an installation is set up.
structure StateDir.Fixed (d d' : StateDir) : Prop where
  node      : d'.node = d.node
  anchors   : d'.anchors = d.anchors
  deviceKey : d'.deviceKey = d.deviceKey
  policyKey : d'.policyKey = d.policyKey

namespace Host

-- At most one event is new.
inductive Extends (P : EventDraft → Prop) (h h' : Host) : Prop
  | same : h'.dir.log.events = h.dir.log.events → h'.dir.log.left = h.dir.log.left →
      (h'.ledger.poisoned = false → h.ledger.poisoned = false) → Extends P h h'
  | event {d} : P d → h.ledger.poisoned = false → h'.dir.log.events = h.dir.log.events ++ [d] →
      h'.dir.log.left = h.dir.log.left → Extends P h h'
  | lost {d} : P d → h.ledger.poisoned = false → h'.dir.log.events = h.dir.log.events →
      h'.dir.log.left = some d → h'.ledger.poisoned = true → Extends P h h'

namespace Extends

variable {P : EventDraft → Prop} {h h' : Host}

-- As long as the ledger accepts events, a reader finds those that were accepted.
theorem left (x : Extends P h h') (hl : h.ledger.poisoned = false → h.dir.log.left = none) :
    h'.ledger.poisoned = false → h'.dir.log.left = none := by
  intro hp
  cases x with
  | same _ he ho => exact he.trans (hl (ho hp))
  | event _ ho _ he => exact he.trans (hl ho)
  | lost _ _ _ _ he => rw [he] at hp; cases hp

theorem replayed (x : Extends P h h') (hl : h.ledger.poisoned = false → h.dir.log.left = none) :
    h'.dir.log.replayed = h.dir.log.replayed ∨ ∃ d, P d ∧ h'.dir.log.replayed = h.dir.log.replayed ++ [d] := by
  cases x with
  | same he hn _ => exact .inl (by rw [EventLog.replayed, he, hn, EventLog.replayed])
  | event hd ho he hn =>
    refine .inr ⟨_, hd, ?_⟩
    rw [EventLog.replayed, EventLog.replayed, he, hn, hl ho, Option.toList_none, List.append_nil, List.append_nil]
  | lost hd ho he hn _ =>
    refine .inr ⟨_, hd, ?_⟩
    rw [EventLog.replayed, EventLog.replayed, he, hn, hl ho, Option.toList_none, List.append_nil]
    rfl

theorem of_act (a : Host.Act h h') : Extends EventDraft.Note h h' := by
  cases a
  case quiet q => exact .same q.events q.left q.open'
  case event hp hd => exact .event hd hp rfl rfl
  case lost hp hd => exact .lost hd hp rfl rfl rfl
  case object => exact .same rfl rfl id
  case index => exact .same rfl rfl id

end Extends

structure Leaves (S : Set Area) (h h' : Host) : Prop where
  fixed : h.dir.Fixed h'.dir
  files : ∀ a ∈ S, a.SameFiles h.dir h'.dir
  log   : Extends (fun d => ∀ a ∈ S, d.kind ≠ a.kind) h h'

variable {S : Set Area} {h h' : Host} {d : EventDraft}

theorem Leaves.of_logOnly (hl : h.LogOnly h') (he : Extends (fun d => ∀ a ∈ S, d.kind ≠ a.kind) h h') :
    Leaves S h h' where
  fixed     := ⟨hl.same fun _ _ => rfl, hl.same fun _ _ => rfl, hl.same fun _ _ => rfl, hl.same fun _ _ => rfl⟩
  files a _ := a.sameFiles_of_logOnly hl
  log       := he

theorem Leaves.of_quiet (q : h.Quiet h') : Leaves S h h' :=
  .of_logOnly q.dir (.same q.events q.left q.open')

theorem Leaves.of_setDir {change : StateDir → StateDir} (hf : h.dir.Fixed (change h.dir))
    (ha : ∀ a ∈ S, a.SameFiles h.dir (change h.dir)) (hl : (change h.dir).log = h.dir.log) :
    Leaves S h (h.setDir change) where
  fixed := hf
  files := ha
  log   := .same (congrArg EventLog.events hl) (congrArg EventLog.left hl) id

theorem quiet_leaves {x : HostM α} (hq : ∀ h : Host, h.Quiet (x h).2) : Does (Leaves S) x :=
  fun h => .single (.of_quiet (hq h))

theorem now_leaves : Does (Leaves S) now :=
  quiet_leaves fun _ => .advance

theorem syncFs_leaves : Does (Leaves S) syncFs :=
  quiet_leaves fun _ => syncFs_quiet

theorem syncLedger_leaves : Does (Leaves S) syncLedger :=
  operate_does (fun _ => .of_quiet .advance) fun _ => .of_quiet .refl

theorem setSync_leaves {sync : Bool} : Does (Leaves S) (setSync sync) :=
  quiet_leaves fun _ => .setSync

theorem checkpoint_leaves : Does (Leaves S) checkpoint :=
  quiet_leaves fun _ => checkpoint_quiet

theorem appends_leaves {r : Except Halt Unit × Host} (hd : ∀ a ∈ S, d.kind ≠ a.kind) (a : Appends d h r) :
    ReflTransGen (Leaves S) h r.2 := by
  cases a
  case done q hp =>
    exact .tail (.single (.of_quiet q)) (.of_logOnly rfl (.event hd hp rfl rfl))
  case failed q => exact .single (.of_quiet q)
  case lost q hp =>
    exact .tail (.single (.of_quiet q)) (.of_logOnly rfl (.lost hd hp rfl rfl rfl))

theorem append_leaves (hd : ∀ a ∈ S, d.kind ≠ a.kind) : Does (Leaves S) (append d) :=
  fun _ => appends_leaves hd append_appends

theorem putObject_leaves {kind : ObjectKind} {data : Bytes} : Does (Leaves S) (putObject kind data) := by
  refine .bind .view fun _ => .bind (.onlyIf fun _ => ?_) fun _ => .pure
  refine writeAtomic_does (fun _ => .of_quiet .advance) fun h f _ => .of_setDir ⟨rfl, rfl, rfl, rfl⟩ ?_ rfl
  exact Area.all (fun _ => rfl) (fun _ => rfl) fun _ => rfl

theorem saveIndex_leaves {index : List (String × IndexRow)} : Does (Leaves S) (saveIndex index) := by
  refine writeAtomic_does (fun _ => .of_quiet .advance) fun h f _ => .of_setDir ⟨rfl, rfl, rfl, rfl⟩ ?_ rfl
  exact Area.all (fun _ => rfl) (fun _ => rfl) fun _ => rfl

end Host

structure Machine.Leaves (S : Set Area) (m m' : Machine) : Prop where
  host    : m.host.Leaves S m'.host
  node    : m'.engine.node = m.engine.node
  anchors : m'.engine.anchors = m.engine.anchors
  known   : ∀ a ∈ S, a.SameKnown m.engine m'.engine

namespace Machine.Leaves

variable {S : Set Area} {m m' : Machine}

theorem policy (h : ReflTransGen (Machine.Leaves S) m m') (hp : .policy ∈ S) : m'.engine.policy = m.engine.policy := by
  induction h
  case refl => rfl
  case tail h ih => exact (h.known _ hp).trans ih

theorem anchors_eq (h : ReflTransGen (Machine.Leaves S) m m') : m'.engine.anchors = m.engine.anchors := by
  induction h
  case refl => rfl
  case tail h ih => exact h.anchors.trans ih

theorem list (h : ReflTransGen (Machine.Leaves S) m m') (hl : .list ∈ S) :
    m'.engine.revocations = m.engine.revocations := by
  induction h
  case refl => rfl
  case tail h ih => exact (h.known _ hl).trans ih

theorem listFile (h : ReflTransGen (Machine.Leaves S) m m') (hl : .list ∈ S) :
    m'.dir.revocations = m.dir.revocations := by
  induction h
  case refl => rfl
  case tail h ih => exact (h.host.files _ hl).trans ih

-- No event gets lost.
theorem mem_events {d : EventDraft} (h : ReflTransGen (Machine.Leaves S) m m') (hd : d ∈ m.dir.log.events) :
    d ∈ m'.dir.log.events := by
  induction h
  case refl => exact hd
  case tail h ih =>
    cases h.host.log with
    | same he _ _ => exact he ▸ ih
    | event _ _ he _ => exact he ▸ List.mem_append_left _ ih
    | lost _ _ he _ _ => exact he ▸ ih

end Machine.Leaves

namespace Engine

variable {S : Set Area}

theorem onHost_leaves {x : HostM α} (h : Does (Host.Leaves S) x) : Does (Machine.Leaves S) (onHost x) :=
  h.zoom (fun _ => rfl) fun _ _ _ hl => ⟨hl, rfl, rfl, fun a _ => a.sameKnown_refl⟩

theorem setEngine_leaves {f : Engine → Engine} (hn : ∀ e, (f e).node = e.node) (ha : ∀ e, (f e).anchors = e.anchors)
    (hk : ∀ e, ∀ a ∈ S, a.SameKnown e (f e)) : Does (Machine.Leaves S) (update (Machine.setEngine f) : EngineM Unit) :=
  .update fun _ => ⟨.of_quiet .refl, hn _, ha _, hk _⟩

theorem sameKnown_of {e e' : Engine} (hp : e'.policy = e.policy) (hl : e'.revocations = e.revocations)
    (hb : e'.baselines = e.baselines) (ha : e'.approvals = e.approvals) : ∀ a ∈ S, a.SameKnown e e' :=
  Area.all (fun _ => hp) (fun _ => hl) fun _ => ⟨hb, ha⟩

theorem now_leaves : Does (Machine.Leaves S) now :=
  onHost_leaves Host.now_leaves

theorem evaluateNow_leaves {r : EpnRecord} {ev : List EvidenceItem} {caps : List Capability} :
    Does (Machine.Leaves S) (evaluateNow r ev caps) :=
  .bind now_leaves fun _ => .view

theorem flush_leaves : Does (Machine.Leaves S) flush :=
  .bind (onHost_leaves Host.syncFs_leaves) fun _ => .bind .view fun _ =>
    .bind (.onlyIf fun _ => onHost_leaves Host.checkpoint_leaves) fun _ => onHost_leaves Host.syncLedger_leaves

theorem setSync_leaves {sync : Bool} : Does (Machine.Leaves S) (setSync sync) :=
  onHost_leaves Host.setSync_leaves

theorem storeEvidence_leaves {items : List EvidenceItem} : Does (Machine.Leaves S) (storeEvidence items) :=
  onHost_leaves Host.putObject_leaves

theorem storeRecord_leaves {r : EpnRecord} : Does (Machine.Leaves S) (storeRecord r) :=
  .bind .view fun _ => .bind (onHost_leaves Host.putObject_leaves) fun _ => .pure

theorem saveIndex_leaves : Does (Machine.Leaves S) saveIndex :=
  .bind .view fun _ => onHost_leaves Host.saveIndex_leaves

theorem logSubject_leaves {kind : EventKind} {subject : Option String} {old new : Option AdmissionState}
    {evidence : List Digest} {basis : Basis} {detail : String} (hk : ∀ a ∈ S, kind ≠ a.kind) :
    Does (Machine.Leaves S) (logSubject kind subject old new evidence basis detail) :=
  .bind .view fun _ => .bind (.onlyIf fun _ => onHost_leaves Host.syncFs_leaves) fun _ => .bind .view fun _ =>
    onHost_leaves (Host.append_leaves hk)

theorem log_leaves {kind : EventKind} {subject : Option EpnId} {old new : Option AdmissionState}
    {evidence : List Digest} {basis : Basis} {detail : String} (hk : ∀ a ∈ S, kind ≠ a.kind) :
    Does (Machine.Leaves S) (log kind subject old new evidence basis detail) :=
  logSubject_leaves hk

section

variable {id : EpnId} {decision : Decision} {ev : Digest} {detail path : String}

theorem applySteps_leaves {n : Nat} {steps : List AdmissionState} :
    ∀ i cur, Does (Machine.Leaves S) (applySteps id decision ev detail n i cur steps) := by
  induction steps
  case nil => exact fun _ _ => .pure
  case cons step steps ih =>
    refine fun i cur => .bind (.bind (log_leaves (Area.kind_ne (by decide))) fun _ => ?_) fun _ => ih _ _
    exact setEngine_leaves (fun _ => rfl) (fun _ => rfl) fun _ => sameKnown_of rfl rfl rfl rfl

theorem applyDecision_leaves : Does (Machine.Leaves S) (applyDecision id decision ev detail) := by
  refine .bind .view fun prior => .ite (fun _ => .pure) fun _ => ?_
  dsimp only
  cases AdmissionState.route (prior.getD .unknown) decision.state
  case none => exact .halt
  case some => exact .bind (applySteps_leaves _ _) fun _ => .pure

theorem replacedDecision_leaves {r : Option EpnRecord} {s : AdmissionState} {mismatch : EvidenceItem} :
    Does (Machine.Leaves S) (replacedDecision r s mismatch) := by
  cases r
  case none => exact .view
  case some => exact evaluateNow_leaves

theorem onReplaced_leaves {old : EpnId} : Does (Machine.Leaves S) (onReplaced old path) := by
  refine .bind .view fun state => ?_
  cases state
  case none => exact .pure
  case some =>
    refine .ite (fun _ => .pure) fun _ => .bind .view fun record => .bind now_leaves fun time => ?_
    refine .bind storeEvidence_leaves fun ev => .bind (log_leaves (Area.kind_ne (by decide))) fun _ => ?_
    exact .bind replacedDecision_leaves fun _ => .bind applyDecision_leaves fun n => .bind .view fun _ => .pure

theorem replaced_leaves : Does (Machine.Leaves S) (replaced path id) := by
  refine .bind .view fun row => ?_
  cases row.bind fun r => EpnId.parse r.epn
  case none => exact .pure
  case some old => exact .ite (fun _ => onReplaced_leaves) fun _ => .pure

theorem setRow_leaves {row : IndexRow} : Does (Machine.Leaves S) (setRow path row) :=
  setEngine_leaves (fun _ => rfl) (fun _ => rfl) fun _ => sameKnown_of rfl rfl rfl rfl

end

theorem settle_leaves {seen : Seen} {isNew : Bool} {decision : Decision} :
    Does (Machine.Leaves S) (settle seen isNew decision) := by
  refine .bind .view fun state => .bind (.ite (fun _ => storeEvidence_leaves) fun _ => .pure) fun ev => ?_
  exact .bind (.onlyIf fun _ => log_leaves (Area.kind_ne (by decide))) fun _ => applyDecision_leaves

theorem process_leaves {seen : Seen} {caps : List Capability} : Does (Machine.Leaves S) (process seen caps) := by
  refine .bind replaced_leaves fun (n, degraded) => .bind storeRecord_leaves fun stored => .bind .view fun isNew => ?_
  refine .bind evaluateNow_leaves fun decision => .bind settle_leaves fun steps => .bind now_leaves fun time => ?_
  exact .bind .view fun _ => .bind setRow_leaves fun _ => .pure

theorem seenFrom_leaves {obs : Observation} : Does (Machine.Leaves S) (seenFrom obs) :=
  .bind now_leaves fun _ => .pure

theorem unchanged_leaves {path : String} {metadata : Metadata} : Does (Machine.Leaves S) (unchanged path metadata) := by
  refine .bind .view fun row => ?_
  cases row.filter (·.describes metadata)
  case none => exact .pure
  case some => exact .bind now_leaves fun _ => .bind .view fun _ => .pure

theorem scanFile_leaves {full collect : Bool} {r : ScanReport × List Seen} {t : Target} :
    Does (Machine.Leaves S) (scanFile full collect r t) := by
  unfold scanFile
  cases t.metadata
  case none => exact .pure
  case some metadata =>
    refine .bind (.ite (fun _ => .pure) fun _ => unchanged_leaves) fun skip => .ite (fun _ => .pure) fun _ => ?_
    cases t.observed
    case error => exact .pure
    case ok obs =>
      refine .bind seenFrom_leaves fun seen => .ite (fun _ => .pure) fun _ => ?_
      exact .bind process_leaves fun _ => .pure

theorem scanFilesInner_leaves {files : List Target} {full collect : Bool} :
    Does (Machine.Leaves S) (scanFilesInner files full collect) :=
  .bind setSync_leaves fun _ => .bind (.attempt (.fold (fun _ _ _ => scanFile_leaves) _)) fun _ =>
    .bind setSync_leaves fun _ => .bind flush_leaves fun _ => .bind saveIndex_leaves fun _ => .ofExcept

theorem processAlone_leaves {seen : Seen} {caps : List Capability} : Does (Machine.Leaves S) (processAlone seen caps) :=
  .bind setSync_leaves fun _ => .bind (.attempt process_leaves) fun _ => .bind setSync_leaves fun _ => .ofExcept

theorem remaining_leaves {row : Option IndexRow} : Does (Machine.Leaves S) (remaining row) := by
  cases row
  case none => exact .pure
  case some => exact .bind now_leaves fun _ => .pure

theorem decideExec_leaves {observed : Except String Observation} : Does (Machine.Leaves S) (decideExec observed) := by
  cases observed
  case error => exact .view
  case ok obs =>
    refine .bind seenFrom_leaves fun seen => .bind .view fun before => .bind processAlone_leaves fun p => ?_
    refine .bind .view fun after => .bind (.onlyIf fun _ => .bind flush_leaves fun _ => saveIndex_leaves) fun _ => ?_
    exact .bind remaining_leaves fun _ => .bind .view fun _ => .pure

theorem prepareRun_leaves {observed : Except String Observation} {args env : List String} {caps : List Capability}
    {seal' : Except String Unit} : Does (Machine.Leaves S) (prepareRun observed args env caps seal') := by
  refine .bind .ofExcept fun obs => .bind seenFrom_leaves fun seen => .bind processAlone_leaves fun p => ?_
  refine .bind flush_leaves fun _ => .bind saveIndex_leaves fun _ => .ite (fun _ => ?_) fun _ => ?_
  · exact .bind (log_leaves (Area.kind_ne (by decide))) fun _ => .bind flush_leaves fun _ => .halt
  · refine .bind .ofExcept fun spec => .bind .ofExcept fun _ => ?_
    exact .bind (log_leaves (Area.kind_ne (by decide))) fun _ => .bind flush_leaves fun _ => .pure

theorem loadPolicyKey_leaves : Does (Machine.Leaves S) loadPolicyKey :=
  .bind .view fun _ => .ofExcept

theorem signBaseline_leaves {files : List Target} {opts : EnrollOptions} {full : Bool} :
    Does (Machine.Leaves S) (signBaseline files opts full) := by
  refine .bind loadPolicyKey_leaves fun key => .bind scanFilesInner_leaves fun (report, seen) => ?_
  exact .bind now_leaves fun _ => .bind .view fun _ => .bind .ofExcept fun _ => .pure

theorem signApproval_leaves {epn : String} {opts : GrantOptions} : Does (Machine.Leaves S) (signApproval epn opts) := by
  refine .bind .ofExcept fun id => .bind .view fun known => .ite (fun _ => .halt) fun _ => .bind .view fun stored => ?_
  refine .bind .ofExcept fun record => .bind loadPolicyKey_leaves fun key => .bind now_leaves fun time => ?_
  exact .bind .view fun _ => .bind .ofExcept fun _ => .pure

theorem reassess_leaves {id : EpnId} {record : EpnRecord} {look : String → Option (Except String Observation)} :
    Does (Machine.Leaves S) (reassess id record look) := by
  refine .bind .view fun row => ?_
  cases row.bind fun r => look r.2.path
  case none => exact evaluateNow_leaves
  case some observed =>
    refine .bind .ofExcept fun obs => .bind seenFrom_leaves fun seen => .bind process_leaves fun p => ?_
    exact .bind flush_leaves fun _ => .bind saveIndex_leaves fun _ => .pure

-- A change of the grants that an engine knows.
def Regrants (f : Engine → Engine) : Prop :=
  ∀ e, ∃ baselines approvals, f e = { e with baselines, approvals }

section

variable (hg : .grants ∉ S)

include hg

theorem regrants_leaves {f : Engine → Engine} (hf : Regrants f) :
    Does (Machine.Leaves S) (update (Machine.setEngine f) : EngineM Unit) := by
  have hp (e : Engine) : (f e).node = e.node ∧ (f e).anchors = e.anchors ∧ (f e).policy = e.policy ∧
      (f e).revocations = e.revocations := by
    have ⟨_, _, hf⟩ := hf e
    rw [hf]
    exact ⟨rfl, rfl, rfl, rfl⟩
  refine setEngine_leaves (fun e => (hp e).left) (fun e => (hp e).right.left) fun e => ?_
  exact Area.all (fun _ => (hp e).right.right.left) (fun _ => (hp e).right.right.right) (absurd · hg)

theorem sameGrantFiles {d d' : StateDir} (hp : d'.policy = d.policy) (hl : d'.revocations = d.revocations) :
    ∀ a ∈ S, a.SameFiles d d' :=
  Area.all (fun _ => hp) (fun _ => hl) (absurd · hg)

theorem removeSuperseded_leaves {kind : GrantKind} {beginning keep : String} :
    Does (Host.Leaves S) (Host.removeSuperseded kind beginning keep) := by
  refine .bind .view fun names => .fold (fun _ name _ => .bind (.attempt ?_) fun _ => .pure) _
  exact Host.operate_does (fun _ => .of_quiet .advance) fun _ =>
    .of_setDir ⟨rfl, rfl, rfl, rfl⟩ (sameGrantFiles hg rfl rfl) rfl

theorem supersede_leaves {kind : GrantKind} {stem : String} {bytes : Bytes} {enter : Engine → Engine}
    {restore : Engine → Engine → Engine} {subject detail : String} (he : Regrants enter)
    (hr : ∀ before, Regrants (restore before)) :
    Does (Machine.Leaves S) (supersede kind stem bytes enter restore subject detail) := by
  refine .bind (onHost_leaves ?_) fun _ => .bind .view fun before => .bind (regrants_leaves hg he) fun _ => ?_
  · exact Host.writeAtomic_does (fun _ => .of_quiet .advance) fun _ _ _ =>
      .of_setDir ⟨rfl, rfl, rfl, rfl⟩ (sameGrantFiles hg rfl rfl) rfl
  · refine .bind (.attempt (logSubject_leaves ?_)) fun logged => ?_
    · exact Area.all (fun _ => by decide) (fun _ => by decide) (absurd · hg)
    · cases logged
      case error => exact .bind (regrants_leaves hg (hr before)) fun _ => .halt
      case ok => exact onHost_leaves (removeSuperseded_leaves hg)

theorem enrollBaseline_leaves {files : List Target} {opts : EnrollOptions} {full : Bool} :
    Does (Machine.Leaves S) (enrollBaseline files opts full) := by
  refine .ite (fun _ => .halt) fun _ => .bind signBaseline_leaves fun b => ?_
  refine .bind (supersede_leaves hg (fun _ => ⟨_, _, rfl⟩) fun _ _ => ⟨_, _, rfl⟩) fun _ => ?_
  refine .bind setSync_leaves fun _ => .bind (.attempt (.fold (fun _ s _ => ?_) _)) fun result => ?_
  · exact .bind process_leaves fun _ => .pure
  · exact .bind setSync_leaves fun _ => .bind flush_leaves fun _ => .bind saveIndex_leaves fun _ =>
      .bind .ofExcept fun _ => .pure

theorem approve_leaves {epn : String} {opts : GrantOptions} {look : String → Option (Except String Observation)} :
    Does (Machine.Leaves S) (approve epn opts look) := by
  refine .bind signApproval_leaves fun a => .bind (supersede_leaves hg ?_ ?_) fun _ => ?_
  · exact fun _ => ⟨_, _, rfl⟩
  · exact fun _ _ => ⟨_, _, rfl⟩
  · exact .bind reassess_leaves fun _ => .bind flush_leaves fun _ => .pure

end

theorem revokeOne_leaves {kind : RevocationKind} {target reason : String} {r : RevokeReport} {id : EpnId} :
    Does (Machine.Leaves S) (revokeOne kind target reason r id) := by
  refine .bind .view fun e => .bind .view fun record => ?_
  cases record
  case none =>
    refine .ite (fun _ => ?_) fun _ => .ite (fun _ => .pure) fun _ => .pure
    exact .bind storeEvidence_leaves fun _ => .bind applyDecision_leaves fun _ => .pure
  case some record =>
    refine .ite (fun _ => ?_) fun _ => .pure
    exact .bind evaluateNow_leaves fun _ => .bind storeEvidence_leaves fun _ => .bind applyDecision_leaves fun _ => .pure

theorem revokeReport_leaves {order : List EpnId → List EpnId} {kind : RevocationKind} {target reason : String}
    (hl : .list ∉ S) : Does (Machine.Leaves S) (revokeReport order kind target reason) := by
  refine .bind .ofExcept fun target => .bind loadPolicyKey_leaves fun key => .bind .view fun e => ?_
  refine .bind .ofExcept fun bytes => .bind (onHost_leaves ?_) fun _ => .bind ?_ fun _ => .bind (log_leaves ?_) fun _ => ?_
  · refine Host.writeAtomic_does (fun _ => .of_quiet .advance) fun _ _ _ => .of_setDir ⟨rfl, rfl, rfl, rfl⟩ ?_ rfl
    exact Area.all (fun _ => rfl) (absurd · hl) fun _ => rfl
  · exact setEngine_leaves (fun _ => rfl) (fun _ => rfl) fun _ => Area.all (fun _ => rfl) (absurd · hl) fun _ => ⟨rfl, rfl⟩
  · exact Area.all (fun _ => by decide) (absurd · hl) fun _ => by decide
  · refine .bind .view fun ids => .bind (.fold (fun _ _ _ => revokeOne_leaves) _) fun r => ?_
    exact .bind (.onlyIf fun _ => log_leaves (Area.kind_ne (by decide))) fun _ => .bind flush_leaves fun _ => .pure

theorem setPolicy_leaves {new : Policy} (hp : .policy ∉ S) : Does (Machine.Leaves S) (setPolicy new) := by
  refine .bind .view fun e => ?_
  split
  case h_1 => exact .halt
  case h_2 =>
    refine .ite (fun _ => .halt) fun _ => .bind loadPolicyKey_leaves fun key => .bind .ofExcept fun bytes => ?_
    refine .bind (onHost_leaves ?_) fun _ => .bind ?_ fun _ => .bind (log_leaves ?_) fun _ => ?_
    · refine Host.writeAtomic_does (fun _ => .of_quiet .advance) fun _ _ _ => .of_setDir ⟨rfl, rfl, rfl, rfl⟩ ?_ rfl
      exact Area.all (absurd · hp) (fun _ => rfl) fun _ => rfl
    · refine setEngine_leaves (fun _ => rfl) (fun _ => rfl) fun _ => ?_
      exact Area.all (absurd · hp) (fun _ => rfl) fun _ => ⟨rfl, rfl⟩
    · exact Area.all (absurd · hp) (fun _ => by decide) fun _ => by decide
    · exact .bind flush_leaves fun _ => .pure

end Engine

-- The authority that a call is about.
def Call.area : Call → Option Area
  | enrollBaseline _ _ _ => some .grants
  | approve _ _ _        => some .grants
  | revoke _ _ _ _ _     => some .list
  | setPolicy _          => some .policy
  | _                    => none

-- The others stay as they are, whether the call fails or not.
theorem Call.run_leaves {c : Call} {S : Set Area} (h : ∀ a ∈ S, c.area ≠ some a) : Does (Machine.Leaves S) c.run := by
  have hn {a : Area} (hc : c.area = some a) : a ∉ S := fun ha => h a ha hc
  cases c
  case scan => exact .bind (.bind Engine.scanFilesInner_leaves fun _ => .pure) fun _ => .pure
  case decideExec => exact .bind Engine.decideExec_leaves fun _ => .pure
  case prepareRun => exact .bind Engine.prepareRun_leaves fun _ => .pure
  case enrollBaseline => exact .bind (Engine.enrollBaseline_leaves (hn rfl)) fun _ => .pure
  case approve => exact .bind (Engine.approve_leaves (hn rfl)) fun _ => .pure
  case revoke => exact .bind (Engine.revokeReport_leaves (hn rfl)) fun _ => .pure
  case setPolicy => exact .bind (Engine.setPolicy_leaves (hn rfl)) fun _ => .pure
  case recordExec => exact .bind (Engine.log_leaves (Area.kind_ne (by decide))) fun _ => Engine.flush_leaves
  case recordDegraded => exact .bind (Engine.log_leaves (Area.kind_ne (by decide))) fun _ => Engine.flush_leaves
  case recordDegradedMany =>
    refine .bind Engine.setSync_leaves fun _ => .bind (.attempt (.fold (fun _ _ _ => ?_) _)) fun _ => ?_
    · exact Engine.log_leaves (Area.kind_ne (by decide))
    · exact .bind Engine.setSync_leaves fun _ => .bind .ofExcept fun _ => Engine.flush_leaves
  case checkpoint => exact Engine.onHost_leaves Host.checkpoint_leaves

namespace Engine

variable {S : Set Area} {h h' : Host} {e : Engine}

theorem degradedNote_leaves {p : ValidPolicy} {detail : String} :
    Does (Host.Leaves S) (Host.append (degradedNote p detail)) :=
  Host.append_leaves (show ∀ a ∈ S, EventKind.degraded ≠ a.kind from Area.kind_ne (by decide))

theorem assemble_leaves {node : NodeInfo} {anchors : TrustAnchors} {policy : ValidPolicy} {revocations : Revocations}
    {log : EventLog} : Does (Host.Leaves S) (assemble node anchors policy revocations log) := by
  refine .bind .ofExcept fun _ => .bind .ofExcept fun _ => .bind .view fun dir => .bind (.bind ?_ fun _ => ?_) fun _ => ?_
  · exact .onlyIf fun _ => degradedNote_leaves
  · exact .onlyIf fun _ => degradedNote_leaves
  refine .bind (.fold (fun _ _ _ => .onlyIf fun _ => ?_) _) fun _ => .bind (.bind .view fun _ => .ite ?_ ?_) fun _ => .pure
  · exact .bind (.attempt degradedNote_leaves) fun _ => .pure
  · exact fun _ => .bind (.bind (.attempt degradedNote_leaves) fun _ => .pure) fun _ =>
      .bind (.attempt Host.saveIndex_leaves) fun _ => .pure
  · exact fun _ => .pure

-- After the repair of the log, opening leaves every authority as it is.
theorem open_leaves (hl : h.ledger = .new) (hx : Engine.open h = (.ok e, h')) :
    ReflTransGen (Host.Leaves S) h.repaired h' := by
  rw [Engine.open, view_bind] at hx
  obtain ⟨node, _, hx⟩ := ofExcept_bind_eq_ok.mp hx
  obtain ⟨anchors, _, hx⟩ := ofExcept_bind_eq_ok.mp hx
  obtain ⟨policy, _, hx⟩ := ofExcept_bind_eq_ok.mp hx
  obtain ⟨list, _, hx⟩ := ofExcept_bind_eq_ok.mp hx
  obtain ⟨_, _, hx⟩ := ofExcept_bind_eq_ok.mp hx
  rw [openLocked] at hx
  obtain ⟨ho, _⟩ | ⟨why, h₁, ho, _⟩ := Host.openLedger_cases hl
  case inl =>
    rw [bind_ok ho] at hx
    exact assemble_leaves.of_ok hx
  case inr =>
    rw [bind_error ho] at hx
    cases hx

end Engine
