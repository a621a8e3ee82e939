import JlrModel.Engine.Theorems.Process

-- Which artifacts a program leaves as they are.

open Cbor Program

variable [Crypto]

-- The records in the store are the same, and so are the states of some artifacts.
structure Machine.Spares (S : Set EpnId) (m m' : Machine) : Prop where
  records : m'.dir.objects .epn = m.dir.objects .epn
  states  : ∀ id ∈ S, m'.engine.states.lookup id = m.engine.states.lookup id

namespace Machine.Spares

variable {S S' : Set EpnId} {m m₁ m₂ : Machine}

theorem refl : Spares S m m :=
  ⟨rfl, fun _ _ => rfl⟩

theorem trans (s : Spares S m m₁) (s' : Spares S m₁ m₂) : Spares S m m₂ where
  records       := s'.records.trans s.records
  states id hid := (s'.states id hid).trans (s.states id hid)

theorem mono (s : Spares S m m₁) (h : S' ⊆ S) : Spares S' m m₁ where
  records       := s.records
  states id hid := s.states id (h hid)

theorem of_ok {x : EngineM α} {a : α} (h : Does (Spares S) x) (hx : x m = (.ok a, m₁)) : Spares S m m₁ := by
  have h := h.of_ok hx
  clear hx
  induction h
  case refl => exact .refl
  case tail s ih => exact ih.trans s

end Machine.Spares

theorem StateDir.objects_putFile_of_ne {dir : StateDir} {kind kind' : ObjectKind} {d : Digest} {f : File}
    (h : kind' ≠ kind) : (dir.putFile kind d f).objects kind' = dir.objects kind' :=
  Function.update_of_ne h _ _

theorem Host.Appends.objects {d : EventDraft} {h : Host} {r : Except Halt Unit × Host} (a : Host.Appends d h r) :
    r.2.dir.objects = h.dir.objects := by
  cases a with
  | done q _ => exact q.dir.same (f := StateDir.objects) fun _ _ => rfl
  | failed q => exact q.dir.same (f := StateDir.objects) fun _ _ => rfl
  | lost q _ => exact q.dir.same (f := StateDir.objects) fun _ _ => rfl

-- An object that has the right length, which is all that is looked at before it is written.
def StateDir.Intact (dir : StateDir) (kind : ObjectKind) (data : Bytes) : Prop :=
  ∃ f, dir.objects kind (Digest.of data) = some f ∧ f.data.length = data.length

theorem StateDir.intact_iff {dir : StateDir} {kind : ObjectKind} {data : Bytes} :
    dir.Intact kind data ↔ (dir.objects kind (Digest.of data)).any (·.data.length = data.length) := by
  rw [Option.any_eq_true]
  exact exists_congr fun f => and_congr_right' decide_eq_true_iff.symm

theorem Host.putObject_intact {kind : ObjectKind} {data : Bytes} {d : Digest} {h h' : Host}
    (hx : putObject kind data h = (.ok d, h')) : d = Digest.of data ∧ h'.dir.Intact kind data := by
  rw [putObject, view_bind] at hx
  obtain ⟨_, h₁, hw, hx⟩ := bind_eq_ok.mp hx
  obtain ⟨hd, hh⟩ := Program.pure_eq_ok.mp hx
  refine ⟨hd.symm, hh ▸ ?_⟩
  by_cases hi : (h.dir.objects kind (Digest.of data)).any (·.data.length = data.length)
  case pos =>
    rw [onlyIf, if_neg (not_not.mpr hi)] at hw
    rw [← (Program.pure_eq_ok.mp hw).right]
    exact StateDir.intact_iff.mpr hi
  case neg =>
    rw [onlyIf, if_pos hi] at hw
    obtain ⟨_, _, _, hx⟩ | ⟨f, hf, hx | ⟨_, hx⟩⟩ := writeAtomic_cases data (StateDir.putFile kind (Digest.of data)) h
    · cases hx.symm.trans hw
    · rw [← (Prod.mk.inj (hx.symm.trans hw)).right]
      refine ⟨f, ?_, congrArg _ hf⟩
      change (h.dir.putFile kind (Digest.of data) f).objects kind (Digest.of data) = some f
      simp [StateDir.putFile]
    · cases hx.symm.trans hw

namespace Engine

variable {S : Set EpnId} {m m' : Machine}

theorem storeRecord_intact {r : EpnRecord} {isNew : Bool} (h : storeRecord r m = (.ok isNew, m')) :
    m'.dir.Intact .epn (toCbor r) := by
  rw [storeRecord, view_bind] at h
  have ⟨_, _, hp, h⟩ := bind_eq_ok.mp h
  have ⟨_, hp, hm⟩ := zoom_eq_ok.mp hp
  rw [← (Program.pure_eq_ok.mp h).right, hm]
  exact (Host.putObject_intact hp).right

theorem onHost_spares {x : HostM α} (h : Does (fun h h' : Host => h'.dir.objects .epn = h.dir.objects .epn) x) :
    Does (Machine.Spares S) (onHost x) :=
  h.zoom (fun _ => rfl) fun _ _ _ hr => ⟨hr, fun _ _ => rfl⟩

theorem now_spares : Does (Machine.Spares S) now :=
  onHost_spares (.bind .view fun _ => .bind (.update fun _ => rfl) fun _ => .pure)

theorem setRow_spares {path : String} {row : IndexRow} : Does (Machine.Spares S) (setRow path row) :=
  .update fun _ => ⟨rfl, fun _ _ => rfl⟩

theorem evaluateNow_spares {r : EpnRecord} {ev : List EvidenceItem} {caps : List Capability} :
    Does (Machine.Spares S) (evaluateNow r ev caps) :=
  .bind now_spares fun _ => .view

theorem storeEvidence_spares {items : List EvidenceItem} : Does (Machine.Spares S) (storeEvidence items) := by
  refine onHost_spares (.bind .view fun _ => .bind (.onlyIf fun _ => ?_) fun _ => .pure)
  exact Host.writeAtomic_does (fun _ => rfl) fun _ _ _ => StateDir.objects_putFile_of_ne (by decide)

theorem log_spares {kind : EventKind} {subject : Option EpnId} {old new : Option AdmissionState}
    {evidence : List Digest} {basis : Basis} {detail : String} :
    Does (Machine.Spares S) (log kind subject old new evidence basis detail) := by
  intro m
  have ⟨r, ha, hl⟩ := logSubject_appends kind (subject.map EpnId.display) old new evidence basis detail m
  rw [log, hl]
  exact .single ⟨congrFun ha.objects .epn, fun _ _ => rfl⟩

section

variable {id : EpnId} {decision : Decision} {ev : Digest} {detail : String}

theorem setState_spares {s : AdmissionState} : Does (Machine.Spares (· ≠ id)) (setState id s) :=
  .update fun _ => ⟨rfl, fun _ hid => AList.lookup_insert_ne hid⟩

theorem applySteps_spares {n : Nat} {steps : List AdmissionState} :
    ∀ i cur, Does (Machine.Spares (· ≠ id)) (applySteps id decision ev detail n i cur steps) := by
  induction steps
  case nil => exact fun _ _ => .pure
  case cons step steps ih =>
    exact fun i cur => .bind (.bind log_spares fun _ => setState_spares) fun _ => ih _ _

-- A decision is only about its own artifact.
theorem applyDecision_spares : Does (Machine.Spares (· ≠ id)) (applyDecision id decision ev detail) := by
  refine .bind .view fun prior => .ite (fun _ => .pure) fun _ => ?_
  dsimp only
  cases AdmissionState.route (prior.getD .unknown) decision.state
  case none => exact .halt
  case some => exact .bind (applySteps_spares _ _) fun _ => .pure

end

theorem replacedDecision_spares {r : Option EpnRecord} {s : AdmissionState} {mismatch : EvidenceItem} :
    Does (Machine.Spares S) (replacedDecision r s mismatch) := by
  cases r
  case none => exact .view
  case some => exact evaluateNow_spares

theorem onReplaced_spares {old : EpnId} {path : String} : Does (Machine.Spares (· ≠ old)) (onReplaced old path) := by
  refine .bind .view fun state => ?_
  cases state
  case none => exact .pure
  case some =>
    refine .ite (fun _ => .pure) fun _ => .bind .view fun record => .bind now_spares fun time => ?_
    refine .bind storeEvidence_spares fun ev => .bind log_spares fun _ => .bind replacedDecision_spares fun _ => ?_
    exact .bind applyDecision_spares fun n => .bind .view fun _ => .pure

-- What was at the path before is another artifact.
theorem replaced_spares {path : String} {id : EpnId} : Does (Machine.Spares {id}) (replaced path id) := by
  refine .bind .view fun row => ?_
  cases row.bind fun r => EpnId.parse r.epn
  case none => exact .pure
  case some old =>
    refine .ite (fun ho => onReplaced_spares.mono fun _ _ s => s.mono ?_) fun _ => .pure
    exact Set.singleton_subset_iff.mpr (Ne.symm ho)

theorem settle_spares {seen : Seen} {isNew : Bool} {decision : Decision} :
    Does (Machine.Spares (· ≠ seen.record.id)) (settle seen isNew decision) := by
  refine .bind .view fun state => .bind (.ite (fun _ => storeEvidence_spares) fun _ => .pure) fun ev => ?_
  exact .bind (.onlyIf fun _ => log_spares) fun _ => applyDecision_spares

-- The record is in the store from `m₂` on, as far as its length tells, and only evidence is stored after it.
theorem Passes.intact {seen : Seen} {requested : List Capability} {p : Processed} {m₁ m₂ m₃ m₄ : Machine}
    (h : Passes seen requested m p m' m₁ m₂ m₃ m₄) : m'.dir.Intact .epn (toCbor seen.record) := by
  have ⟨_, hs⟩ := h.stored
  have ⟨_, _, hd⟩ := h.settled
  have s : m₂.Spares (· ≠ seen.record.id) m' := .trans
    (.trans (.of_ok evaluateNow_spares h.evaluated) (.of_ok settle_spares hd))
    (.trans (.of_ok now_spares rfl) (.of_ok setRow_spares h.entered))
  rw [StateDir.Intact, s.records]
  exact storeRecord_intact hs

theorem process_intact {seen : Seen} {requested : List Capability} {p : Processed}
    (h : process seen requested m = (.ok p, m')) : m'.dir.Intact .epn (toCbor seen.record) :=
  have ⟨_, _, _, _, h⟩ := process_passes h
  h.intact

end Engine
