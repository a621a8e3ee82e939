import JlrModel.Engine.Theorems.Epoch
import JlrModel.Engine.Theorems.Leaves
import JlrModel.Engine.Theorems.Walk

open Cbor Program Relation

-- The epochs that the ledger records never go back.

namespace History

variable {kind : EventKind} {es es' : List EventDraft} {d : EventDraft} {n : UInt64}

def raise (kind : EventKind) (n : UInt64) (d : EventDraft) : UInt64 :=
  if d.kind = kind then max n ((parseEpoch d.detail).getD 0) else n

theorem le_raise : n ≤ raise kind n d := by
  unfold raise
  split
  case isTrue => exact UInt64.le_max_left _ _
  case isFalse => exact UInt64.le_refl n

theorem floor_concat : floor kind (es ++ [d]) = raise kind (floor kind es) d := by
  rw [floor, List.foldl_append]
  rfl

theorem le_foldl_raise : n ≤ es.foldl (raise kind) n := by
  induction es generalizing n
  case nil => exact UInt64.le_refl n
  case cons d es ih => exact UInt64.le_trans le_raise ih

theorem floor_le_append : floor kind es ≤ floor kind (es ++ es') := by
  rw [floor, floor, List.foldl_append]
  exact le_foldl_raise

theorem floor_concat_of_other (h : d.kind ≠ kind) : floor kind (es ++ [d]) = floor kind es := by
  rw [floor_concat, raise, if_neg h]

theorem floor_eq_zero (h : ∀ d ∈ es, d.kind ≠ kind) : floor kind es = 0 := by
  induction es using List.reverseRecOn
  case nil => rfl
  case append_singleton es d ih =>
    rw [floor_concat_of_other (h d (List.mem_append_right _ (List.mem_singleton_self d)))]
    exact ih fun d hd => h d (List.mem_append_left _ hd)

theorem floor_concat_of_epoch (h : d.kind = kind) (hp : parseEpoch d.detail = some n) :
    floor kind (es ++ [d]) = max (floor kind es) n := by
  rw [floor_concat, raise, if_pos h, hp]
  rfl

-- An event that was recorded counts.
theorem le_floor (hd : d ∈ es) (h : d.kind = kind) (hp : parseEpoch d.detail = some n) : n ≤ floor kind es := by
  have ⟨es₁, es₂, he⟩ := List.append_of_mem hd
  have hs : es = (es₁ ++ [d]) ++ es₂ := by simp [he]
  rw [hs]
  refine UInt64.le_trans ?_ floor_le_append
  rw [floor_concat_of_epoch h hp]
  exact UInt64.le_max_right _ _

end History

variable [Crypto] {w : Setting}

-- An event that is in the log stays there.
theorem System.stable_event {d : EventDraft} (hw : ∀ dir dir', w.tamper dir dir' → Logged dir dir') :
    Stable w (fun dir _ => d ∈ dir.log.events) (fun dir _ _ => d ∈ dir.log.events) where
  tamper dir dir' ht h       := by
    rw [hw dir dir' ht]
    exact h
  tamperOpen dir dir' _ _ ht h := by
    rw [hw dir dir' ht]
    exact h
  note h h' a hd             := by
    cases a
    case quiet q => exact q.events ▸ hd
    case event => exact List.mem_append_left _ hd
    all_goals exact hd
  repair _ h                 := List.mem_append_left _ h
  start _ _ _ h              := List.mem_append_left _ h
  act m m' a h               := by
    obtain hs | ⟨_, d', _, hl | hl⟩ := a.log_cases
    · exact hs.events ▸ h
    · exact hl.events ▸ List.mem_append_left _ h
    · exact hl.events ▸ h
  weaken _ _ h               := h
  close _ _ _ h              := h

-- Nothing has changed that a reader of the directory could see.
def Machine.Rests (m m' : Machine) : Prop :=
  m'.engine = m.engine ∧ m.host.Quiet m'.host

theorem Machine.Rests.of_steps {m m' : Machine} (h : ReflTransGen Rests m m') : Rests m m' := by
  induction h
  case refl => exact ⟨rfl, .refl⟩
  case tail h ih => exact ⟨h.left.trans ih.left, ih.right.trans h.right⟩

namespace Engine

variable {m m' : Machine} {new : Policy}

theorem onHost_rests {x : HostM α} (h : Does Host.Quiet x) : Does Machine.Rests (onHost x) :=
  h.zoom (fun _ => rfl) fun _ _ _ q => ⟨rfl, q⟩

theorem flush_rests : Does Machine.Rests flush := by
  have hs : Does Host.Quiet Host.syncLedger := Host.operate_does (fun _ => .advance) fun _ => .refl
  refine .bind (onHost_rests fun _ => .single Host.syncFs_quiet) fun _ => .bind .view fun _ => ?_
  exact .bind (.onlyIf fun _ => onHost_rests fun _ => .single Host.checkpoint_quiet) fun _ => onHost_rests hs

-- The event that is written when a policy is installed.
def policyDraft (e : Engine) : EventDraft :=
  e.draft .policyLoad none none none [e.policy.digest] .policy (policyDetail e.policy.toPolicy)

-- What has changed when a policy is installed.
structure Installs (new : Policy) (m m' : Machine) : Prop where
  valid  : new.validateReplacing m.engine.policy.toPolicy = .ok ()
  epoch  : m.engine.policy.epoch < new.epoch
  policy : m'.engine.policy.toPolicy = new
  file   : loadPolicy m'.dir m.engine.anchors = .ok m'.engine.policy
  events : m'.dir.log.events = m.dir.log.events ++ [m'.engine.policyDraft]
  left   : m'.dir.log.left = m.dir.log.left
  open'  : m.host.ledger.poisoned = false

theorem log_recorded {kind : EventKind} {old new : Option AdmissionState} {evidence : List Digest} {basis : Basis}
    {detail : String} (h : log kind none old new evidence basis detail m = (.ok (), m')) :
    ∃ d ∈ m'.dir.log.events, d.kind = kind ∧ d.detail = sanitize detail ∧ m'.engine = m.engine := by
  obtain ⟨h₁, _, _, rfl⟩ := logSubject_ok h
  exact ⟨_, List.mem_append_right _ (List.mem_singleton_self _), rfl, rfl, rfl⟩

theorem setPolicy_installs (h : setPolicy new m = (.ok digest, m')) : Installs new m m' := by
  have ⟨e, m₀, hm, h⟩ := bind_eq_ok.mp h
  obtain ⟨he, rfl⟩ : m.engine = e ∧ m = m₀ := by
    cases hm
    exact ⟨rfl, rfl⟩
  let P (x : EngineM Digest) : Prop := x m = (.ok digest, m') → Installs new m m'
  revert h
  change P _
  split
  case h_1 => exact nofun
  case h_2 hv =>
    intro h
    by_cases hc : new.epoch ≤ e.policy.epoch
    · rw [if_pos hc] at h
      cases h
    rw [if_neg hc] at h
    have ⟨key, _, h⟩ := loadPolicyKey_bind_eq_ok.mp h
    have ⟨bytes, hs, h⟩ := ofExcept_bind_eq_ok.mp h
    have ⟨_, m₁, hw, h⟩ := bind_eq_ok.mp h
    rw [update_bind] at h
    have ⟨_, m₂, hl, h⟩ := bind_eq_ok.mp h
    have ⟨_, m₃, hf, h⟩ := bind_eq_ok.mp h
    cases h
    obtain ⟨f, rfl, rfl⟩ := writeAtomic_ok hw
    obtain ⟨h₁, q, ho, rfl⟩ := logSubject_ok hl
    have ⟨heng, q'⟩ := Machine.Rests.of_steps (flush_rests.of_ok hf)
    subst he
    have hd : m'.dir.policy = some f :=
      (q'.dir.same (f := StateDir.policy) fun _ _ => rfl).trans (q.dir.same (f := StateDir.policy) fun _ _ => rfl)
    exact {
      valid  := hv
      epoch  := UInt64.not_le.mp hc
      policy := by rw [heng]; rfl
      file   := by
        rw [heng]
        exact loadPolicy_signed hd (Except.mapError_eq_ok.mp hs)
      events := by
        rw [heng]
        exact q'.events.trans (congrArg (· ++ _) q.events)
      left   := q'.left.trans q.left
      open'  := q.open' ho
    }

theorem parseEpoch_policyDraft {e : Engine} : parseEpoch e.policyDraft.detail = some e.policy.epoch :=
  parseEpoch_policyDetail (of_decide_eq_true e.policy.rules.name).right

theorem Installs.recorded (h : Installs new m m') :
    ∃ d ∈ m'.dir.log.events, d.kind = .policyLoad ∧ parseEpoch d.detail = some new.epoch := by
  refine ⟨m'.engine.policyDraft, ?_, rfl, ?_⟩
  · rw [h.events]
    exact List.mem_append_right _ (List.mem_singleton_self _)
  · rw [parseEpoch_policyDraft, h.policy]

theorem revokeReport_recorded {order : List EpnId → List EpnId} {kind : RevocationKind} {target reason : String}
    {r : RevokeReport} (h : revokeReport order kind target reason m = (.ok r, m')) :
    ∃ d ∈ m'.dir.log.events, d.kind = .revocation ∧ parseEpoch d.detail = some m'.engine.revocations.epoch := by
  have ⟨target, _, h⟩ := ofExcept_bind_eq_ok.mp h
  have ⟨key, _, h⟩ := loadPolicyKey_bind_eq_ok.mp h
  rw [view_bind] at h
  have ⟨bytes, _, h⟩ := ofExcept_bind_eq_ok.mp h
  have ⟨_, m₁, _, h⟩ := bind_eq_ok.mp h
  rw [update_bind] at h
  have ⟨_, m₂, hl, h⟩ := bind_eq_ok.mp h
  have ⟨d, hd, hk, hdetail, heng⟩ := log_recorded hl
  have hs : ReflTransGen (Machine.Leaves {Area.list}) m₂ m' := Does.of_ok (by
    refine .bind .view fun ids => .bind (.fold (fun _ _ _ => revokeOne_leaves) _) fun r => ?_
    exact .bind (.onlyIf fun _ => log_leaves (Area.kind_ne (by decide))) fun _ => .bind flush_leaves fun _ => .pure) h
  refine ⟨d, Machine.Leaves.mem_events hs hd, hk, ?_⟩
  rw [Machine.Leaves.list hs rfl, heng, hdetail]
  exact parseEpoch_listDetail

end Engine

namespace System

-- Whatever is installed in the directory, it is not opened with epochs before those that were recorded. The texts of
-- the events give these epochs exactly.
theorem epochs_never_go_back (known : Set EpnRecord) (signed : Set Bytes) (d : StateDir) (e : Engine) (l : LedgerHandle)
    (o : Oracle) (m : Machine) :
    (∀ new digest, Engine.setPolicy new (machine d e l o) = (.ok digest, m) →
      ∀ s, Reaches ⟨Logged, known, signed, True⟩ (ofMachine m) s → ∀ d' o' e' h', Logged s.dir d' →
        Engine.open (host d' .new o') = (.ok e', h') → new.epoch ≤ e'.policy.epoch) ∧
    (∀ order kind target reason r, Engine.revokeReport order kind target reason (machine d e l o) = (.ok r, m) →
      ∀ s, Reaches ⟨Logged, known, signed, True⟩ (ofMachine m) s → ∀ d' o' e' h', Logged s.dir d' →
        Engine.open (host d' .new o') = (.ok e', h') → m.engine.revocations.epoch ≤ e'.revocations.epoch) ∧
    (∀ p : ValidPolicy, parseEpoch (sanitize (Engine.policyDetail p.toPolicy)) = some p.epoch) ∧
    (∀ (n : UInt64) (kind target reason : String), parseEpoch (sanitize
      ("revocations epoch=" ++ toString n ++ " added " ++ kind ++ " " ++ target ++ ": " ++ reason)) = some n) := by
  have hkept (x : EventDraft) (hx : x ∈ m.dir.log.events) (s : System)
      (hs : Reaches ⟨Logged, known, signed, True⟩ (ofMachine m) s) (d' : StateDir) (hd : Logged s.dir d') :
      x ∈ d'.log.replayed := by
    have i := stable_event (w := ⟨Logged, known, signed, True⟩) (d := x) fun _ _ => id
    have hh := i.reaches hs (.of_open hx)
    rw [hd]
    obtain ⟨dir, _ | ⟨e, l⟩⟩ := s
    · exact List.mem_append_left _ (hh.closed rfl)
    · exact List.mem_append_left _ (hh.opened e l rfl)
  refine ⟨?_, ?_, fun p => parseEpoch_policyDetail (of_decide_eq_true p.rules.name).right, fun _ _ _ _ =>
    parseEpoch_listDetail⟩
  · intro new digest hx s hs d' o' e' h' hd ho
    have ⟨x, hm, hk, hp⟩ := (Engine.setPolicy_installs hx).recorded
    have ⟨hopen, _⟩ := Engine.open_ok rfl ho
    exact UInt64.le_trans (History.le_floor (hkept x hm s hs d' hd) hk hp) hopen.policyFloor
  · intro order kind target reason r hx s hs d' o' e' h' hd ho
    have ⟨x, hm, hk, hp⟩ := Engine.revokeReport_recorded hx
    have ⟨hopen, _⟩ := Engine.open_ok rfl ho
    exact UInt64.le_trans (History.le_floor (hkept x hm s hs d' hd) hk hp) hopen.listFloor

end System
