import JlrModel.Engine.Theorems.Installation

open Cbor Program Relation

-- The policy of an engine and the epochs that the ledger has recorded for it.

section

variable [Crypto] {w : Setting}

-- What an opened engine starts with, and what neither others nor its own calls change.
structure System.Kept (w : Setting) (O : StateDir → Engine → Bool → Prop) : Prop where
  tamper : ∀ d d' e p, w.tamper d d' → O d e p → O d' e p
  opens  : ∀ d o e h, Engine.open (host d .new o) = (.ok e, h) → O h.dir e h.ledger.poisoned
  calls  : ∀ (c : Call) (m : Machine), O m.dir m.engine m.host.ledger.poisoned →
    O (c.run m).2.dir (c.run m).2.engine (c.run m).2.host.ledger.poisoned

namespace System.Kept

variable {O : StateDir → Engine → Bool → Prop} {s s' : System} {d₀ : StateDir}

theorem step (k : Kept w O) (h : Step w s s') (hs : s.Holds (fun _ _ => True) O) : s'.Holds (fun _ _ => True) O := by
  have called {c : Call} {d : StateDir} {e : Engine} {l : LedgerHandle} {o : Oracle} {r : Except Halt Unit} {m : Machine}
      (hx : c.run (machine d e l o) = (r, m)) (ho : O d e l.poisoned) : O m.dir m.engine m.host.ledger.poisoned := by
    have hk := k.calls c (machine d e l o) ho
    rw [hx] at hk
    exact hk
  cases h with
  | tamper ht => exact ⟨fun _ => trivial, fun e l he => k.tamper _ _ _ _ ht (hs.opened e l he)⟩
  | «open» hx => exact .of_open (k.opens _ _ _ _ hx)
  | refuse | stopped | close => exact .of_closed trivial
  | call _ hx => exact .of_open (called hx (hs.opened _ _ rfl))
  | failed _ _ hx => exact .of_open (called hx (hs.opened _ _ rfl))

theorem reaches (k : Kept w O) (h : Reaches w ⟨d₀, none⟩ s) : s.Holds (fun _ _ => True) O := by
  induction h
  case refl => exact .of_closed trivial
  case tail h ih => exact k.step h ih

end System.Kept

namespace Engine

-- The ledger has not recorded a policy that is newer than that of the engine.
structure Floored (d : StateDir) (e : Engine) (poisoned : Bool) : Prop where
  anchors : d.anchors = .ok e.anchors
  left    : poisoned = false → d.log.left = none
  floor   : History.floor .policyLoad d.log.replayed ≤ e.policy.epoch

-- The policy of the engine is the one that its directory has, and the one that the ledger has recorded.
structure InForce (d : StateDir) (e : Engine) : Prop where
  file  : loadPolicy d e.anchors = .ok e.policy
  floor : History.floor .policyLoad d.log.replayed = e.policy.epoch

end Engine

namespace Machine

def Floored (m : Machine) : Prop :=
  Engine.Floored m.dir m.engine m.host.ledger.poisoned

def KeepsFloor (m m' : Machine) : Prop :=
  m.Floored → m'.Floored

variable {m m' : Machine}

theorem Floored.extends {P : EventDraft → Prop} (hf : m.Floored) (ha : m'.dir.anchors = m.dir.anchors)
    (he : m'.engine.anchors = m.engine.anchors) (hp : m'.engine.policy = m.engine.policy)
    (hx : m.host.Extends P m'.host) (hd : ∀ d, P d → ∀ es, History.floor .policyLoad es ≤ m.engine.policy.epoch →
      History.floor .policyLoad (es ++ [d]) ≤ m.engine.policy.epoch) : m'.Floored where
  anchors := by rw [ha, he, hf.anchors]
  left    := hx.left hf.left
  floor   := by
    rw [hp]
    obtain hr | ⟨d, hpd, hr⟩ := hx.replayed hf.left
    · exact (congrArg (History.floor _) hr).trans_le hf.floor
    · exact (congrArg (History.floor _) hr).trans_le (hd d hpd _ hf.floor)

theorem Leaves.floored (h : Machine.Leaves {Area.policy} m m') (hf : m.Floored) : m'.Floored := by
  refine hf.extends h.host.fixed.anchors h.anchors (h.known .policy rfl) h.host.log fun d hd es hes => ?_
  have hk : d.kind ≠ .policyLoad := hd .policy rfl
  rw [History.floor_concat_of_other hk]
  exact hes

theorem Leaves.inForce (h : Machine.Leaves {Area.policy} m m') (hf : m.Floored) (hs : Engine.InForce m.dir m.engine) :
    Engine.InForce m'.dir m'.engine where
  file  := by
    have hd : m'.dir.policy = m.dir.policy := h.host.files .policy rfl
    have hp : m'.engine.policy = m.engine.policy := h.known .policy rfl
    rw [h.anchors, hp, ← hs.file, Engine.loadPolicy, Engine.loadPolicy, hd]
  floor := by
    have hp : m'.engine.policy = m.engine.policy := h.known .policy rfl
    rw [hp, ← hs.floor]
    obtain hr | ⟨d, hd, hr⟩ := h.host.log.replayed hf.left
    · exact congrArg (History.floor _) hr
    · have hk : d.kind ≠ .policyLoad := hd .policy rfl
      exact (congrArg (History.floor _) hr).trans (History.floor_concat_of_other hk)

end Machine

namespace Engine

variable {m m' : Machine} {new : Policy}

-- Recording the policy of the engine does not go beyond it, even if the event does not get to the ledger.
theorem log_floored (hf : m.Floored) :
    Machine.Floored (log .policyLoad none none none [m.engine.policy.digest] .policy
      (policyDetail m.engine.policy.toPolicy) m).2 := by
  have hk : m.engine.policyDraft.kind = .policyLoad := rfl
  have hd (d : EventDraft) (he : m.engine.policyDraft = d) (es : List EventDraft)
      (hes : History.floor .policyLoad es ≤ m.engine.policy.epoch) :
      History.floor .policyLoad (es ++ [d]) ≤ m.engine.policy.epoch := by
    rw [← he, History.floor_concat_of_epoch hk parseEpoch_policyDraft]
    exact UInt64.max_le hes (UInt64.le_refl _)
  have hq {h} (q : m.host.Quiet h) : (m.setHost h).Floored :=
    Machine.Leaves.floored ⟨.of_quiet q, rfl, rfl, fun a _ => a.sameKnown_refl⟩ hf
  have ⟨r, ha, hl⟩ := logSubject_appends .policyLoad none none none [m.engine.policy.digest] .policy
    (policyDetail m.engine.policy.toPolicy) m
  rw [log]
  change Machine.Floored (logSubject _ _ _ _ _ _ _ m).2
  rw [Option.map_none, hl]
  cases ha
  case failed q => exact hq q
  case done h₁ q hp => exact (hq q).extends rfl rfl rfl (.event rfl hp rfl rfl) hd
  case lost h₁ _ q hp => exact (hq q).extends rfl rfl rfl (.lost rfl hp rfl rfl rfl) hd

theorem writePolicy_keepsFloor {bytes : Bytes} :
    Does Machine.KeepsFloor (onHost (Host.writeAtomic bytes fun f dir => { dir with policy := some f })) := by
  let A (h h' : Host) : Prop := h'.dir.anchors = h.dir.anchors ∧ h.Extends (fun _ => False) h'
  have hw : Does A (Host.writeAtomic bytes fun f dir => { dir with policy := some f }) :=
    Host.writeAtomic_does (fun _ => ⟨rfl, .same rfl rfl id⟩) fun _ _ _ => ⟨rfl, .same rfl rfl id⟩
  exact hw.zoom (fun _ => rfl) fun _ _ _ ha hf => hf.extends ha.left rfl rfl ha.right fun _ => False.elim

-- Whatever its outcome, the policy of the engine is newer as soon as the ledger may have recorded the new one.
theorem setPolicy_keepsFloor : Does Machine.KeepsFloor (setPolicy new) := by
  refine fun m => Does.view_at fun e he => ?_
  subst he
  let P (x : EngineM Digest) : Prop := ReflTransGen Machine.KeepsFloor m (x m).2
  change P _
  split
  case h_1 => exact ReflTransGen.refl
  case h_2 hv =>
    split
    case isTrue => exact ReflTransGen.refl
    case isFalse hc =>
      refine Does.bind_at (Does.mono_at (loadPolicyKey_leaves m) fun _ _ => Machine.Leaves.floored) fun key m₁ hk => ?_
      obtain ⟨_, rfl⟩ := loadPolicyKey_eq_ok.mp hk
      refine Does.ofExcept_at fun bytes _ => Does.bind_at (writePolicy_keepsFloor _) fun _ m₂ hw => ?_
      obtain ⟨f, rfl, rfl⟩ := writeAtomic_ok hw
      refine Does.bind_at (.single fun hf => ?_) fun _ m₃ hu => ?_
      · exact ⟨hf.anchors, hf.left, UInt64.le_trans hf.floor (UInt64.le_of_lt (UInt64.not_le.mp hc))⟩
      · cases hu
        refine Does.bind_at (.single log_floored) fun _ m₄ _ => ?_
        exact Does.mono_at (Does.bind flush_leaves (fun _ => .pure) m₄) fun _ _ => Machine.Leaves.floored

-- A policy that was installed is the one that the directory and the ledger have.
theorem Installs.inForce (h : Installs new m m') (hf : m.Floored) (ha : m'.engine.anchors = m.engine.anchors) :
    InForce m'.dir m'.engine where
  file  := ha ▸ h.file
  floor := by
    have hk : m'.engine.policyDraft.kind = .policyLoad := rfl
    have hr : m'.dir.log.replayed = m.dir.log.replayed ++ [m'.engine.policyDraft] := by
      rw [EventLog.replayed, EventLog.replayed, h.events, h.left, hf.left h.open', Option.toList_none, List.append_nil,
        List.append_nil]
    rw [hr, History.floor_concat_of_epoch hk parseEpoch_policyDraft]
    have hn : m.engine.policy.epoch < m'.engine.policy.epoch := h.policy ▸ h.epoch
    refine UInt64.le_antisymm (UInt64.max_le ?_ (UInt64.le_refl _)) (UInt64.le_max_right _ _)
    exact UInt64.le_trans hf.floor (UInt64.le_of_lt hn)

theorem open_floored {d : StateDir} {o : Oracle} {e : Engine} {h : Host}
    (hx : Engine.open (System.host d .new o) = (.ok e, h)) : Floored h.dir e h.ledger.poisoned := by
  have ⟨ho, _⟩ := open_ok rfl hx
  have hs : ReflTransGen (Host.Leaves {Area.policy}) (System.host d .new o).repaired h := open_leaves rfl hx
  have hs : ReflTransGen (Machine.Leaves {Area.policy}) (Machine.mk (System.host d .new o).repaired e) (Machine.mk h e) :=
    hs.lift (Machine.mk · e) fun _ _ hl => ⟨hl, rfl, rfl, fun a _ => a.sameKnown_refl⟩
  have hf : Machine.Floored ⟨(System.host d .new o).repaired, e⟩ := by
    refine ⟨ho.anchors, fun _ => rfl, ?_⟩
    change History.floor .policyLoad (d.log.replayed ++ []) ≤ e.policy.epoch
    rw [List.append_nil]
    exact ho.policyFloor
  exact Does.kept (P := Machine.Floored) hs (fun _ _ => Machine.Leaves.floored) hf

end Engine

namespace Call

variable {m m' : Machine} {c : Call}

omit [Crypto] in
theorem eq_setPolicy (h : c.area = some .policy) : ∃ new, c = .setPolicy new := by
  cases c <;> cases h
  exact ⟨_, rfl⟩

theorem run_keepsFloor : Does Machine.KeepsFloor c.run := by
  by_cases hc : c.area = some .policy
  case pos =>
    obtain ⟨new, rfl⟩ := eq_setPolicy hc
    exact .bind Engine.setPolicy_keepsFloor fun _ => .pure
  case neg => exact (run_leaves fun a ha => ha ▸ hc).mono fun _ _ => Machine.Leaves.floored

theorem run_floored (hf : m.Floored) : (c.run m).2.Floored :=
  Does.kept (run_keepsFloor m) (fun _ _ h => h) hf

theorem run_ok_floored (h : c.run m = (.ok (), m')) (hf : m.Floored) : m'.Floored := by
  have hf := run_floored (c := c) hf
  rw [h] at hf
  exact hf

theorem setPolicy_ok {new : Policy} (h : (setPolicy new).run m = (.ok (), m')) :
    ∃ digest, Engine.setPolicy new m = (.ok digest, m') := by
  obtain ⟨digest, m₁, hx, h⟩ := bind_eq_ok.mp h
  cases h
  exact ⟨digest, hx⟩

-- A call is about something else, or it installs a policy.
theorem run_policy (h : c.run m = (.ok (), m')) (hf : m.Floored) :
    (∀ new, c ≠ .setPolicy new) ∧ m'.engine.policy = m.engine.policy ∧
      (Engine.InForce m.dir m.engine → Engine.InForce m'.dir m'.engine) ∨
    ∃ new, c = .setPolicy new ∧ Engine.Installs new m m' ∧ Engine.InForce m'.dir m'.engine := by
  by_cases hc : c.area = some .policy
  case pos =>
    obtain ⟨new, rfl⟩ := eq_setPolicy hc
    have ha : ReflTransGen (Machine.Leaves ∅) m m' := (run_leaves fun a ha => ha.elim).of_ok h
    have ⟨_, hx⟩ := setPolicy_ok h
    have hi := Engine.setPolicy_installs hx
    exact .inr ⟨new, rfl, hi, hi.inForce hf (Machine.Leaves.anchors_eq ha)⟩
  case neg =>
    have hs : ReflTransGen (Machine.Leaves {Area.policy}) m m' := (run_leaves fun a ha => ha ▸ hc).of_ok h
    refine .inl ⟨fun new he => hc (he ▸ rfl), Machine.Leaves.policy hs rfl, fun h => ?_⟩
    have hk : m'.Floored ∧ Engine.InForce m'.dir m'.engine :=
      Does.kept (P := fun m => m.Floored ∧ Engine.InForce m.dir m.engine) hs
        (fun _ _ hl h => ⟨hl.floored h.left, hl.inForce h.left h.right⟩) ⟨hf, h⟩
    exact hk.right

end Call

-- Nobody but the engine writes to the log, and nobody replaces the trusted keys.
theorem System.kept_floored (hw : ∀ d d', w.tamper d d' → Logged d d' ∧ d'.anchors = d.anchors) :
    Kept w Engine.Floored where
  tamper d d' e p ht hf := by
    have ⟨hl, ha⟩ := hw d d' ht
    exact ⟨ha ▸ hf.anchors, hl ▸ hf.left, hl ▸ hf.floor⟩
  opens d o e h hx      := Engine.open_floored hx
  calls c m hf          := Call.run_floored hf

namespace Engine

variable {m m' : Machine} {p₀ : Policy} {calls : List Call}

-- What calls that succeed have made of a policy.
structure Chain (p₀ : Policy) (calls : List Call) (m m' : Machine) : Prop where
  floored   : m'.Floored
  named     : p₀.Named m'.engine.policy.toPolicy
  installed : ∀ new, .setPolicy new ∈ calls → new.validateLoaded = .ok () ∧ p₀.Named new
  inForce   : (InForce m.dir m.engine ∨ ∃ new, .setPolicy new ∈ calls) → InForce m'.dir m'.engine

theorem chain (hf : m.Floored) (hn : p₀.Named m.engine.policy.toPolicy)
    (h : fold (fun _ => Call.run) () calls m = (.ok (), m')) : Chain p₀ calls m m' := by
  induction calls generalizing m
  case nil =>
    cases h
    exact ⟨hf, hn, fun _ hm => absurd hm List.not_mem_nil, fun h => h.elim id fun ⟨_, hm⟩ => absurd hm List.not_mem_nil⟩
  case cons c calls ih =>
    have ⟨_, m₁, hc, hx⟩ := bind_eq_ok.mp h
    have hf' := Call.run_ok_floored hc hf
    obtain ⟨ho, hp, hs⟩ | ⟨new, rfl, hi, hs⟩ := Call.run_policy hc hf
    · have k := ih hf' (hp ▸ hn) hx
      refine ⟨k.floored, k.named, fun new hm => k.installed new ?_, fun h => k.inForce ?_⟩
      · exact (List.mem_cons.mp hm).resolve_left fun he => ho new he.symm
      · refine h.imp hs fun ⟨new, hm⟩ => ⟨new, ?_⟩
        exact (List.mem_cons.mp hm).resolve_left fun he => ho new he.symm
    · have hn' : p₀.Named new := hn.trans (.of_replacing hi.valid)
      have k := ih hf' (hi.policy ▸ hn') hx
      refine ⟨k.floored, k.named, fun new' hm => ?_, fun _ => k.inForce (.inl hs)⟩
      cases List.mem_cons.mp hm
      case inl he =>
        cases he
        exact ⟨Policy.validateLoaded_of_replacing hi.valid, hn'⟩
      case inr hm => exact k.installed new' hm

end Engine

namespace System

-- An engine whose policy was replaced, however often, can be opened again with the policy that it has. No other names
-- have come in than plain ones.
theorem replaced_policies_load_again (known : Set EpnRecord) (signed : Set Bytes) (d₀ d : StateDir) (e : Engine)
    (l : LedgerHandle) (o : Oracle) (calls : List Call) (m : Machine)
    (hr : Reaches ⟨fun d d' => Logged d d' ∧ d'.anchors = d.anchors, known, signed, True⟩ ⟨d₀, none⟩ ⟨d, some (e, l)⟩)
    (h : fold (fun _ => Call.run) () calls (machine d e l o) = (.ok (), m)) :
    (∀ new, .setPolicy new ∈ calls → new.validateLoaded = .ok () ∧ e.policy.toPolicy.Named new) ∧
    History.floor .policyLoad m.dir.log.replayed ≤ m.engine.policy.epoch ∧
    ((∃ new, .setPolicy new ∈ calls) →
      m.engine.policy.epoch = History.floor .policyLoad m.dir.log.replayed ∧
      m.dir.anchors = .ok m.engine.anchors ∧
      Engine.loadPolicy m.dir m.engine.anchors = .ok m.engine.policy ∧
      Engine.checkFloor "policy" m.engine.policy.epoch (History.floor .policyLoad m.dir.log.replayed) = .ok () ∧
      ∀ o' e' h', Engine.open (host m.dir .new o') = (.ok e', h') → e'.policy = m.engine.policy) := by
  have k := kept_floored (w := ⟨fun d d' => Logged d d' ∧ d'.anchors = d.anchors, known, signed, True⟩) fun _ _ ht => ht
  have hf : (machine d e l o).Floored := (k.reaches hr).opened e l rfl
  have c := Engine.chain hf .refl h
  refine ⟨c.installed, c.floored.floor, fun hs => ?_⟩
  have hs := c.inForce (.inr hs)
  refine ⟨hs.floor.symm, c.floored.anchors, hs.file, Except.ensure_eq_ok.mpr c.floored.floor, fun o' e' h' ho => ?_⟩
  have ⟨ho, _⟩ := Engine.open_ok rfl ho
  have ha : e'.anchors = m.engine.anchors := Except.ok.inj (ho.anchors.symm.trans c.floored.anchors)
  exact Except.ok.inj (ho.policy.symm.trans (ha ▸ hs.file))

end System

end

-- An installation whose policy is replaced by the same one with a newer epoch.
namespace Installed.Renewed

def digests : List (Bytes × Bytes.Fixed 32) := [
  (toCbor (Policy.workstation 2), Bytes.fixed 32 0x5f8952bb05bc739e68b5f5fda0ecbec88e8e192b7a591780dc233ff8fc9905d9)
]

def signatures : List (Bytes × Bytes.Fixed 64) := [
  (Envelope.message RecordType.POLICY "*" ⟨policyId⟩ (toCbor (Policy.workstation 2)), Bytes.fixed 64
    0xe6e03a0a8e225663549e20cc25d575a18b8d4e37ad09097827973d77deca9c8a7b68cf8edf253ac27607d1be4620882fa31d5b5b53da59b80b6503579b82880b)
]

abbrev crypto : Crypto :=
  Installed.crypto digests signatures

attribute [local instance] crypto

theorem renewed_ok : ((started system).bind (called (.setPolicy (Policy.workstation 2)))).isSome := by
  rw [started_system (verify_policy _ _)]
  decide +kernel

theorem replaced_policies_load_again_renewed : ∃ d e l m,
    System.Reaches ⟨fun d d' => System.Logged d d' ∧ d'.anchors = d.anchors, ∅, ∅, True⟩ ⟨system.dir, none⟩
      ⟨d, some (e, l)⟩ ∧
    fold (fun _ => Call.run) () [.setPolicy (Policy.workstation 2)] (System.machine d e l (steady 0)) = (.ok (), m) ∧
    m.engine.policy.epoch = History.floor .policyLoad m.dir.log.replayed := by
  have ⟨_, h⟩ := Option.isSome_iff_exists.mp renewed_ok
  have ⟨⟨d, _⟩, hs, hc⟩ := Option.bind_eq_some_iff.mp h
  obtain ⟨e, l, m, rfl, hx, _⟩ := run_called hc
  have hr := ReflTransGen.single <| step_started
    (w := ⟨fun d d' => System.Logged d d' ∧ d'.anchors = d.anchors, ∅, ∅, True⟩) hs
  have hf := fold_singleton (g := fun _ => Call.run) (b := ()) hx
  have k := System.replaced_policies_load_again ∅ ∅ system.dir d e l (steady 0) _ m hr hf
  exact ⟨d, e, l, m, hr, hf, (k.right.right ⟨_, List.mem_singleton_self _⟩).left⟩

end Installed.Renewed
