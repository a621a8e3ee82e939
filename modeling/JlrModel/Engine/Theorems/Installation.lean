import JlrModel.Engine.Theorems.Floor
import JlrModel.Policy.Theorems.Validate

-- What was set up can be opened, and comes to an engine without any grants.

open Cbor Program

section

variable [Crypto] {h h' : Host}

namespace Host

theorem fold_append_dir {f : α → EventDraft} {as : List α}
    (hx : fold (fun _ a => append (f a)) () as h = (.ok (), h')) :
    h'.dir = { h.dir with log := { h.dir.log with events := h.dir.log.events ++ as.map f } } := by
  induction as generalizing h
  case nil =>
    cases hx
    rw [List.map_nil, List.append_nil]
  case cons a as ih =>
    have ⟨_, h₁, ha, hx⟩ := bind_eq_ok.mp hx
    rw [ih hx, record_eq_ok ha, List.map_cons, List.append_cons]
    rfl

theorem createLedger_dir {node : String} (hx : createLedger node h = (.ok (), h')) :
    h'.dir = { h.dir with log := { h.dir.log with events := h.dir.log.events ++ [Ledger.genesis node] } } := by
  rw [createLedger, view_bind, view_bind] at hx
  split_ifs at hx
  case pos => cases hx
  case pos => cases hx
  case neg =>
    rw [update_bind] at hx
    rw [record_eq_ok hx]
    rfl

end Host

namespace Engine

variable {kind : PolicyKind} {time : UInt64} {seeds : Seeds} {root : String}

namespace Seeds

def deviceKey (seeds : Seeds) : SigningKeypair where
  seed := seeds.device
  role := .device

def policyKey (seeds : Seeds) : SigningKeypair where
  seed := seeds.policy
  role := .policy

def anchors (seeds : Seeds) : TrustAnchors :=
  (TrustAnchors.new.insert seeds.deviceKey.pub).insert seeds.policyKey.pub

def nodeInfo (seeds : Seeds) (time : UInt64) : NodeInfo where
  nodeId    := "node-" ++ Text.hex seeds.node.val
  createdAt := time
  mode      := "companion"

end Seeds

def policyEvent (kind : PolicyKind) : EventDraft :=
  { setupNote .policyLoad (policyDetail kind.policy) with policy := kind.policy.digest }

-- The first events of a ledger.
def setupEvents (kind : PolicyKind) (time : UInt64) (seeds : Seeds) : List EventDraft :=
  Ledger.genesis (seeds.nodeInfo time).nodeId ::
    (seeds.anchors.keys.map Prod.snd).map (fun k => setupNote .keyEvent (keyDetail k)) ++ [policyEvent kind]

-- What the setup leaves behind.
structure SetUp (kind : PolicyKind) (time : UInt64) (seeds : Seeds) (dir : StateDir) : Prop where
  node        : ∃ f : File, f.data = toCbor (seeds.nodeInfo time) ∧ dir.node = some f
  anchors     : dir.anchors = .ok seeds.anchors
  deviceKey   : dir.deviceKey = .ok seeds.deviceKey
  policy      : ∃ f : File, f.data = Envelope.sign RecordType.POLICY "*" (toCbor kind.policy) seeds.policyKey ∧
    dir.policy = some f
  revocations : ∃ f : File, f.data = Envelope.sign RecordType.REVOCATIONS "*" (toCbor Revocations.empty) seeds.policyKey ∧
    dir.revocations = some f
  grants      : ∀ kind, dir.grants kind = []
  unreadable  : ∀ kind, dir.unreadable kind = []
  index       : dir.index = none
  log         : ∃ covered, dir.log = ⟨setupEvents kind time seeds, none, 0, 0, covered⟩

theorem init_ok {o : Oracle} {node : NodeInfo}
    (hx : init kind time seeds (System.host (.empty root) .new o) = (.ok node, h')) : SetUp kind time seeds h'.dir := by
  have hnew : ¬ (System.host (.empty root) .new o).dir.node.isSome := nofun
  rw [init, view_bind, if_neg hnew] at hx
  obtain ⟨_, _, hd, hx⟩ := bind_eq_ok.mp hx
  obtain ⟨_, _, hp, hx⟩ := bind_eq_ok.mp hx
  obtain ⟨_, _, ha, hx⟩ := bind_eq_ok.mp hx
  obtain ⟨_, _, hx⟩ := ofExcept_bind_eq_ok.mp hx
  obtain ⟨_, _, hw, hx⟩ := bind_eq_ok.mp hx
  obtain ⟨_, _, hr, hx⟩ := bind_eq_ok.mp hx
  obtain ⟨_, h₆, hc, hx⟩ := bind_eq_ok.mp hx
  obtain ⟨_, h₇, hk, hx⟩ := bind_eq_ok.mp hx
  obtain ⟨_, h₈, hl, hx⟩ := bind_eq_ok.mp hx
  obtain ⟨_, h₉, hs, hx⟩ := bind_eq_ok.mp hx
  obtain ⟨_, h₁₀, hn, hx⟩ := bind_eq_ok.mp hx
  cases hx
  obtain rfl := Host.operate_eq_ok hd
  obtain rfl := Host.operate_eq_ok hp
  obtain rfl := Host.operate_eq_ok ha
  obtain ⟨fp, hfp, rfl⟩ := Host.writeAtomic_eq_ok hw
  obtain ⟨fr, hfr, rfl⟩ := Host.writeAtomic_eq_ok hr
  obtain ⟨fn, hfn, rfl⟩ := Host.writeAtomic_eq_ok hn
  have hdir := Host.fold_append_dir hk
  rw [Host.createLedger_dir hc] at hdir
  obtain rfl := Host.record_eq_ok hl
  obtain rfl := Host.record_eq_ok hs
  obtain ⟨h₇dir, _, _, _, _⟩ := h₇
  cases hdir
  exact {
    node        := ⟨fn, hfn, rfl⟩
    anchors     := rfl
    deviceKey   := rfl
    policy      := ⟨fp, hfp, rfl⟩
    revocations := ⟨fr, hfr, rfl⟩
    grants      := fun _ => rfl
    unreadable  := fun _ => rfl
    index       := rfl
    log         := ⟨_, rfl⟩
  }

theorem signChecked_eq_ok {recordType : String} {payload : Bytes} {key : SigningKeypair} {anchors : TrustAnchors}
    (ha : anchors.get key.pub.id = some key.pub) (hr : key.role ∈ RecordType.allowedSigners recordType)
    (hv : ∀ message, verifySignature key.pub message (key.sign message) = .ok ())
    (hl : (Envelope.sign recordType "*" payload key).length < 2 ^ 63) :
    signChecked recordType payload key anchors = .ok (Envelope.sign recordType "*" payload key) := by
  have ⟨_, hs⟩ := Envelope.verify_sign ha hr (hv _) (hl.trans (by decide))
  exact Except.bind_eq_ok.mpr ⟨_, Except.mapError_eq_ok.mpr hs, rfl⟩

omit [Crypto] in
theorem policy_valid : kind.policy.validateLoaded = .ok () := by
  cases kind <;> exact Policy.validateLoaded_of_validate (by decide +kernel)

-- The engine of an installation that nothing has been done with.
def Seeds.engine (seeds : Seeds) (kind : PolicyKind) (time : UInt64) : Engine where
  node        := seeds.nodeInfo time
  anchors     := seeds.anchors
  policy      := ⟨kind.policy, policy_valid⟩
  revocations := .empty
  baselines   := []
  approvals   := ∅
  states      := ∅
  index       := []

namespace SetUp

theorem setupEvents_note {d : EventDraft} (hd : d ∈ setupEvents kind time seeds) :
    d.Note ∧ d.kind ≠ .revocation := by
  cases List.mem_append.mp hd
  case inl hd =>
    cases List.mem_cons.mp hd
    case inl hd => exact hd ▸ ⟨⟨rfl, nofun, nofun⟩, nofun⟩
    case inr hd =>
      have ⟨_, _, hd⟩ := List.mem_map.mp hd
      exact hd ▸ ⟨⟨rfl, nofun, nofun⟩, nofun⟩
  case inr hd => exact List.mem_singleton.mp hd ▸ ⟨⟨rfl, nofun, nofun⟩, nofun⟩

theorem floor_policyLoad : History.floor .policyLoad (setupEvents kind time seeds) = kind.policy.epoch := by
  have hp : parseEpoch (policyEvent kind).detail = some kind.policy.epoch :=
    parseEpoch_of_digest Digest.space_not_mem_display
  have hk : (policyEvent kind).kind = .policyLoad := rfl
  rw [setupEvents, History.floor_concat_of_epoch hk hp, History.floor_eq_zero]
  · cases kind <;> rfl
  · intro d hd
    cases List.mem_cons.mp hd
    case inl hd => exact hd ▸ nofun
    case inr hd =>
      have ⟨_, _, hd⟩ := List.mem_map.mp hd
      exact hd ▸ nofun

theorem states_setupEvents : History.states (setupEvents kind time seeds) = ∅ := by
  rw [← List.nil_append (setupEvents kind time seeds), History.states_notes fun _ hd => (setupEvents_note hd).left]
  rfl

theorem assemble_eq (s : SetUp kind time seeds h.dir) :
    assemble (seeds.nodeInfo time) seeds.anchors (seeds.engine kind time).policy .empty h.dir.log h.repaired =
    (.ok (seeds.engine kind time), h.repaired) := by
  have ⟨covered, hlog⟩ := s.log
  have hev : h.dir.log.replayed = setupEvents kind time seeds := by
    rw [hlog]
    exact List.append_nil _
  refine ofExcept_bind_eq_ok.mpr ⟨(), Except.mapError_eq_ok.mpr (Except.ensure_eq_ok.mpr ?_), ?_⟩
  · rw [hev, floor_policyLoad]
    exact UInt64.le_refl _
  refine ofExcept_bind_eq_ok.mpr ⟨(), Except.mapError_eq_ok.mpr (Except.ensure_eq_ok.mpr ?_), ?_⟩
  · rw [hev, History.floor_eq_zero fun _ hd => (setupEvents_note hd).right]
    exact UInt64.zero_le
  have hg {α : Type} (load : Bytes → Except String α) (k : GrantKind) : loadGrants load h.repaired.dir k = [] := by
    have hu : h.repaired.dir.unreadable k = [] := s.unreadable k
    have hk : h.repaired.dir.grants k = [] := s.grants k
    rw [loadGrants, hu, hk]
    rfl
  have ht : noteTorn (seeds.engine kind time).policy h.dir.log h.repaired = (.ok (), h.repaired) := by
    rw [hlog]
    rfl
  have hi : openIndex (seeds.engine kind time).policy h.dir.log.replayed ∅ h.repaired = (.ok [], h.repaired) := by
    have hi : h.repaired.dir.loadIndex = (⟨[]⟩, true) := by
      rw [StateDir.loadIndex, show h.repaired.dir.index = none from s.index]
      rfl
    rw [openIndex, view_bind, hi]
    rfl
  rw [view_bind, hg, hg, bind_ok ht]
  refine (bind_ok rfl).trans ?_
  rw [hev, states_setupEvents, ← hev, bind_ok hi]
  rfl

theorem open_eq (s : SetUp kind time seeds h.dir)
    (hv : ∀ message, verifySignature seeds.policyKey.pub message (seeds.policyKey.sign message) = .ok ())
    (hl : h.ledger = .new) (hu : h.locked = false) (hf : ∀ i, h.oracle.fate i = .done) :
    Engine.open h = (.ok (seeds.engine kind time), h.repaired) := by
  have ⟨fn, hfn, hn⟩ := s.node
  have ⟨fp, hfp, hp⟩ := s.policy
  have ⟨fr, hfr, hr⟩ := s.revocations
  have ⟨covered, hlog⟩ := s.log
  have ha : seeds.anchors.get seeds.policyKey.pub.id = some seeds.policyKey.pub := TrustAnchors.get_insert_self
  have hrole {recordType : String} (hr : Role.policy ∈ RecordType.allowedSigners recordType) :
      seeds.policyKey.role ∈ RecordType.allowedSigners recordType := hr
  have hpol : loadPolicy h.dir seeds.anchors = .ok (seeds.engine kind time).policy := by
    have hs : signChecked RecordType.POLICY (toCbor kind.policy) seeds.policyKey seeds.anchors = .ok fp.data := by
      rw [hfp]
      exact signChecked_eq_ok ha (hrole (by decide)) hv (hfp ▸ fp.size_lt)
    exact loadPolicy_signed hp hs
  have hrev : loadRevocations h.dir seeds.anchors = .ok .empty := by
    have hs : signChecked RecordType.REVOCATIONS (toCbor Revocations.empty) seeds.policyKey seeds.anchors =
        .ok fr.data := by
      rw [hfr]
      exact signChecked_eq_ok ha (hrole (by decide)) hv (hfr ▸ fr.size_lt)
    exact loadRevocations_signed hr hs
  have hnode : loadNode h.dir = .ok (seeds.nodeInfo time) := by
    refine Except.bind_eq_ok.mpr ⟨fn, Except.okOr_eq_ok.mpr hn, Except.mapError_eq_ok.mpr ?_⟩
    rw [hfn]
    exact fromCbor_toCbor (RecordType.levels_le .nodeInfo) (RecordType.valid_of_capabilities (t := .nodeInfo) nofun)
      (hfn ▸ fn.size_lt.trans (by decide))
  have hev : h.dir.log.replayed = setupEvents kind time seeds := by
    rw [hlog]
    exact List.append_nil _
  have hledger : Host.openLedger h = (.ok h.dir.log, h.repaired) := by
    have hne : setupEvents kind time seeds ≠ [] := List.cons_ne_nil _ _
    rw [Host.openLedger, view_bind, view_bind, hu, if_neg Bool.false_ne_true, hev, if_neg hne,
      bind_ok (Host.operate_done (hf h.tick))]
    refine (bind_ok (Host.operate_done (hf (h.tick + 1)))).trans ?_
    exact congrArg (Prod.mk _) (Host.repaired_setLedger hl)
  rw [Engine.open, view_bind]
  refine ofExcept_bind_eq_ok.mpr ⟨_, Except.mapError_eq_ok.mpr hnode, ?_⟩
  refine ofExcept_bind_eq_ok.mpr ⟨_, Except.mapError_eq_ok.mpr s.anchors, ?_⟩
  refine ofExcept_bind_eq_ok.mpr ⟨_, Except.mapError_eq_ok.mpr hpol, ?_⟩
  refine ofExcept_bind_eq_ok.mpr ⟨_, Except.mapError_eq_ok.mpr hrev, ?_⟩
  refine ofExcept_bind_eq_ok.mpr ⟨_, Except.mapError_eq_ok.mpr s.deviceKey, ?_⟩
  rw [openLocked, bind_ok hledger]
  exact s.assemble_eq

end SetUp

end Engine

end

namespace Installed

-- The policy key checks what it has signed.
theorem verify_policy (digests' : List (Bytes × Bytes.Fixed 32)) (signatures' : List (Bytes × Bytes.Fixed 64))
    (message : Bytes) :
    let _ := crypto digests' signatures'
    verifySignature seeds.policyKey.pub message (seeds.policyKey.sign message) = .ok () := by
  intro _
  have hk : (if policySeed = deviceSeed then deviceKey else policyKey) = policyKey := if_neg (by decide)
  exact Envelope.verifySignature_ok_iff.mpr ⟨rfl, decide_eq_true ⟨.inr hk, rfl⟩⟩

variable [Crypto]

-- The host of the process that has opened a directory.
def repaired (dir : StateDir) : Host :=
  (System.host dir .new (steady 0)).repaired

theorem open_setUp {dir : StateDir} (s : Engine.SetUp .workstation 0 seeds dir)
    (hv : ∀ message, verifySignature seeds.policyKey.pub message (seeds.policyKey.sign message) = .ok ()) :
    Engine.open (System.host dir .new (steady 0)) = (.ok (seeds.engine .workstation 0), repaired dir) :=
  s.open_eq (h := System.host dir .new (steady 0)) hv rfl rfl fun _ => rfl

-- The engine of the installation is known without reading its files again.
theorem open_system
    (hv : ∀ message, verifySignature seeds.policyKey.pub message (seeds.policyKey.sign message) = .ok ()) :
    Engine.open (System.host system.dir .new (steady 0)) = (.ok (seeds.engine .workstation 0), repaired system.dir) := by
  have ⟨_, hs⟩ := eq_ok_of_isSome setup_ok
  generalize hd : (setup.2 : Host) = h at hs
  rw [setup] at hs
  rw [system, hd]
  exact open_setUp (Engine.init_ok hs) hv

theorem started_system
    (hv : ∀ message, verifySignature seeds.policyKey.pub message (seeds.policyKey.sign message) = .ok ()) :
    started system = some ⟨(repaired system.dir).dir, some (seeds.engine .workstation 0, .new)⟩ := by
  rw [started, open_system hv]
  rfl

end Installed
