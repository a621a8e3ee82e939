import JlrModel.Lib.Sorted
import JlrModel.Policy.Theorems.Evaluate
import Mathlib.Order.Compare

namespace Capability

-- What a capability is about, and its port if it has one.
def argument : Capability → String
  | fsRead s | fsWrite s | netConnect s _ | netListen s _ | devUsb s | procSpawn s | ipcDbus s
  | hostServiceControl s => s
  | _                    => ""

def port : Capability → UInt16
  | netConnect _ p | netListen _ p => p
  | _                              => 0

def order : Capability → Capability → Ordering :=
  compareLex (compareOn Capability.ctorIdx) (compareLex (compareOn argument) (compareOn port))

theorem compare_eq (a b : Capability) : compare a b = order a b := by
  cases a <;> cases b
  all_goals try rfl
  case netConnect.netConnect h p h' p' =>
    change (compare h h').then ((compare p p').then .eq) = (compare h h').then (compare p p')
    rw [Ordering.then_eq]
  case netListen.netListen h p h' p' =>
    change (compare h h').then ((compare p p').then .eq) = (compare h h').then (compare p p')
    rw [Ordering.then_eq]

theorem order_eq {a b : Capability} (h : order a b = .eq) : a = b := by
  have ⟨hi, h⟩ := compareLex_eq_eq.mp h
  have ⟨ha, hp⟩ := compareLex_eq_eq.mp h
  replace hi : a.ctorIdx = b.ctorIdx := Std.LawfulEqOrd.eq_of_compare hi
  replace ha : a.argument = b.argument := Std.LawfulEqOrd.eq_of_compare ha
  replace hp : a.port = b.port := Std.LawfulEqOrd.eq_of_compare hp
  cases a <;> cases b <;> cases hi <;> cases ha <;> cases hp <;> rfl

instance : Std.TransCmp order :=
  inferInstanceAs (Std.TransCmp (compareLex _ _))

theorem sorted : Sorted.Order fun a b : Capability => (compare a b).isLE where
  trans a b c := by
    simp only [compare_eq]
    exact Std.TransCmp.isLE_trans
  total a b := by
    simp only [compare_eq]
    have hs : order b a = (order a b).swap := Std.OrientedCmp.eq_swap
    rw [hs]
    cases order a b <;> rfl
  antisymm a b := by
    simp only [compare_eq]
    intro h₁ h₂
    exact order_eq (Std.OrientedCmp.isLE_antisymm h₁ h₂)

end Capability

theorem ReasonCode.sorted : Sorted.Order fun a b : ReasonCode => Coded.code a ≤ Coded.code b :=
  .of_key fun _ _ => Coded.code_inj

namespace CellClass

variable {a b : CellClass}

theorem not_lt : ¬ a < b ↔ b ≤ a :=
  UInt8.not_lt

theorem not_lt_cell0 : ¬ a < .cell0 := by
  cases a <;> decide

theorem cell0_le : .cell0 ≤ a :=
  not_lt.mp not_lt_cell0

theorem ne_cellR_of_lt (h : a < b) : a ≠ .cellR := by
  cases a <;> cases b <;> first | decide | exact absurd h (by decide)

theorem ne_cellR_of_le (h : a ≤ .cell3) : a ≠ .cellR := by
  cases a <;> first | decide | exact absurd h (by decide)

end CellClass

theorem Tier.ne_cellR_of_check {t : Tier} (h : t.check = .ok ()) : t.cell ≠ .cellR := by
  have ⟨_, _, h⟩ := Except.bind_eq_ok.mp h
  have ⟨_, _, h⟩ := Except.bind_eq_ok.mp h
  have ⟨_, _, h⟩ := Except.bind_eq_ok.mp h
  have ⟨_, hc, _⟩ := Except.bind_eq_ok.mp h
  exact Except.ensure_eq_ok.mp hc

namespace Draft

variable {p : ValidPolicy} {f : Facts} {d : Draft}

-- The question that a request for a capability with a high risk raises.
def question (f : Facts) (c : Capability) : String :=
  f.artifact.name ++ " requests " ++ c.display

-- What a list of requests comes to.
theorem requests_eq {cs : List Capability} : cs.foldl (request f) d = { d with
      capabilities := d.capabilities ++ cs.filter (! ·.isHighRisk)
      reasons      := d.reasons ++ (cs.filter (·.isHighRisk)).map fun _ => .highRiskCapability
      needsUser    := d.needsUser.or ((cs.find? (·.isHighRisk)).map (question f)) } := by
  induction cs generalizing d
  case nil => simp
  case cons c cs ih =>
    rw [List.foldl_cons, ih, request]
    cases hc : c.isHighRisk
    case false => simp [hc]
    case true => cases hn : d.needsUser <;> simp [hc, question]

-- The tier with its guards.
def guarded (p : ValidPolicy) (f : Facts) : Draft :=
  guardWritable p f (guardSetuid p f (base p f))

-- Whether the requests of an artifact are looked at.
def receives (d : Draft) : Prop :=
  d.state.permitsNormalExecution ∧ .cell0 < d.cell

theorem automatic_of_receives (h : (guarded p f).receives) :
    automatic p f = f.requested.foldl (request f) (guarded p f) :=
  if_pos h

theorem automatic_of_not_receives (h : ¬ (guarded p f).receives) : automatic p f = guarded p f :=
  if_neg h

-- What every draft is held to before its requests are looked at.
structure Held (d : Draft) : Prop where
  reasons      : d.reasons ≠ []
  cell         : d.cell ≠ .cellR
  held         : d.state.permitsNormalExecution = false → d.cell = .cell0 ∧ d.network = .none
  capabilities : d.capabilities = []

theorem held_ofTier {t : Tier} (h : t.check = .ok ()) : (ofTier t f).Held where
  reasons      := List.cons_ne_nil _ _
  cell         := Tier.ne_cellR_of_check h
  held hr      := by
    have hr : t.grantsRun = false := hr
    have hr : ¬ t.grantsRun := by simp [hr]
    have hs := Tier.sound_of_check h
    exact ⟨hs.cell.resolve_left hr, hs.network.resolve_left hr⟩
  capabilities := rfl

theorem held_base : (base p f).Held := by
  unfold base
  split
  case isTrue => exact { reasons := nofun, cell := nofun, held _ := ⟨rfl, rfl⟩, capabilities := rfl }
  case isFalse => exact held_ofTier (Policy.checkTiers_mem p.rules.tiers p.tier_mem)

theorem Held.guardSetuid (h : d.Held) : (guardSetuid p f d).Held := by
  unfold Draft.guardSetuid
  split
  case isFalse => exact h
  case isTrue =>
    exact { reasons := by simp, cell := nofun, held _ := ⟨rfl, rfl⟩, capabilities := h.capabilities }

-- In CELL-0 there is nothing left to cap.
theorem Held.guardWritable (h : d.Held) : (guardWritable p f d).Held := by
  unfold Draft.guardWritable
  split
  case isFalse => exact h
  case isTrue hw =>
    exact {
      reasons      := by simp
      cell         := CellClass.ne_cellR_of_lt hw.right
      held hr      := absurd hw.right ((h.held hr).left ▸ CellClass.not_lt_cell0)
      capabilities := h.capabilities
    }

theorem held_guarded : (guarded p f).Held :=
  held_base.guardSetuid.guardWritable

theorem guardWritable_cell_le (h : f.has .writablePath) : (guardWritable p f d).cell ≤ p.writablePathMaxCell := by
  unfold guardWritable
  split
  case isTrue => exact UInt8.le_refl _
  case isFalse hw => exact CellClass.not_lt.mp fun hc => hw ⟨h, hc⟩

-- Only what was requested is granted without an operator.
theorem automatic_capabilities {c : Capability} (h : c ∈ (automatic p f).capabilities) :
    (guarded p f).receives ∧ c ∈ f.requested ∧ c.isHighRisk = false := by
  by_cases hr : (guarded p f).receives
  case pos =>
    rw [automatic_of_receives hr, requests_eq, held_guarded.capabilities] at h
    have ⟨hm, hc⟩ := List.mem_filter.mp h
    exact ⟨hr, hm, by simpa using hc⟩
  case neg =>
    rw [automatic_of_not_receives hr, held_guarded.capabilities] at h
    contradiction

theorem automatic_reasons : (automatic p f).reasons ≠ [] := by
  by_cases hr : (guarded p f).receives
  case pos =>
    rw [automatic_of_receives hr, requests_eq]
    exact List.append_ne_nil_of_left_ne_nil held_guarded.reasons _
  case neg =>
    rw [automatic_of_not_receives hr]
    exact held_guarded.reasons

-- The requests change neither the state nor the cell and its network.
theorem automatic_eq_guarded :
    (automatic p f).state = (guarded p f).state ∧ (automatic p f).cell = (guarded p f).cell ∧
    (automatic p f).network = (guarded p f).network ∧ (automatic p f).basis = (guarded p f).basis := by
  by_cases hr : (guarded p f).receives
  case pos =>
    rw [automatic_of_receives hr, requests_eq]
    exact ⟨rfl, rfl, rfl, rfl⟩
  case neg =>
    rw [automatic_of_not_receives hr]
    exact ⟨rfl, rfl, rfl, rfl⟩

@[simp]
theorem mem_capabilities_finish {c : Capability} {policy : Digest} :
    c ∈ (d.finish policy).capabilities ↔ c ∈ d.capabilities :=
  Sorted.mem_iff

@[simp]
theorem mem_reasons_finish {r : ReasonCode} {policy : Digest} : r ∈ (d.finish policy).reasons ↔ r ∈ d.reasons :=
  Sorted.mem_iff

theorem finish_capabilities_eq_nil {policy : Digest} : (d.finish policy).capabilities = [] ↔ d.capabilities = [] :=
  Sorted.eq_nil_iff

theorem finish_reasons_eq_nil {policy : Digest} : (d.finish policy).reasons = [] ↔ d.reasons = [] :=
  Sorted.eq_nil_iff

theorem finish_capabilities_sorted {policy : Digest} :
    (d.finish policy).capabilities.Pairwise (compare · · = .lt) := by
  apply (Sorted.strict Capability.sorted).imp
  intro a b ⟨hle, hne⟩
  cases hc : compare a b
  case lt => rfl
  case eq => exact absurd (Capability.order_eq (Capability.compare_eq a b ▸ hc)) hne
  case gt => rw [hc] at hle; contradiction

theorem finish_reasons_sorted {policy : Digest} :
    (d.finish policy).reasons.Pairwise (Coded.code · < Coded.code ·) := by
  apply (Sorted.strict ReasonCode.sorted).imp
  intro a b ⟨hle, hne⟩
  exact lt_of_le_of_ne (of_decide_eq_true hle) fun h => hne (Coded.code_inj h)

theorem approve_capabilities {a : Approval} :
    (d.approve p a).capabilities = if .cell0 < (d.approve p a).cell then a.capabilities else [] :=
  rfl

end Draft

theorem AdmissionState.permitsNormalExecution_eq_false {s : AdmissionState} :
    s.permitsNormalExecution = false ↔ s ∉ [.verified, .admitted] := by
  cases s <;> decide

section

variable [Crypto] {p : ValidPolicy} {f : Facts} {now : UInt64} {policy : Digest}

-- The least authority: what a decision grants, it grants for a reason and within its bounds.
structure Decision.Least (p : ValidPolicy) (f : Facts) (now : UInt64) (d : Decision) : Prop where
  capabilities : d.capabilities.Pairwise (compare · · = .lt)
  reasons      : d.reasons.Pairwise (Coded.code · < Coded.code ·)
  reasoned     : d.reasons ≠ []
  cell         : d.cell ≠ .cellR
  held         : d.state ∉ [.verified, .admitted] → d.cell = .cell0 ∧ d.network = .none ∧ d.capabilities = []
  analysis     : d.cell = .cell0 → d.capabilities = []
  requested    : f.grant now = none → ∀ c ∈ d.capabilities, c ∈ f.requested ∧ c.isHighRisk = false
  writable     : f.grant now = none → f.has .writablePath → d.cell ≤ p.writablePathMaxCell
  manual       : ∀ a, f.grant now = some a → f.verdict p = none →
    d.cell ≤ p.maxManualCell ∧ ∀ c ∈ d.capabilities, c ∈ a.capabilities

theorem Facts.verdict_eq_held {d : Draft} (h : f.verdict p = some d) :
    ∃ state reason basis, d = .held state reason basis := by
  unfold Facts.verdict at h
  split_ifs at h <;> exact ⟨_, _, _, (Option.some.inj h).symm⟩

theorem Draft.least_held {state reason basis} (hv : f.verdict p ≠ none) :
    ((held state reason basis).finish policy).Least p f now where
  capabilities := finish_capabilities_sorted
  reasons      := finish_reasons_sorted
  reasoned     := finish_reasons_eq_nil.not.mpr nofun
  cell         := nofun
  held _       := ⟨rfl, rfl, finish_capabilities_eq_nil.mpr rfl⟩
  analysis _   := finish_capabilities_eq_nil.mpr rfl
  requested _ _ hc := nomatch mem_capabilities_finish.mp hc
  writable _ _ := CellClass.cell0_le
  manual _ _ h := absurd h hv

theorem Draft.least_automatic (hg : f.grant now = none) : ((automatic p f).finish policy).Least p f now := by
  have ⟨hs, hc, hn, _⟩ := automatic_eq_guarded (p := p) (f := f)
  have hnil : ¬ (guarded p f).receives → ((automatic p f).finish policy).capabilities = [] := by
    intro hr
    rw [finish_capabilities_eq_nil, automatic_of_not_receives hr, held_guarded.capabilities]
  exact {
    capabilities := finish_capabilities_sorted
    reasons      := finish_reasons_sorted
    reasoned     := finish_reasons_eq_nil.not.mpr automatic_reasons
    cell         := hc.trans_ne held_guarded.cell
    held hr      := by
      have hr : (guarded p f).state.permitsNormalExecution = false :=
        AdmissionState.permitsNormalExecution_eq_false.mpr (hs ▸ hr)
      have ⟨hc', hn'⟩ := held_guarded.held hr
      exact ⟨hc.trans hc', hn.trans hn', hnil fun h => by simp [h.left] at hr⟩
    analysis h   := by
      have h : (guarded p f).cell = .cell0 := hc ▸ h
      exact hnil fun hr => CellClass.not_lt_cell0 (h ▸ hr.right)
    requested _ c h := (automatic_capabilities (mem_capabilities_finish.mp h)).right
    writable _ h := by
      change (automatic p f).cell ≤ _
      rw [hc]
      exact guardWritable_cell_le h
    manual a h   := absurd h (by simp [hg])
  }

theorem Draft.least_approve {d : Draft} {a : Approval} (hg : f.grant now = some a) :
    ((d.approve p a).finish policy).Least p f now := by
  have hc : (d.approve p a).cell ≤ p.maxManualCell := by
    simp only [approve]
    split_ifs with h
    · exact h
    · exact UInt8.le_refl _
  exact {
    capabilities := finish_capabilities_sorted
    reasons      := finish_reasons_sorted
    reasoned     := finish_reasons_eq_nil.not.mpr (by simp [approve])
    cell         := CellClass.ne_cellR_of_le (UInt8.le_trans hc p.rules.manual)
    held hr      := absurd (List.mem_cons_of_mem _ List.mem_cons_self) hr
    analysis h   := by
      have h : (d.approve p a).cell = .cell0 := h
      rw [finish_capabilities_eq_nil, approve_capabilities, h]
      rfl
    requested h  := absurd h (by simp [hg])
    writable h   := absurd h (by simp [hg])
    manual a' h _ := by
      have ha : a' = a := by simpa [hg] using h.symm
      refine ⟨hc, fun c hm => ?_⟩
      rw [mem_capabilities_finish, approve_capabilities] at hm
      split_ifs at hm
      · exact ha ▸ hm
      · contradiction
  }

theorem Draft.decide_approve {a : Approval} (h : f.verdict p = none) (hg : f.grant now = some a) :
    decide p f now = (automatic p f).approve p a := by
  simp only [decide, h, hg]

theorem evaluate_least (p : ValidPolicy) (f : Facts) (now : UInt64) : (evaluate p f now).Least p f now := by
  unfold evaluate
  cases hv : f.verdict p
  case some d =>
    have ⟨state, reason, basis, hd⟩ := Facts.verdict_eq_held hv
    rw [Draft.decide_of_verdict hv, hd]
    exact Draft.least_held (by simp [hv])
  case none =>
    cases hg : f.grant now
    case none =>
      rw [Draft.decide_automatic hv hg]
      exact Draft.least_automatic hg
    case some a =>
      rw [Draft.decide_approve hv hg]
      exact Draft.least_approve hg

end

-- A network is within what its cell may hold if the cap leaves it alone.
theorem eq_capNetwork_iff {cell : CellClass} {network : NetworkMode} :
    network = capNetwork cell network ↔
    (cell = .cell0 → network = .none) ∧
    (cell = .cell1 → Coded.code network ≤ Coded.code NetworkMode.destinationAllowlist) := by
  cases cell <;> cases network <;> decide

theorem capNetwork_idem {cell : CellClass} {network : NetworkMode} :
    capNetwork cell network = capNetwork cell (capNetwork cell network) := by
  cases cell <;> cases network <;> decide

namespace Draft

variable {p : ValidPolicy} {f : Facts} {d : Draft}

def Capped (d : Draft) : Prop :=
  d.network = capNetwork d.cell d.network

theorem guardSetuid_of_held (h : setuidHeld p f) :
    (guardSetuid p f d).cell = .cell0 ∧ (guardSetuid p f d).network = .none ∧
    (guardSetuid p f d).basis = .none := by
  have h : f.has .setuidBit ∧ ¬ f.artifact.provenance.satisfies p.setuidMinProvenance := h
  rw [guardSetuid, if_pos h]
  exact ⟨rfl, rfl, rfl⟩

theorem capped_guardSetuid_of_held (h : setuidHeld p f) : (guardSetuid p f d).Capped := by
  have ⟨hc, hn, _⟩ := guardSetuid_of_held (d := d) h
  rw [Capped, hc, hn]
  rfl

theorem base_of_valid (h : f.has .signatureInvalid = false) : base p f = ofTier (p.tier f) f :=
  if_neg (by simp [h])

theorem Capped.guardWritable (h : d.Capped) : (guardWritable p f d).Capped := by
  unfold Draft.guardWritable
  split
  case isTrue => exact capNetwork_idem
  case isFalse => exact h

-- Whether the artifact's place lowers its cell.
def writableHeld (p : ValidPolicy) (f : Facts) (cell : CellClass) : Prop :=
  f.has .writablePath ∧ p.writablePathMaxCell < cell

theorem capped_guardWritable_of_held (h : writableHeld p f d.cell) : (guardWritable p f d).Capped := by
  have h : f.has .writablePath ∧ p.writablePathMaxCell < d.cell := h
  rw [guardWritable, if_pos h]
  exact capNetwork_idem

theorem guardWritable_of_not_held (h : ¬ writableHeld p f d.cell) : guardWritable p f d = d :=
  if_neg h

-- The tier's network is the only one that no guard has capped.
theorem capped_automatic_iff :
    (automatic p f).Capped ↔
    (f.has .signatureInvalid = false → ¬ setuidHeld p f → ¬ writableHeld p f (p.tier f).cell →
      (p.tier f).network = capNetwork (p.tier f).cell (p.tier f).network) := by
  obtain ⟨_, hc, hn, _⟩ := automatic_eq_guarded (p := p) (f := f)
  rw [Capped, hc, hn]
  change (guarded p f).Capped ↔ _
  by_cases hs : setuidHeld p f
  case pos => exact iff_of_true (capped_guardSetuid_of_held hs).guardWritable fun _ h => absurd hs h
  case neg =>
    rw [guarded, guardSetuid_of_not_held hs]
    cases hi : f.has .signatureInvalid
    case true =>
      rw [base, if_pos hi]
      exact iff_of_true (Capped.guardWritable rfl) fun h => Bool.noConfusion h
    case false =>
      rw [base_of_valid hi]
      by_cases hw : writableHeld p f (p.tier f).cell
      case pos => exact iff_of_true (capped_guardWritable_of_held (d := ofTier _ _) hw) fun _ _ h => absurd hw h
      case neg =>
        rw [guardWritable_of_not_held (d := ofTier (p.tier f) f) hw]
        exact ⟨fun h _ _ _ => h, fun h => h rfl hs hw⟩

-- Without an operator, an artifact runs if its tier says so and no guard holds it back.
theorem automatic_runs_iff :
    (automatic p f).state.permitsNormalExecution ↔
    f.has .signatureInvalid = false ∧ ¬ setuidHeld p f ∧ (p.tier f).grantsRun where
  mp h := by
    obtain ⟨hi, hs, he⟩ := automatic_promotes h
    exact ⟨hi, hs, by rwa [Tier.grantsRun, ← he]⟩
  mpr h := by
    obtain ⟨hi, hs, hr⟩ := h
    rw [state_automatic, guardSetuid_of_not_held hs, base_of_valid hi]
    exact hr

theorem automatic_held_iff :
    (automatic p f).state.permitsNormalExecution = false ↔
    f.has .signatureInvalid ∨ setuidHeld p f ∨ (p.tier f).grantsRun = false := by
  rw [← Bool.not_eq_true, automatic_runs_iff, not_and_or, not_and_or, not_not, Bool.not_eq_false, Bool.not_eq_true]

theorem basis_ofTier {t : Tier} : (ofTier t f).basis ≠ .manualOverride := by
  change t.basis ≠ _
  unfold Tier.basis
  split_ifs <;> decide

-- No tier and no guard speaks for an operator.
theorem basis_automatic : (automatic p f).basis ≠ .manualOverride := by
  obtain ⟨_, _, _, hb⟩ := automatic_eq_guarded (p := p) (f := f)
  have hg : (guarded p f).basis = (guardSetuid p f (base p f)).basis := by
    rw [guarded, guardWritable]
    split_ifs <;> rfl
  rw [hb, hg]
  by_cases hs : setuidHeld p f
  case pos =>
    rw [(guardSetuid_of_held hs).right.right]
    rintro ⟨⟩
  case neg =>
    rw [guardSetuid_of_not_held hs, base]
    split
    case isTrue => rintro ⟨⟩
    case isFalse => exact basis_ofTier

-- An approval is recorded as an override only if the artifact would not run without it.
theorem basis_approve_iff {a : Approval} :
    ((automatic p f).approve p a).basis = .manualOverride ↔
    (automatic p f).state.permitsNormalExecution = false := by
  simp only [approve]
  split_ifs with hs
  case pos => simp [hs, basis_automatic]
  case neg => simpa using hs

theorem operatorAuthorized_mem_guarded :
    .operatorAuthorized ∈ (guarded p f).reasons ↔ .operatorAuthorized ∈ (base p f).reasons := by
  rw [guarded, guardWritable, guardSetuid]
  split_ifs <;> simp

theorem operatorAuthorized_mem_automatic :
    .operatorAuthorized ∈ (automatic p f).reasons ↔
    f.has .signatureInvalid = false ∧ (p.tier f).reason = .operatorAuthorized := by
  have hm : .operatorAuthorized ∈ (automatic p f).reasons ↔ .operatorAuthorized ∈ (guarded p f).reasons := by
    by_cases hr : (guarded p f).receives
    case pos => simp [automatic_of_receives hr, requests_eq]
    case neg => rw [automatic_of_not_receives hr]
  rw [hm, operatorAuthorized_mem_guarded]
  cases hi : f.has .signatureInvalid
  case true =>
    rw [base, if_pos hi]
    simp [held]
  case false =>
    rw [base_of_valid hi]
    exact List.mem_singleton.trans (by simp [eq_comm])

end Draft

-- What the cell of a decision allows of its network.
structure Decision.NetworkCapped (d : Decision) : Prop where
  capped   : d.network = capNetwork d.cell d.network
  analysis : d.cell = .cell0 → d.network = .none
  limited  : d.cell = .cell1 → Coded.code d.network ≤ Coded.code NetworkMode.destinationAllowlist

theorem Decision.networkCapped_iff {d : Decision} : d.NetworkCapped ↔ d.network = capNetwork d.cell d.network where
  mp h  := h.capped
  mpr h := ⟨h, (eq_capNetwork_iff.mp h).left, (eq_capNetwork_iff.mp h).right⟩

section

variable [Crypto]

-- The rules for policies do not relate a tier's network to its cell. Where the tier alone decides, its
-- network is the one that the decision has.
theorem network_capped_iff (p : ValidPolicy) (f : Facts) (now : UInt64) :
    (evaluate p f now).NetworkCapped ↔
    (f.verdict p = none → f.grant now = none → f.has .signatureInvalid = false → ¬ Draft.setuidHeld p f →
      ¬ Draft.writableHeld p f (p.tier f).cell →
      (p.tier f).network = capNetwork (p.tier f).cell (p.tier f).network) := by
  rw [Decision.networkCapped_iff]
  change (Draft.decide p f now).Capped ↔ _
  cases hv : f.verdict p
  case some d =>
    have ⟨_, _, _, hd⟩ := Facts.verdict_eq_held hv
    rw [Draft.decide_of_verdict hv, hd]
    exact iff_of_true rfl nofun
  case none =>
    cases hg : f.grant now
    case some a =>
      rw [Draft.decide_approve hv hg]
      exact iff_of_true capNetwork_idem nofun
    case none =>
      rw [Draft.decide_automatic hv hg, Draft.capped_automatic_iff]
      simp

theorem Facts.verdict_reasons {p : ValidPolicy} {f : Facts} {d : Draft} (h : f.verdict p = some d) :
    .operatorAuthorized ∉ d.reasons := by
  unfold Facts.verdict at h
  split_ifs at h <;> cases h <;> simp [Draft.held]

-- What a tier would not let run, runs by the authority of the operator.
theorem operatorAuthorized_of_weak {p : ValidPolicy} {f : Facts} {now : UInt64}
    (hr : (evaluate p f now).state.permitsNormalExecution) (hp : f.artifact.provenance.satisfies .verifiedChecksum = false) :
    .operatorAuthorized ∈ (evaluate p f now).reasons := by
  rw [evaluate, Draft.mem_reasons_finish]
  change (Draft.decide p f now).state.permitsNormalExecution at hr
  cases hv : f.verdict p
  case some d =>
    rw [Draft.decide_of_verdict hv, Facts.verdict_holds hv] at hr
    contradiction
  case none =>
    cases hg : f.grant now
    case none =>
      rw [Draft.decide_automatic hv hg] at hr
      rw [Draft.automatic_provenance hr] at hp
      contradiction
    case some a =>
      rw [Draft.decide_approve hv hg]
      exact List.mem_append_right _ List.mem_cons_self

-- An approval for an artifact that its tier lets run replaces the tier's cell, network and capabilities and
-- leaves the tier's basis. A tier may also give the operator's reason for its own.
theorem override_recorded_iff (p : ValidPolicy) (f : Facts) (now : UInt64) :
    ((f.verdict p = none ∧ (f.grant now).isSome) ∨ .operatorAuthorized ∈ (evaluate p f now).reasons →
      (evaluate p f now).basis = .manualOverride) ↔
    (f.verdict p = none →
      ((f.grant now).isSome →
        f.has .signatureInvalid ∨ Draft.setuidHeld p f ∨ (p.tier f).grantsRun = false) ∧
      (f.grant now = none → f.has .signatureInvalid = false → (p.tier f).reason ≠ .operatorAuthorized)) := by
  unfold evaluate
  rw [Draft.mem_reasons_finish]
  change (_ → (Draft.decide p f now).basis = _) ↔ _
  cases hv : f.verdict p
  case some d =>
    rw [Draft.decide_of_verdict hv]
    simp [Facts.verdict_reasons hv]
  case none =>
    cases hg : f.grant now
    case none =>
      rw [Draft.decide_automatic hv hg, Draft.operatorAuthorized_mem_automatic]
      simp [Draft.basis_automatic]
    case some a =>
      rw [Draft.decide_approve hv hg, ← Draft.automatic_held_iff, Draft.basis_approve_iff]
      simp

end

namespace Sample

attribute [local instance] crypto

-- A policy that gives CELL-1 the whole network of a user.
def connected : Policy :=
  { policy with tiers := policy.tiers.map fun t => if t.grantsRun then { t with network := .fullUserNetwork } else t }

theorem validate_connected : connected.validate = .ok () := by
  decide +kernel

def validConnected : ValidPolicy :=
  ⟨connected, Policy.validateLoaded_of_validate validate_connected⟩

theorem network_above_cell :
    connected.validate = .ok () ∧
    (evaluate validConnected (facts exe [.packageSignature]) 0).cell = .cell1 ∧
    (evaluate validConnected (facts exe [.packageSignature]) 0).network = .fullUserNetwork ∧
    ¬ (evaluate validConnected (facts exe [.packageSignature]) 0).NetworkCapped := by
  refine ⟨validate_connected, by decide +kernel, by decide +kernel, ?_⟩
  rw [Decision.networkCapped_iff]
  decide +kernel

-- An approval of more than what the tier gives.
def raised : Approval where
  epn          := "EPN-1-EXE-f27d826ea71a02d69a15ea1ddab1d044e0d489699c4d6c94e4de72f277a04f0f"
  cell         := .cell2
  network      := .fullUserNetwork
  capabilities := []
  expiresAt    := 1
  grantedBy    := "o"

def overridden : Facts :=
  { facts exe [.packageSignature] with approval := some raised }

theorem override_unrecorded :
    (evaluate valid overridden 0).cell = .cell2 ∧ (evaluate valid overridden 0).network = .fullUserNetwork ∧
    .operatorAuthorized ∈ (evaluate valid overridden 0).reasons ∧
    (evaluate valid overridden 0).basis = .cryptographic := by
  refine ⟨by decide +kernel, by decide +kernel, ?_, by decide +kernel⟩
  rw [evaluate, Draft.mem_reasons_finish]
  decide +kernel

end Sample

-- Facts that differ at most in how their evidence and their requests are listed.
structure Facts.Alike (f f' : Facts) : Prop where
  artifact    : f'.artifact = f.artifact
  prior       : f'.prior = f.prior
  revocations : f'.revocations = f.revocations
  approval    : f'.approval = f.approval
  evidence    : ∀ kind, kind ∈ f'.evidence.map (·.kind) ↔ kind ∈ f.evidence.map (·.kind)
  requested   : ∀ c, c ∈ f'.requested ↔ c ∈ f.requested

-- Drafts that come to the same once their lists are sorted, except for the question.
structure Draft.Alike (d d' : Draft) : Prop where
  state        : d'.state = d.state
  cell         : d'.cell = d.cell
  network      : d'.network = d.network
  basis        : d'.basis = d.basis
  capabilities : ∀ c, c ∈ d'.capabilities ↔ c ∈ d.capabilities
  reasons      : ∀ r, r ∈ d'.reasons ↔ r ∈ d.reasons

namespace Draft.Alike

variable {d d' : Draft} {policy : Digest}

theorem refl : d.Alike d :=
  ⟨rfl, rfl, rfl, rfl, fun _ => .rfl, fun _ => .rfl⟩

theorem finish (h : d.Alike d') :
    d'.finish policy = { d.finish policy with needsUser := d'.needsUser } := by
  rw [Draft.finish, Draft.finish, Sorted.congr Capability.sorted h.capabilities,
    Sorted.congr ReasonCode.sorted h.reasons, h.state, h.cell, h.network, h.basis]

theorem approve {p : ValidPolicy} {a : Approval} (h : d.Alike d') : (d.approve p a).Alike (d'.approve p a) where
  state        := rfl
  cell         := rfl
  network      := rfl
  basis        := by rw [Draft.approve, Draft.approve, h.state, h.basis]
  capabilities := fun _ => .rfl
  reasons r    := by
    simp only [Draft.approve]
    split_ifs <;> simp [h.reasons]

end Draft.Alike

namespace Facts.Alike

variable {f f' : Facts} {p : ValidPolicy}

theorem has (h : f.Alike f') : f'.has = f.has := by
  funext kind
  have he := h.evidence kind
  simp only [List.mem_map] at he
  rw [Bool.eq_iff_iff]
  simpa [Facts.has] using he

theorem tier (h : f.Alike f') : p.tier f' = p.tier f := by
  have hm : (·.matchesFacts f') = (fun t : Tier => t.matchesFacts f) := by
    funext t
    rw [Tier.matchesFacts, Tier.matchesFacts, h.artifact, h.has]
  rw [ValidPolicy.tier, ValidPolicy.tier, hm]

theorem guarded (h : f.Alike f') : Draft.guarded p f' = Draft.guarded p f := by
  have hb : Draft.base p f' = Draft.base p f := by
    rw [Draft.base, Draft.base, h.has, h.tier, Draft.ofTier, Draft.ofTier, h.artifact]
  rw [Draft.guarded, Draft.guarded, hb, Draft.guardSetuid, Draft.guardSetuid, Draft.guardWritable,
    Draft.guardWritable, h.has, h.artifact]

theorem automatic (h : f.Alike f') : (Draft.automatic p f).Alike (Draft.automatic p f') := by
  by_cases hr : (Draft.guarded p f).receives
  case pos =>
    rw [Draft.automatic_of_receives hr, Draft.automatic_of_receives (h.guarded ▸ hr), Draft.requests_eq,
      Draft.requests_eq, h.guarded]
    exact {
      state        := rfl
      cell         := rfl
      network      := rfl
      basis        := rfl
      capabilities := by simp [h.requested]
      reasons      := by simp [h.requested]
    }
  case neg =>
    rw [Draft.automatic_of_not_receives hr, Draft.automatic_of_not_receives (h.guarded ▸ hr), h.guarded]
    exact .refl

end Facts.Alike

namespace Draft

variable {p : ValidPolicy} {f f' : Facts}

-- The first request of a capability with a high risk.
def firstRisk (f : Facts) : Option Capability :=
  f.requested.find? (·.isHighRisk)

theorem map_question_eq_iff {o o' : Option Capability} :
    o.map (question f) = o'.map (question f) ↔ o.map Capability.display = o'.map Capability.display := by
  cases o <;> cases o' <;> simp [question]

theorem firstRisk_isSome (h : f.Alike f') : (firstRisk f').isSome = (firstRisk f).isSome := by
  rw [Bool.eq_iff_iff, firstRisk, firstRisk]
  simp [h.requested]

theorem needsUser_automatic_of_receives (h : (guarded p f).receives) :
    (automatic p f).needsUser = (guarded p f).needsUser.or ((firstRisk f).map (question f)) := by
  rw [automatic_of_receives h, requests_eq, firstRisk]

theorem question_congr (h : f.Alike f') : question f' = question f := by
  funext c
  rw [question, question, h.artifact]

end Draft

section

variable [Crypto] {p : ValidPolicy} {f f' : Facts} {now : UInt64}

namespace Facts

theorem Alike.verdict (h : f.Alike f') : f'.verdict p = f.verdict p := by
  rw [Facts.verdict, Facts.verdict, h.has, h.artifact, h.prior, h.revocations]

theorem Alike.grant (h : f.Alike f') : f'.grant now = f.grant now := by
  rw [Facts.grant, Facts.grant, h.artifact, h.approval]

theorem Alike.decide (h : f.Alike f') : (Draft.decide p f now).Alike (Draft.decide p f' now) := by
  unfold Draft.decide
  rw [h.verdict, h.grant]
  cases f.verdict p
  case some d => exact .refl
  case none =>
    cases f.grant now
    case none => exact h.automatic
    case some a => exact h.automatic.approve

-- Whether a request raises the question of the decision.
structure Asks (f : Facts) (p : ValidPolicy) (now : UInt64) : Prop where
  verdict  : f.verdict p = none
  grant    : f.grant now = none
  receives : (Draft.guarded p f).receives
  silent   : (Draft.guarded p f).needsUser = none

theorem Alike.needsUser_of_asks (h : f.Alike f') (ha : f.Asks p now) :
    (Draft.decide p f now).needsUser = (Draft.firstRisk f).map (Draft.question f) ∧
    (Draft.decide p f' now).needsUser = (Draft.firstRisk f').map (Draft.question f) := by
  constructor
  · rw [Draft.decide_automatic ha.verdict ha.grant, Draft.needsUser_automatic_of_receives ha.receives, ha.silent]
    rfl
  · rw [Draft.decide_automatic (h.verdict.trans ha.verdict) (h.grant.trans ha.grant),
      Draft.needsUser_automatic_of_receives (h.guarded ▸ ha.receives), h.guarded, ha.silent, Draft.question_congr h]
    rfl

theorem Alike.needsUser_of_not_asks (h : f.Alike f') (ha : ¬ f.Asks p now) :
    (Draft.decide p f' now).needsUser = (Draft.decide p f now).needsUser := by
  unfold Draft.decide
  rw [h.verdict, h.grant]
  cases hv : f.verdict p
  case some d => rfl
  case none =>
    cases hg : f.grant now
    case some a => rfl
    case none =>
      by_cases hr : (Draft.guarded p f).receives
      case neg =>
        rw [Draft.automatic_of_not_receives hr, Draft.automatic_of_not_receives (h.guarded ▸ hr), h.guarded]
      case pos =>
        rw [Draft.needsUser_automatic_of_receives hr, Draft.needsUser_automatic_of_receives (h.guarded ▸ hr),
          h.guarded]
        cases hn : (Draft.guarded p f).needsUser
        case none => exact absurd ⟨hv, hg, hr, hn⟩ ha
        case some => rfl

end Facts

theorem evaluate_of_alike (h : f.Alike f') :
    evaluate p f' now = { evaluate p f now with needsUser := (Draft.decide p f' now).needsUser } :=
  h.decide.finish

theorem evaluate_eq_iff_of_alike (h : f.Alike f') :
    evaluate p f' now = evaluate p f now ↔
    (Draft.decide p f' now).needsUser = (Draft.decide p f now).needsUser := by
  constructor
  case mp =>
    intro he
    exact congrArg Decision.needsUser he
  case mpr =>
    intro he
    rw [evaluate_of_alike h, he]
    rfl

-- A decision depends on which evidence and which requests there are, not on how they are listed. Only the
-- question names the first request with a high risk.
theorem evaluate_alike (p : ValidPolicy) (f f' : Facts) (now : UInt64) (h : f.Alike f') :
    { evaluate p f' now with needsUser := none } = { evaluate p f now with needsUser := none } ∧
    (evaluate p f' now).needsUser.isSome = (evaluate p f now).needsUser.isSome ∧
    (evaluate p f' now = evaluate p f now ↔
      (f.Asks p now →
        (f'.requested.find? (·.isHighRisk)).map (·.display) =
        (f.requested.find? (·.isHighRisk)).map (·.display))) := by
  refine ⟨by rw [evaluate_of_alike h], ?_, ?_⟩
  case refine_1 =>
    change (Draft.decide p f' now).needsUser.isSome = (Draft.decide p f now).needsUser.isSome
    by_cases ha : f.Asks p now
    case pos =>
      have ⟨hn, hn'⟩ := h.needsUser_of_asks ha
      rw [hn, hn', Option.isSome_map, Option.isSome_map, Draft.firstRisk_isSome h]
    case neg => rw [h.needsUser_of_not_asks ha]
  case refine_2 =>
    rw [evaluate_eq_iff_of_alike h]
    by_cases ha : f.Asks p now
    case pos =>
      have ⟨hn, hn'⟩ := h.needsUser_of_asks ha
      rw [hn, hn', Draft.map_question_eq_iff]
      exact ⟨fun h _ => h, fun h => h ha⟩
    case neg => exact iff_of_true (h.needsUser_of_not_asks ha) fun h => absurd h ha

end

namespace Sample

attribute [local instance] crypto

def asking (kinds : List EvidenceKind) (requested : List Capability) : Facts :=
  { facts exe kinds with requested }

-- The question names the request that comes first.
theorem question_by_order :
    (asking [.packageSignature] [.rawNetwork, .rawBlockWrite]).Alike
      (asking [.packageSignature] [.rawBlockWrite, .rawNetwork]) ∧
    (evaluate valid (asking [.packageSignature] [.rawNetwork, .rawBlockWrite]) 0).needsUser =
      some "e requests RAW_NETWORK" ∧
    (evaluate valid (asking [.packageSignature] [.rawBlockWrite, .rawNetwork]) 0).needsUser =
      some "e requests RAW_BLOCK_WRITE" := by
  refine ⟨⟨rfl, rfl, rfl, rfl, fun _ => .rfl, ?_⟩, by decide +kernel, by decide +kernel⟩
  simp [asking, or_comm]

theorem evaluate_alike_reordered :
    evaluate valid (asking [.packageSignature, .packageSignature] [.devAudio, .rawNetwork, .devAudio]) 0 =
    evaluate valid (asking [.packageSignature] [.rawNetwork, .devAudio]) 0 := by
  have h : (asking [.packageSignature] [.rawNetwork, .devAudio]).Alike
      (asking [.packageSignature, .packageSignature] [.devAudio, .rawNetwork, .devAudio]) :=
    ⟨rfl, rfl, rfl, rfl, by simp [asking, facts], by simp [asking]⟩
  exact (evaluate_alike valid _ _ 0 h).right.right.mpr fun _ => rfl

end Sample
