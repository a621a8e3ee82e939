import JlrModel.Engine.Theorems.Approve
import JlrModel.Policy.Theorems.Authority

-- How long a row and a verdict may be used, compared with the authority that they rest on.

open Program

-- The clock does not go back.
def Oracle.Ascends (o : Oracle) : Prop :=
  ∀ i j, i ≤ j → o.clock i ≤ o.clock j

section

variable {id : EpnId} {t t' : UInt64} {a : Approval}

-- Only an authority that is in force is found.
theorem VerifiedBaseline.approvalFor_eq_some {b : VerifiedBaseline} :
    b.approvalFor id t = some a ↔ t < b.expiresAt ∧ b.contains id ∧ a = {
      epn          := id.display
      cell         := b.cell
      network      := b.network
      capabilities := b.capabilities
      expiresAt    := b.expiresAt
      grantedBy    := "baseline:" ++ b.name ++ ":" ++ b.grantedBy
    } := by
  rw [VerifiedBaseline.approvalFor]
  split
  case isTrue h =>
    refine iff_of_false (Option.some_ne_none _).symm ?_
    rintro ⟨ht, hc, _⟩
    cases h
    case inl h => exact UInt64.not_lt.mpr h ht
    case inr h => exact h hc
  case isFalse h =>
    obtain ⟨ht, hc⟩ := not_or.mp h
    rw [Option.some.injEq, eq_comm]
    exact ⟨fun h => ⟨UInt64.not_le.mp ht, not_not.mp hc, h⟩, fun h => h.right.right⟩

-- A baseline that does not apply does not apply later on.
theorem VerifiedBaseline.approvalFor_later {b : VerifiedBaseline} (ht : t ≤ t') (h : b.approvalFor id t = none) :
    b.approvalFor id t' = none := by
  rw [Option.eq_none_iff_forall_ne_some] at h ⊢
  intro a ha
  obtain ⟨hlt, hc, _⟩ := approvalFor_eq_some.mp ha
  exact h _ (approvalFor_eq_some.mpr ⟨UInt64.lt_of_le_of_lt ht hlt, hc, rfl⟩)

namespace Engine

theorem findSome_later {bs : List (String × VerifiedBaseline)} (ht : t ≤ t')
    (h : bs.findSome? (fun b => b.2.approvalFor id t) = some a) (hlt : t' < a.expiresAt) :
    bs.findSome? (fun b => b.2.approvalFor id t') = some a := by
  induction bs
  case nil => cases h
  case cons b bs ih =>
    rw [List.findSome?_cons] at h ⊢
    cases hb : b.2.approvalFor id t <;> rw [hb] at h
    case none =>
      rw [VerifiedBaseline.approvalFor_later ht hb]
      exact ih h
    case some a' =>
      cases h
      have ⟨_, hc, ha⟩ := VerifiedBaseline.approvalFor_eq_some.mp hb
      have hlt : t' < b.2.expiresAt := by rwa [ha] at hlt
      rw [VerifiedBaseline.approvalFor_eq_some.mpr ⟨hlt, hc, ha⟩]

-- What a verdict says about its age, at the time that it is made.
theorem maxAge_le_iff {validUntil expiresAt : UInt64} :
    let validFor := validUntil.saturatingSub t
    t.toNat + (if validFor < 1 then 1 else validFor).toNat ≤ expiresAt.toNat + 1 ↔
    t ≤ expiresAt ∧ validUntil.toNat ≤ expiresAt.toNat + 1 := by
  have hv := UInt64.toNat_saturatingSub validUntil t
  have h₁ : UInt64.toNat 1 = 1 := rfl
  dsimp only
  rw [UInt64.le_iff_toNat_le]
  split
  case isTrue h =>
    rw [UInt64.lt_iff_toNat_lt] at h
    omega
  case isFalse h =>
    rw [UInt64.lt_iff_toNat_lt] at h
    omega

variable [Crypto] {e : Engine}

theorem approvalFor_lt (h : e.approvalFor id t = some a) : t < a.expiresAt := by
  rw [approvalFor] at h
  split at h
  case h_1 a' ha =>
    cases h
    exact (of_decide_eq_true (Option.filter_eq_some_iff.mp ha).right).right
  case h_2 =>
    obtain ⟨b, _, hb⟩ := List.exists_of_findSome?_eq_some h
    obtain ⟨ht, _, ha⟩ := VerifiedBaseline.approvalFor_eq_some.mp hb
    exact ha ▸ ht

-- While the authority for an artifact is in force, it stays the one that is found.
theorem approvalFor_later (ht : t ≤ t') (h : e.approvalFor id t = some a) (hlt : t' < a.expiresAt) :
    e.approvalFor id t' = some a := by
  rw [approvalFor] at h ⊢
  split at h
  case h_1 a' ha =>
    cases h
    obtain ⟨hl, hp⟩ := Option.filter_eq_some_iff.mp ha
    rw [Option.filter_eq_some_iff.mpr ⟨hl, decide_eq_true ⟨(of_decide_eq_true hp).left, hlt⟩⟩]
  case h_2 hn =>
    have hn' : (e.approvals.lookup id).filter (·.appliesTo id t') = none := by
      rw [Option.filter_eq_none_iff] at hn ⊢
      intro b hb hp
      obtain ⟨he, hlt⟩ := of_decide_eq_true hp
      exact hn b hb (decide_eq_true ⟨he, UInt64.lt_of_le_of_lt ht hlt⟩)
    rw [hn']
    exact findSome_later ht h hlt

-- A row that is made at a later time than the decision outlives the authority of the decision, unless this is still in
-- force then.
theorem validUntil_le_iff (ht : t ≤ t') (h : e.approvalFor id t = some a) :
    e.validUntil id t' ≤ a.expiresAt ↔
    t' < a.expiresAt ∨ t'.saturatingAdd e.policy.evidenceMaxAgeSecs ≤ a.expiresAt := by
  rw [validUntil]
  by_cases hlt : t' < a.expiresAt
  case pos =>
    rw [approvalFor_later ht h hlt]
    refine iff_of_true ?_ (.inl hlt)
    dsimp only
    split
    case isTrue => exact UInt64.le_refl _
    case isFalse hn => exact UInt64.not_lt.mp hn
  case neg =>
    rw [or_iff_right hlt]
    cases hf : e.approvalFor id t'
    case none => rfl
    case some b =>
      -- Another authority is in force for longer than the first one was.
      have hb := UInt64.lt_of_le_of_lt (UInt64.not_lt.mp hlt) (approvalFor_lt hf)
      dsimp only
      split
      case isTrue hl =>
        exact iff_of_false (UInt64.not_le.mpr hb) (UInt64.not_le.mpr (UInt64.lt_trans hb hl))
      case isFalse => rfl

-- Whether the authority that was in force at the first time is in force at the second, or limits the row all the same.
def Holds (e : Engine) (a : Approval) (t : UInt64) : Prop :=
  t < a.expiresAt ∨ t.saturatingAdd e.policy.evidenceMaxAgeSecs ≤ a.expiresAt

theorem Enters.validUntil_le_iff {m m' : Machine} {seen : Seen} {requested : List Capability} {p : Processed}
    {i j : Nat} (e : Enters seen requested m p m' i j) (ho : m.host.oracle.Ascends)
    (ha : m.engine.approvalFor seen.record.id (m.host.oracle.clock i) = some a) :
    (m.engine.entry seen (m.host.oracle.clock j)).validUntil ≤ a.expiresAt ↔
    m.engine.Holds a (m.host.oracle.clock j) :=
  Engine.validUntil_le_iff (ho i j e.later.le) ha

-- The clock is read for the decision, for the row and for the verdict. An authority that expires in between bounds
-- neither the row nor the verdict that rest on it.
theorem authority_bounds_iff (m : Machine) (ho : m.host.oracle.Ascends) :
    let clock := m.host.oracle.clock
    (∀ seen requested p m', process seen requested m = (.ok p, m') → .operatorAuthorized ∈ p.decision.reasons →
      ∃ i j row, Enters seen requested m p m' i j ∧ m'.engine.row seen.path = some row ∧
        ∀ a, m.engine.approvalFor seen.record.id (clock i) = some a →
          (row.validUntil ≤ a.expiresAt ↔ m.engine.Holds a (clock j))) ∧
    (∀ obs v m', decideExec (.ok obs) m = (.ok v, m') → .operatorAuthorized ∈ v.decision.reasons →
      ∃ i j k row, Judges obs m v m' i j k ∧ m'.engine.row obs.path = some row ∧
        ∀ a, m.engine.approvalFor obs.record.id (clock i) = some a →
          (row.validUntil ≤ a.expiresAt ∧ (clock k).toNat + v.maxAgeSecs.toNat ≤ a.expiresAt.toNat + 1 ↔
            m.engine.Holds a (clock j) ∧ clock k ≤ a.expiresAt)) := by
  constructor
  · intro seen requested p m' hx _
    have ⟨i, j, e⟩ := process_enters hx
    refine ⟨i, j, _, e, ?_, fun a ha => e.validUntil_le_iff ho ha⟩
    rw [Engine.row, e.rows, SortedMap.get_insert_self]
  · intro obs v m' hx _
    have ⟨i, j, k, q⟩ := decideExec_judges hx
    have ⟨row, hr, hv⟩ := q.maxAge
    have ⟨seen, m₁, p, m₂, hp, hs, _, g, he, e, _, hi, _⟩ := q.entered
    refine ⟨i, j, k, row, q, hr, fun a ha => ?_⟩
    have hrow : row = m₁.engine.entry seen (m₁.host.oracle.clock j) := by
      rw [Engine.row, hi, e.rows, ← hp, SortedMap.get_insert_self] at hr
      exact (Option.some.inj hr).symm
    have hb := e.validUntil_le_iff (g.host.oracle ▸ ho) (by rwa [he, hs, g.host.oracle])
    rw [← hrow, g.host.oracle, he] at hb
    dsimp only at hv
    rw [hv, hb.and maxAge_le_iff]
    constructor
    case mp => exact fun ⟨h, hk, _⟩ => ⟨h, hk⟩
    case mpr =>
      intro ⟨h, hk⟩
      have := UInt64.le_iff_toNat_le.mp (hb.mpr h)
      exact ⟨h, hk, by omega⟩

end Engine

end

-- The approval expires between the decision and its row.
namespace Approved

open Installed

attribute [local instance] approving

theorem late_ascends : late.Ascends := by
  intro i j hij
  simp only [late]
  split_ifs
  case pos => exact UInt64.le_refl _
  case neg => decide
  case pos hi hj => omega
  case neg => exact UInt64.le_refl _

theorem decided_late : ∃ d e l given m v m', known = some ⟨d, some (e, l)⟩ ∧
    approve (fun _ => none) e l d = (.ok given, m) ∧
    decideLate m = (.ok v, m') ∧ .operatorAuthorized ∈ v.decision.reasons ∧ v.maxAgeSecs = 604800 ∧
    m'.engine.approvalFor observation.record.id 50 = some approval ∧
    (m'.engine.row "/opt/tool").map IndexRow.validUntil = some 605000 := by
  have ⟨⟨d, _⟩, hs, h⟩ := (Option.any_eq_true _ _).mp known_ok
  obtain ⟨⟨e, l⟩, rfl, h⟩ := (Option.any_eq_true _ _).mp h
  have ⟨h₁, h₂⟩ := Bool.and_eq_true_iff.mp h
  have ⟨given, hg, _⟩ := eq_ok_of_leaves (Bool.and_eq_true_iff.mp h₁).left
  have ⟨hl, ha, hu⟩ := of_decide_eq_true h₂
  have ⟨v, hv, hl⟩ := (Option.any_eq_true _ _).mp hl
  have ⟨hl, hm⟩ := of_decide_eq_true hl
  generalize hx : decideLate (approve (fun _ => none) e l d).2 = r at hv ha hu
  obtain ⟨_, m'⟩ := r
  cases Except.toOption_eq_some.mp hv
  refine ⟨d, e, l, given, _, v, m', hs, hg, hx, ?_, hm, ha, hu⟩
  -- A script of unknown origin is only admitted by an operator.
  have ⟨_, _, _, q⟩ := Engine.decideExec_judges hx
  have ⟨seen, _, p, _, _, hr, _, _, _, en, _, _, hd⟩ := q.entered
  have ⟨_, _, hp⟩ := en.evaluated
  rw [hd, hp] at hl ⊢
  exact operatorAuthorized_of_weak (congrArg AdmissionState.permitsNormalExecution hl) (by rw [hr]; rfl)

theorem authority_outlived : ∃ d e l given m v m' row, known = some ⟨d, some (e, l)⟩ ∧
    approve (fun _ => none) e l d = (.ok given, m) ∧
    decideLate m = (.ok v, m') ∧
    .operatorAuthorized ∈ v.decision.reasons ∧ m'.engine.approvalFor observation.record.id 50 = some approval ∧
    m'.engine.row "/opt/tool" = some row ∧ approval.expiresAt = 100 ∧ row.validUntil = 605000 ∧
    v.maxAgeSecs = 604800 := by
  have ⟨d, e, l, given, m, v, m', hs, hg, hx, hr, hm, ha, hu⟩ := decided_late
  have ⟨row, hrow, hu⟩ := Option.map_eq_some_iff.mp hu
  exact ⟨d, e, l, given, m, v, m', row, hs, hg, hx, hr, ha, hrow, rfl, hu, hm⟩

theorem authority_bounds_iff_late : ∃ m v m', decideLate m = (.ok v, m') ∧
    ∃ i j k row, Engine.Judges observation (System.machine m.dir m.engine m.host.ledger late) v m' i j k ∧
      m'.engine.row "/opt/tool" = some row ∧
      ∀ a, m.engine.approvalFor observation.record.id (late.clock i) = some a →
        (row.validUntil ≤ a.expiresAt ∧ (late.clock k).toNat + v.maxAgeSecs.toNat ≤ a.expiresAt.toNat + 1 ↔
          m.engine.Holds a (late.clock j) ∧ late.clock k ≤ a.expiresAt) := by
  have ⟨_, _, _, _, m, v, m', _, _, hx, hr, _⟩ := decided_late
  exact ⟨m, v, m', hx, (Engine.authority_bounds_iff (System.machine m.dir m.engine m.host.ledger late) late_ascends).right
    observation v m' hx hr⟩

end Approved
