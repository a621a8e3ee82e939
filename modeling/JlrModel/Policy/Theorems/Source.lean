import JlrModel.Model.Theorems.Epn
import JlrModel.Policy.Source
import JlrModel.Policy.Theorems.Validate

-- A name for a variant, in either case.
def Coded.Names [DecidableEq α] [Coded α] (s : String) (a : α) : Prop :=
  Text.eqIgnoreAsciiCase s (asStr a)

-- No two variants have the same name, however it is written.
class Coded.Distinct (α : Type) [DecidableEq α] [Coded α] : Prop where
  names : ((ALL α).map fun a => (asStr a).toList.map Char.toLower).Nodup

namespace Coded

instance : Distinct ArtifactClass := ⟨by decide⟩
instance : Distinct ProvenanceRank := ⟨by decide⟩
instance : Distinct EvidenceKind := ⟨by decide⟩
instance : Distinct AdmissionState := ⟨by decide⟩
instance : Distinct CellClass := ⟨by decide⟩
instance : Distinct NetworkMode := ⟨by decide⟩
instance : Distinct ReasonCode := ⟨by decide⟩

variable [DecidableEq α] [Coded α] {s : String} {a b : α}

theorem eq_of_names [Distinct α] (ha : Names s a) (hb : Names s b) : a = b := by
  have ha := Text.eqIgnoreAsciiCase_iff.mp ha
  have hb := Text.eqIgnoreAsciiCase_iff.mp hb
  exact List.inj_on_of_nodup_map Distinct.names (mem_ALL a) (mem_ALL b) (ha.symm.trans hb)

theorem parse_eq_some_iff [Distinct α] : parse α s = some a ↔ Names s a where
  mp    := eqIgnoreAsciiCase_of_parse
  mpr h := by
    cases hp : parse α s
    case none => exact absurd h (List.find?_eq_none.mp hp a (mem_ALL a))
    case some b => exact congrArg some (eq_of_names (eqIgnoreAsciiCase_of_parse hp) h)

theorem names_asStr (a : α) : Names (asStr a) a :=
  Text.eqIgnoreAsciiCase_iff.mpr rfl

end Coded

theorem Except.mapM_eq_ok_iff {f : α → Except ε β} {as : List α} {bs : List β} :
    as.mapM f = .ok bs ↔ List.Forall₂ (fun a b => f a = .ok b) as bs := by
  induction as generalizing bs
  case nil => simp [pure, Except.pure, eq_comm]
  case cons a as ih =>
    rw [List.mapM_cons, List.forall₂_cons_left_iff, Except.bind_eq_ok]
    constructor
    case mp =>
      rintro ⟨b, hb, h⟩
      obtain ⟨bs', hbs, h⟩ := Except.bind_eq_ok.mp h
      exact ⟨b, bs', hb, ih.mp hbs, (Except.pure_eq_ok.mp h).symm⟩
    case mpr =>
      rintro ⟨b, bs', hb, hbs, rfl⟩
      exact ⟨b, hb, Except.bind_eq_ok.mpr ⟨bs', ih.mpr hbs, rfl⟩⟩

namespace PolicySource

open Coded

variable [DecidableEq α] [Coded α] [Distinct α] {what s : String} {a : α} {v : List String} {as : List α}

theorem parse_eq_ok_iff : parse what s = .ok a ↔ Names s a :=
  Except.okOr_eq_ok.trans parse_eq_some_iff

theorem list_eq_ok_iff : list what v = .ok as ↔ List.Forall₂ Names v as := by
  simp only [list, Except.mapM_eq_ok_iff, parse_eq_ok_iff]

end PolicySource

-- A source that says nothing else than a policy.
structure TierSource.Spells (s : TierSource) (t : Tier) : Prop where
  name            : s.name = t.name
  classes         : List.Forall₂ Coded.Names s.classes t.classes
  maxProvenance   : Coded.Names s.maxProvenance t.maxProvenance
  requireEvidence : List.Forall₂ Coded.Names s.requireEvidence t.requireEvidence
  state           : Coded.Names s.state t.state
  cell            : Coded.Names s.cell t.cell
  network         : Coded.Names s.network t.network
  needsUser       : s.needsUser = t.needsUser
  reason          : Coded.Names s.reason t.reason

structure PolicySource.Spells (s : PolicySource) (p : Policy) : Prop where
  schema              : p.schema = Policy.SCHEMA
  name                : s.name = p.name
  epoch               : s.epoch = p.epoch
  tiers               : List.Forall₂ TierSource.Spells s.tiers p.tiers
  blockClasses        : List.Forall₂ Coded.Names s.blockClasses p.blockClasses
  setuidMinProvenance : Coded.Names s.setuidMinProvenance p.setuidMinProvenance
  writablePathMaxCell : Coded.Names s.writablePathMaxCell p.writablePathMaxCell
  maxManualCell       : Coded.Names s.maxManualCell p.maxManualCell
  evidenceMaxAgeSecs  : s.evidenceMaxAgeSecs = p.evidenceMaxAgeSecs
  enforceExec         : s.enforceExec = p.enforceExec

open PolicySource in
theorem TierSource.compile_eq_ok_iff {s : TierSource} {t : Tier} : s.compile = .ok t ↔ s.Spells t := by
  constructor
  case mp =>
    intro h
    obtain ⟨_, hc, h⟩ := Except.bind_eq_ok.mp h
    obtain ⟨_, hp, h⟩ := Except.bind_eq_ok.mp h
    obtain ⟨_, he, h⟩ := Except.bind_eq_ok.mp h
    obtain ⟨_, hs, h⟩ := Except.bind_eq_ok.mp h
    obtain ⟨_, hl, h⟩ := Except.bind_eq_ok.mp h
    obtain ⟨_, hn, h⟩ := Except.bind_eq_ok.mp h
    obtain ⟨_, hr, h⟩ := Except.bind_eq_ok.mp h
    cases h
    exact ⟨rfl, list_eq_ok_iff.mp hc, parse_eq_ok_iff.mp hp, list_eq_ok_iff.mp he, parse_eq_ok_iff.mp hs,
      parse_eq_ok_iff.mp hl, parse_eq_ok_iff.mp hn, rfl, parse_eq_ok_iff.mp hr⟩
  case mpr =>
    intro h
    refine Except.bind_eq_ok.mpr ⟨_, list_eq_ok_iff.mpr h.classes, ?_⟩
    refine Except.bind_eq_ok.mpr ⟨_, parse_eq_ok_iff.mpr h.maxProvenance, ?_⟩
    refine Except.bind_eq_ok.mpr ⟨_, list_eq_ok_iff.mpr h.requireEvidence, ?_⟩
    refine Except.bind_eq_ok.mpr ⟨_, parse_eq_ok_iff.mpr h.state, ?_⟩
    refine Except.bind_eq_ok.mpr ⟨_, parse_eq_ok_iff.mpr h.cell, ?_⟩
    refine Except.bind_eq_ok.mpr ⟨_, parse_eq_ok_iff.mpr h.network, ?_⟩
    refine Except.bind_eq_ok.mpr ⟨_, parse_eq_ok_iff.mpr h.reason, ?_⟩
    rw [h.name, h.needsUser]
    rfl

theorem TierSource.spells_fromTier (t : Tier) : (fromTier t).Spells t where
  name            := rfl
  classes         := List.forall₂_map_left_iff.mpr (List.forall₂_same.mpr fun a _ => Coded.names_asStr a)
  maxProvenance   := Coded.names_asStr _
  requireEvidence := List.forall₂_map_left_iff.mpr (List.forall₂_same.mpr fun a _ => Coded.names_asStr a)
  state           := Coded.names_asStr _
  cell            := Coded.names_asStr _
  network         := Coded.names_asStr _
  needsUser       := rfl
  reason          := Coded.names_asStr _

namespace PolicySource

variable {s s' : PolicySource} {p p' : Policy}

theorem compile_eq_ok_iff : s.compile = .ok p ↔ s.Spells p ∧ p.validate = .ok () := by
  constructor
  case mp =>
    intro h
    obtain ⟨_, ht, h⟩ := Except.bind_eq_ok.mp h
    obtain ⟨_, hb, h⟩ := Except.bind_eq_ok.mp h
    obtain ⟨_, hs, h⟩ := Except.bind_eq_ok.mp h
    obtain ⟨_, hw, h⟩ := Except.bind_eq_ok.mp h
    obtain ⟨_, hm, h⟩ := Except.bind_eq_ok.mp h
    obtain ⟨_, hv, h⟩ := Except.bind_eq_ok.mp h
    cases h
    have ht := (Except.mapM_eq_ok_iff.mp ht).imp fun _ _ => TierSource.compile_eq_ok_iff.mp
    exact ⟨⟨rfl, rfl, rfl, ht, list_eq_ok_iff.mp hb, parse_eq_ok_iff.mp hs, parse_eq_ok_iff.mp hw,
      parse_eq_ok_iff.mp hm, rfl, rfl⟩, Except.mapError_eq_ok.mp hv⟩
  case mpr =>
    rintro ⟨h, hv⟩
    have ht := h.tiers.imp fun _ _ => TierSource.compile_eq_ok_iff.mpr
    refine Except.bind_eq_ok.mpr ⟨_, Except.mapM_eq_ok_iff.mpr ht, ?_⟩
    refine Except.bind_eq_ok.mpr ⟨_, list_eq_ok_iff.mpr h.blockClasses, ?_⟩
    refine Except.bind_eq_ok.mpr ⟨_, parse_eq_ok_iff.mpr h.setuidMinProvenance, ?_⟩
    refine Except.bind_eq_ok.mpr ⟨_, parse_eq_ok_iff.mpr h.writablePathMaxCell, ?_⟩
    refine Except.bind_eq_ok.mpr ⟨_, parse_eq_ok_iff.mpr h.maxManualCell, ?_⟩
    rw [← h.schema, h.name, h.epoch, h.evidenceMaxAgeSecs, h.enforceExec]
    exact Except.bind_eq_ok.mpr ⟨(), Except.mapError_eq_ok.mpr hv, rfl⟩

theorem spells_fromPolicy (hs : p.schema = Policy.SCHEMA) : (fromPolicy p).Spells p where
  schema              := hs
  name                := rfl
  epoch               := rfl
  tiers               := List.forall₂_map_left_iff.mpr (List.forall₂_same.mpr fun t _ => TierSource.spells_fromTier t)
  blockClasses        := List.forall₂_map_left_iff.mpr (List.forall₂_same.mpr fun a _ => Coded.names_asStr a)
  setuidMinProvenance := Coded.names_asStr _
  writablePathMaxCell := Coded.names_asStr _
  maxManualCell       := Coded.names_asStr _
  evidenceMaxAgeSecs  := rfl
  enforceExec         := rfl

theorem checkTiers_of_names {rule rule' : NameRule} {seen : List String} {ts : List Tier}
    (hn : ∀ t ∈ ts, rule'.tierNameOk t.name) (h : Policy.checkTiers rule seen ts = .ok ()) :
    Policy.checkTiers rule' seen ts = .ok () := by
  induction ts generalizing seen
  case nil => rfl
  case cons t ts ih =>
    obtain ⟨_, hs, h⟩ := Except.bind_eq_ok.mp h
    obtain ⟨_, hc, h⟩ := Except.bind_eq_ok.mp h
    have hs := (Except.ensure_eq_ok.mp hs).right
    have hn := List.forall_mem_cons.mp hn
    refine Except.bind_eq_ok.mpr ⟨(), Except.ensure_eq_ok.mpr ⟨hn.left, hs⟩, ?_⟩
    exact Except.bind_eq_ok.mpr ⟨(), hc, ih hn.right h⟩

-- The rules for a new policy are those for an installed one, and that every name is plain.
theorem validate_iff_loaded : p.validate = .ok () ↔
    p.validateLoaded = .ok () ∧ plainName p.name ∧ ∀ t ∈ p.tiers, plainName t.name := by
  rw [Policy.validate, Policy.validateLoaded, Policy.validateWith_ok_iff, Policy.validateWith_ok_iff]
  constructor
  case mp =>
    intro v
    refine ⟨v.mono ?_ ?_, v.name, fun t ht => Policy.checkTiers_name v.tiers ht⟩
    · exact fun n hn => decide_eq_true (plainName_loaded hn)
    · exact fun n hn => decide_eq_true (plainName_loaded hn).left
  case mpr =>
    rintro ⟨v, hn, ht⟩
    exact { v with name := hn, tiers := checkTiers_of_names ht v.tiers }

theorem fromPolicy_compile : (fromPolicy p).compile = .ok p ↔ p.validate = .ok () := by
  rw [compile_eq_ok_iff]
  refine ⟨And.right, fun h => ⟨spells_fromPolicy ?_, h⟩⟩
  exact (Policy.validateWith_ok_iff.mp h).schema

-- What is compiled is the one policy that the source spells, if that is valid as a new one. So an installed policy can
-- be shown, given another epoch and set again exactly if all of its names are plain.
theorem compile_exact (s : PolicySource) (q : Policy) (p : ValidPolicy) (epoch : UInt64) :
    (s.compile = .ok q ↔ s.Spells q ∧ q.validate = .ok ()) ∧
    (compile { fromPolicy p.toPolicy with epoch } = .ok { p.toPolicy with epoch } ↔
      epoch ≠ 0 ∧ plainName p.name ∧ ∀ t ∈ p.tiers, plainName t.name) := by
  refine ⟨compile_eq_ok_iff, ?_⟩
  have hp : ({ p.toPolicy with epoch } : Policy).validateLoaded = .ok () ↔ epoch ≠ 0 := by
    rw [Policy.validateLoaded, Policy.validateWith_ok_iff]
    exact ⟨fun v => v.epoch, fun he => { p.rules with epoch := he }⟩
  have hc := fromPolicy_compile (p := { p.toPolicy with epoch })
  rw [validate_iff_loaded, hp] at hc
  exact hc

end PolicySource
