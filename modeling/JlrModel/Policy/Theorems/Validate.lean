import JlrModel.Policy.Validate

theorem ProvenanceRank.satisfies_trans {a b c : ProvenanceRank} (h : a.satisfies b) (h' : b.satisfies c) :
    a.satisfies c := by
  have h := of_decide_eq_true h
  have h' := of_decide_eq_true h'
  exact decide_eq_true (UInt8.le_trans h h')

-- What the rules for one tier come to, as far as decisions depend on them.
structure Tier.Sound (t : Tier) : Prop where
  provenance : t.grantsRun → t.maxProvenance.satisfies .verifiedChecksum
  evidence   : t.grantsRun → t.requireEvidence ≠ []
  assignable : t.state ≠ .degraded ∧ t.state ≠ .revoked ∧ t.state ≠ .unknown
  cell       : t.grantsRun ∨ t.cell = .cell0
  network    : t.grantsRun ∨ t.network = .none

theorem Tier.sound_of_check {t : Tier} (h : t.check = .ok ()) : t.Sound := by
  have ⟨_, hp, h⟩ := Except.bind_eq_ok.mp h
  have ⟨_, he, h⟩ := Except.bind_eq_ok.mp h
  have ⟨_, ha, h⟩ := Except.bind_eq_ok.mp h
  have ⟨_, _, h⟩ := Except.bind_eq_ok.mp h
  have ⟨_, _, h⟩ := Except.bind_eq_ok.mp h
  have ⟨_, hc, h⟩ := Except.bind_eq_ok.mp h
  have ⟨_, _, h⟩ := Except.bind_eq_ok.mp h
  have ⟨_, hn, _⟩ := Except.bind_eq_ok.mp h
  exact {
    provenance := Except.ensure_eq_ok.mp hp
    evidence   := Except.ensure_eq_ok.mp he
    assignable := Except.ensure_eq_ok.mp ha
    cell       := Except.ensure_eq_ok.mp hc
    network    := Except.ensure_eq_ok.mp hn
  }

namespace Policy

theorem checkTiers_mem {rule : NameRule} {ts : List Tier} (h : checkTiers rule seen ts = .ok ()) (ht : t ∈ ts) :
    t.check = .ok () := by
  induction ts generalizing seen
  case nil => contradiction
  case cons t' ts ih =>
    have ⟨_, _, h⟩ := Except.bind_eq_ok.mp h
    have ⟨_, hc, h⟩ := Except.bind_eq_ok.mp h
    cases List.mem_cons.mp ht
    case inl he => exact he ▸ hc
    case inr ht => exact ih h ht

theorem checkTiers_name {rule : NameRule} {ts : List Tier} (h : checkTiers rule seen ts = .ok ()) (ht : t ∈ ts) :
    rule.tierNameOk t.name := by
  induction ts generalizing seen
  case nil => contradiction
  case cons t' ts ih =>
    have ⟨_, hn, h⟩ := Except.bind_eq_ok.mp h
    have ⟨_, _, h⟩ := Except.bind_eq_ok.mp h
    cases List.mem_cons.mp ht
    case inl he => exact he ▸ (Except.ensure_eq_ok.mp hn).left
    case inr ht => exact ih h ht

theorem checkTiers_mono {rule rule' : NameRule} {ts : List Tier}
    (hr : ∀ n, rule.tierNameOk n → rule'.tierNameOk n) (h : checkTiers rule seen ts = .ok ()) :
    checkTiers rule' seen ts = .ok () := by
  induction ts generalizing seen
  case nil => rfl
  case cons t ts ih =>
    have ⟨_, hn, h⟩ := Except.bind_eq_ok.mp h
    have ⟨_, hc, h⟩ := Except.bind_eq_ok.mp h
    have ⟨hn, hs⟩ := Except.ensure_eq_ok.mp hn
    refine Except.bind_eq_ok.mpr ⟨(), Except.ensure_eq_ok.mpr ⟨hr _ hn, hs⟩, ?_⟩
    exact Except.bind_eq_ok.mpr ⟨(), hc, ih h⟩

theorem Valid.mono {p : Policy} {rule rule' : NameRule} (v : p.Valid rule)
    (hn : ∀ n, rule.nameOk n → rule'.nameOk n) (ht : ∀ n, rule.tierNameOk n → rule'.tierNameOk n) :
    p.Valid rule' :=
  { v with name := hn _ v.name, tiers := checkTiers_mono ht v.tiers }

end Policy

theorem plainName_loaded {n : String} (h : plainName n) : n ≠ "" ∧ Text.len n ≤ 128 := by
  have ⟨hn, hl, _⟩ := of_decide_eq_true h
  exact ⟨hn, hl⟩

-- The rules for an installed policy ask for no more than those for a new one, or for a replacement.
theorem Policy.validateLoaded_of_validate {p : Policy} (h : p.validate = .ok ()) : p.validateLoaded = .ok () := by
  apply validateWith_ok_iff.mpr
  apply (validateWith_ok_iff.mp h).mono
  · intro n hn
    exact decide_eq_true (plainName_loaded hn)
  · intro n hn
    exact decide_eq_true (plainName_loaded hn).left

theorem Policy.validateLoaded_of_replacing {p installed : Policy} (h : p.validateReplacing installed = .ok ()) :
    p.validateLoaded = .ok () := by
  apply validateWith_ok_iff.mpr
  apply (validateWith_ok_iff.mp h).mono
  · intro n hn
    apply decide_eq_true
    cases of_decide_eq_true hn
    case inl hn => exact plainName_loaded hn
    case inr hn => exact hn.right
  · intro n hn
    apply decide_eq_true
    cases of_decide_eq_true hn
    case inl hn => exact (plainName_loaded hn).left
    case inr hn => exact hn.left

-- The names of a policy are plain or those that another one has in the same place.
structure Policy.Named (installed p : Policy) : Prop where
  name  : plainName p.name ∨ p.name = installed.name
  tiers : ∀ t ∈ p.tiers, plainName t.name ∨ ∃ t' ∈ installed.tiers, t'.name = t.name

namespace Policy.Named

variable {p₀ p p' : Policy}

theorem refl : Named p p where
  name       := .inr rfl
  tiers t ht := .inr ⟨t, ht, rfl⟩

theorem of_replacing (h : p'.validateReplacing p = .ok ()) : Named p p' where
  name       := (of_decide_eq_true (validateWith_ok_iff.mp h).name).imp_right And.left
  tiers t ht := by
    have hn := of_decide_eq_true (checkTiers_name (validateWith_ok_iff.mp h).tiers ht)
    refine hn.imp_right fun hn => ?_
    have ⟨t', ht', hn⟩ := List.any_eq_true.mp hn.right
    exact ⟨t', ht', of_decide_eq_true hn⟩

-- A replacement of a replacement has no other names.
theorem trans (h : Named p₀ p) (h' : Named p p') : Named p₀ p' where
  name       := h'.name.elim .inl fun hn => hn ▸ h.name
  tiers t ht := by
    obtain hn | ⟨t', ht', hn⟩ := h'.tiers t ht
    · exact .inl hn
    · exact hn ▸ h.tiers t' ht'

end Policy.Named

namespace ValidPolicy

variable {p : ValidPolicy} {t : Tier}

theorem sound_of_mem (h : t ∈ p.tiers) : t.Sound :=
  Tier.sound_of_check (Policy.checkTiers_mem p.rules.tiers h)

end ValidPolicy
