import JlrModel.Policy.Evaluate
import JlrModel.Policy.Theorems.Validate

open Cbor

namespace ValidPolicy

variable {p : ValidPolicy} {f : Facts}

theorem tier_mem : p.tier f ∈ p.tiers := by
  unfold tier
  cases h : p.tiers.find? (·.matchesFacts f)
  case none => exact List.getLast_mem _
  case some t => exact List.mem_of_find?_eq_some h

theorem matchesFacts_of_matchesAll {t : Tier} (h : t.matchesAll) : t.matchesFacts f := by
  have ⟨hc, hp, he⟩ := of_decide_eq_true h
  apply decide_eq_true
  refine ⟨.inl hc, ?_, ?_⟩
  · rw [hp]
    cases f.artifact.provenance <;> decide
  · rw [he]
    rfl

-- The last tier matches, so that there is always a tier that does.
theorem tier_matches : (p.tier f).matchesFacts f := by
  unfold tier
  cases h : p.tiers.find? (·.matchesFacts f)
  case none => exact matchesFacts_of_matchesAll p.rules.catchAll
  case some t => exact List.find?_some (p := (Tier.matchesFacts · f)) h

end ValidPolicy

namespace Draft

variable {p : ValidPolicy} {f : Facts} {d : Draft}

-- Whether the setuid guard holds the artifact back.
def setuidHeld (p : ValidPolicy) (f : Facts) : Prop :=
  f.has .setuidBit ∧ ¬ f.artifact.provenance.satisfies p.setuidMinProvenance

theorem state_guardSetuid_of_held (h : setuidHeld p f) : (guardSetuid p f d).state = .quarantined := by
  have h : f.has .setuidBit ∧ ¬ f.artifact.provenance.satisfies p.setuidMinProvenance := h
  rw [guardSetuid, if_pos h]

theorem guardSetuid_of_not_held (h : ¬ setuidHeld p f) : guardSetuid p f d = d :=
  if_neg h

@[simp]
theorem state_guardWritable : (guardWritable p f d).state = d.state := by
  unfold guardWritable
  split <;> rfl

@[simp]
theorem state_request {c : Capability} : (request f d c).state = d.state := by
  unfold request
  split <;> rfl

theorem state_requests {cs : List Capability} : (cs.foldl (request f) d).state = d.state := by
  induction cs generalizing d
  case nil => rfl
  case cons c cs ih => rw [List.foldl_cons, ih, state_request]

@[simp]
theorem state_grantRequested : (grantRequested f d).state = d.state := by
  unfold grantRequested
  split
  case isTrue => exact state_requests
  case isFalse => rfl

theorem state_automatic : (automatic p f).state = (guardSetuid p f (base p f)).state := by
  simp [automatic]

theorem automatic_of_tier (hi : f.has .signatureInvalid = false) (hs : ¬ setuidHeld p f) :
    (automatic p f).state = (p.tier f).state := by
  rw [state_automatic, guardSetuid_of_not_held hs, base, if_neg (by simp [hi])]
  rfl

-- The tier says what becomes of an artifact that is not quarantined.
theorem automatic_inv (h : (automatic p f).state ≠ .quarantined) :
    f.has .signatureInvalid = false ∧ ¬ setuidHeld p f ∧ (automatic p f).state = (p.tier f).state := by
  have hs : ¬ setuidHeld p f := fun hs => h (state_automatic.trans (state_guardSetuid_of_held hs))
  have hi : f.has .signatureInvalid = false := by
    by_contra hi
    rw [state_automatic, guardSetuid_of_not_held hs, base, if_pos (by simpa using hi)] at h
    exact h rfl
  exact ⟨hi, hs, automatic_of_tier hi hs⟩

-- Without an operator, only a tier lets an artifact run.
theorem automatic_promotes (h : (automatic p f).state.permitsNormalExecution) :
    f.has .signatureInvalid = false ∧ ¬ setuidHeld p f ∧ (automatic p f).state = (p.tier f).state := by
  refine automatic_inv fun hq => ?_
  rw [hq] at h
  contradiction

-- A tier that lets an artifact run asks for its provenance.
theorem automatic_provenance (h : (automatic p f).state.permitsNormalExecution) :
    f.artifact.provenance.satisfies .verifiedChecksum := by
  have ⟨_, _, he⟩ := automatic_promotes h
  have ht := p.sound_of_mem (p.tier_mem (f := f))
  have ⟨_, hpr, _⟩ := of_decide_eq_true (p.tier_matches (f := f))
  have hgr : (p.tier f).grantsRun := by rwa [Tier.grantsRun, ← he]
  exact ProvenanceRank.satisfies_trans hpr (ht.provenance hgr)

end Draft

section

variable [Crypto] {p : ValidPolicy} {f : Facts} {now : UInt64}

theorem Facts.verdict_eq_none_iff :
    f.verdict p = none ↔
    (f.revocations.hit f.artifact = none ∧ f.has .revocationHit = false) ∧ f.prior ≠ some .revoked ∧
    f.has .contentDigestMismatch = false ∧ f.has .forbiddenBehavior = false ∧ f.artifact.cls ∉ p.blockClasses := by
  unfold Facts.verdict
  constructor
  case mp =>
    intro h
    split_ifs at h with hr hp hm hf
    have ⟨hr, hr'⟩ := not_or.mp hr
    have ⟨hf, hb⟩ := not_or.mp hf
    exact ⟨⟨by simpa using hr, by simpa using hr'⟩, hp, by simpa using hm, by simpa using hf, hb⟩
  case mpr =>
    intro ⟨⟨hr, hr'⟩, hp, hm, hf, hb⟩
    simp [hr, hr', hp, hm, hf, hb]

-- A verdict never lets an artifact run.
theorem Facts.verdict_holds {d : Draft} (h : f.verdict p = some d) : d.state.permitsNormalExecution = false := by
  unfold Facts.verdict at h
  split_ifs at h <;> cases h <;> rfl

theorem Facts.grant_eq_some {a : Approval} (h : f.grant now = some a) :
    f.approval = some a ∧ a.epn = f.artifact.id.display ∧ now < a.expiresAt := by
  have ⟨ha, hp⟩ := Option.filter_eq_some_iff.mp h
  exact ⟨ha, of_decide_eq_true hp⟩

theorem Draft.decide_of_verdict {d : Draft} (h : f.verdict p = some d) : decide p f now = d := by
  simp only [decide, h]

theorem Draft.decide_automatic (h : f.verdict p = none) (hg : f.grant now = none) :
    decide p f now = automatic p f := by
  simp only [decide, h, hg]

-- What nobody has approved does not run without provenance.
theorem evaluate_of_weak (ha : f.approval = none) (hp : f.artifact.provenance.satisfies .verifiedChecksum = false) :
    (evaluate p f now).state.permitsNormalExecution = false := by
  change (Draft.decide p f now).state.permitsNormalExecution = false
  cases hv : f.verdict p
  case some d => rw [Draft.decide_of_verdict hv, Facts.verdict_holds hv]
  case none =>
    have hg : f.grant now = none := by rw [Facts.grant, ha]; rfl
    rw [Draft.decide_automatic hv hg]
    by_contra hr
    rw [Draft.automatic_provenance (by simpa using hr)] at hp
    contradiction

-- Nothing runs without evidence that a tier asks for or the authority of an operator, and nothing that
-- is revoked, changed or prohibited runs at all.
theorem promotion_has_grounds (p : ValidPolicy) (f : Facts) (now : UInt64)
    (h : (evaluate p f now).state = .verified ∨ (evaluate p f now).state = .admitted) :
    ((∃ a, f.approval = some a ∧ a.epn = f.artifact.id.display ∧ now < a.expiresAt) ∨
      (∃ t ∈ p.tiers, t.state = (evaluate p f now).state ∧
        t.requireEvidence ≠ [] ∧ (∀ k ∈ t.requireEvidence, f.has k) ∧
        (t.classes = [] ∨ f.artifact.cls ∈ t.classes) ∧
        f.artifact.provenance.satisfies .verifiedChecksum ∧
        f.artifact.provenance.satisfies t.maxProvenance) ∧
      ¬ f.has .signatureInvalid ∧
      ¬ (f.has .setuidBit ∧ ¬ f.artifact.provenance.satisfies p.setuidMinProvenance)) ∧
    f.revocations.hit f.artifact = none ∧ ¬ f.has .revocationHit ∧ ¬ f.has .contentDigestMismatch ∧
    ¬ f.has .forbiddenBehavior ∧ f.artifact.cls ∉ p.blockClasses ∧ f.prior ≠ some .revoked := by
  have hrun : (Draft.decide p f now).state.permitsNormalExecution := by
    change (evaluate p f now).state.permitsNormalExecution
    cases h
    case inl h => rw [h]; rfl
    case inr h => rw [h]; rfl
  cases hv : f.verdict p
  case some d =>
    rw [Draft.decide_of_verdict hv, Facts.verdict_holds hv] at hrun
    contradiction
  case none =>
    have ⟨⟨hh, hr⟩, hp, hm, hf, hb⟩ := Facts.verdict_eq_none_iff.mp hv
    refine ⟨?_, hh, by simp [hr], by simp [hm], by simp [hf], hb, hp⟩
    cases hg : f.grant now
    case some a => exact .inl ⟨a, Facts.grant_eq_some hg⟩
    case none =>
      have hd := Draft.decide_automatic hv hg
      rw [hd] at hrun
      have ⟨hi, hs, he⟩ := Draft.automatic_promotes hrun
      have ht := p.sound_of_mem (p.tier_mem (f := f))
      have ⟨hc, hpr, hev⟩ := of_decide_eq_true (p.tier_matches (f := f))
      have hgr : (p.tier f).grantsRun := by rwa [Tier.grantsRun, ← he]
      refine .inr ⟨⟨p.tier f, p.tier_mem, ?_, ht.evidence hgr, ?_, hc, Draft.automatic_provenance hrun, hpr⟩,
        by simp [hi], hs⟩
      · change _ = (Draft.decide p f now).state
        rw [hd, he]
      · exact List.all_eq_true.mp hev

omit [Crypto] in
theorem Draft.automatic_state (p : ValidPolicy) (f : Facts) :
    (automatic p f).state = .quarantined ∨ (automatic p f).state = (p.tier f).state := by
  by_cases hq : (automatic p f).state = .quarantined
  · exact .inl hq
  · exact .inr (automatic_inv hq).right.right

-- A tier neither revokes nor degrades, and the guards do not either.
omit [Crypto] in
theorem Draft.automatic_assignable :
    (automatic p f).state ≠ .degraded ∧ (automatic p f).state ≠ .revoked ∧ (automatic p f).state ≠ .unknown := by
  obtain hs | hs := automatic_state p f <;> rw [hs]
  · decide
  · exact (p.sound_of_mem (p.tier_mem (f := f))).assignable

omit [Crypto] in
theorem Draft.automatic_blocked_iff : (automatic p f).state = .policyBlocked ↔
    f.has .signatureInvalid = false ∧ ¬ setuidHeld p f ∧ (p.tier f).state = .policyBlocked where
  mp h := by
    have hq : (automatic p f).state ≠ .quarantined := by rw [h]; decide
    have ⟨hi, hs, ht⟩ := automatic_inv hq
    exact ⟨hi, hs, ht.symm.trans h⟩
  mpr h := (automatic_of_tier h.left h.right.left).trans h.right.right

-- Every decision is about a state that the state machine leads to, and a revoked artifact stays revoked.
theorem evaluate_state_ne_unknown : (evaluate p f now).state ≠ .unknown := by
  change (Draft.decide p f now).state ≠ _
  cases hv : f.verdict p
  case some d =>
    rw [Draft.decide_of_verdict hv]
    unfold Facts.verdict at hv
    split_ifs at hv <;> cases hv <;> nofun
  case none =>
    cases hg : f.grant now
    case none =>
      rw [Draft.decide_automatic hv hg]
      exact Draft.automatic_assignable.right.right
    case some a =>
      simp only [Draft.decide, hv, hg, Draft.approve]
      nofun

theorem evaluate_of_revoked (h : f.prior = some .revoked) : (evaluate p f now).state = .revoked := by
  change (Draft.decide p f now).state = _
  have hv : ∃ d, f.verdict p = some d ∧ d.state = .revoked := by
    unfold Facts.verdict
    split_ifs
    · exact ⟨_, rfl, rfl⟩
    · exact ⟨_, rfl, rfl⟩
  have ⟨d, hd, hs⟩ := hv
  rw [Draft.decide_of_verdict hd, hs]

theorem evaluate_of_hit (h : (f.revocations.hit f.artifact).isSome) : (evaluate p f now).state = .revoked := by
  change (Draft.decide p f now).state = _
  have hv : f.verdict p = some (.held .revoked .revoked .policy) := if_pos (.inl h)
  rw [Draft.decide_of_verdict hv]
  rfl

-- The artifact is prohibited by its tier, and nothing but the tier has decided about it.
structure Facts.TierBlocked (f : Facts) (p : ValidPolicy) : Prop where
  unrevoked : (f.revocations.hit f.artifact = none ∧ f.has .revocationHit = false) ∧ f.prior ≠ some .revoked
  unchanged : f.has .contentDigestMismatch = false
  permitted : f.has .forbiddenBehavior = false ∧ f.artifact.cls ∉ p.blockClasses
  signature : f.has .signatureInvalid = false
  setuid    : ¬ (f.has .setuidBit ∧ ¬ f.artifact.provenance.satisfies p.setuidMinProvenance)
  tier      : (p.tier f).state = .policyBlocked

theorem Facts.tierBlocked_iff :
    f.TierBlocked p ↔ f.verdict p = none ∧ (Draft.automatic p f).state = .policyBlocked where
  mp h :=
    ⟨verdict_eq_none_iff.mpr ⟨h.unrevoked.left, h.unrevoked.right, h.unchanged, h.permitted⟩,
      Draft.automatic_blocked_iff.mpr ⟨h.signature, h.setuid, h.tier⟩⟩
  mpr h := by
    have ⟨hr, hp, hc, hf⟩ := verdict_eq_none_iff.mp h.left
    have ⟨hi, hs, ht⟩ := Draft.automatic_blocked_iff.mp h.right
    exact ⟨⟨hr, hp⟩, hc, hf, hi, hs, ht⟩

-- Neither the verdict nor the automatic decision looks at the approval.
theorem Draft.decide_unapproved (h : f.verdict p = none) :
    decide p { f with approval := none } now = automatic p f :=
  decide_automatic h rfl

theorem Draft.decide_approved {a : Approval} (h : f.verdict p = none) :
    decide p { f with approval := some a } now =
    if a.appliesTo f.artifact.id now then (automatic p f).approve p a else automatic p f := by
  have hv : Facts.verdict { f with approval := some a } p = none := h
  have hg : Facts.grant { f with approval := some a } now = if a.appliesTo f.artifact.id now then some a else none :=
    Option.filter_some
  simp only [decide, hv, hg]
  cases a.appliesTo f.artifact.id now <;> rfl

-- An approval lifts a prohibition exactly if it applies and only the tier prohibits the artifact.
theorem approval_lifts_nothing_iff (p : Policy) (hp : p.validate = .ok ()) (f : Facts) (a : Approval) (now : UInt64) :
    ((evaluate ⟨p, Policy.validateLoaded_of_validate hp⟩ { f with approval := none } now).state ∈
        [AdmissionState.revoked, .policyBlocked, .degraded] →
      (evaluate ⟨p, Policy.validateLoaded_of_validate hp⟩ { f with approval := some a } now).state =
      (evaluate ⟨p, Policy.validateLoaded_of_validate hp⟩ { f with approval := none } now).state) ↔
    ¬ (f.TierBlocked ⟨p, Policy.validateLoaded_of_validate hp⟩ ∧ a.appliesTo f.artifact.id now) := by
  generalize (⟨p, Policy.validateLoaded_of_validate hp⟩ : ValidPolicy) = q
  change ((Draft.decide q { f with approval := none } now).state ∈ _ →
    (Draft.decide q { f with approval := some a } now).state =
    (Draft.decide q { f with approval := none } now).state) ↔ _
  rw [Facts.tierBlocked_iff]
  cases hv : f.verdict q
  case some d =>
    have hv' : ∀ approval, Facts.verdict { f with approval } q = some d := fun _ => hv
    rw [Draft.decide_of_verdict (hv' _), Draft.decide_of_verdict (hv' _)]
    simp
  case none =>
    rw [Draft.decide_unapproved hv, Draft.decide_approved hv]
    cases a.appliesTo f.artifact.id now
    case false => simp
    case true =>
      have ⟨hd, hr, _⟩ := Draft.automatic_assignable (p := q) (f := f)
      have hs : ((Draft.automatic q f).approve q a).state = .admitted := rfl
      simp only [if_true, hs, List.mem_cons, List.not_mem_nil, hr, hd, or_false, false_or, true_and, and_true]
      constructor
      case mp =>
        intro h hb
        cases (h hb).trans hb
      case mpr => exact fun h hb => absurd hb h

end

-- A policy with a tier that prohibits scripts, and the digests of what is evaluated under it.
namespace Sample

def policy : Policy where
  schema              := 1
  name                := "p"
  epoch               := 1
  tiers               := [
    ⟨"blocked", [.script], .unknown, [], .policyBlocked, .cell0, .none, false, .policyProhibition⟩,
    ⟨"signed", [], .distroSigned, [.packageSignature], .verified, .cell1, .none, false, .managedInstall⟩,
    ⟨"default", [], .unknown, [], .quarantined, .cell0, .none, true, .noProvenance⟩
  ]
  blockClasses        := []
  setuidMinProvenance := .distroSigned
  writablePathMaxCell := .cell1
  maxManualCell       := .cell2
  evidenceMaxAgeSecs  := 604800
  enforceExec         := false

theorem validate_policy : policy.validate = .ok () := by
  decide +kernel

def source (channel : String) (path : String) : Source where
  channel := channel
  origin  := none
  path    := some path

def content : Digest :=
  ⟨Bytes.fixed 32 0x2d711642b726b04401627ca9fbac32f5c8530fb1903cc4db02258717921a4881⟩

def script : EpnRecord where
  schema       := 1
  cls          := .script
  name         := "s"
  version      := none
  size         := 1
  digest       := content
  provenance   := .unknown
  signer       := none
  source       := source "unmanaged" "/s"
  dependencies := []

def exe : EpnRecord where
  schema       := 1
  cls          := .exe
  name         := "e"
  version      := none
  size         := 1
  digest       := content
  provenance   := .distroSigned
  signer       := none
  source       := source "unmanaged" "/e"
  dependencies := []

def digests : List (Bytes × Bytes.Fixed 32) := [
  (toCbor policy, Bytes.fixed 32 0xe6f182f9392b00275681e9e4e4ffa1707172303b37bc197ffc0062992f3d3653),
  (toCbor script, Bytes.fixed 32 0xa806547967658091d5cd77f9ecf9e2ce3760a3e67cb2160d4fb561a5618a237b),
  (toCbor exe, Bytes.fixed 32 0xf27d826ea71a02d69a15ea1ddab1d044e0d489699c4d6c94e4de72f277a04f0f)
]

abbrev crypto : Crypto where
  sha256 data        := (digests.lookup data).getD (Bytes.fixed 32 0)
  publicKey _        := Bytes.fixed 32 0
  isPoint _          := false
  sign _ _           := Bytes.fixed 64 0
  verifyStrict _ _ _ := false

attribute [local instance] crypto

def facts (artifact : EpnRecord) (kinds : List EvidenceKind) : Facts where
  artifact    := artifact
  evidence    := kinds.map fun kind => ⟨kind, "s", 0, "", none⟩
  requested   := []
  prior       := none
  revocations := .empty
  approval    := none

def approval : Approval where
  epn          := "EPN-1-SCRIPT-a806547967658091d5cd77f9ecf9e2ce3760a3e67cb2160d4fb561a5618a237b"
  cell         := .cell1
  network      := .none
  capabilities := []
  expiresAt    := 1
  grantedBy    := "o"

def valid : ValidPolicy :=
  ⟨policy, Policy.validateLoaded_of_validate validate_policy⟩

theorem promotion_has_grounds_signed :
    (evaluate valid (facts exe [.packageSignature]) 0).state = .verified ∧
    ∃ t ∈ policy.tiers, t.state = .verified ∧ t.requireEvidence ≠ [] := by
  have h : (evaluate valid (facts exe [.packageSignature]) 0).state = .verified := by decide +kernel
  have ⟨hg, _⟩ := promotion_has_grounds valid _ 0 (.inl h)
  cases hg
  case inl hg =>
    have ⟨a, ha, _⟩ := hg
    contradiction
  case inr hg =>
    have ⟨⟨t, ht, hs, he, _⟩, _⟩ := hg
    exact ⟨h, t, ht, hs.trans h, he⟩

-- The tier prohibits the script, and with an approval it is admitted all the same.
theorem approval_lifts_tier :
    (evaluate valid (facts script []) 0).state = .policyBlocked ∧
    (evaluate valid { facts script [] with approval := some approval } 0).state = .admitted := by
  constructor <;> decide +kernel

-- A prohibition for the script itself stays, under the same tier.
theorem approval_lifts_nothing_forbidden :
    (valid.tier (facts script [.forbiddenBehavior])).state = .policyBlocked ∧
    (evaluate valid (facts script [.forbiddenBehavior]) 0).state = .policyBlocked ∧
    (evaluate valid { facts script [.forbiddenBehavior] with approval := some approval } 0).state =
      .policyBlocked := by
  have h : (evaluate valid (facts script [.forbiddenBehavior]) 0).state = .policyBlocked := by decide +kernel
  have ha := (approval_lifts_nothing_iff policy validate_policy (facts script [.forbiddenBehavior]) approval 0).mpr
    fun hb => absurd hb.left.permitted.left (by decide)
  exact ⟨by decide, h, (ha (by decide +kernel)).trans h⟩

end Sample
