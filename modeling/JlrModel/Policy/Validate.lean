import JlrModel.Model.Sanitize
import JlrModel.Policy.Policy

open Cbor

-- The rules that a policy breaks, with the data that their texts quote.
inductive PolicyError
  | unsupportedSchema (schema : UInt32)
  | badName
  | zeroEpoch
  | noTiers
  | tooManyTiers
  | notCatchAll
  | manualCellR
  | badTierName (name : String)
  | weakProvenance (tier : String) (state : AdmissionState)
  | noEvidence (tier : String)
  | notAssignable (tier : String) (state : AdmissionState)
  | tierCellR (tier : String)
  | inconsistent (tier : String)
  | notCell0 (tier : String) (state : AdmissionState)
  | unattendedCell3 (tier : String)
  | unexpectedNetwork (tier : String) (state : AdmissionState)
  | unattendedPrivilegedNetwork (tier : String)
  deriving DecidableEq

-- Which names a policy may carry.
inductive NameRule
  | strict
  | loaded
  | carry (installed : Policy)

def plainName (name : String) : Bool :=
  name ≠ "" ∧ Text.len name ≤ 128 ∧ name.toList.all fun c => c.isAlphanum ∨ c ∈ ['.', '_', '-']

namespace NameRule

def nameOk : NameRule → String → Bool
  | strict, n    => plainName n
  | loaded, n    => n ≠ "" ∧ Text.len n ≤ 128
  | carry old, n => plainName n ∨ (n = old.name ∧ n ≠ "" ∧ Text.len n ≤ 128)

def tierNameOk : NameRule → String → Bool
  | strict, n    => plainName n
  | loaded, n    => n ≠ ""
  | carry old, n => plainName n ∨ (n ≠ "" ∧ old.tiers.any (·.name = n))

end NameRule

namespace CellClass

-- The order of the variants.
instance : LE CellClass := ⟨fun a b => Coded.code a ≤ Coded.code b⟩
instance : LT CellClass := ⟨fun a b => Coded.code a < Coded.code b⟩
instance (a b : CellClass) : Decidable (a ≤ b) := inferInstanceAs (Decidable (Coded.code a ≤ Coded.code b))
instance (a b : CellClass) : Decidable (a < b) := inferInstanceAs (Decidable (Coded.code a < Coded.code b))

end CellClass

namespace Tier

def grantsRun (t : Tier) : Bool :=
  t.state.permitsNormalExecution

-- Whether every artifact has what the tier asks for.
def matchesAll (t : Tier) : Bool :=
  t.classes = [] ∧ t.maxProvenance = .unknown ∧ t.requireEvidence = []

-- The rules for one tier other than its name, in their order.
def check (t : Tier) : Except PolicyError Unit := do
  Except.ensure (t.grantsRun → t.maxProvenance.satisfies .verifiedChecksum) (.weakProvenance t.name t.state)
  Except.ensure (t.grantsRun → t.requireEvidence ≠ []) (.noEvidence t.name)
  Except.ensure (t.state ≠ .degraded ∧ t.state ≠ .revoked ∧ t.state ≠ .unknown) (.notAssignable t.name t.state)
  Except.ensure (t.cell ≠ .cellR) (.tierCellR t.name)
  Except.ensure (¬ (.cell2 ≤ t.cell ∧ ¬ t.grantsRun ∧ t.state ≠ .observed ∧ t.state ≠ .quarantined))
    (.inconsistent t.name)
  Except.ensure (t.grantsRun ∨ t.cell = .cell0) (.notCell0 t.name t.state)
  Except.ensure (t.cell = .cell3 → t.needsUser ∨
    (.managedInstaller ∈ t.requireEvidence ∧ .packageSignature ∈ t.requireEvidence)) (.unattendedCell3 t.name)
  Except.ensure (t.grantsRun ∨ t.network = .none) (.unexpectedNetwork t.name t.state)
  Except.ensure (t.network = .privilegedNetwork → t.needsUser) (.unattendedPrivilegedNetwork t.name)

end Tier

namespace Policy

def SCHEMA : UInt32 := 1

def digest [Crypto] (p : Policy) : Digest :=
  Digest.of (toCbor p)

-- The tiers in their order, where `seen` are the names of those before.
def checkTiers (rule : NameRule) : (seen : List String) → List Tier → Except PolicyError Unit
  | _, []          => .ok ()
  | seen, t :: ts => do
    Except.ensure (rule.tierNameOk t.name ∧ t.name ∉ seen) (.badTierName (sanitize t.name))
    t.check
    checkTiers rule (t.name :: seen) ts

def validateWith (p : Policy) (rule : NameRule) : Except PolicyError Unit := do
  Except.ensure (p.schema = SCHEMA) (.unsupportedSchema p.schema)
  Except.ensure (rule.nameOk p.name) .badName
  Except.ensure (p.epoch ≠ 0) .zeroEpoch
  let last ← Except.okOr .noTiers p.tiers.getLast?
  Except.ensure (p.tiers.length ≤ 64) .tooManyTiers
  Except.ensure last.matchesAll .notCatchAll
  Except.ensure (p.maxManualCell ≤ .cell3) .manualCellR
  checkTiers rule [] p.tiers

-- A new policy.
def validate (p : Policy) : Except PolicyError Unit :=
  p.validateWith .strict

-- A policy that replaces `installed`, whose names it may keep.
def validateReplacing (p installed : Policy) : Except PolicyError Unit :=
  p.validateWith (.carry installed)

-- A policy that was signed and installed before.
def validateLoaded (p : Policy) : Except PolicyError Unit :=
  p.validateWith .loaded

end Policy

-- A policy that decisions may be based on.
structure ValidPolicy extends Policy where
  valid : toPolicy.validateLoaded = .ok ()

-- What the rules come to.
structure Policy.Valid (p : Policy) (rule : NameRule) : Prop where
  schema    : p.schema = Policy.SCHEMA
  name      : rule.nameOk p.name
  epoch     : p.epoch ≠ 0
  nonempty  : p.tiers ≠ []
  length_le : p.tiers.length ≤ 64
  catchAll  : (p.tiers.getLast nonempty).matchesAll
  manual    : p.maxManualCell ≤ .cell3
  tiers     : Policy.checkTiers rule [] p.tiers = .ok ()

theorem Policy.validateWith_ok_iff {p : Policy} {rule : NameRule} : p.validateWith rule = .ok () ↔ p.Valid rule where
  mp h := by
    have ⟨_, hs, h⟩ := Except.bind_eq_ok.mp h
    have ⟨_, hn, h⟩ := Except.bind_eq_ok.mp h
    have ⟨_, he, h⟩ := Except.bind_eq_ok.mp h
    have ⟨last, hl, h⟩ := Except.bind_eq_ok.mp h
    have ⟨_, hc, h⟩ := Except.bind_eq_ok.mp h
    have ⟨_, ha, h⟩ := Except.bind_eq_ok.mp h
    have ⟨_, hm, h⟩ := Except.bind_eq_ok.mp h
    have hl := Except.okOr_eq_ok.mp hl
    have hne : p.tiers ≠ [] := by
      intro h
      simp [h] at hl
    rw [List.getLast?_eq_some_getLast hne] at hl
    exact {
      schema    := Except.ensure_eq_ok.mp hs
      name      := Except.ensure_eq_ok.mp hn
      epoch     := Except.ensure_eq_ok.mp he
      nonempty  := hne
      length_le := Except.ensure_eq_ok.mp hc
      catchAll  := Option.some.inj hl ▸ Except.ensure_eq_ok.mp ha
      manual    := Except.ensure_eq_ok.mp hm
      tiers     := h
    }
  mpr v := by
    refine Except.bind_eq_ok.mpr ⟨(), Except.ensure_eq_ok.mpr v.schema, ?_⟩
    refine Except.bind_eq_ok.mpr ⟨(), Except.ensure_eq_ok.mpr v.name, ?_⟩
    refine Except.bind_eq_ok.mpr ⟨(), Except.ensure_eq_ok.mpr v.epoch, ?_⟩
    refine Except.bind_eq_ok.mpr ⟨_, Except.okOr_eq_ok.mpr (List.getLast?_eq_some_getLast v.nonempty), ?_⟩
    refine Except.bind_eq_ok.mpr ⟨(), Except.ensure_eq_ok.mpr v.length_le, ?_⟩
    refine Except.bind_eq_ok.mpr ⟨(), Except.ensure_eq_ok.mpr v.catchAll, ?_⟩
    exact Except.bind_eq_ok.mpr ⟨(), Except.ensure_eq_ok.mpr v.manual, v.tiers⟩

theorem ValidPolicy.rules (p : ValidPolicy) : p.Valid .loaded :=
  Policy.validateWith_ok_iff.mp p.valid
