import JlrModel.Policy.Validate

-- Policies as they are written by hand. Only what they are compiled to is ever signed and loaded.

structure TierSource where
  name            : String
  classes         : List String
  maxProvenance   : String
  requireEvidence : List String
  state           : String
  cell            : String
  network         : String
  needsUser       : Bool
  reason          : String
  deriving DecidableEq

structure PolicySource where
  name                : String
  epoch               : UInt64
  blockClasses        : List String
  setuidMinProvenance : String
  writablePathMaxCell : String
  maxManualCell       : String
  evidenceMaxAgeSecs  : UInt64
  enforceExec         : Bool
  tiers               : List TierSource
  deriving DecidableEq

-- Why a source is not compiled: a name that is not known, with what it should name, or a rule that is broken.
inductive SourceError
  | unknown (what s : String)
  | refused (e : PolicyError)
  deriving DecidableEq

namespace PolicySource

variable {α : Type} [DecidableEq α] [Coded α]

def parse (what s : String) : Except SourceError α :=
  Except.okOr (.unknown what s) (Coded.parse α s)

def list (what : String) (v : List String) : Except SourceError (List α) :=
  v.mapM (parse what)

end PolicySource

open PolicySource in
def TierSource.compile (t : TierSource) : Except SourceError Tier := do
  return {
    name            := t.name
    classes         := ← list "artifact class" t.classes
    maxProvenance   := ← parse "provenance" t.maxProvenance
    requireEvidence := ← list "evidence kind" t.requireEvidence
    state           := ← parse "state" t.state
    cell            := ← parse "cell" t.cell
    network         := ← parse "network mode" t.network
    needsUser       := t.needsUser
    reason          := ← parse "reason code" t.reason
  }

def TierSource.fromTier (t : Tier) : TierSource where
  name            := t.name
  classes         := t.classes.map Coded.asStr
  maxProvenance   := Coded.asStr t.maxProvenance
  requireEvidence := t.requireEvidence.map Coded.asStr
  state           := Coded.asStr t.state
  cell            := Coded.asStr t.cell
  network         := Coded.asStr t.network
  needsUser       := t.needsUser
  reason          := Coded.asStr t.reason

namespace PolicySource

-- Compiles to a policy that is valid as a new one.
def compile (s : PolicySource) : Except SourceError Policy := do
  let tiers ← s.tiers.mapM TierSource.compile
  let p : Policy := {
    schema              := Policy.SCHEMA
    name                := s.name
    epoch               := s.epoch
    tiers               := tiers
    blockClasses        := ← list "artifact class" s.blockClasses
    setuidMinProvenance := ← parse "provenance" s.setuidMinProvenance
    writablePathMaxCell := ← parse "cell" s.writablePathMaxCell
    maxManualCell       := ← parse "cell" s.maxManualCell
    evidenceMaxAgeSecs  := s.evidenceMaxAgeSecs
    enforceExec         := s.enforceExec
  }
  p.validate.mapError .refused
  return p

-- The form in which a policy is shown.
def fromPolicy (p : Policy) : PolicySource where
  name                := p.name
  epoch               := p.epoch
  blockClasses        := p.blockClasses.map Coded.asStr
  setuidMinProvenance := Coded.asStr p.setuidMinProvenance
  writablePathMaxCell := Coded.asStr p.writablePathMaxCell
  maxManualCell       := Coded.asStr p.maxManualCell
  evidenceMaxAgeSecs  := p.evidenceMaxAgeSecs
  enforceExec         := p.enforceExec
  tiers               := p.tiers.map TierSource.fromTier

end PolicySource
