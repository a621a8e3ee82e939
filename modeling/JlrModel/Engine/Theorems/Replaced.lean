import JlrModel.Engine.Theorems.Launch
import JlrModel.Theorems.Records

open Cbor Program

section

variable [Crypto]

-- The artifact that the index names at a path.
def Engine.namedAt (e : Engine) (path : String) : Option EpnId :=
  (SortedMap.get path e.index).bind fun r => EpnId.parse r.epn

-- An artifact that is not known, or was stepped back already, is not stepped back again.
def Engine.Settled (e : Engine) (id : EpnId) : Prop :=
  ∀ s, e.states.lookup id = some s → s = .revoked ∨ s = .degraded ∨ s = .quarantined

-- What has the same content is the same artifact, if it matters.
def Engine.Recurs (e : Engine) (r seen : EpnRecord) : Prop :=
  r.digest = seen.digest → r = seen ∨ e.Settled r.id

-- It has been logged that the content of an artifact changed.
def Machine.ChangeLogged (m m' : Machine) (id : EpnId) : Prop :=
  ∃ d ∈ m'.dir.log.events.drop m.dir.log.events.length, d.kind = .mismatch ∧ d.subject = some id.display

-- A change that is logged in a part of a program.
theorem Machine.ChangeLogged.within {m m₁ m₂ m' : Machine} {id : EpnId} {K : EventDraft → Prop}
    (h : m₁.ChangeLogged m₂ id) (p : m.Proceeds K m₁) (p' : m₂.Proceeds K m') : m.ChangeLogged m' id := by
  have ⟨es, he, _⟩ := p.host.events
  have ⟨es', he', _⟩ := p'.host.events
  have he : m₁.dir.log.events = m.dir.log.events ++ es := he
  have he' : m'.dir.log.events = m₂.dir.log.events ++ es' := he'
  have ⟨d, hd, h⟩ := h
  refine ⟨d, ?_, h⟩
  rw [he']
  rw [he, List.length_append, ← List.drop_drop] at hd
  rw [List.drop_append]
  exact List.mem_append_left _ (List.mem_of_mem_drop hd)

namespace Engine

variable {m m' m₁ m₂ : Machine} {old id : EpnId} {path : String} {K : EventDraft → Prop}

theorem replaced_apply (hn : m.engine.namedAt path = some old) :
    replaced path id m = if old ≠ id then onReplaced old path m else (.ok (0, false), m) := by
  have hn : (SortedMap.get path m.engine.index).bind (fun r => EpnId.parse r.epn) = some old := hn
  rw [replaced, view_bind, hn]
  dsimp only
  split <;> rfl

-- Nothing happens to an artifact that is still there, or that is settled.
theorem replaced_of_settled (hn : m.engine.namedAt path = some old) (h : old = id ∨ m.engine.Settled old) :
    replaced path id m = (.ok (0, false), m) := by
  rw [replaced_apply hn]
  split
  case isFalse => rfl
  case isTrue hi =>
    have hs := h.resolve_left hi
    rw [onReplaced, view_bind]
    cases hl : m.engine.states.lookup old
    case none => rfl
    case some s =>
      dsimp only
      rw [if_pos (hs s hl)]
      rfl

-- Another artifact at the path is logged as a change.
theorem replaced_ok {r : Nat × Bool} (hn : m.engine.namedAt path = some old) (hi : old ≠ id)
    (hs : ¬ m.engine.Settled old) (h : replaced path id m = (.ok r, m')) : m.ChangeLogged m' old := by
  rw [replaced_apply hn, if_pos hi, onReplaced, view_bind] at h
  cases hl : m.engine.states.lookup old <;> rw [hl] at h
  case none => exact absurd (fun s hs => nomatch hl.symm.trans hs) hs
  case some s =>
    dsimp only at h
    rw [if_neg (fun hs' => hs fun s' hl' => Option.some.inj (hl.symm.trans hl') ▸ hs'), view_bind] at h
    have ⟨time, m₁, ht, h⟩ := bind_eq_ok.mp h
    have ⟨ev, m₂, he, h⟩ := bind_eq_ok.mp h
    have ⟨_, m₃, hl, h⟩ := bind_eq_ok.mp h
    have ⟨decision, m₄, hd, h⟩ := bind_eq_ok.mp h
    have ⟨n, m₅, ha, h⟩ := bind_eq_ok.mp h
    have hm := (Program.pure_eq_ok.mp h).right
    have g : m.Goes m₂ := .trans (.of_ok now_proceeds ht) (.of_ok storeEvidence_proceeds he)
    have g' : m₃.Goes m₅ := .trans (.of_ok replacedDecision_proceeds hd)
      (.of_ok (applyDecision_proceeds fun _ _ => trivial) ha)
    have hc : m₂.ChangeLogged m₃ old := log_ok hl
    exact hm ▸ hc.within g g'

-- A record that could be stored is known by its identifier.
theorem eq_of_storeRecord {r r' : EpnRecord} {isNew : Bool} (h : storeRecord r m = (.ok isNew, m')) (hi : r'.id = r.id)
    (hinj : Set.InjOn Digest.of {toCbor r', toCbor r}) : r' = r := by
  rw [storeRecord, view_bind] at h
  have ⟨_, _, h, _⟩ := bind_eq_ok.mp h
  have ⟨_, h⟩ := zoom_eq_ok.mp h
  have hl : (toCbor r).length < 2 ^ 64 := (Host.putObject_length h.left).trans (by decide)
  have he : toCbor r' = toCbor r :=
    hinj (Set.mem_insert _ _) (Set.mem_insert_of_mem _ rfl) (congrArg EpnId.digest hi)
  have hr := fromCbor_toCbor (by decide) (RecordType.valid_of_capabilities (t := .epnRecord) (r := r) nofun) hl
  have hr' := fromCbor_toCbor (by decide) (RecordType.valid_of_capabilities (t := .epnRecord) (r := r') nofun) (he ▸ hl)
  rw [he] at hr'
  exact Except.ok.inj (hr'.symm.trans hr)

-- That the content of an artifact has changed is logged rightly, if something else with the same content never
-- takes its place.
theorem change_logged_rightly (m : Machine) (seen : Seen) (requested : List Capability) (r : EpnRecord)
    (hn : m.engine.namedAt seen.path = some r.id) (x : Except Halt Processed) (m' : Machine)
    (hx : process seen requested m = (x, m')) :
    (m.engine.Recurs r seen.record → m.ChangeLogged m' r.id → r.digest ≠ seen.record.digest) ∧
    (∀ p, x = .ok p → Set.InjOn Digest.of {toCbor r, toCbor seen.record} →
      ((m.ChangeLogged m' r.id → r.digest ≠ seen.record.digest) ↔ m.engine.Recurs r seen.record)) := by
  have rightly (h : m.engine.Recurs r seen.record) (hc : m.ChangeLogged m' r.id) :
      r.digest ≠ seen.record.digest := by
    intro hd
    have hr : replaced seen.path seen.record.id m = (.ok (0, false), m) :=
      replaced_of_settled hn ((h hd).imp_left (congrArg EpnRecord.id))
    have p : Machine.Proceeds (fun d => d.kind ≠ .mismatch) m (process seen requested m).2 := by
      refine process_proceeds (fun d hk hm => ?_) hr
      rw [hm] at hk
      cases hk <;> contradiction
    rw [hx] at p
    have ⟨es, he, hk⟩ := p.host.events
    have ⟨d, hd, hm, _⟩ := hc
    rw [show m'.dir.log.events = m.dir.log.events ++ es from he, List.drop_left] at hd
    exact hk d hd hm
  refine ⟨rightly, fun p hp hinj => ⟨fun h hd => ?_, rightly⟩⟩
  rw [hp] at hx
  by_contra hne
  have ⟨hne, hs⟩ := not_or.mp hne
  have ⟨_, m₁, hr, hx'⟩ := bind_eq_ok.mp hx
  have ⟨_, m₂, hs', _⟩ := bind_eq_ok.mp hx'
  have hi : r.id ≠ seen.record.id := fun hi => hne (eq_of_storeRecord hs' hi hinj)
  have g : m₁.Goes (process seen requested m).2 := process_proceeds (fun _ _ => trivial) hr
  rw [hx] at g
  exact h ((replaced_ok hn hi hs hr).within .refl g) hd

end Engine

end

-- A file of a package, of which there is another version with the same file.
namespace Repackaged

open Installed

def db (version : String) : DpkgDb where
  find p       := if p = "/opt/tool" then some ("tool", version) else none
  manifest _ p := if p = "/opt/tool" then some "3e2b31c72181b87149ff995e7202c0e3" else none

def observation (version : String) : Observation where
  record   := { Installed.observation.record with
    version    := some version
    provenance := .sourceKnown
    source     := ⟨"dpkg", some "tool", some "/opt/tool"⟩
  }
  evidence := [
    Observe.item .contentDigestMatch "measure" 0 "hashed through the open descriptor",
    Observe.item .managedInstaller "dpkg" 0 "owned by tool",
    Observe.item .packageManifestMatch "dpkg" 0 "matches the local package manifest (unauthenticated)"
  ]
  path     := "/opt/tool"
  stamp    := .of stat.toMetadata
  located  := rfl

def firstId : Bytes.Fixed 32 :=
  Bytes.fixed 32 0x9c43e987e35b9c6a667858b3f6d89969eac380522e70bbffe41c6e4e0b8e9e73

-- The first version is enrolled in a baseline.
def baseline : Baseline where
  schema       := 1
  name         := "base"
  cell         := .cell1
  network      := .none
  capabilities := []
  grantedBy    := "operator"
  expiresAt    := 100
  members      := [⟨firstId⟩]

def signatures : List (Bytes × Bytes.Fixed 64) := [
  (Envelope.message RecordType.APPROVAL node ⟨policyId⟩ (toCbor baseline), Bytes.fixed 64
    0xde1a9978d679ba544c944b9deb02c4a84d8fcf44eea4bd3e4e63e9fa2d5ee0425495673b045ab1bfd5cf6509943a244ec5d969214dfea230ce8dcfae5f90e00a)
]

def baselineBytes : Bytes :=
  @Baseline.sign (crypto [] signatures) baseline node ⟨policySeed, .policy⟩

def mismatch : EvidenceItem :=
  Observe.item .contentDigestMismatch "measure" 0 ("content at /opt/tool no longer matches " ++
    "EPN-1-SCRIPT-9c43e987e35b9c6a667858b3f6d89969eac380522e70bbffe41c6e4e0b8e9e73")

abbrev repackaging : Crypto :=
  crypto [
    (script.data, scriptDigest),
    (toCbor (observation "1.0").record, firstId),
    (toCbor (observation "1.1").record,
      Bytes.fixed 32 0xb74726a68bcc013b8bc4e9d69ab08cec13e1e1cee79ebcc2844d7bb5056ae65c),
    (encode (.array ((observation "1.0").evidence.map toValue)),
      Bytes.fixed 32 0x04f1eacb6bf0a56074e5904ca60336e04fd6f2aa09005c1ea2321231653e5f93),
    (encode (.array [toValue mismatch]),
      Bytes.fixed 32 0x11b13cf2ebe8c0d045626b9065077a824890fa1c5fda6906efb50b48aa1ef2d6),
    (baselineBytes, Bytes.fixed 32 0xa0f2857528c56d639066685a4f43ca311c92454854a955821aebccfd2a18738d)
  ] signatures

attribute [local instance] repackaging checksums

theorem observe_tool (version : String) :
    observe tool (some (db version)) ⟨MAX_PROGRAM, 0⟩ (.ok ()) launch.measure = .ok (observation version) :=
  Except.bind_eq_ok.mpr ⟨_, measured_script true, rfl⟩

def enrollment : Call :=
  .enrollBaseline [⟨"/opt/tool", some stat.toMetadata, .ok (observation "1.0")⟩]
    { name := "base", cell := .cell1, network := .none, ttlSecs := 100, grantedBy := "operator", includeUnmanaged := false }
    false

def enrolled [Crypto] : Option System :=
  (started system).bind (called enrollment)

def seen (version : String) : Seen where
  path     := "/opt/tool"
  record   := (observation version).record
  evidence := (observation version).evidence
  row      := rowOf "/opt/tool" (observation version).record.id (observation version).stamp 0

def first : EpnId := (observation "1.0").record.id

def degrades (m : Machine) : Bool :=
  match Engine.process (seen "1.1") [] m with
  | (.ok _, m')   =>
    (m'.dir.log.events.drop m.dir.log.events.length).any (fun d => d.kind = .mismatch ∧ d.subject = some first.display) ∧
    m'.engine.states.lookup first = some .degraded
  | (.error _, _) => false

theorem enrolled_ok : enrolled.any fun s => s.engine.any fun (e, l) =>
    e.namedAt "/opt/tool" = some first ∧ e.states.lookup first = some .admitted ∧
    degrades (System.machine s.dir e l (steady 0)) ∧
    (Engine.process (seen "1.0") [] (System.machine s.dir e l (steady 0))).1.toOption.isSome ∧
    (History.transitions first s.dir.log.replayed).map EventDraft.newState = [some .verified, some .admitted] := by
  rw [enrolled, started_system (verify_policy _ _)]
  decide +kernel

-- The engine after the enrolment.
theorem enrolled_reachable {w : Setting} (hk : w.known = Set.univ) (hg : w.signed = Set.univ) :
    ∃ s e l, System.Reachable w s ∧ s.engine = some (e, l) ∧
    e.namedAt "/opt/tool" = some first ∧ e.states.lookup first = some .admitted ∧
    degrades (System.machine s.dir e l (steady 0)) ∧
    (Engine.process (seen "1.0") [] (System.machine s.dir e l (steady 0))).1.toOption.isSome ∧
    (History.transitions first s.dir.log.replayed).map EventDraft.newState = [some .verified, some .admitted] := by
  have ⟨s, hs, h⟩ := (Option.any_eq_true _ _).mp enrolled_ok
  have ⟨(e, l), he, h⟩ := (Option.any_eq_true _ _).mp h
  have ⟨s₁, hs₁, hs⟩ := Option.bind_eq_some_iff.mp hs
  refine ⟨s, e, l, reachable_called hk hg (reachable_started ?_ rfl hs₁) hs, he, of_decide_eq_true h⟩
  exact ⟨system, initial, .refl⟩

-- The steps of the enrolment, in which the script is admitted.
theorem admission_history_legal_enrolled : ∃ s e l,
    System.Reachable ⟨System.Logged, Set.univ, Set.univ, True⟩ s ∧ s.engine = some (e, l) ∧
    (History.transitions first s.dir.log.replayed).map EventDraft.newState = [some .verified, some .admitted] ∧
    e.states.lookup first = some .admitted ∧ e.states = History.states s.dir.log.events ∧
    History.Walk none (History.transitions first s.dir.log.replayed)
      ((History.states s.dir.log.replayed).lookup first) := by
  have ⟨s, e, l, hr, he, _, ha, _, _, ht⟩ :=
    enrolled_reachable (w := ⟨System.Logged, Set.univ, Set.univ, True⟩) rfl rfl
  have k := System.admission_history_legal Set.univ Set.univ s hr
  exact ⟨s, e, l, hr, he, ht, ha, k.left e l he, k.right.right.left first⟩

-- The engine logs that the content changed when only the version of the package did, and steps the artifact back.
theorem unchanged_content_degraded : ∃ s e l p m', System.Reachable calm s ∧ s.engine = some (e, l) ∧
    e.namedAt "/opt/tool" = some first ∧ e.states.lookup first = some .admitted ∧
    Engine.process (seen "1.1") [] (System.machine s.dir e l (steady 0)) = (.ok p, m') ∧
    (System.machine s.dir e l (steady 0)).ChangeLogged m' first ∧
    m'.engine.states.lookup first = some .degraded ∧
    observe tool (some (db "1.0")) ⟨MAX_PROGRAM, 0⟩ (.ok ()) launch.measure = .ok (observation "1.0") ∧
    observe tool (some (db "1.1")) ⟨MAX_PROGRAM, 0⟩ (.ok ()) launch.measure = .ok (observation "1.1") ∧
    (observation "1.0").record.digest = (observation "1.1").record.digest := by
  have ⟨s, e, l, hr, he, hn, ha, hd, _⟩ := enrolled_reachable (w := calm) rfl rfl
  unfold degrades at hd
  split at hd
  case h_2 => cases hd
  case h_1 p m' hx =>
    have ⟨hc, hl⟩ := of_decide_eq_true hd
    have ⟨d, hd, hk⟩ := List.any_eq_true.mp hc
    exact ⟨s, e, l, p, m', hr, he, hn, ha, hx, ⟨d, hd, of_decide_eq_true hk⟩, hl, observe_tool _, observe_tool _, rfl⟩

theorem change_logged_rightly_again : ∃ s e l p m', System.Reachable calm s ∧ s.engine = some (e, l) ∧
    Engine.process (seen "1.0") [] (System.machine s.dir e l (steady 0)) = (.ok p, m') ∧
    ¬ (System.machine s.dir e l (steady 0)).ChangeLogged m' first := by
  have ⟨s, e, l, hr, he, hn, _, _, hx, _⟩ := enrolled_reachable (w := calm) rfl rfl
  have ⟨p, hx⟩ := eq_ok_of_isSome hx
  have h := Engine.change_logged_rightly (System.machine s.dir e l (steady 0)) (seen "1.0") [] (observation "1.0").record
    hn _ _ hx
  exact ⟨s, e, l, p, _, hr, he, hx, fun hc => h.left (fun _ => .inl rfl) hc rfl⟩

end Repackaged
