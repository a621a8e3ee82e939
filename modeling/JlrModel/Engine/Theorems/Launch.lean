import JlrModel.Engine.Launch
import JlrModel.Engine.Theorems.Installation
import JlrModel.Engine.Theorems.Process
import JlrModel.Engine.Theorems.Walk
import JlrModel.Measure.Theorems.Observe
import JlrModel.Policy.Theorems.Evaluate
import Mathlib.Data.Set.Function

open Cbor Program

section

variable [Crypto] {K : EventDraft → Prop}

-- No operator has given an authority for an artifact that is still in force.
structure Engine.Unauthorized (e : Engine) (id : EpnId) (now : UInt64) : Prop where
  approvals : ∀ a ∈ e.approvals.lookup id, a.expiresAt ≤ now
  baselines : ∀ b ∈ e.baselines, b.2.contains id → b.2.expiresAt ≤ now

theorem Engine.Unauthorized.approvalFor {e : Engine} {id : EpnId} {now : UInt64} (h : e.Unauthorized id now) :
    e.approvalFor id now = none := by
  have ha : (e.approvals.lookup id).filter (·.appliesTo id now) = none := by
    rw [Option.filter_eq_none_iff]
    intro a hl hp
    exact UInt64.not_lt.mpr (h.approvals a hl) (of_decide_eq_true hp).right
  rw [Engine.approvalFor, ha]
  refine List.findSome?_eq_none_iff.mpr fun b hb => ?_
  rw [VerifiedBaseline.approvalFor, if_pos]
  by_cases hc : b.2.contains id
  · exact .inl (h.baselines b hb hc)
  · exact .inr hc

-- Nothing is sealed that has another digest than the expected one.
theorem SealedExe.seal_ok {io : SealIo} {expected : Digest} {maxSize : UInt64} {exe : SealedExe}
    (h : SealedExe.seal io expected maxSize = .ok exe) : Digest.of exe.file.data = expected := by
  have ⟨_, _, h⟩ := Except.bind_eq_ok.mp h
  have ⟨_, _, h⟩ := Except.bind_eq_ok.mp h
  have ⟨mem, _, h⟩ := Except.bind_eq_ok.mp h
  have ⟨_, he, h⟩ := Except.bind_eq_ok.mp h
  have ⟨_, _, h⟩ := Except.bind_eq_ok.mp h
  have ⟨_, _, h⟩ := Except.bind_eq_ok.mp h
  cases h
  exact Except.ensure_eq_ok.mp he

namespace Engine

variable {m m' : Machine} {seen : Seen} {requested : List Capability} {p : Processed} {obs : Observation}

-- Without an authority during the call, what has no provenance is not decided to run.
theorem Decides.held (d : Decides seen requested m p m')
    (hp : seen.record.provenance.satisfies .verifiedChecksum = false)
    (hu : ∀ i, m.host.tick ≤ i → i < m'.host.tick → m.engine.Unauthorized seen.record.id (m.host.oracle.clock i)) :
    p.decision.state.permitsNormalExecution = false := by
  have ⟨m₁, g, ht, hd⟩ := d.evaluated
  rw [hd]
  refine evaluate_of_weak ?_ hp
  change m₁.engine.approvalFor seen.record.id _ = none
  rw [g.approvalFor, g.host.oracle]
  exact (hu _ g.host.tick ht).approvalFor

theorem seenFrom_goes {obs : Observation} : Does (Machine.Proceeds K) (seenFrom obs) :=
  .bind now_proceeds fun _ => .pure

theorem remaining_proceeds {row : Option IndexRow} : Does (Machine.Proceeds K) (remaining row) := by
  cases row
  case none => exact .pure
  case some => exact .bind now_proceeds fun _ => .pure

-- An execution is allowed by the decision about the artifact that was measured.
theorem decideExec_ok {v : ExecVerdict} (h : decideExec (.ok obs) m = (.ok v, m')) :
    ∃ seen p m₁ m₂, seen.record = obs.record ∧ m.Goes m₁ ∧ Decides seen [] m₁ p m₂ ∧ m₂.Goes m' ∧
      v.allowed = p.decision.state.permitsNormalExecution := by
  have ⟨seen, m₁, hs, h⟩ := bind_eq_ok.mp h
  rw [view_bind] at h
  have ⟨p, m₂, hp, h⟩ := bind_eq_ok.mp h
  rw [view_bind] at h
  have ⟨_, m₃, hf, h⟩ := bind_eq_ok.mp h
  have ⟨_, m₄, hr, h⟩ := bind_eq_ok.mp h
  rw [view_bind] at h
  have ⟨hv, hm⟩ := Program.pure_eq_ok.mp h
  refine ⟨seen, p, m₁, m₂, seenFrom_record hs, .of_ok seenFrom_goes hs, processAlone_decides hp, ?_, hv ▸ rfl⟩
  rw [← hm]
  have g : m₂.Goes m₃ := .of_ok (.onlyIf fun _ => .bind flush_proceeds fun _ => saveIndex_proceeds) hf
  exact g.trans (.of_ok remaining_proceeds hr)

-- Whatever the file, its path and its package database, an artifact that was only measured is neither verified nor
-- admitted, and its execution is not allowed.
theorem measurement_never_admits [Md5] (obs : Observation) (h : obs.Measured) (m : Machine) :
    (∀ seen requested p m', seen.record = obs.record → seen.evidence = obs.evidence →
      process seen requested m = (.ok p, m') →
      (∀ i, m.host.tick ≤ i → i < m'.host.tick → m.engine.Unauthorized obs.record.id (m.host.oracle.clock i)) →
      m'.engine.states.lookup obs.record.id = some p.decision.state ∧
      p.decision.state ≠ .verified ∧ p.decision.state ≠ .admitted) ∧
    (∀ v m', decideExec (.ok obs) m = (.ok v, m') →
      (∀ i, m.host.tick ≤ i → i < m'.host.tick → m.engine.Unauthorized obs.record.id (m.host.oracle.clock i)) →
      v.allowed = false) := by
  constructor
  · intro seen requested p m' hr _ hx hu
    rw [← hr] at hu ⊢
    have d := process_decides hx
    have hs := d.held (hr ▸ h.provenance) hu
    refine ⟨d.state, fun hv => ?_, fun ha => ?_⟩
    · rw [hv] at hs
      contradiction
    · rw [ha] at hs
      contradiction
  · intro v m' hx hu
    have ⟨seen, p, m₁, m₂, hr, g, d, g', hv⟩ := decideExec_ok hx
    rw [hv]
    refine d.held (hr ▸ h.provenance) fun i hi hi' => ?_
    have hu := hu i (g.host.tick.trans hi) (hi'.trans_le g'.host.tick)
    have ⟨_, _, he⟩ := g.engine
    rw [g.host.oracle, hr, he]
    exact ⟨hu.approvals, hu.baselines⟩

-- What a prepared run says about the artifact that was observed.
structure Prepares (obs : Observation) (requested : List Capability) (m : Machine) (run : PreparedRun) (m' : Machine) :
    Prop where
  id        : run.id = obs.record.id
  evaluated : ∃ e time, e.policy = m.engine.policy ∧
    run.decision = evaluateAt e obs.record obs.evidence requested time
  logged    : ∃ d ∈ m'.dir.log.events, d.kind = .enforcement ∧ d.subject = some obs.record.id.display

theorem prepareRun_ok {observed : Except String Observation} {args env : List String} {seal' : Except String Unit}
    {run : PreparedRun} (h : prepareRun observed args env requested seal' m = (.ok run, m')) :
    ∃ obs, observed = .ok obs ∧ seal' = .ok () ∧ Prepares obs requested m run m' := by
  have ⟨obs, ho, h⟩ := ofExcept_bind_eq_ok.mp h
  have ⟨seen, m₁, hs, h⟩ := bind_eq_ok.mp h
  have ⟨p, m₂, hp, h⟩ := bind_eq_ok.mp h
  have ⟨_, m₃, hf, h⟩ := bind_eq_ok.mp h
  have ⟨_, m₄, hi, h⟩ := bind_eq_ok.mp h
  split at h
  case isTrue =>
    have ⟨_, _, _, h⟩ := bind_eq_ok.mp h
    have ⟨_, _, _, h⟩ := bind_eq_ok.mp h
    cases h
  case isFalse =>
    have ⟨spec, _, h⟩ := ofExcept_bind_eq_ok.mp h
    have ⟨_, hseal, h⟩ := ofExcept_bind_eq_ok.mp h
    have ⟨_, m₅, hl, h⟩ := bind_eq_ok.mp h
    have ⟨_, m₆, hf', h⟩ := bind_eq_ok.mp h
    have ⟨hrun, hm⟩ := Program.pure_eq_ok.mp h
    refine ⟨obs, Except.mapError_eq_ok.mp ho, Except.mapError_eq_ok.mp hseal, ?_⟩
    rw [← hrun, ← hm]
    have ⟨m₇, g, _, hd⟩ := (processAlone_decides hp).evaluated
    have g : m.Goes m₇ := .trans (.of_ok seenFrom_goes hs) g
    have g' : m₅.Goes m₆ := .of_ok flush_proceeds hf'
    have hd : p.decision = m₇.engine.evaluateAt obs.record obs.evidence requested
        (m₇.host.oracle.clock m₇.host.tick) := by
      cases hs
      exact hd
    have ⟨d, hmem, hk, hsub⟩ := log_ok hl
    exact ⟨rfl, ⟨m₇.engine, _, g.policy, hd⟩, ⟨d, g'.of_mem_events (List.mem_of_mem_drop hmem), hk, hsub⟩⟩

theorem prepareSealed_ok [Md5] {l : Launch} {args env : List String} {r : SealedExe × PreparedRun}
    (h : prepareSealed l args env requested m = (.ok r, m')) :
    ∃ obs, l.observed = .ok obs ∧ l.sealed obs = .ok r.1 ∧ Prepares obs requested m r.2 m' := by
  have ⟨run, m₁, hr, h⟩ := bind_eq_ok.mp h
  have ⟨exe, hs, h⟩ := ofExcept_bind_eq_ok.mp h
  have ⟨hr', hm⟩ := Program.pure_eq_ok.mp h
  have ⟨obs, ho, _, hp⟩ := prepareRun_ok hr
  rw [← hr', ← hm]
  have ho := Except.mapError_eq_ok.mp ho
  have hs := Except.mapError_eq_ok.mp hs
  rw [ho] at hs
  exact ⟨obs, ho, Except.mapError_eq_ok.mp hs, hp⟩

-- A program only runs from a copy whose digest is in the record that was evaluated and logged, whatever others did to
-- the file while it was measured and copied. If the copy has another digest, nothing runs.
theorem runs_what_was_measured [Md5] (l : Launch) (args env : List String) (requested : List Capability) (m : Machine) :
    (∀ exe run m', prepareSealed l args env requested m = (.ok (exe, run), m') →
      ∃ obs content, l.observed = .ok obs ∧ Prepares obs requested m run m' ∧
        l.Reads content ∧ Digest.of content.data = obs.record.digest ∧
        Digest.of exe.file.data = obs.record.digest ∧
        (Set.InjOn Digest.of {content.data, exe.file.data} → exe.file.data = content.data)) ∧
    (∀ obs, l.observed = .ok obs → (∀ exe, l.sealed obs ≠ .ok exe) →
      ∀ r m', prepareSealed l args env requested m ≠ (.ok r, m')) := by
  constructor
  · intro exe run m' h
    have ⟨obs, ho, hs, hp⟩ := prepareSealed_ok h
    have ⟨i, content, hc, hd⟩ := observe_content ho
    have he := SealedExe.seal_ok hs
    refine ⟨obs, content, ho, hp, ⟨i, hc⟩, hd.symm, he, fun hinj => ?_⟩
    exact hinj (Set.mem_insert_of_mem _ rfl) (Set.mem_insert _ _) (he.trans hd)
  · intro obs ho hs r m' h
    have ⟨obs', ho', hs', _⟩ := prepareSealed_ok h
    cases ho.symm.trans ho'
    exact hs _ hs'

end Engine

end

-- A script that a user has brought along, on a new installation.
namespace Installed

def script : File where
  data    := [0x23, 0x21, 0x2f, 0x62, 0x69, 0x6e, 0x2f, 0x73, 0x68, 0x0a]
  size_lt := by decide

def scriptDigest : Bytes.Fixed 32 :=
  Bytes.fixed 32 0xa8076d3d28d21e02012b20eaf7dbf75409a6277134439025f282e368e3305abf

def stat : FileStat where
  len       := 10
  mtime     := 0
  mtimeNsec := 0
  ctime     := 0
  ctimeNsec := 0
  ino       := 7
  dev       := 1
  isFile    := true
  mode      := 0o100755

def tool : PathIo where
  path     := "/opt/tool"
  fileName := some ⟨"tool", true⟩
  before   := .ok "/opt/tool"
  after    := .ok "/opt/tool"
  facts    := .ok ⟨false, false, false⟩

def launch : Launch where
  path    := tool
  dpkg    := none
  now     := 0
  opened  := .ok ()
  measure := ⟨.ok 10, fun _ => ⟨.ok stat, .ok (), .still script, .ok stat, .ok ()⟩⟩
  copy    := ⟨.ok (), .ok (), .still script, fun _ _ => .ok (), .ok (), .ok ()⟩

def observation : Observation where
  record   := {
    schema       := 1
    cls          := .script
    name         := "tool"
    version      := none
    size         := 10
    digest       := ⟨scriptDigest⟩
    provenance   := .unknown
    signer       := none
    source       := ⟨"unmanaged", none, some "/opt/tool"⟩
    dependencies := []
  }
  evidence := [Observe.item .contentDigestMatch "measure" 0 "hashed through the open descriptor"]
  path     := "/opt/tool"
  stamp    := .of stat.toMetadata
  located  := rfl

def target : String :=
  "EPN-1-SCRIPT-81cacc3426197b12fa1c0a00c406c76196955afccea2d25f3d22413a681a66d6"

def node : String :=
  "node-00000000000000000000000000000000"

-- The script is measured at the first attempt.
theorem measured_script [Crypto] [Md5] (withMd5 : Bool) :
    measureFileStable launch.measure MAX_PROGRAM withMd5 = .ok ⟨.of stat.toMetadata, Digest.of script.data, 10, 0o100755,
      script.data, if withMd5 then some (Text.hex (Md5.md5 script.data).val) else none⟩ := by
  have hc : (launch.measure.attempt 0).content MAX_PROGRAM = .ok script := Reader.copy_still (by decide)
  have hm : measureInner (launch.measure.attempt 0) MAX_PROGRAM withMd5 = .ok ⟨.of stat.toMetadata,
      Digest.of script.data, 10, 0o100755, script.data,
      if withMd5 then some (Text.hex (Md5.md5 script.data).val) else none⟩ := by
    rw [measureInner, hc]
    rfl
  rw [measureFileStable, show launch.measure.attempts = 2 from rfl, measureAttempts, hm]

abbrev measuring : Crypto :=
  crypto [
    (script.data, scriptDigest),
    (toCbor observation.record, Bytes.fixed 32 0x81cacc3426197b12fa1c0a00c406c76196955afccea2d25f3d22413a681a66d6),
    (encode (.array (observation.evidence.map toValue)),
      Bytes.fixed 32 0xf036dae6a0760f57200666ef3784659a9b91cb639d0d560a98b51dba1029fb05)
  ] []

abbrev checksums : Md5 where
  md5 _ := Bytes.fixed 16 0x3e2b31c72181b87149ff995e7202c0e3

attribute [local instance] measuring checksums

theorem observed_launch : launch.observed = .ok observation :=
  Except.bind_eq_ok.mpr ⟨_, measured_script false, rfl⟩

-- The engine after it was opened.
def opened [Crypto] : Option Machine :=
  match Engine.open (System.host system.dir .new (steady 0)) with
  | (.ok e, h)    => some ⟨h, e⟩
  | (.error _, _) => none

theorem opened_system [Crypto]
    (hv : ∀ message, verifySignature seeds.policyKey.pub message (seeds.policyKey.sign message) = .ok ()) :
    opened = some ⟨repaired system.dir, seeds.engine .workstation 0⟩ := by
  unfold opened
  rw [open_system hv]

theorem opened_ok : opened.any fun m => m.engine.approvals.entries.isEmpty && m.engine.baselines.isEmpty &&
    (Engine.decideExec (.ok observation) m).1.toOption.isSome &&
    (Engine.prepareRun (.ok observation) [] [] [] (.ok ()) m).1.toOption.isSome := by
  rw [opened_system (verify_policy _ _)]
  decide +kernel

theorem measurement_never_admits_tool :
    ∃ m v m', opened = some m ∧ Engine.decideExec (.ok observation) m = (.ok v, m') ∧ v.allowed = false := by
  have ⟨m, hm, h⟩ := Option.any_eq_true _ _ |>.mp opened_ok
  simp only [Bool.and_eq_true, List.isEmpty_iff] at h
  have ⟨⟨⟨ha, hb⟩, hx⟩, _⟩ := h
  have ⟨v, hx⟩ := eq_ok_of_isSome hx
  refine ⟨m, v, _, hm, hx, (Engine.measurement_never_admits _ (.path observed_launch) m).right v _ hx fun i _ _ => ?_⟩
  have ha : m.engine.approvals = ∅ := AList.ext ha
  exact ⟨by simp [ha], by simp [hb]⟩

theorem runs_what_was_measured_tool :
    ∃ m exe run m', opened = some m ∧ Engine.prepareSealed launch [] [] [] m = (.ok (exe, run), m') ∧
      run.id = observation.record.id ∧ Digest.of exe.file.data = ⟨scriptDigest⟩ := by
  have ⟨m, hm, h⟩ := Option.any_eq_true _ _ |>.mp opened_ok
  simp only [Bool.and_eq_true] at h
  have ⟨run, hr⟩ := eq_ok_of_isSome h.right
  have ⟨exe, hs⟩ : ∃ exe, launch.sealed observation = .ok exe := by
    let copy := (launch.copy.source.mapError SealError.io).copy MAX_PROGRAM .tooLarge
      (fun i bytes => (launch.copy.write i bytes).mapError .io) 0 .empty
    have hc : copy = .ok script := Reader.copy_still (f := script) (by decide)
    have hd : Except.ensure (Digest.of script.data = observation.record.digest)
        (SealError.digestMismatch observation.record.digest (Digest.of script.data)) = .ok () := rfl
    exact ⟨⟨script, _, 10, rfl⟩, Except.bind_eq_ok.mpr ⟨(), rfl, Except.bind_eq_ok.mpr ⟨(), rfl,
      Except.bind_eq_ok.mpr ⟨script, hc, Except.bind_eq_ok.mpr ⟨(), hd, rfl⟩⟩⟩⟩⟩
  generalize (Engine.prepareRun (.ok observation) [] [] [] (.ok ()) m).2 = m' at hr
  have hx : Engine.prepareSealed launch [] [] [] m = (.ok (exe, run), m') := by
    have hb : (Except.ok observation : Except String Observation).bind
        (fun obs => (launch.sealed obs).mapError SealError.display) = .ok exe := by
      rw [Except.bind, hs, Except.mapError]
    rw [Engine.prepareSealed, observed_launch, Except.mapError, hb, Except.map, bind_ok hr]
    rfl
  have ⟨obs, content, ho, hp, _, _, he, _⟩ := (Engine.runs_what_was_measured launch [] [] [] m).left exe run m' hx
  cases observed_launch.symm.trans ho
  exact ⟨m, exe, run, m', hm, hx, hp.id, he⟩

end Installed
