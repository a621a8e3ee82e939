import JlrModel.Engine.Theorems.Authority
import JlrModel.Engine.Theorems.Launch
import JlrModel.Engine.Theorems.Rows

-- Which artifact an approval is decided about and applied to.

open Cbor Program

section

variable [Crypto] {m m' : Machine}

namespace Machine

-- Time goes on.
def Ticks (m m' : Machine) : Prop :=
  m.host.Proceeds (fun _ => True) m'.host

theorem Ticks.of_ok {x : EngineM α} {a : α} (h : Does Ticks x) (hx : x m = (.ok a, m')) : m.Ticks m' :=
  Does.kept (P := Ticks m) (h.of_ok hx) (fun _ _ t' t => t.trans t') .refl

end Machine

namespace Engine

open Machine

variable {epn : String} {opts : GrantOptions} {look : String → Option (Except String Observation)} {id : EpnId}
  {record r : EpnRecord} {s : SignedApproval} {d : Decision}

theorem onHost_ticks {x : HostM α} (h : Does (Host.Proceeds fun _ => True) x) : Does Ticks (onHost x) :=
  h.zoom (fun _ => rfl) fun _ _ _ p => p

theorem writeAtomic_ticks {data : Bytes} {change : File → StateDir → StateDir}
    (hc : ∀ f dir, (change f dir).log = dir.log) : Does Ticks (onHost (Host.writeAtomic data change)) :=
  onHost_ticks (Host.writeAtomic_does (fun _ => .advance) fun h f _ => .setDir (hc f h.dir))

theorem logSubject_ticks {kind : EventKind} {subject : Option String} {old new : Option AdmissionState}
    {evidence : List Digest} {basis : Basis} {detail : String} :
    Does Ticks (logSubject kind subject old new evidence basis detail) := by
  refine .bind .view fun _ => .bind (.onlyIf fun _ => ?_) fun _ => .bind .view fun e => ?_
  · exact onHost_ticks (Host.operate_proceeds fun _ => rfl)
  · exact onHost_ticks (Host.append_proceeds trivial)

theorem removeSuperseded_ticks {kind : GrantKind} {beginning keep : String} :
    Does Ticks (onHost (Host.removeSuperseded kind beginning keep)) := by
  refine onHost_ticks (.bind .view fun names => .fold (fun _ name _ => ?_) ())
  exact .bind (.attempt (Host.operate_proceeds fun _ => rfl)) fun _ => .pure

-- A grant that was installed is one that the engine goes by. Nothing else about it is new.
theorem supersede_ok {kind : GrantKind} {stem : String} {bytes : Bytes} {enter : Engine → Engine}
    {restore : Engine → Engine → Engine} {subject detail : String}
    (h : supersede kind stem bytes enter restore subject detail m = (.ok (), m')) :
    m'.engine = enter m.engine ∧ m.Ticks m' := by
  obtain ⟨_, m₁, hw, h⟩ := bind_eq_ok.mp h
  rw [view_bind, update_bind, makeCurrent] at h
  obtain ⟨logged, m₂, hl, h⟩ := bind_eq_ok.mp h
  have he₁ : m₁.engine = m.engine := Keeps.of_does (f := fun e : Engine => e) onHost_keeps hw
  have t₁ : m.Ticks m₁ := by
    refine .of_ok (writeAtomic_ticks ?_) hw
    exact fun _ _ => rfl
  cases logged
  case error => cases h
  case ok =>
    have hl := attempt_eq_ok.mp hl
    have he₂ : m₂.engine = enter m₁.engine := Keeps.of_does (f := fun e : Engine => e)
      (.bind .view fun _ => .bind (.onlyIf fun _ => onHost_keeps) fun _ => .bind .view fun _ => onHost_keeps) hl
    have t₂ : m₁.Ticks m₂ := Ticks.of_ok (m := m₁.setEngine enter) logSubject_ticks hl
    have he₃ : m'.engine = m₂.engine := Keeps.of_does (f := fun e : Engine => e) onHost_keeps h
    exact ⟨by rw [he₃, he₂, he₁], t₁.trans (t₂.trans (Ticks.of_ok removeSuperseded_ticks h))⟩

-- What is now at the path that the index lists for an artifact.
def found (m : Machine) (id : EpnId) (look : String → Option (Except String Observation)) :
    Option (Except String Observation) :=
  (m.engine.index.find? (·.2.epn = id.display)).bind fun r => look r.2.path

-- As `reassess`, which does not return the record that it decides about.
def reassessed (id : EpnId) (record : EpnRecord) (look : String → Option (Except String Observation)) :
    EngineM (EpnRecord × Decision) := do
  match ← view fun m => found m id look with
  | none          => do return (record, ← evaluateNow record [] [])
  | some observed => do
    let obs ← ofExcept (observed.mapError (.error ∘ .measure))
    let seen ← seenFrom obs
    let p ← process seen []
    flush
    saveIndex
    return (obs.record, p.decision)

-- As `approve`, with the approval and the record that the decision is about.
def approved (epn : String) (opts : GrantOptions) (look : String → Option (Except String Observation)) :
    EngineM (SignedApproval × EpnRecord × Decision) := do
  let a ← signApproval epn opts
  supersede .approval a.id.digest.hex a.bytes (enterApproval a.id a.verified) (restoreApproval a.id) a.id.display
    ("operator " ++ sanitizeTo opts.grantedBy 100 ++ " approved " ++ sanitizeTo a.record.name 100 ++
      " cell=" ++ Coded.asStr opts.cell ++ " network=" ++ Coded.asStr opts.network)
  let (record, decision) ← reassessed a.id a.record look
  flush
  return (a, record, decision)

theorem reassess_eq_ok :
    reassess id record look m = (.ok d, m') ↔ ∃ r, reassessed id record look m = (.ok (r, d), m') := by
  rw [reassess, reassessed, view_bind, view_bind, found]
  cases (m.engine.index.find? (·.2.epn = id.display)).bind fun r => look r.2.path <;> simp only [bind_eq_ok, pure_eq_ok]
  case none =>
    constructor
    case mp => exact fun h => ⟨record, d, m', h, rfl, rfl⟩
    case mpr =>
      rintro ⟨_, _, _, h, he, rfl⟩
      cases he
      exact h
  case some observed =>
    constructor
    case mp =>
      rintro ⟨obs, m₁, ho, seen, m₂, hs, p, m₃, hp, _, m₄, hf, _, m₅, hi, rfl, rfl⟩
      exact ⟨obs.record, obs, m₁, ho, seen, m₂, hs, p, m₃, hp, _, m₄, hf, _, m₅, hi, rfl, rfl⟩
    case mpr =>
      rintro ⟨_, obs, m₁, ho, seen, m₂, hs, p, m₃, hp, _, m₄, hf, _, m₅, hi, he, rfl⟩
      cases he
      exact ⟨obs, m₁, ho, seen, m₂, hs, p, m₃, hp, _, m₄, hf, _, m₅, hi, rfl, rfl⟩

theorem approve_eq_ok :
    approve epn opts look m = (.ok d, m') ↔ ∃ s r, approved epn opts look m = (.ok (s, r, d), m') := by
  simp only [approve, approved, bind_eq_ok, reassess_eq_ok, pure_eq_ok]
  constructor
  case mp =>
    rintro ⟨s, m₁, hs, _, m₂, hg, _, m₃, ⟨r, hr⟩, _, m₄, hf, rfl, rfl⟩
    exact ⟨s, r, s, m₁, hs, _, m₂, hg, ⟨r, _⟩, m₃, hr, _, m₄, hf, rfl, rfl⟩
  case mpr =>
    rintro ⟨_, _, s, m₁, hs, _, m₂, hg, ⟨r, _⟩, m₃, hr, _, m₄, hf, he, rfl⟩
    cases he
    exact ⟨_, m₁, hs, _, m₂, hg, _, m₃, ⟨_, hr⟩, _, m₄, hf, rfl, rfl⟩

theorem signApproval_signed (h : signApproval epn opts m = (.ok s, m')) :
    EpnId.parse epn = some s.id ∧ m.dir.loadRecord s.id = some s.record ∧ m'.engine = m.engine ∧ m.Ticks m' := by
  have ⟨id, hi, h⟩ := ofExcept_bind_eq_ok.mp h
  rw [view_bind] at h
  split at h
  case isTrue => cases h
  case isFalse hk =>
    rw [view_bind] at h
    have ⟨record, hr, h⟩ := ofExcept_bind_eq_ok.mp h
    have ⟨key, _, h⟩ := loadPolicyKey_bind_eq_ok.mp h
    rw [now_bind, view_bind] at h
    have ⟨verified, _, h⟩ := ofExcept_bind_eq_ok.mp h
    cases h
    exact ⟨Except.okOr_eq_ok.mp hi, Except.okOr_eq_ok.mp hr, rfl, .advance⟩

-- Whether an approval is applied to its artifact: the file that is looked at is this artifact, or there is none and the
-- artifact has the state already that the approval comes to.
def Applies (m : Machine) (s : SignedApproval) (look : String → Option (Except String Observation)) (time : UInt64) :
    Prop :=
  match found m s.id look with
  | some observed => ∃ obs, observed = .ok obs ∧ obs.record.id = s.id
  | none          => s.record.id = s.id ∧ m.engine.states.lookup s.id =
    some ((m.engine.enterApproval s.id s.verified).evaluateAt s.record [] [] time).state

-- What deciding about an approved artifact comes to.
theorem reassessed_ok (h : reassessed s.id s.record look m = (.ok (r, d), m')) :
    ∃ i ev states index, m.host.tick ≤ i ∧ i < m'.host.tick ∧ m.Goes m' ∧
      d = ({ m.engine with states, index } : Engine).evaluateAt r ev [] (m.host.oracle.clock i) ∧
      match found m s.id look with
      | some observed => ∃ obs, observed = .ok obs ∧ r = obs.record ∧ m'.engine.states.lookup r.id = some d.state
      | none          => r = s.record ∧ d = m.engine.evaluateAt r [] [] (m.host.oracle.clock i) ∧
        m'.engine.states = m.engine.states := by
  rw [reassessed, view_bind] at h
  cases hf : found m s.id look <;> rw [hf] at h <;> dsimp only at h ⊢
  case none =>
    cases h
    exact ⟨m.host.tick, [], _, _, Nat.le_refl _, Nat.lt_succ_self _, .of_ok now_proceeds rfl, rfl, rfl, rfl, rfl⟩
  case some observed =>
    have ⟨obs, ho, h⟩ := ofExcept_bind_eq_ok.mp h
    have ⟨seen, m₁, hs, h⟩ := bind_eq_ok.mp h
    have ⟨p, m₂, hp, h⟩ := bind_eq_ok.mp h
    have ⟨_, m₃, hf, h⟩ := bind_eq_ok.mp h
    have ⟨_, m₄, hi, h⟩ := bind_eq_ok.mp h
    have ⟨i, j, e⟩ := process_enters hp
    have hstate := (process_decides hp).state
    have g₁ : m.Goes m₁ := .of_ok seenFrom_goes hs
    have g₄ : m₂.Goes m₄ := .trans (.of_ok flush_proceeds hf) (.of_ok saveIndex_proceeds hi)
    have he : m₄.engine.states = m₂.engine.states :=
      (Keeps.of_does (f := states) saveIndex_keeps hi).trans (Keeps.of_does (f := states) flush_keeps hf)
    have ⟨states, index, hd⟩ := e.evaluated
    have ⟨_, _, he₁⟩ := g₁.engine
    have hr := seenFrom_record hs
    cases h
    refine ⟨i, seen.evidence, states, index, g₁.host.tick.trans e.first, ?_, g₁.trans (e.goes.trans g₄), ?_, obs,
      Except.mapError_eq_ok.mp ho, rfl, ?_⟩
    · exact (e.later.trans e.last).trans_le g₄.host.tick
    · rw [hd, hr, he₁, g₁.host.oracle]
    · rw [he, ← hr]
      exact hstate

-- The decision that an approval comes to is about whatever file is found, and is not applied if there is none.
theorem approval_applied_iff (epn : String) (opts : GrantOptions) (look : String → Option (Except String Observation))
    (m : Machine) :
    (∀ d m', approve epn opts look m = (.ok d, m') ↔ ∃ s r, approved epn opts look m = (.ok (s, r, d), m')) ∧
    ∀ s r d m', approved epn opts look m = (.ok (s, r, d), m') →
      EpnId.parse epn = some s.id ∧ m.dir.loadRecord s.id = some s.record ∧
      ∃ i ev states index, m.host.tick ≤ i ∧ i < m'.host.tick ∧
        d = ({ m.engine.enterApproval s.id s.verified with states, index } : Engine).evaluateAt r ev []
          (m.host.oracle.clock i) ∧
        (r.id = s.id ∧ m'.engine.states.lookup s.id = some d.state ↔ Applies m s look (m.host.oracle.clock i)) := by
  refine ⟨fun d m' => approve_eq_ok, fun s r d m' h => ?_⟩
  have ⟨s', m₁, hs, h⟩ := bind_eq_ok.mp h
  have ⟨_, m₂, hg, h⟩ := bind_eq_ok.mp h
  have ⟨(r', d'), m₃, hr, h⟩ := bind_eq_ok.mp h
  have ⟨_, m₄, hf, h⟩ := bind_eq_ok.mp h
  cases h
  have ⟨hp, hl, he₁, t₁⟩ := signApproval_signed hs
  have ⟨he₂, t₂⟩ := supersede_ok hg
  rw [he₁] at he₂
  have t := t₁.trans t₂
  have ⟨i, ev, states, index, hi, hi', g, hd, hx⟩ := reassessed_ok hr
  rw [t.oracle] at hd hx
  rw [he₂] at hd
  have gf : m₃.Goes m' := .of_ok flush_proceeds hf
  have hst : m'.engine.states = m₃.engine.states := Keeps.of_does (f := Engine.states) flush_keeps hf
  refine ⟨hp, hl, i, ev, states, index, t.tick.trans hi, hi'.trans_le gf.host.tick, hd, ?_⟩
  have hfound : found m₂ s.id look = found m s.id look := by
    rw [found, found, he₂]
    rfl
  rw [hfound] at hx
  rw [Applies, hst]
  cases hc : found m s.id look <;> rw [hc] at hx <;> dsimp only at hx ⊢
  case none =>
    obtain ⟨rfl, hd, hs⟩ := hx
    rw [hs, hd, he₂]
    rfl
  case some observed =>
    have ⟨obs, ho, hr, hl⟩ := hx
    constructor
    case mp => exact fun ⟨hi, _⟩ => ⟨obs, ho, hr ▸ hi⟩
    case mpr =>
      rintro ⟨obs', ho', hi⟩
      cases ho.symm.trans ho'
      rw [← hr] at hi
      exact ⟨hi, hi ▸ hl⟩

end Engine

end

-- The script is approved, after it was decided on once.
namespace Approved

open Installed

def approval : Approval where
  epn          := target
  cell         := .cell1
  network      := .none
  capabilities := []
  expiresAt    := 100
  grantedBy    := "alice"

def opts : GrantOptions where
  cell         := .cell1
  network      := .none
  capabilities := []
  ttlSecs      := 100
  grantedBy    := "alice"

-- Another script at the same path.
def other : Observation :=
  { observation with record := { observation.record with
      size   := 11
      digest := ⟨Bytes.fixed 32 0x2ec71fc955d0107a6e90d1ab4e6f00c9438b56d3e621ef018d57c8ef07bfae7f⟩
    } }

def mismatch : EvidenceItem where
  kind   := .contentDigestMismatch
  source := "measure"
  «at»   := 0
  detail := "content at /opt/tool no longer matches " ++ target
  digest := none

def signed : List (Bytes × Bytes.Fixed 64) := [
  (Envelope.message RecordType.APPROVAL node ⟨policyId⟩ (toCbor approval), Bytes.fixed 64
    0x99d83bcbb8ce03fe7e9d1af3cec81325bd8d6b977a7fe4c539533b84cb0353de88f5840416455c4b01113a3ee2f8aaa4f6f1905d9159e20ad4d6175af5965805)
]

abbrev approving : Crypto :=
  crypto [
    (toCbor observation.record, Bytes.fixed 32 0x81cacc3426197b12fa1c0a00c406c76196955afccea2d25f3d22413a681a66d6),
    (encode (.array (observation.evidence.map toValue)),
      Bytes.fixed 32 0xf036dae6a0760f57200666ef3784659a9b91cb639d0d560a98b51dba1029fb05),
    (@Envelope.sign (crypto [] signed) RecordType.APPROVAL node (toCbor approval) ⟨policySeed, .policy⟩,
      Bytes.fixed 32 0xee68e1a1623b87033f418ee0053a8ced2f322015993b716b1b8976c4fb03a648),
    (toCbor other.record, Bytes.fixed 32 0x9cef738cde7b78edf776e5ad1e67de98b17021ff031c3025b3ca069569b4cb56),
    (encode (.array ([mismatch].map toValue)),
      Bytes.fixed 32 0xd6b19e7346370ff12f2ecdfddf04463e2bc5fddceaf552eaf4916f15132ab1c5)
  ] signed

attribute [local instance] approving

def known : Option System :=
  (started system).bind (called (.decideExec (.ok observation)))

-- The clock goes on from one time to another one while the script is decided on.
def late : Oracle where
  fate _  := .done
  clock i := if i < 3 then 50 else 200

def approve (look : String → Option (Except String Observation)) (e : Engine) (l : LedgerHandle) (dir : StateDir) :
    Except Halt Decision × Machine :=
  Engine.approve target opts look (System.machine dir e l (steady 0))

-- The decision that is made after the approval.
def decideLate (m : Machine) : Except Halt ExecVerdict × Machine :=
  Engine.decideExec (.ok observation) (System.machine m.dir m.engine m.host.ledger late)

-- Whether an approval comes to a decision with one state, and leaves the script in another.
def leaves (given left : AdmissionState) (r : Except Halt Decision × Machine) : Bool :=
  (r.1.toOption.any fun d => d.state = given) ∧ r.2.engine.states.lookup observation.record.id = some left

theorem eq_ok_of_leaves {given left : AdmissionState} {r : Except Halt Decision × Machine} (h : leaves given left r) :
    ∃ d, r = (.ok d, r.2) ∧ d.state = given ∧ r.2.engine.states.lookup observation.record.id = some left := by
  have ⟨h, hl⟩ := of_decide_eq_true h
  have ⟨d, hd, hg⟩ := (Option.any_eq_true _ _).mp h
  exact ⟨d, Prod.ext (Except.toOption_eq_some.mp hd) rfl, of_decide_eq_true hg, hl⟩

-- Whether a decision rests on the approval, and with its row is to last longer.
def lasts (r : Except Halt ExecVerdict × Machine) : Bool :=
  (r.1.toOption.any fun v => v.decision.state = .admitted ∧ v.maxAgeSecs = 604800) ∧
  r.2.engine.approvalFor observation.record.id 50 = some approval ∧
  (r.2.engine.row "/opt/tool").map IndexRow.validUntil = some 605000

-- What is read as the identifier of the script is compared with it first.
def parseTarget (s : String) : Option EpnId :=
  if s = target then some observation.record.id else EpnId.parse s

theorem target_eq : target = observation.record.id.display := by
  decide +kernel

theorem parse_eq : EpnId.parse = parseTarget := by
  funext s
  rw [parseTarget]
  split
  case isTrue h => rw [h, target_eq, EpnId.parse_display]
  case isFalse => rfl

theorem known_ok : known.any fun s => s.engine.any fun (e, l) =>
    let r := approve (fun _ => none) e l s.dir
    leaves .admitted .observed r && leaves .observed .quarantined (approve (fun _ => some (.ok other)) e l s.dir) &&
    lasts (decideLate r.2) := by
  rw [known, started_system (verify_policy _ _)]
  unfold approve Engine.approve Engine.signApproval Approval.verify
  rw [parse_eq]
  decide +kernel

theorem not_applied : ∃ d e l d₁ m₁ d₂ m₂, known = some ⟨d, some (e, l)⟩ ∧
    approve (fun _ => none) e l d = (.ok d₁, m₁) ∧
    d₁.state = .admitted ∧ m₁.engine.states.lookup observation.record.id = some .observed ∧
    approve (fun _ => some (.ok other)) e l d = (.ok d₂, m₂) ∧
    d₂.state = .observed ∧ m₂.engine.states.lookup observation.record.id = some .quarantined := by
  have ⟨⟨d, _⟩, hs, h⟩ := (Option.any_eq_true _ _).mp known_ok
  obtain ⟨⟨e, l⟩, rfl, h⟩ := (Option.any_eq_true _ _).mp h
  have ⟨h, _⟩ := Bool.and_eq_true_iff.mp h
  have ⟨h₁, h₂⟩ := Bool.and_eq_true_iff.mp h
  have ⟨d₁, h₁, hd₁, hl₁⟩ := eq_ok_of_leaves h₁
  have ⟨d₂, h₂, hd₂, hl₂⟩ := eq_ok_of_leaves h₂
  exact ⟨d, e, l, d₁, _, d₂, _, hs, h₁, hd₁, hl₁, h₂, hd₂, hl₂⟩

end Approved
