import JlrModel.Engine.Theorems.Policy

-- What a change of the policy or of the list of revocations leaves behind that has failed.

open Cbor Program Relation

section

variable [Crypto] {m m' : Machine} {bytes : Bytes}

namespace Host

-- A file is written with an error, and is what it was before.
def Declines (h : Host) (bytes : Bytes) (current : Option File) : Prop :=
  bytes.length < 2 ^ 63 →
    match h.oracle.fate h.tick with
    | .failed _            => True
    | .broken _ .nothing   => True
    | .broken _ (.part _)  => True
    | .broken _ .whole     => current.map (·.data) = some bytes
    | .done                => False
    | .stopped _           => False

-- The ways in which a file can be written, told apart by whether it is what it was before.
inductive Writes (bytes : Bytes) (change : File → StateDir → StateDir) (h : Host) : Except Halt Unit × Host → Prop
  | kept : (∀ current, h.Declines bytes current) → h'.dir = h.dir → Writes bytes change h (.error (.error e), h')
  | left : f.data = bytes → (∀ current, h.Declines bytes current ↔ current.map (·.data) = some bytes) →
      Writes bytes change h (.error (.error e), h.advance.setDir (change f))
  | stopped : Writes bytes change h (.error .stopped, h')
  | done : f.data = bytes → (∀ current, ¬ h.Declines bytes current) →
      Writes bytes change h (.ok (), h.advance.setDir (change f))

theorem writeAtomic_writes (bytes : Bytes) (change : File → StateDir → StateDir) (h : Host) :
    Writes bytes change h (writeAtomic bytes change h) := by
  by_cases hl : bytes.length < 2 ^ 63
  case neg =>
    rw [writeAtomic, dif_neg hl]
    exact .kept (fun _ hl' => absurd hl' hl) rfl
  case pos =>
    rw [writeAtomic, dif_pos hl, operate, bind_ok nextFate_apply]
    have hd (current : Option File) : h.Declines bytes current ↔ _ := forall_prop_of_true hl
    revert hd
    cases h.oracle.fate h.tick
    case done => exact fun hd => .done rfl fun c => (hd c).mp
    case failed => exact fun hd => .kept (fun c => (hd c).mpr trivial) rfl
    case broken left =>
      cases left
      case whole => exact fun hd => .left rfl hd
      case nothing => exact fun hd => .kept (fun c => (hd c).mpr trivial) rfl
      case part => exact fun hd => .kept (fun c => (hd c).mpr trivial) rfl
    case stopped left => cases left <;> exact fun _ => .stopped

end Host

-- Nothing has changed about the policy and the list: what is in force, the files, and the epochs that are recorded.
structure Machine.AsBefore (m m' : Machine) : Prop where
  policy      : m'.engine.policy = m.engine.policy
  list        : m'.engine.revocations = m.engine.revocations
  policyFile  : m'.dir.policy = m.dir.policy
  listFile    : m'.dir.revocations = m.dir.revocations
  policyEpoch : History.floor .policyLoad m'.dir.log.replayed = History.floor .policyLoad m.dir.log.replayed
  listEpoch   : History.floor .revocation m'.dir.log.replayed = History.floor .revocation m.dir.log.replayed

theorem Machine.AsBefore.of_dir (he : m'.engine = m.engine) (hd : m'.dir = m.dir) : m.AsBefore m' := by
  constructor <;> simp only [he, hd]

namespace Engine

-- A file is written before the engine goes by it. From then on, there is no way back.
theorem install_same_iff {change : File → StateDir → StateDir} {switch : Engine → Engine} {rest : EngineM α}
    {current : Option File}
    (hleft : ∀ f : File, m.AsBefore (m.setHost (m.host.advance.setDir (change f))) ↔ current = some f)
    (hdone : ∀ h r m', rest ⟨h, switch m.engine⟩ = (r, m') → ¬ m.AsBefore m')
    (hx : (do onHost (Host.writeAtomic bytes change); update (Machine.setEngine switch); rest) m =
      (.error (.error e), m')) :
    m.AsBefore m' ↔ m.host.Declines bytes current := by
  have hw := Host.writeAtomic_writes bytes change m.host
  generalize hr : Host.writeAtomic bytes change m.host = r at hw
  have hr : onHost (Host.writeAtomic bytes change) m = (r.1, m.setHost r.2) := by
    rw [onHost_apply, hr]
  cases hw with
  | kept hd hdir =>
    rw [bind_error hr] at hx
    cases hx
    exact iff_of_true (.of_dir rfl hdir) (hd current)
  | left hf hd =>
    rw [bind_error hr] at hx
    cases hx
    rw [hleft, hd, Option.map_eq_some_iff]
    exact ⟨fun hc => ⟨_, hc, hf⟩, fun ⟨f', hc, hf'⟩ => hc.trans (congrArg some (File.ext (hf'.trans hf.symm)))⟩
  | stopped =>
    rw [bind_error hr] at hx
    cases hx
  | done hf hd =>
    rw [bind_ok hr, update_bind] at hx
    exact iff_of_false (hdone _ _ _ hx) (hd current)

-- The file that a call is about to write, unless it is refused before.
def policyBytes (m : Machine) (new : Policy) : Option Bytes :=
  if (new.validateReplacing m.engine.policy.toPolicy).isOk ∧ m.engine.policy.epoch < new.epoch then do
    let key ← m.dir.policyKey.toOption
    (signChecked RecordType.POLICY (toCbor new) key m.engine.anchors).toOption
  else
    none

def listBytes (m : Machine) (kind : RevocationKind) (target reason : String) : Option Bytes := do
  let target ← (normalizeRevocationTarget kind target).toOption
  let key ← m.dir.policyKey.toOption
  let list := m.engine.revocations.add { kind, target, reason := sanitize reason }
  (signChecked RecordType.REVOCATIONS (toCbor list) key m.engine.anchors).toOption

-- A key that cannot be loaded, or whose signature is not accepted, ends a call before anything is written.
theorem signed_error (sign : SigningKeypair → Except EngineError Bytes) {g : SigningKeypair → EngineM α}
    {f : Bytes → EngineM α} (hg : ∀ key, g key m = (Program.ofExcept ((sign key).mapError Halt.error) >>= f) m)
    (hx : (loadPolicyKey >>= g) m = (.error (.error e), m')) :
    (m.dir.policyKey.toOption.bind (sign · |>.toOption) = none ∧ m' = m) ∨
      ∃ bytes, m.dir.policyKey.toOption.bind (sign · |>.toOption) = some bytes ∧
        f bytes m = (.error (.error e), m') := by
  cases hk : m.dir.policyKey
  case error =>
    rw [loadPolicyKey, bind_apply, view_bind, hk] at hx
    cases hx
    exact .inl ⟨rfl, rfl⟩
  case ok key =>
    rw [bind_ok (loadPolicyKey_eq_ok.mpr ⟨hk, rfl⟩), hg] at hx
    simp only [Except.toOption, Option.bind_some]
    cases hs : sign key <;> rw [hs] at hx
    case error =>
      cases hx
      exact .inl ⟨rfl, rfl⟩
    case ok bytes => exact .inr ⟨bytes, rfl, hx⟩

-- So it all depends on the file that is written.
theorem same_iff_of_signed {signed : Option Bytes} {file : Option File}
    (h : (signed = none ∧ m' = m) ∨ ∃ bytes, signed = some bytes ∧ (m.AsBefore m' ↔ m.host.Declines bytes file)) :
    m.AsBefore m' ↔ ∀ bytes, signed = some bytes → m.host.Declines bytes file := by
  rcases h with ⟨hn, hm⟩ | ⟨bytes, hs, h⟩
  · refine iff_of_true (hm ▸ .of_dir rfl rfl) fun bytes hb => ?_
    cases hn.symm.trans hb
  · rw [h]
    refine ⟨fun hd bytes' hb => ?_, fun hd => hd bytes hs⟩
    cases hs.symm.trans hb
    exact hd

theorem setPolicy_same_iff {new : Policy} (hx : setPolicy new m = (.error (.error e), m')) :
    m.AsBefore m' ↔ ∀ bytes, policyBytes m new = some bytes → m.host.Declines bytes m.dir.policy := by
  let P (x : EngineM Digest) : Prop := x m = (.error (.error e), m') →
    (policyBytes m new = none ∧ m' = m) ∨
      ∃ bytes, policyBytes m new = some bytes ∧ (m.AsBefore m' ↔ m.host.Declines bytes m.dir.policy)
  refine same_iff_of_signed ?_
  revert hx
  rw [setPolicy, view_bind]
  change P _
  split
  case h_1 err hv =>
    intro hx
    cases hx
    rw [policyBytes, hv]
    exact .inl ⟨rfl, rfl⟩
  case h_2 hv =>
    intro hx
    rw [policyBytes, hv]
    by_cases hc : new.epoch ≤ m.engine.policy.epoch
    case pos =>
      rw [if_pos hc] at hx
      cases hx
      rw [if_neg fun h => UInt64.not_lt.mpr hc h.right]
      exact .inl ⟨rfl, rfl⟩
    case neg =>
      rw [if_neg hc] at hx
      rw [if_pos ⟨rfl, UInt64.not_le.mp hc⟩]
      refine (signed_error _ (fun _ => rfl) hx).imp_right ?_
      rintro ⟨bytes, hs, hx⟩
      refine ⟨bytes, hs, install_same_iff (fun f => ?_) (fun h r m₁ hr hs => ?_) hx⟩
      · exact ⟨fun h => h.policyFile.symm, fun h => ⟨rfl, rfl, h.symm, rfl, rfl, rfl⟩⟩
      · have hp : Keeps policy _ m₁ := .of_does (by exact .bind log_keeps fun _ => .bind flush_keeps fun _ => .pure) hr
        have he : m₁.engine.policy.epoch = new.epoch := congrArg (·.toPolicy.epoch) hp
        rw [hs.policy] at he
        exact hc (he ▸ UInt64.le_refl _)

theorem revokeReport_same_iff {order : List EpnId → List EpnId} {kind : RevocationKind} {target reason : String}
    (hx : revokeReport order kind target reason m = (.error (.error e), m')) :
    m.AsBefore m' ↔
      ∀ bytes, listBytes m kind target reason = some bytes → m.host.Declines bytes m.dir.revocations := by
  refine same_iff_of_signed ?_
  rw [listBytes]
  cases ht : normalizeRevocationTarget kind target
  case error =>
    rw [revokeReport, ht] at hx
    cases hx
    exact .inl ⟨rfl, rfl⟩
  case ok target' =>
    rw [revokeReport, ht] at hx
    change (loadPolicyKey >>= _) m = _ at hx
    let list := m.engine.revocations.add { kind, target := target', reason := sanitize reason }
    let sign (key : SigningKeypair) := signChecked RecordType.REVOCATIONS (toCbor list) key m.engine.anchors
    refine (signed_error sign (by exact fun _ => rfl) hx).imp_right ?_
    rintro ⟨bytes, hs, hx⟩
    refine ⟨bytes, hs, install_same_iff (fun f => ?_) (fun h r m₁ hr hs => ?_) hx⟩
    · exact ⟨fun h => h.listFile.symm, fun h => ⟨rfl, rfl, rfl, h.symm, rfl, rfl⟩⟩
    · have hl : m₁.engine.revocations = list := by
        refine Keeps.of_does (f := revocations) ?_ hr
        refine .bind log_keeps fun _ => .bind .view fun ids => .bind (.fold (fun _ _ _ => ?_) _) fun r => ?_
        · exact (revokeOne_leaves (S := {Area.list})).mono fun _ _ h => h.known .list rfl
        · exact .bind (.onlyIf fun _ => log_keeps) fun _ => .bind flush_keeps fun _ => .pure
      have he : list.entries.length = m.engine.revocations.entries.length :=
        congrArg (·.entries.length) (hl.symm.trans hs.list)
      simp [list, Revocations.add] at he

theorem failed_change_leaves_nothing (m m' : Machine) (e : EngineError) :
    (∀ new, setPolicy new m = (.error (.error e), m') →
      (m.AsBefore m' ↔ ∀ bytes, policyBytes m new = some bytes → m.host.Declines bytes m.dir.policy)) ∧
    ∀ order kind target reason, revokeReport order kind target reason m = (.error (.error e), m') →
      (m.AsBefore m' ↔
        ∀ bytes, listBytes m kind target reason = some bytes → m.host.Declines bytes m.dir.revocations) :=
  ⟨fun _ => setPolicy_same_iff, fun _ _ _ _ => revokeReport_same_iff⟩

end Engine

end

-- A new policy is installed while the disk is full.
namespace Installed.Renewed

attribute [local instance] crypto

-- The file is still replaced, but there is no room for the event.
def full : Oracle where
  fate n  := if n = 2 then .failed "No space left on device (os error 28)" else .done
  clock _ := 0

def renew (e : Engine) (l : LedgerHandle) (d : StateDir) : Except Halt Digest × Machine :=
  Engine.setPolicy (Policy.workstation 2) (System.machine d e l full)

def fails : Except Halt α → Bool
  | .error (.error _) => true
  | _                 => false

theorem renew_started : (started system).any fun s => s.engine.any fun (e, l) =>
    fails (renew e l s.dir).1 ∧ e.policy.epoch = 1 ∧
    (renew e l s.dir).2.engine.policy.epoch = 2 ∧
    History.floor .policyLoad (renew e l s.dir).2.dir.log.replayed = 1 := by
  rw [started_system (verify_policy _ _)]
  decide +kernel

-- The new policy is in force, and no event says so.
theorem unrecorded_policy : ∃ d e l err m', started system = some ⟨d, some (e, l)⟩ ∧
    Engine.setPolicy (Policy.workstation 2) (System.machine d e l full) = (.error (.error err), m') ∧
    e.policy.epoch = 1 ∧ m'.engine.policy.epoch = 2 ∧ History.floor .policyLoad m'.dir.log.replayed = 1 ∧
    ¬ (System.machine d e l full).AsBefore m' := by
  have ⟨⟨d, _⟩, hs, h⟩ := (Option.any_eq_true _ _).mp renew_started
  have ⟨(e, l), he, h⟩ := (Option.any_eq_true _ _).mp h
  have ⟨hr, h₁, h₂, h₃⟩ := of_decide_eq_true h
  cases he
  match hx : renew e l d with
  | (.error (.error err), m') =>
    rw [hx] at h₂ h₃
    refine ⟨d, e, l, err, m', hs, hx, h₁, h₂, h₃, fun hb => ?_⟩
    have hp : m'.engine.policy.epoch = e.policy.epoch := congrArg (·.toPolicy.epoch) hb.policy
    rw [h₁, h₂] at hp
    exact absurd hp (by decide)
  | (.error .stopped, m')     => rw [hx] at hr; cases hr
  | (.ok _, m')               => rw [hx] at hr; cases hr

end Installed.Renewed
