import JlrModel.Engine.Theorems.Act
import JlrModel.Engine.Theorems.History
import JlrModel.Policy.Theorems.Signed

open Cbor Program Relation

variable [Crypto] {w : Setting} {m m' : Machine}

namespace StateDir

variable {dir : StateDir} {kind : GrantKind} {name name' : String} {f : File}

theorem get_putGrant : SortedMap.get name ((dir.putGrant kind name f).grants kind) = some f := by
  change SortedMap.get name (Function.update dir.grants kind _ kind) = _
  rw [Function.update_self, SortedMap.get_insert_self]

end StateDir

namespace Machine

theorem Rules.eligible {g : Grantee} {e e' : Engine} (r : Rules e e') (h : g.Eligible e) : g.Eligible e' := by
  cases g
  case approval =>
    change (e'.states.lookup _).isSome
    rwa [r.states]
  case baseline => exact h

theorem Act.eligible {g : Grantee} (a : Act w m m') (h : g.Eligible m.engine) : g.Eligible m'.engine := by
  cases g
  case approval => exact a.known h
  case baseline => exact h

end Machine

namespace Host

-- Removing superseded files changes nothing else.
inductive Removes (kind : GrantKind) (beginning keep : String) : Host → Host → Prop
  | advance {h : Host} : Removes kind beginning keep h h.advance
  | remove {h : Host} {name} : Text.startsWith name beginning → name ≠ keep →
      Removes kind beginning keep h (h.setDir (StateDir.removeGrant kind name))

theorem removeSuperseded_does {kind : GrantKind} {beginning keep : String} :
    Does (Removes kind beginning keep) (removeSuperseded kind beginning keep) := by
  refine .bind .view fun names => .fold (fun _ name hn => ?_) ()
  have ⟨hs, _, hk⟩ := of_decide_eq_true (List.mem_filter.mp hn).right
  exact .bind (.attempt (operate_does (fun _ => .advance) fun _ => .remove hs hk)) fun _ => .pure

end Host

namespace Engine

theorem loadPolicyKey_does : Does (Machine.Act w) loadPolicyKey :=
  .bind .view fun _ => .ofExcept

theorem now_bind {f : UInt64 → EngineM α} :
    (now >>= f) m = f (m.host.oracle.clock m.host.tick) (m.setHost m.host.advance) :=
  rfl

theorem loadPolicyKey_eq_ok {key : SigningKeypair} :
    loadPolicyKey m = (.ok key, m') ↔ m.dir.policyKey = .ok key ∧ m = m' := by
  rw [loadPolicyKey, view_bind, ofExcept_eq_ok, Except.mapError_eq_ok]

theorem loadPolicyKey_bind_eq_ok {f : SigningKeypair → EngineM α} {a : α} :
    (loadPolicyKey >>= f) m = (.ok a, m') ↔ ∃ key, m.dir.policyKey = .ok key ∧ f key m = (.ok a, m') := by
  simp only [bind_eq_ok, loadPolicyKey_eq_ok]
  exact ⟨fun ⟨key, _, ⟨hk, hm⟩, h⟩ => ⟨key, hk, hm ▸ h⟩, fun ⟨key, hk, h⟩ => ⟨key, m, ⟨hk, rfl⟩, h⟩⟩

-- When the event of a grant is in the ledger, its other files may go.
structure Granted (g : Grantee) (bytes : Bytes) (m : Machine) : Prop where
  open'    : m.host.ledger.poisoned = false
  eligible : g.Eligible m.engine
  current  : (History.current m.dir.log.events).lookup g.subject = some (Digest.of bytes)

theorem removeSuperseded_does {g : Grantee} {bytes : Bytes} (hm : Granted g bytes m) :
    ReflTransGen (Machine.Act w) m
      (onHost (Host.removeSuperseded g.kind (g.stem ++ ".") (g.file bytes)) m).2 := by
  refine Does.of_keeping (I := Granted g bytes) (Host.removeSuperseded_does.zoom (fun _ => rfl) ?_) hm
  intro m h h' a hm
  cases a
  case advance => exact ⟨.host (.quiet .advance), hm.open', hm.eligible, hm.current⟩
  case remove hs hn => exact ⟨.removeGrant g hm.open' hm.eligible hm.current hs hn, hm.open', hm.eligible, hm.current⟩

section

variable {g : Grantee} {f : File} {detail : String}

theorem makeCurrent_does {restore : Engine → Engine} (he : g.Eligible m.engine)
    (hf : SortedMap.get (g.file f.data) (m.dir.grants g.kind) = some f)
    (hr : ∀ e, Machine.Rules e (restore e) ∧ (restore e).revocations = e.revocations) :
    ReflTransGen (Machine.Act w) m (makeCurrent g.kind g.stem f.data restore g.subject detail m).2 := by
  have ⟨r, ha, hl⟩ := logSubject_appends .override g.subject none none [Digest.of f.data] .manualOverride detail m
  have hd : g.Grants f.data (m.engine.draft .override g.subject none none [Digest.of f.data] .manualOverride detail) :=
    ⟨rfl, rfl, rfl, rfl⟩
  have hg {h} (q : m.host.Quiet h) : SortedMap.get (g.file f.data) ((m.setHost h).dir.grants g.kind) = some f := by
    change SortedMap.get _ (h.dir.grants _) = _
    rw [q.grants]
    exact hf
  -- Whatever an append that fails has left behind, the engine forgets the grant.
  have failed {why m'} (hm : ReflTransGen (Machine.Act w) m m')
      (hl : logSubject .override g.subject none none [Digest.of f.data] .manualOverride detail m = (.error why, m')) :
      ReflTransGen (Machine.Act w) m (makeCurrent g.kind g.stem f.data restore g.subject detail m).2 := by
    rw [makeCurrent]
    cases why
    case error e =>
      rw [bind_ok (attempt_caught hl (show Halt.error? (.error e) = some e from rfl))]
      exact hm.tail (.rules (hr _).left (hr _).right)
    case stopped =>
      rw [bind_error (attempt_not_caught hl rfl)]
      exact hm
  cases ha with
  | done q hp =>
    rw [makeCurrent, bind_ok (attempt_ok hl)]
    refine .trans (.tail (.single (.host (.quiet q))) (.grant g hp he (hg q) hd)) ?_
    refine removeSuperseded_does ⟨hp, he, ?_⟩
    change (History.current (_ ++ [_])).lookup _ = _
    rw [History.current_concat_of_grants hd, AList.lookup_insert]
  | failed q => exact failed (.single (.host (.quiet q))) hl
  | lost q hp => exact failed (.tail (.single (.host (.quiet q))) (.loseGrant g hp he (hg q) hd)) hl

-- Installing a grant keeps to the order of its steps: the file, the event, and only then the removal of other files.
theorem supersede_does {bytes : Bytes} {enter : Engine → Engine} {restore : Engine → Engine → Engine}
    (he : g.Eligible m.engine) (hs : bytes ∈ w.signed)
    (ha : bytes.length < 2 ^ 63 → g.Accepts m.engine.node.nodeId m.engine.anchors bytes)
    (hn : ∀ e, Machine.Rules e (enter e) ∧ (enter e).revocations = e.revocations)
    (hr : ∀ b e, Machine.Rules e (restore b e) ∧ (restore b e).revocations = e.revocations) :
    ReflTransGen (Machine.Act w) m (supersede g.kind g.stem bytes enter restore g.subject detail m).2 := by
  refine Does.bind_at (writeAtomic_does fun f hf => ?_) fun _ m' hx => ?_
  · subst hf
    exact .grantFile g he hs (ha f.size_lt)
  · have ⟨f, hf, hm⟩ := writeAtomic_ok hx
    subst hf hm
    refine .head (.rules (hn _).left (hn _).right) ?_
    exact makeCurrent_does ((hn _).left.eligible he) StateDir.get_putGrant (hr _)

end

-- What is collected by a scan was observed.
theorem scanFile_seen {full : Bool} {r r' : ScanReport × List Seen} {t : Target}
    (hk : ∀ obs, t.observed = .ok obs → obs.record ∈ w.known) (hr : ∀ s ∈ r.2, s.record ∈ w.known)
    (h : scanFile full true r t m = (.ok r', m')) : ∀ s ∈ r'.2, s.record ∈ w.known := by
  unfold scanFile at h
  cases hm : t.metadata <;> rw [hm] at h
  case none =>
    cases h
    exact hr
  case some =>
    have ⟨skip, m₁, hs, h⟩ := bind_eq_ok.mp h
    rw [if_pos (Or.inr rfl)] at hs
    cases hs
    cases ho : t.observed <;> rw [ho] at h
    case error =>
      cases h
      exact hr
    case ok obs =>
      cases h
      simp only [List.mem_append, List.mem_singleton]
      intro s hs
      cases hs
      case inl hs => exact hr s hs
      case inr hs => exact hs ▸ hk obs ho

theorem scanFilesInner_seen {full : Bool} {files : List Target} {report : ScanReport} {seen : List Seen}
    (hk : ∀ t ∈ files, ∀ obs, t.observed = .ok obs → obs.record ∈ w.known)
    (h : scanFilesInner files full true m = (.ok (report, seen), m')) : ∀ s ∈ seen, s.record ∈ w.known := by
  have ⟨_, _, _, h⟩ := bind_eq_ok.mp h
  have ⟨result, _, hr, h⟩ := bind_eq_ok.mp h
  have ⟨_, _, _, h⟩ := bind_eq_ok.mp h
  have ⟨_, _, _, h⟩ := bind_eq_ok.mp h
  have ⟨_, _, _, h⟩ := bind_eq_ok.mp h
  have hr' := Except.mapError_eq_ok.mp (ofExcept_eq_ok.mp h).left
  rw [hr'] at hr
  have hf := attempt_eq_ok.mp hr
  refine fold_gives (P := fun r => ∀ s ∈ r.2, s.record ∈ w.known) (fun b t ht m m' b' hb hs => ?_) ?_ hf
  · exact scanFile_seen (hk t ht) hb hs
  · simp

theorem signBaseline_does {files : List Target} {opts : EnrollOptions} {full : Bool}
    (hk : ∀ t ∈ files, ∀ obs, t.observed = .ok obs → obs.record ∈ w.known) :
    Does (Machine.Act w) (signBaseline files opts full) := by
  refine .bind loadPolicyKey_does fun key => .bind (scanFilesInner_does hk) fun (report, seen) => ?_
  exact .bind now_does fun time => .bind .view fun e => .bind .ofExcept fun verified => .pure

-- What a baseline that was signed is made of.
theorem signBaseline_ok {files : List Target} {opts : EnrollOptions} {full : Bool} {b : SignedBaseline}
    (hk : ∀ t ∈ files, ∀ obs, t.observed = .ok obs → obs.record ∈ w.known)
    (h : signBaseline files opts full m = (.ok b, m')) :
    (∀ s ∈ b.seen, s.record ∈ w.known) ∧
    ∃ key, b.bytes = b.baseline.sign m'.engine.node.nodeId key ∧ b.baseline.name = opts.name ∧
      Baseline.verify b.bytes m'.engine.node.nodeId m'.engine.anchors = .ok b.verified := by
  have ⟨key, m₁, _, h⟩ := bind_eq_ok.mp h
  have ⟨(report, seen), m₂, hs, h⟩ := bind_eq_ok.mp h
  have ⟨time, m₃, _, h⟩ := bind_eq_ok.mp h
  rw [view_bind] at h
  have ⟨verified, hv, h⟩ := ofExcept_bind_eq_ok.mp h
  cases h
  exact ⟨scanFilesInner_seen hk hs, key, rfl, rfl, Except.mapError_eq_ok.mp hv⟩

theorem signApproval_does {epn : String} {opts : GrantOptions} : Does (Machine.Act w) (signApproval epn opts) := by
  refine .bind .ofExcept fun id => .bind .view fun known => .ite (fun _ => .halt) fun _ => ?_
  refine .bind .view fun stored => .bind .ofExcept fun record => .bind loadPolicyKey_does fun key => ?_
  exact .bind now_does fun time => .bind .view fun e => .bind .ofExcept fun verified => .pure

-- What an approval that was signed is made of.
theorem signApproval_ok {epn : String} {opts : GrantOptions} {s : SignedApproval}
    (h : signApproval epn opts m = (.ok s, m')) :
    (m'.engine.states.lookup s.id).isSome ∧ ∃ a key, a.epn = s.id.display ∧
      s.bytes = Approval.sign a m'.engine.node.nodeId key ∧
      Approval.verify s.bytes m'.engine.node.nodeId m'.engine.anchors = .ok s.verified := by
  have ⟨id, hi, h⟩ := ofExcept_bind_eq_ok.mp h
  rw [view_bind] at h
  split at h
  case isTrue => cases h
  case isFalse hk =>
    rw [view_bind] at h
    have ⟨record, _, h⟩ := ofExcept_bind_eq_ok.mp h
    have ⟨key, hl, h⟩ := loadPolicyKey_bind_eq_ok.mp h
    rw [now_bind, view_bind] at h
    have ⟨verified, hv, h⟩ := ofExcept_bind_eq_ok.mp h
    cases h
    exact ⟨not_not.mp hk, _, key, rfl, rfl, Except.mapError_eq_ok.mp hv⟩

theorem reassess_does {id : EpnId} {record : EpnRecord} {look : String → Option (Except String Observation)}
    (hk : ∀ path obs, look path = some (.ok obs) → obs.record ∈ w.known) :
    Does (Machine.Act w) (reassess id record look) := by
  refine .bind .view fun row => ?_
  cases ho : row.bind fun r => look r.2.path
  case none => exact evaluateNow_does
  case some observed =>
    have ⟨r, _, hl⟩ := Option.bind_eq_some_iff.mp ho
    intro m
    refine Does.ofExcept_at fun obs ho => ?_
    have hk := hk r.2.path obs (hl.trans (congrArg some (Except.mapError_eq_ok.mp ho)))
    refine Does.bind_at (seenFrom_does m) fun seen m' hs => ?_
    have hk : seen.record ∈ w.known := seenFrom_record hs ▸ hk
    exact Does.bind (process_does hk) (fun p => .bind flush_does fun _ => .bind saveIndex_does fun _ => .pure) m'

theorem approve_does {epn : String} {opts : GrantOptions} {look : String → Option (Except String Observation)}
    (hk : ∀ path obs, look path = some (.ok obs) → obs.record ∈ w.known)
    (hs : ∀ s m', signApproval epn opts m = (.ok s, m') → s.bytes ∈ w.signed) :
    ReflTransGen (Machine.Act w) m (approve epn opts look m).2 := by
  refine Does.bind_at (signApproval_does m) fun s m' h => ?_
  have ⟨he, a, key, ha, hb, hv⟩ := signApproval_ok h
  have hg : s.bytes.length < 2 ^ 63 →
      (Grantee.approval s.id).Accepts m'.engine.node.nodeId m'.engine.anchors s.bytes := by
    intro hl
    refine ⟨s.verified, hv, ?_⟩
    rw [hb] at hv hl
    exact (Approval.epn_of_verify_sign (hl.trans (by decide)) hv).trans ha
  refine Does.bind_at ?_ fun _ m' _ =>
    Does.bind (reassess_does hk) (fun _ => .bind flush_does fun _ => .pure) m'
  exact supersede_does (g := .approval s.id) he (hs s m' h) hg (fun _ => ⟨⟨rfl, rfl, rfl, rfl⟩, rfl⟩)
    fun _ _ => ⟨⟨rfl, rfl, rfl, rfl⟩, rfl⟩

theorem enrollBaseline_does {files : List Target} {opts : EnrollOptions} {full : Bool}
    (hk : ∀ t ∈ files, ∀ obs, t.observed = .ok obs → obs.record ∈ w.known)
    (hs : ∀ b m', signBaseline files opts full m = (.ok b, m') → b.bytes ∈ w.signed) :
    ReflTransGen (Machine.Act w) m (enrollBaseline files opts full m).2 := by
  rw [enrollBaseline]
  split
  case isTrue => exact .refl
  case isFalse hn =>
    refine Does.bind_at (signBaseline_does hk m) fun b m' h => ?_
    have ⟨hm, key, hb, hname, hv⟩ := signBaseline_ok hk h
    have hg : b.bytes.length < 2 ^ 63 →
        (Grantee.baseline opts.name).Accepts m'.engine.node.nodeId m'.engine.anchors b.bytes := by
      intro hl
      refine ⟨b.verified, hv, ?_⟩
      rw [hb] at hv hl
      exact (Baseline.name_of_verify_sign (hl.trans (by decide)) hv).trans hname
    have he : (Grantee.baseline opts.name).Eligible m'.engine := by
      rw [not_or, not_not] at hn
      exact hn
    refine Does.bind_at ?_ fun _ m' _ => ?_
    · exact supersede_does (g := .baseline opts.name) he (hs b m' h) hg (fun _ => ⟨⟨rfl, rfl, rfl, rfl⟩, rfl⟩)
        fun _ _ => ⟨⟨rfl, rfl, rfl, rfl⟩, rfl⟩
    · refine Does.bind setSync_does (fun _ => .bind (.attempt (.fold (fun _ s hs => ?_) _)) fun result => ?_) m'
      · exact .bind (process_does (hm s hs)) fun _ => .pure
      · exact .bind setSync_does fun _ => .bind flush_does fun _ => .bind saveIndex_does fun _ =>
          .bind .ofExcept fun _ => .pure

theorem signChecked_ok {recordType : String} {payload bytes : Bytes} {key : SigningKeypair} {anchors : TrustAnchors}
    (h : signChecked recordType payload key anchors = .ok bytes) (hl : bytes.length < 2 ^ 63) :
    ∃ v, Envelope.verify bytes recordType "*" anchors (RecordType.allowedSigners recordType) = .ok v ∧
      v.payload = payload ∧ payload.length < 2 ^ 64 := by
  have ⟨v, hv, h⟩ := Except.bind_eq_ok.mp h
  cases h
  have hl : (Envelope.sign recordType "*" payload key).length < 2 ^ 64 := hl.trans (by decide)
  have hv := Except.mapError_eq_ok.mp hv
  exact ⟨v, hv, Envelope.payload_of_verify_sign hl hv, lt_of_le_of_lt Envelope.length_le_sign hl⟩

-- A list that was signed is read back from its file.
theorem loadRevocations_signed {dir : StateDir} {anchors : TrustAnchors} {list : Revocations} {key : SigningKeypair}
    {f : File} (hf : dir.revocations = some f)
    (hs : signChecked RecordType.REVOCATIONS (toCbor list) key anchors = .ok f.data) :
    loadRevocations dir anchors = .ok list := by
  have ⟨v, hv, hp, hl⟩ := signChecked_ok hs f.size_lt
  have hr : fromCbor Revocations v.payload = .ok list := by
    rw [hp]
    exact fromCbor_toCbor (by decide) (RecordType.valid_of_capabilities (t := .revocations) nofun) hl
  refine Except.bind_eq_ok.mpr ⟨f, Except.okOr_eq_ok.mpr hf, ?_⟩
  refine Except.bind_eq_ok.mpr ⟨v, Except.mapError_eq_ok.mpr hv, ?_⟩
  exact Except.mapError_eq_ok.mpr hr

-- And so is a policy.
theorem loadPolicy_signed {dir : StateDir} {anchors : TrustAnchors} {p : ValidPolicy} {key : SigningKeypair}
    {f : File} (hf : dir.policy = some f)
    (hs : signChecked RecordType.POLICY (toCbor p.toPolicy) key anchors = .ok f.data) :
    loadPolicy dir anchors = .ok p := by
  have ⟨v, hv, hp, hl⟩ := signChecked_ok hs f.size_lt
  have hr : fromCbor Policy v.payload = .ok p.toPolicy := by
    rw [hp]
    exact fromCbor_toCbor (by decide) (RecordType.valid_of_capabilities (t := .policy) nofun) hl
  refine Except.bind_eq_ok.mpr ⟨f, Except.okOr_eq_ok.mpr hf, ?_⟩
  refine Except.bind_eq_ok.mpr ⟨v, Except.mapError_eq_ok.mpr hv, ?_⟩
  refine Except.bind_eq_ok.mpr ⟨p.toPolicy, Except.mapError_eq_ok.mpr hr, ?_⟩
  split
  case h_1 => rfl
  case h_2 h =>
    rw [p.valid] at h
    cases h

theorem revokeOne_does {kind : RevocationKind} {target reason : String} {r : RevokeReport} {id : EpnId} :
    Does (Knowing w id) (revokeOne kind target reason r id) := by
  refine .bind .view fun e => .bind .view fun record => ?_
  cases record
  case none =>
    refine .ite (fun _ => ?_) fun _ => .ite (fun _ => .pure) fun _ => .pure
    exact .bind (knowing storeEvidence_does) fun _ => .bind applyDecision_knowing fun _ => .pure
  case some record =>
    refine .ite (fun _ => ?_) fun _ => .pure
    exact .bind (knowing evaluateNow_does) fun _ => .bind (knowing storeEvidence_does) fun _ =>
      .bind applyDecision_knowing fun _ => .pure

theorem unrevoked_known {e : Engine} {order : List EpnId → List EpnId} {id : EpnId}
    (hp : ∀ ids, (order ids).Perm ids) (h : id ∈ e.unrevoked order) : (e.states.lookup id).isSome := by
  have ⟨s, hs, hi⟩ := List.mem_map.mp ((hp _).mem_iff.mp h)
  exact AList.lookup_isSome.mpr (List.mem_map.mpr ⟨s, (List.mem_filter.mp hs).left, hi⟩)

theorem revokeReport_does {order : List EpnId → List EpnId} {kind : RevocationKind} {target reason : String}
    (hp : ∀ ids, (order ids).Perm ids) : Does (Machine.Act w) (revokeReport order kind target reason) := by
  refine .bind .ofExcept fun target => .bind loadPolicyKey_does fun key m => ?_
  rw [view_bind]
  refine Does.ofExcept_at fun bytes hs => ?_
  have hs := Except.mapError_eq_ok.mp hs
  refine Does.bind_at (writeAtomic_does fun f hf => ?_) fun _ m₁ hx => ?_
  · subst hf
    exact .listFile (loadRevocations_signed rfl hs)
  · have ⟨f, hf, hm⟩ := writeAtomic_ok hx
    subst hm
    refine Does.bind_at (.single .list) fun _ m₁ _ => ?_
    refine Does.bind_at (log_does rfl (by decide) (by decide) m₁) fun _ m _ => Does.view_at fun ids hids => ?_
    refine Does.bind_at ?_ fun r m' _ => ?_
    · refine Does.of_keeping (I := fun m => ∀ id ∈ ids, (m.engine.states.lookup id).isSome)
        (.fold (fun r id hid => Does.keeping (fun m m' a hk id hid => a.known (hk id hid)) fun m hk => ?_) _)
        fun id hid => ?_
      · exact Does.of_keeping revokeOne_does (hk id hid)
      · exact unrevoked_known hp (hids ▸ hid)
    · refine Does.bind_at (Does.onlyIf (fun _ => log_does rfl (by decide) (by decide)) m') fun _ m' _ => ?_
      exact Does.bind flush_does (fun _ => .pure) m'

theorem setPolicy_does {new : Policy} : Does (Machine.Act w) (setPolicy new) := by
  refine .bind .view fun e => ?_
  split
  case h_1 => exact .halt
  case h_2 =>
    refine .ite (fun _ => .halt) fun _ => .bind loadPolicyKey_does fun key => .bind .ofExcept fun bytes => ?_
    refine .bind (fun m => writeAtomic_does fun f hf => .policyFile) fun _ => ?_
    refine .bind (.update fun m => .rules ⟨rfl, rfl, rfl, rfl⟩ rfl) fun _ => ?_
    exact .bind (log_does rfl nofun nofun) fun _ => .bind flush_does fun _ => .pure

theorem recordExec_does {id : Option EpnId} {path verdict : String} {d : Decision} :
    Does (Machine.Act w) (recordExec id path verdict d) :=
  .bind (log_does rfl nofun nofun) fun _ => flush_does

theorem recordDegraded_does {detail : String} : Does (Machine.Act w) (recordDegraded detail) :=
  .bind (log_does rfl nofun nofun) fun _ => flush_does

theorem recordDegradedMany_does {details : List String} : Does (Machine.Act w) (recordDegradedMany details) :=
  .bind setSync_does fun _ => .bind (.attempt (.fold (fun _ _ _ => log_does rfl (by decide) (by decide)) _)) fun _ =>
    .bind setSync_does fun _ => .bind .ofExcept fun _ => flush_does

end Engine

-- Every call is made of changes that the engine may make.
theorem Call.run_does {c : Call} (h : c.Within w m) : ReflTransGen (Machine.Act w) m (c.run m).2 := by
  cases c
  case scan files full =>
    refine Does.bind (.bind (Engine.scanFilesInner_does fun t ht obs ho => ?_) fun _ => .pure) (fun _ => .pure) m
    exact h.observes _ ⟨t, ht, obs, ho, rfl⟩
  case decideExec obs =>
    exact Does.bind (Engine.decideExec_does fun o ho => h.observes _ ⟨o, ho, rfl⟩) (fun _ => .pure) m
  case prepareRun obs args env caps seal' =>
    exact Does.bind (Engine.prepareRun_does fun o ho => h.observes _ ⟨o, ho, rfl⟩) (fun _ => .pure) m
  case enrollBaseline files opts full =>
    refine Does.bind_at (Engine.enrollBaseline_does (fun t ht obs ho => ?_) fun s m' hs => ?_) fun _ _ _ => .refl
    · exact h.observes _ ⟨t, ht, obs, ho, rfl⟩
    · exact h.signs _ ⟨s, m', hs, rfl⟩
  case approve epn opts look =>
    refine Does.bind_at (Engine.approve_does (fun path obs ho => ?_) fun s m' hs => ?_) fun _ _ _ => .refl
    · exact h.observes _ ⟨path, obs, ho, rfl⟩
    · exact h.signs _ ⟨s, m', hs, rfl⟩
  case revoke order perm kind target reason =>
    exact Does.bind (Engine.revokeReport_does perm) (fun _ => .pure) m
  case setPolicy new => exact Does.bind Engine.setPolicy_does (fun _ => .pure) m
  case recordExec => exact Engine.recordExec_does m
  case recordDegraded => exact Engine.recordDegraded_does m
  case recordDegradedMany => exact Engine.recordDegradedMany_does m
  case checkpoint => exact Engine.checkpoint_does m
