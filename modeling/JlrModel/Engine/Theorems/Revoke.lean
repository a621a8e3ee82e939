import JlrModel.Engine.Theorems.Launch
import JlrModel.Engine.Theorems.Policy
import JlrModel.Engine.Theorems.Process
import JlrModel.Engine.Theorems.Spares

open Cbor Program Relation

-- What a revocation comes to.

theorem Revocations.subset_add {entries : List RevocationEntry} {list : Revocations} {entry : RevocationEntry}
    (h : entries ⊆ list.entries) : entries ⊆ (list.add entry).entries :=
  fun _ hx => List.mem_append_left _ (h hx)

section

variable [Crypto] {m m' : Machine}

theorem Revocations.hit_mono {list list' : Revocations} {record : EpnRecord} (hs : list.entries ⊆ list'.entries)
    (h : (list.hit record).isSome) : (list'.hit record).isSome := by
  have ⟨entry, he, hm⟩ := List.find?_isSome.mp h
  exact List.find?_isSome.mpr ⟨entry, hs he, hm⟩

namespace StateDir

theorem loadRecord_congr {d d' : StateDir} (h : d'.objects .epn = d.objects .epn) : d'.loadRecord = d.loadRecord := by
  funext id
  rw [loadRecord, loadRecord, getObject, getObject, h]

end StateDir

namespace Engine

variable {kind : RevocationKind} {target reason : String} {r r' : RevokeReport} {id : EpnId}

-- The artifacts that a revocation is about: the list has an entry for their record, or they are named themselves.
def Condemned (m : Machine) (kind : RevocationKind) (target : String) (id : EpnId) : Prop :=
  match m.dir.loadRecord id with
  | some record => (m.engine.revocations.hit record).isSome
  | none        => kind = .epn ∧ id.display = target

-- Those that cannot be compared with the list.
def unchecked (dir : StateDir) (kind : RevocationKind) (id : EpnId) : Bool :=
  kind ≠ .epn ∧ (dir.loadRecord id).isNone

theorem unchecked_congr {d d' : StateDir} (h : d'.objects .epn = d.objects .epn) :
    unchecked d' kind = unchecked d kind := by
  funext id
  rw [unchecked, unchecked, StateDir.loadRecord_congr h]

theorem condemned_congr (hd : m'.dir.objects .epn = m.dir.objects .epn)
    (hl : m'.engine.revocations = m.engine.revocations) : Condemned m' kind target id ↔ Condemned m kind target id := by
  rw [Condemned, Condemned, StateDir.loadRecord_congr hd, hl]

theorem flush_spares {S : Set EpnId} : Does (Machine.Spares S) flush := by
  have hq {x : HostM Unit} (hx : ∀ h : Host, h.Quiet (x h).2) : Does (Machine.Spares S) (onHost x) :=
    onHost_spares fun h => .single (congrFun ((hx h).dir.same (f := StateDir.objects) fun _ _ => rfl) .epn)
  refine .bind (hq fun _ => Host.syncFs_quiet) fun _ => .bind .view fun _ => ?_
  refine .bind (.onlyIf fun _ => hq fun _ => Host.checkpoint_quiet) fun _ => onHost_spares ?_
  exact Host.operate_does (fun _ => rfl) fun _ => rfl

theorem revokeOne_spares : Does (Machine.Spares (· ≠ id)) (revokeOne kind target reason r id) := by
  refine .bind .view fun e => .bind .view fun record => ?_
  cases record
  case none =>
    refine .ite (fun _ => ?_) fun _ => .ite (fun _ => .pure) fun _ => .pure
    exact .bind storeEvidence_spares fun _ => .bind applyDecision_spares fun _ => .pure
  case some record =>
    refine .ite (fun _ => ?_) fun _ => .pure
    exact .bind evaluateNow_spares fun _ => .bind storeEvidence_spares fun _ => .bind applyDecision_spares fun _ => .pure

-- An artifact that the revocation is about is revoked.
theorem revokeOne_condemned (h : revokeOne kind target reason r id m = (.ok r', m')) (hc : Condemned m kind target id) :
    m'.engine.states.lookup id = some .revoked := by
  rw [revokeOne, view_bind, view_bind] at h
  rw [Condemned] at hc
  cases hr : m.dir.loadRecord id
  case some record =>
    rw [hr] at h hc
    dsimp only at h hc
    rw [if_pos hc] at h
    obtain ⟨d, m₁, hd, h⟩ := bind_eq_ok.mp h
    obtain ⟨ev, m₂, _, h⟩ := bind_eq_ok.mp h
    obtain ⟨n, m₃, ha, h⟩ := bind_eq_ok.mp h
    obtain ⟨hd, _⟩ := evaluateNow_ok hd
    have hs : d.state = .revoked := hd ▸ evaluate_of_hit hc
    rw [← (Program.pure_eq_ok.mp h).right, applyDecision_ok (hs ▸ nofun) ha, hs]
  case none =>
    rw [hr] at h hc
    dsimp only at h hc
    rw [if_pos hc] at h
    obtain ⟨ev, m₂, _, h⟩ := bind_eq_ok.mp h
    obtain ⟨n, m₃, ha, h⟩ := bind_eq_ok.mp h
    rw [← (Program.pure_eq_ok.mp h).right, applyDecision_ok (by exact nofun) ha]
    rfl

theorem revokeOne_unchecked (h : revokeOne kind target reason r id m = (.ok r', m')) :
    r'.unchecked = r.unchecked + (unchecked m.dir kind id).toNat := by
  rw [revokeOne, view_bind, view_bind] at h
  rw [unchecked]
  cases hr : m.dir.loadRecord id
  case some record =>
    have hn : decide (kind ≠ .epn ∧ (some record).isNone = true) = false := by simp
    rw [hn]
    rw [hr] at h
    dsimp only at h
    split at h
    case isTrue =>
      obtain ⟨_, _, _, h⟩ := bind_eq_ok.mp h
      obtain ⟨_, _, _, h⟩ := bind_eq_ok.mp h
      obtain ⟨_, _, _, h⟩ := bind_eq_ok.mp h
      rw [← (Program.pure_eq_ok.mp h).left]
      rfl
    case isFalse =>
      rw [← (Program.pure_eq_ok.mp h).left]
      rfl
  case none =>
    rw [hr] at h
    dsimp only at h
    split at h
    case isTrue hk =>
      obtain ⟨_, _, _, h⟩ := bind_eq_ok.mp h
      obtain ⟨_, _, _, h⟩ := bind_eq_ok.mp h
      rw [← (Program.pure_eq_ok.mp h).left]
      simp [hk.left]
    case isFalse =>
      split at h
      case isTrue hk =>
        rw [← (Program.pure_eq_ok.mp h).left]
        simp [hk]
      case isFalse hk =>
        rw [← (Program.pure_eq_ok.mp h).left]
        simp [not_not.mp hk]

-- What going through some of the artifacts comes to.
structure Revokes (kind : RevocationKind) (target : String) (ids : List EpnId) (m m' : Machine) : Prop where
  records   : m'.dir.objects .epn = m.dir.objects .epn
  list      : m'.engine.revocations = m.engine.revocations
  others    : ∀ id ∉ ids, m'.engine.states.lookup id = m.engine.states.lookup id
  condemned : ∀ id ∈ ids, Condemned m kind target id → m'.engine.states.lookup id = some .revoked

theorem revokes_of_fold {ids : List EpnId} (h : fold (revokeOne kind target reason) r ids m = (.ok r', m')) :
    Revokes kind target ids m m' ∧ r'.unchecked = r.unchecked + ids.countP (unchecked m.dir kind) := by
  induction ids generalizing m r
  case nil =>
    cases h
    exact ⟨⟨rfl, rfl, fun _ _ => rfl, fun _ hid => absurd hid List.not_mem_nil⟩, rfl⟩
  case cons id ids ih =>
    obtain ⟨r₁, m₁, hx, h⟩ := bind_eq_ok.mp h
    have ⟨k, hn⟩ := ih h
    have hs := Machine.Spares.of_ok revokeOne_spares hx
    have hl : m₁.engine.revocations = m.engine.revocations :=
      Machine.Leaves.list (S := {Area.list}) (revokeOne_leaves.of_ok hx) rfl
    constructor
    · refine ⟨k.records.trans hs.records, k.list.trans hl, fun id' hid => ?_, fun id' hid hc => ?_⟩
      · have ⟨hne, hni⟩ := not_or.mp (mt List.mem_cons.mpr hid)
        exact (k.others id' hni).trans (hs.states id' hne)
      · by_cases hi : id' ∈ ids
        case pos => exact k.condemned id' hi ((condemned_congr hs.records hl).mpr hc)
        case neg =>
          -- Later passes are about other artifacts.
          have he := (List.mem_cons.mp hid).resolve_right hi
          subst he
          rw [k.others id' hi]
          exact revokeOne_condemned hx hc
    · rw [hn, revokeOne_unchecked hx, unchecked_congr hs.records, List.countP_cons]
      cases unchecked m.dir kind id
      case true => exact Nat.add_right_comm _ _ _
      case false => rfl

-- What revoking something has come to, with the target in the form that the list has.
structure Revoked (kind : RevocationKind) (target : String) (r : RevokeReport) (m m' : Machine) : Prop where
  records   : m'.dir.objects .epn = m.dir.objects .epn
  file      : loadRevocations m'.dir m.engine.anchors = .ok m'.engine.revocations
  known     : ∀ id, (m'.engine.states.lookup id).isSome → Condemned m' kind target id →
    m'.engine.states.lookup id = some .revoked
  unchecked : r.unchecked = (m.engine.states.entries.filter (·.2 ≠ .revoked)).countP (unchecked m.dir kind ·.1)

-- The artifacts that are gone through are those that are known and not revoked yet.
theorem mem_unrevoked {order : List EpnId → List EpnId} (perm : ∀ ids, (order ids).Perm ids) {e : Engine}
    {s : AdmissionState} (h : e.states.lookup id = some s) (hs : s ≠ .revoked) : id ∈ e.unrevoked order := by
  refine (perm _).mem_iff.mpr (List.mem_map.mpr ⟨⟨id, s⟩, List.mem_filter.mpr ⟨?_, decide_eq_true hs⟩, rfl⟩)
  exact AList.mem_lookup_iff.mp h

theorem revokeReport_revoked {order : List EpnId → List EpnId} (perm : ∀ ids, (order ids).Perm ids)
    (h : revokeReport order kind target reason m = (.ok r, m')) :
    ∃ t, normalizeRevocationTarget kind target = .ok t ∧ Revoked kind t r m m' := by
  have ⟨t, ht, h⟩ := ofExcept_bind_eq_ok.mp h
  have ⟨key, _, h⟩ := loadPolicyKey_bind_eq_ok.mp h
  rw [view_bind] at h
  have ⟨bytes, hb, h⟩ := ofExcept_bind_eq_ok.mp h
  have ⟨_, m₁, hw, h⟩ := bind_eq_ok.mp h
  rw [update_bind] at h
  have ⟨_, m₂, hl, h⟩ := bind_eq_ok.mp h
  rw [view_bind] at h
  have ⟨r₃, m₃, hf, h⟩ := bind_eq_ok.mp h
  have ⟨_, m₄, hd, h⟩ := bind_eq_ok.mp h
  have ⟨_, m₅, hx, h⟩ := bind_eq_ok.mp h
  cases h
  refine ⟨t, Except.mapError_eq_ok.mp ht, ?_⟩
  obtain ⟨f, rfl, rfl⟩ := writeAtomic_ok hw
  have hr₂ := (Machine.Spares.of_ok (S := Set.univ) log_spares hl).records
  obtain ⟨h₁, q, _, rfl⟩ := logSubject_ok hl
  have hf₂ : h₁.dir.revocations = some f := q.dir.same (f := StateDir.revocations) fun _ _ => rfl
  have ⟨k, hn⟩ := revokes_of_fold hf
  have hs : Machine.Spares Set.univ m₃ m' :=
    .trans (.of_ok (.onlyIf fun _ => log_spares) hd) (.of_ok flush_spares hx)
  have hl₃ : ReflTransGen (Machine.Leaves {Area.list}) _ m₃ := Does.of_ok (.fold (fun _ _ _ => revokeOne_leaves) _) hf
  have hl' : ReflTransGen (Machine.Leaves {Area.list}) m₃ m' :=
    .trans (Does.of_ok (.onlyIf fun _ => log_leaves (Area.kind_ne (by decide))) hd) (Does.of_ok flush_leaves hx)
  have hlist : m'.engine.revocations = m.engine.revocations.add ⟨kind, t, sanitize reason⟩ :=
    (Machine.Leaves.list hl' rfl).trans k.list
  have hrecords := hs.records.trans k.records
  exact {
    records   := hrecords.trans hr₂
    file      := by
      have hfile : m'.dir.revocations = some f := (Machine.Leaves.listFile (hl₃.trans hl') rfl).trans hf₂
      rw [hlist]
      exact loadRevocations_signed hfile (Except.mapError_eq_ok.mp hb)
    known     := fun id hk hc => by
      have hc := (condemned_congr hrecords ((Machine.Leaves.list hl' rfl).trans k.list)).mp hc
      rw [hs.states id trivial] at hk ⊢
      by_cases hi : id ∈ unrevoked m.engine order
      case pos => exact k.condemned id hi hc
      case neg =>
        rw [k.others id hi] at hk ⊢
        have ⟨s, hlk⟩ := Option.isSome_iff_exists.mp hk
        by_contra hne
        exact hi (mem_unrevoked perm hlk fun hr => hne (hr ▸ hlk))
    unchecked := by
      rw [hn, Nat.zero_add, unchecked_congr hr₂]
      exact ((perm _).countP_eq _).trans List.countP_map
  }

end Engine

theorem Call.revoke_ok {order : List EpnId → List EpnId} {perm : ∀ ids, (order ids).Perm ids} {kind : RevocationKind}
    {target reason : String} (h : (revoke order perm kind target reason).run m = (.ok (), m')) :
    ∃ r, Engine.revokeReport order kind target reason m = (.ok r, m') := by
  obtain ⟨r, m₁, hx, h⟩ := bind_eq_ok.mp h
  cases h
  exact ⟨r, hx⟩

namespace System

variable {w : Setting}

theorem revoked_stable {id : EpnId} (hw : ∀ d d', w.tamper d d' → Logged d d') : Stable w
    (fun d p => Archived d p ∧ (History.states d.log.replayed).lookup id = some .revoked)
    (fun d e p => Traced d e p ∧ (History.states d.log.events).lookup id = some .revoked) where
  tamper d d' ht h         := ⟨(traced_stable hw).tamper d d' ht h.left, hw d d' ht ▸ h.right⟩
  tamperOpen d d' e p ht h := ⟨(traced_stable hw).tamperOpen d d' e p ht h.left, hw d d' ht ▸ h.right⟩
  note h h' a hd           := by
    have ha := hd.left.act a
    refine ⟨ha, ?_⟩
    obtain hr | ⟨d, _, hr⟩ := (Host.Extends.of_act a).replayed hd.left.left
    · exact hr ▸ hd.right
    · rw [hr]
      exact (hr ▸ ha.legal).revoked_concat hd.right
  repair d h               := ⟨(traced_stable hw).repair d h.left, EventLog.replayed_repaired.symm ▸ h.right⟩
  start d e ho h           := ⟨(traced_stable hw).start d e ho h.left, h.right⟩
  act m m' a h             := by
    have ht := h.left.act a
    refine ⟨ht, ?_⟩
    obtain same | ⟨_, d, _, logs | loses⟩ := a.log_cases
    · exact same.events ▸ h.right
    · rw [logs.events]
      exact (logs.events ▸ ht.events).revoked_concat h.right
    · exact loses.events ▸ h.right
  weaken d p h             := ⟨⟨h.left.legal, nofun⟩, h.right⟩
  close d e p h            := by
    refine ⟨⟨h.left.legal, nofun⟩, ?_⟩
    cases hl : d.log.left
    case none => rw [EventLog.replayed_of_none hl]; exact h.right
    case some d' =>
      have hr := EventLog.replayed_of_some hl
      rw [hr]
      exact (hr ▸ h.left.legal).revoked_concat h.right

-- The list of an engine, and the one in its directory, have some entries.
structure Listed (entries : List RevocationEntry) (d : StateDir) (e : Engine) : Prop where
  anchors : d.anchors = .ok e.anchors
  engine  : entries ⊆ e.revocations.entries
  file    : ∃ list, Engine.loadRevocations d e.anchors = .ok list ∧ entries ⊆ list.entries

theorem Listed.of_same {entries : List RevocationEntry} {d d' : StateDir} {e e' : Engine} (h : Listed entries d e)
    (ha : d'.anchors = d.anchors) (hr : d'.revocations = d.revocations) (hea : e'.anchors = e.anchors)
    (her : e'.revocations = e.revocations) : Listed entries d' e' where
  anchors := by rw [ha, hea, h.anchors]
  engine  := her ▸ h.engine
  file    := by
    have hl : Engine.loadRevocations d' e'.anchors = Engine.loadRevocations d e.anchors := by
      rw [Engine.loadRevocations, Engine.loadRevocations, hr, hea]
    exact hl ▸ h.file

theorem Listed.act {entries : List RevocationEntry} {m m' : Machine} (a : Machine.Act w m m')
    (h : Listed entries m.dir m.engine) : Listed entries m'.dir m'.engine := by
  cases a
  case host a =>
    cases a
    case quiet q =>
      exact h.of_same (q.dir.same (f := StateDir.anchors) fun _ _ => rfl)
        (q.dir.same (f := StateDir.revocations) fun _ _ => rfl) rfl rfl
    all_goals exact h.of_same rfl rfl rfl rfl
  case listFile hf => exact ⟨h.anchors, h.engine, _, hf, Revocations.subset_add h.engine⟩
  case list => exact ⟨h.anchors, Revocations.subset_add h.engine, h.file⟩
  case rules r hr => exact h.of_same rfl rfl r.anchors hr
  all_goals exact h.of_same rfl rfl rfl rfl

-- No entry gets lost, as long as nobody else replaces the list or the trusted keys.
theorem listed_stable {entries : List RevocationEntry}
    (hw : ∀ d d', w.tamper d d' → d'.anchors = d.anchors ∧ d'.revocations = d.revocations) : Stable w
    (fun d _ => ∃ anchors list, d.anchors = .ok anchors ∧ Engine.loadRevocations d anchors = .ok list ∧
      entries ⊆ list.entries)
    (fun d e _ => Listed entries d e) where
  tamper d d' ht h         := by
    obtain ⟨anchors, list, ha, hl, he⟩ := h
    obtain ⟨ha', hr'⟩ := hw d d' ht
    refine ⟨anchors, list, ha' ▸ ha, ?_, he⟩
    rw [Engine.loadRevocations, hr']
    exact hl
  tamperOpen d d' e p ht h := h.of_same (hw d d' ht).left (hw d d' ht).right rfl rfl
  note h h' a hd           := by
    cases a
    case quiet q =>
      obtain ⟨anchors, list, ha, hl, he⟩ := hd
      refine ⟨anchors, list, (q.dir.same (f := StateDir.anchors) fun _ _ => rfl).trans ha, ?_, he⟩
      rw [Engine.loadRevocations, q.dir.same (f := StateDir.revocations) fun _ _ => rfl]
      exact hl
    all_goals exact hd
  repair d h               := h
  start d e ho h           := by
    obtain ⟨anchors, list, ha, hl, he⟩ := h
    cases ho.anchors.symm.trans ha
    cases ho.revocations.symm.trans hl
    exact ⟨ho.anchors, he, _, ho.revocations, he⟩
  act m m' a h             := h.act a
  weaken d p h             := h
  close d e p h            := by
    obtain ⟨list, hl, he⟩ := h.file
    exact ⟨e.anchors, list, h.anchors, hl, he⟩

end System

theorem Engine.process_revoked {seen : Seen} {requested : List Capability} {p : Processed}
    (h : process seen requested m = (.ok p, m')) (hh : (m.engine.revocations.hit seen.record).isSome) :
    m'.engine.states.lookup seen.record.id = some .revoked := by
  have d := process_decides h
  obtain ⟨m₁, g, _, hd⟩ := d.evaluated
  obtain ⟨_, _, he⟩ := g.engine
  have hs : p.decision.state = .revoked := by
    rw [hd]
    refine evaluate_of_hit ?_
    rw [he]
    exact hh
  rw [d.state, hs]

namespace System

-- The state of an artifact, as the engine knows it or as the next one is going to read it.
def stateOf (s : System) (id : EpnId) : Option AdmissionState :=
  match s.engine with
  | some (e, _) => e.states.lookup id
  | none        => (History.states s.dir.log.replayed).lookup id

theorem revoked_terminal {w : Setting} (hw : ∀ d d', w.tamper d d' → Logged d d') {s s' : System}
    (hs : s.Holds Archived Traced) (h : Reaches w s s') {id : EpnId} (hr : s.stateOf id = some .revoked) :
    s'.stateOf id = some .revoked := by
  have hh : s.Holds (fun d p => Archived d p ∧ (History.states d.log.replayed).lookup id = some .revoked)
      (fun d e p => Traced d e p ∧ (History.states d.log.events).lookup id = some .revoked) := by
    obtain ⟨d, _ | ⟨e, l⟩⟩ := s
    · exact .of_closed ⟨hs.closed rfl, hr⟩
    · have ht := hs.opened e l rfl
      exact .of_open ⟨ht, ht.states ▸ hr⟩
  have hh' := (revoked_stable hw).reaches h hh
  obtain ⟨d', _ | ⟨e', l'⟩⟩ := s'
  · exact (hh'.closed rfl).right
  · have ⟨ht, hl⟩ := hh'.opened e' l' rfl
    exact (congrArg (AList.lookup id) ht.states).trans hl

theorem revocation_complete_and_terminal (known : Set EpnRecord) (signed : Set Bytes) (d : StateDir) (e : Engine)
    (l : LedgerHandle) (o : Oracle) (order : List EpnId → List EpnId) (perm : ∀ ids, (order ids).Perm ids)
    (kind : RevocationKind) (target reason : String) (r : RevokeReport) (m : Machine)
    (hr : Reachable ⟨fun d d' => Logged d d' ∧ d'.anchors = d.anchors, known, signed, True⟩ ⟨d, some (e, l)⟩)
    (h : Engine.revokeReport order kind target reason (machine d e l o) = (.ok r, m)) :
    (∀ id record, (m.engine.states.lookup id).isSome → m.dir.loadRecord id = some record →
      (m.engine.revocations.hit record).isSome → m.engine.states.lookup id = some .revoked) ∧
    (kind = .epn → ∀ id : EpnId, normalizeRevocationTarget kind target = .ok id.display →
      (m.engine.states.lookup id).isSome → m.dir.loadRecord id = none → m.engine.states.lookup id = some .revoked) ∧
    r.unchecked = (if kind = .epn then 0
      else (e.states.entries.filter fun x => x.2 ≠ .revoked ∧ (d.loadRecord x.1).isNone).length) ∧
    (∀ s, Reaches ⟨fun d d' => Logged d d' ∧ d'.anchors = d.anchors ∧ d'.revocations = d.revocations, known, signed, True⟩
        (ofMachine m) s →
      ∀ e' l' o' seen requested p m', s.engine = some (e', l') →
        Engine.process seen requested (machine s.dir e' l' o') = (.ok p, m') →
        (m.engine.revocations.hit seen.record).isSome → m'.engine.states.lookup seen.record.id = some .revoked) ∧
    (∀ s s', Reaches ⟨Logged, known, signed, True⟩ (ofMachine m) s → Reaches ⟨Logged, known, signed, True⟩ s s' →
      ∀ id, s.stateOf id = some .revoked → s'.stateOf id = some .revoked) := by
  have ⟨t, ht, k⟩ := Engine.revokeReport_revoked perm h
  have hrun : (Call.revoke order perm kind target reason).run (machine d e l o) = (.ok (), m) := bind_ok h
  have ha : m.engine.anchors = e.anchors :=
    Machine.Leaves.anchors_eq (S := ∅) ((Call.run_leaves fun a ha => ha.elim).of_ok hrun)
  refine ⟨fun id record hk hl hh => k.known id hk ?_, fun hk id hn hs hl => k.known id hs ?_, ?_, ?_, ?_⟩
  · rw [Engine.Condemned, hl]
    exact hh
  · rw [Engine.Condemned, hl]
    exact ⟨hk, Except.ok.inj (hn.symm.trans ht)⟩
  · rw [k.unchecked, List.countP_eq_length_filter, List.filter_filter]
    split
    case isTrue hk => simp [Engine.unchecked, hk]
    case isFalse hk =>
      refine congrArg List.length (List.filter_congr fun x _ => ?_)
      simp only [Engine.unchecked, hk, ne_eq, not_false_eq_true, true_and, Bool.decide_eq_true, Bool.decide_and]
      exact Bool.and_comm _ _
  · intro s hs e' l' o' seen requested p m' he hx hh
    obtain ⟨_, ⟨_, _, _, _, _, _, _, _, rfl⟩, hr⟩ := hr
    have hf : (machine d e l o).Floored := ((kept_floored fun _ _ ht => ht).reaches hr).opened e l rfl
    have hl : Listed m.engine.revocations.entries m.dir m.engine :=
      ⟨(Call.run_ok_floored hrun hf).anchors, List.Subset.refl _, _, ha ▸ k.file, List.Subset.refl _⟩
    have hl := (listed_stable fun _ _ => And.right).reaches hs (.of_open hl)
    exact Engine.process_revoked hx (Revocations.hit_mono (hl.opened e' l' he).engine hh)
  · intro s s' hs hs' a hi
    have i := traced_stable (w := ⟨fun d d' => Logged d d' ∧ d'.anchors = d.anchors, known, signed, True⟩) fun _ _ => And.left
    have ht := (i.reachable (fun _ => StateDir.Fresh.archived) hr).opened e l rfl
    have ht := i.calls (o := o) ⟨fun _ => False.elim, fun _ => False.elim⟩ hrun ht
    exact revoked_terminal (fun _ _ => id) ((traced_stable fun _ _ => id).reaches hs (.of_open ht)) hs' hi

end System

end

-- The script is scanned, and then revoked by its identifier.
namespace Withdrawn

open Installed

def list : Revocations :=
  Revocations.empty.add ⟨.epn, target, "bad"⟩

def signatures : List (Bytes × Bytes.Fixed 64) := [
  (Envelope.message RecordType.REVOCATIONS "*" ⟨policyId⟩ (toCbor list), Bytes.fixed 64
    0x58aaec3e1426e9237c2b1fa9ad917e8080e89504b62c34d164fd292aa4e4d3277b85ae01a9112abf3184a0b9c314a5b4f1f293266d558fa8bf29ea9d30d87f0d)
]

abbrev withdrawing : Crypto :=
  crypto ([
    (script.data, scriptDigest),
    (toCbor observation.record, Bytes.fixed 32 0x81cacc3426197b12fa1c0a00c406c76196955afccea2d25f3d22413a681a66d6),
    (encode (.array (observation.evidence.map toValue)),
      Bytes.fixed 32 0xf036dae6a0760f57200666ef3784659a9b91cb639d0d560a98b51dba1029fb05),
    (encode (.array []), Bytes.fixed 32 0x76be8b528d0075f7aae98d6fa57a6d3c83ae480a8469e668d7b0af968995ac71),
    (@Envelope.sign (crypto [] signatures) RecordType.REVOCATIONS "*" (toCbor list) ⟨policySeed, .policy⟩,
      Bytes.fixed 32 0x2fdff01d8b0dc6e9acc04683adc5bc7f9d6c6f6c0952793b6ebd437602e7f947)
  ] ++ Renewed.digests) (signatures ++ Renewed.signatures)

attribute [local instance] withdrawing

def scanned : Option System :=
  (started system).bind (called (.scan [⟨"/opt/tool", some stat.toMetadata, .ok observation⟩] true))

-- The record of the script is in the store, and the list has an entry for it.
def listed (m : Machine) : Bool :=
  (m.engine.states.lookup observation.record.id).isSome ∧
  (m.dir.loadRecord observation.record.id).any fun record => (m.engine.revocations.hit record).isSome

theorem scanned_ok : scanned.any fun s => s.engine.any fun (e, l) =>
    let x := Engine.revokeReport id .epn target "bad" (System.machine s.dir e l (steady 0))
    x.1.toOption.isSome ∧ listed x.2 := by
  rw [scanned, started_system (verify_policy _ _)]
  decide +kernel

theorem revocation_complete_and_terminal_script : ∃ d e l r m,
    System.Reachable ⟨fun d d' => System.Logged d d' ∧ d'.anchors = d.anchors, Set.univ, Set.univ, True⟩
      ⟨d, some (e, l)⟩ ∧
    Engine.revokeReport id .epn target "bad" (System.machine d e l (steady 0)) = (.ok r, m) ∧
    m.engine.states.lookup observation.record.id = some .revoked ∧ r.unchecked = 0 := by
  have ⟨⟨d, _⟩, hs, h⟩ := (Option.any_eq_true _ _).mp scanned_ok
  obtain ⟨⟨e, l⟩, rfl, h⟩ := (Option.any_eq_true _ _).mp h
  have ⟨hx, hl⟩ := of_decide_eq_true h
  have ⟨r, hx⟩ := eq_ok_of_isSome hx
  have ⟨hk, hl⟩ := of_decide_eq_true hl
  have ⟨record, hl, hh⟩ := (Option.any_eq_true _ _).mp hl
  have ⟨s₁, hs₁, hs⟩ := Option.bind_eq_some_iff.mp hs
  have hr : System.Reachable ⟨fun d d' => System.Logged d d' ∧ d'.anchors = d.anchors, Set.univ, Set.univ, True⟩
      ⟨d, some (e, l)⟩ :=
    reachable_called rfl rfl (reachable_started ⟨_, initial, .refl⟩ rfl hs₁) hs
  have k := System.revocation_complete_and_terminal Set.univ Set.univ d e l (steady 0) id (fun _ => .refl _) .epn target
    "bad" r _ hr hx
  exact ⟨d, e, l, r, _, hr, hx, k.left _ record hk hl hh, k.right.right.left⟩

-- The policy is replaced and the list is extended before the directory is opened again.
def renewed : Option System :=
  (started system).bind (called (.setPolicy (Policy.workstation 2)))

theorem reopened_ok : ((renewed.bind (called (.revoke id (fun _ => .refl _) .epn target "bad"))).bind started).isSome := by
  rw [renewed, started_system (verify_policy _ _)]
  decide +kernel

theorem epochs_never_go_back_reopened : ∃ d e l digest m r m' e' h',
    Engine.setPolicy (Policy.workstation 2) (System.machine d e l (steady 0)) = (.ok digest, m) ∧
    Engine.revokeReport id .epn target "bad" (System.machine m.dir m.engine m.host.ledger (steady 0)) = (.ok r, m') ∧
    Engine.open (System.host m'.dir .new (steady 0)) = (.ok e', h') ∧
    2 ≤ e'.policy.epoch ∧ m'.engine.revocations.epoch ≤ e'.revocations.epoch := by
  have ⟨_, h⟩ := Option.isSome_iff_exists.mp reopened_ok
  have ⟨s₃, h, ho⟩ := Option.bind_eq_some_iff.mp h
  have ⟨s₂, h, h₃⟩ := Option.bind_eq_some_iff.mp h
  have ⟨s₁, _, h₂⟩ := Option.bind_eq_some_iff.mp h
  have hr := ReflTransGen.single (step_called (w := ⟨System.Logged, Set.univ, Set.univ, True⟩) rfl rfl h₃)
  obtain ⟨e, l, m, _, hx, rfl⟩ := run_called h₂
  obtain ⟨digest, hp⟩ := Call.setPolicy_ok hx
  obtain ⟨_, _, m', he, hx, rfl⟩ := run_called h₃
  cases he
  obtain ⟨r, hv⟩ := Call.revoke_ok hx
  unfold started at ho
  split at ho
  case h_2 => cases ho
  case h_1 e' h' ho' =>
    have k := System.epochs_never_go_back Set.univ Set.univ s₁.dir e l (steady 0) m
    have k' := System.epochs_never_go_back Set.univ Set.univ m.dir m.engine m.host.ledger (steady 0) m'
    exact ⟨_, e, l, digest, m, r, m', e', h', hp, hv, ho', k.left _ _ hp _ hr m'.dir _ _ _ rfl ho',
      k'.right.left _ _ _ _ _ hv _ .refl m'.dir _ _ _ rfl ho'⟩

end Withdrawn
