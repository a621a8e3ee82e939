import JlrModel.Crypto.Theorems.Envelope
import JlrModel.Engine.Theorems.Run
import JlrModel.Ledger.Theorems.Size
import JlrModel.Policy.Theorems.Evaluate

open Cbor Program

theorem AdmissionState.Leads.of_admitted {s : AdmissionState} (h : s.Leads .admitted) : s = .verified := by
  revert h
  cases s <;> decide

-- Nothing follows on a revocation.
theorem AdmissionState.not_leads_of_revoked {s : AdmissionState} : ¬ Leads .revoked s := by
  cases s <;> decide

namespace History

-- The steps of an artifact, in their order.
def transitions (id : EpnId) (es : List EventDraft) : List EventDraft :=
  es.filter fun d => d.kind = .transition ∧ d.subject.bind EpnId.parse = some id

-- Steps of an artifact that are a legal walk through the state machine, between states that it need not have yet.
inductive Walk : Option AdmissionState → List EventDraft → Option AdmissionState → Prop
  | nil  : Walk s [] s
  | cons {d : EventDraft} {a : AdmissionState} : d.oldState = s → d.newState = some a → (s.getD .unknown).canBecome a →
      (a = .admitted → s = some .verified) → Walk (some a) ds t → Walk s (d :: ds) t

-- Every event is legal after those before it.
inductive Legal : List EventDraft → Prop
  | nil  : Legal []
  | note {d : EventDraft} : Legal es → d.newState = none → d.kind ≠ .transition → Legal (es ++ [d])
  | move {d : EventDraft} {id : EpnId} {a : AdmissionState} : Legal es → d.kind = .transition →
      d.subject = some id.display → d.oldState = (states es).lookup id → d.newState = some a →
      (((states es).lookup id).getD .unknown).Leads a → Legal (es ++ [d])

variable {id : EpnId} {d : EventDraft} {es : List EventDraft} {s t : Option AdmissionState}

theorem Walk.concat {a : AdmissionState} (w : Walk s ds t) (ho : d.oldState = t) (hn : d.newState = some a)
    (hl : (t.getD .unknown).Leads a) : Walk s (ds ++ [d]) (some a) := by
  induction w
  case nil s =>
    refine .cons ho hn hl.left (fun ha => ?_) .nil
    subst ha
    have hv := hl.of_admitted
    cases s
    case none => cases hv
    case some => exact congrArg some hv
  case cons ho' hn' hc' ha' _ ih => exact .cons ho' hn' hc' ha' (ih ho hl)

theorem Legal.transition (h : Legal es) : ∀ d ∈ es, d.newState.isSome → d.kind = .transition := by
  induction h
  case nil => simp
  case note d _ hn _ ih => simp_all [or_imp]
  case move hk _ _ _ _ ih => simp_all [or_imp]

theorem Legal.walk (h : Legal es) : Walk none (transitions id es) ((states es).lookup id) := by
  induction h
  case nil => exact .nil
  case note es d _ hn hk ih =>
    have ht : transitions id (es ++ [d]) = transitions id es := by
      simp [transitions, hk]
    rwa [ht, states_concat, addState_of_none hn]
  case move es d id' a _ hk hs ho hn hl ih =>
    rw [states_concat, addState_of_move hs hn]
    by_cases hi : id = id'
    · have ht : transitions id (es ++ [d]) = transitions id es ++ [d] := by
        simp [transitions, hk, hs, hi, EpnId.parse_display]
      subst hi
      rw [ht, AList.lookup_insert]
      exact ih.concat ho hn hl
    · have ht : transitions id (es ++ [d]) = transitions id es := by
        simp [transitions, hk, hs, EpnId.parse_display, Ne.symm hi]
      rwa [ht, AList.lookup_insert_ne hi]

-- And so a state that is terminal is kept.
theorem Legal.revoked_concat (h : Legal (es ++ [d]))
    (hr : (states es).lookup id = some .revoked) : (states (es ++ [d])).lookup id = some .revoked := by
  generalize hx : es ++ [d] = xs at h
  cases h
  case nil => exact absurd hx (by simp)
  case note es' d' _ hn _ =>
    obtain ⟨rfl, _⟩ := List.append_inj' hx rfl
    rwa [states_concat, addState_of_none hn]
  case move es' d' id' a _ _ hs _ hn hl =>
    obtain ⟨rfl, _⟩ := List.append_inj' hx rfl
    rw [states_concat, addState_of_move hs hn]
    by_cases hi : id = id'
    case pos =>
      rw [← hi, hr] at hl
      exact absurd hl AdmissionState.not_leads_of_revoked
    case neg => rwa [AList.lookup_insert_ne hi]

end History

section

variable [Crypto] {w : Setting} {m m' : Machine}

namespace Machine

-- Every event that is written is legal after those of the log.
theorem Writes.legal {d : EventDraft} (h : Writes w m d) (hl : History.Legal m.dir.log.events)
    (hs : m.engine.states = History.states m.dir.log.events) : History.Legal (m.dir.log.events ++ [d]) := by
  cases h
  case note hn => exact .note hl hn.state hn.transition
  case move hm =>
    have ho := hm.old
    have hc : (((m.engine.states).lookup _).getD .unknown).Leads _ := ⟨hm.legal, hm.other⟩
    rw [hs] at ho hc
    exact .move hl hm.kind hm.subject ho hm.new hc
  case grant hg => exact .note hl hg.new (hg.kind ▸ nofun)

end Machine

namespace System

-- The history of an installation is legal, also with an event whose append has failed. While the ledger accepts
-- events there is no such event.
structure Archived (d : StateDir) (poisoned : Bool) : Prop where
  legal : History.Legal d.log.replayed
  left  : poisoned = false → d.log.left = none

-- An engine that is open knows the states that its events have led to.
structure Traced (d : StateDir) (e : Engine) (poisoned : Bool) : Prop extends Archived d poisoned where
  events : History.Legal d.log.events
  states : e.states = History.states d.log.events

theorem Traced.act {m m' : Machine} (a : Machine.Act w m m')
    (h : Traced m.dir m.engine m.host.ledger.poisoned) : Traced m'.dir m'.engine m'.host.ledger.poisoned := by
  obtain same | ⟨hp, d, hw, logs | loses⟩ := a.log_cases
  case inl =>
    exact {
      legal  := by rw [EventLog.replayed, same.events, same.left]; exact h.legal
      left   := fun hp' => same.left.trans (h.left (same.open' hp'))
      events := same.events ▸ h.events
      states := by rw [same.states, same.events, h.states]
    }
  case inr.inl =>
    have hl : m'.dir.log.left = none := logs.left.trans (h.left hp)
    have hd := hw.legal h.events h.states
    rw [← logs.events] at hd
    exact {
      legal  := EventLog.replayed_of_none hl ▸ hd
      left   := fun _ => hl
      events := hd
      states := by rw [logs.states, logs.events, History.states_concat, h.states]
    }
  case inr.inr =>
    have hd := hw.legal h.events h.states
    rw [← loses.events] at hd
    exact {
      legal  := EventLog.replayed_of_some loses.left ▸ hd
      left   := fun hp' => absurd (loses.poisoned.symm.trans hp') Bool.false_ne_true.symm
      events := loses.events ▸ h.events
      states := by rw [loses.states, loses.events, h.states]
    }

theorem Archived.act {h h' : Host} (a : Host.Act h h') (hr : Archived h.dir h.ledger.poisoned) :
    Archived h'.dir h'.ledger.poisoned := by
  have note {d : EventDraft} (hd : d.Note) (hp : h.ledger.poisoned = false) :
      History.Legal (h.dir.log.events ++ [d]) := by
    have hl := hr.legal
    rw [EventLog.replayed_of_none (hr.left hp)] at hl
    exact .note hl hd.state hd.transition
  cases a
  case quiet q =>
    exact ⟨q.replayed ▸ hr.legal, fun hp => q.left.trans (hr.left (q.open' hp))⟩
  case event hp hd =>
    refine ⟨?_, fun _ => hr.left hp⟩
    rw [EventLog.replayed_of_none]
    · exact note hd hp
    · exact hr.left hp
  case lost hp hd => exact ⟨note hd hp, nofun⟩
  case object => exact ⟨hr.legal, hr.left⟩
  case index => exact ⟨hr.legal, hr.left⟩

-- Others may do anything to the directory, except for the log.
def Logged (d d' : StateDir) : Prop :=
  d'.log = d.log

theorem traced_stable (hw : ∀ d d', w.tamper d d' → Logged d d') : Stable w Archived Traced where
  tamper d d' ht h       := by
    have hl := hw d d' ht
    exact ⟨hl ▸ h.legal, nofun⟩
  tamperOpen d d' e p ht h := by
    have hl := hw d d' ht
    exact { legal := hl ▸ h.legal, left := hl ▸ h.left, events := hl ▸ h.events, states := hl ▸ h.states }
  note _ _               := Archived.act
  repair d h             := by
    refine ⟨?_, fun _ => rfl⟩
    rw [EventLog.replayed_repaired]
    exact h.legal
  start d e ho h         := {
    legal  := by rw [EventLog.replayed_repaired]; exact h.legal
    left   := fun _ => rfl
    events := h.legal
    states := ho.states
  }
  act _ _                := Traced.act
  weaken d p h           := ⟨h.legal, nofun⟩
  close d e p h          := ⟨h.legal, nofun⟩

theorem StateDir.Fresh.archived {d : StateDir} (h : d.Fresh) : Archived d true where
  legal := by
    have hn := h.notes
    generalize d.log.replayed = es at hn
    induction es using List.reverseRecOn
    case nil => exact .nil
    case append_singleton es e ih =>
      have he := (hn e (by simp)).left
      exact .note (ih fun e he => hn e (List.mem_append_left _ he)) he.state he.transition
  left  := nofun

end System

namespace Engine

-- What a program halts for is not the missing of a route.
def Routed (why : Halt) : Prop :=
  ∀ text, why ≠ .error (.invalid text)

theorem operate_routed {error : IoError → EngineError} {change : StateDir → StateDir}
    (he : ∀ e, Routed (.error (error e))) : Raises Routed (Host.operate error change) := by
  refine .bind (.bind .view fun _ => .bind .update fun _ => .pure) fun fate => ?_
  have hs : Routed .stopped := fun _ => nofun
  match fate with
  | .done               => exact .update
  | .failed e           => exact .halt (he e)
  | .broken e .whole    => exact .bind .update fun _ => .halt (he e)
  | .broken e .nothing  => exact .halt (he e)
  | .broken e (.part n) => exact .halt (he e)
  | .stopped .whole     => exact .bind .update fun _ => .halt hs
  | .stopped .nothing   => exact .halt hs
  | .stopped (.part n)  => exact .halt hs

theorem append_routed {d : EventDraft} : Raises Routed (Host.append d) := by
  have hs : Routed .stopped := fun _ => nofun
  have hl (e : LedgerError) : Routed (.error (.ledger e)) := fun _ => nofun
  refine .bind .view fun poisoned => ?_
  split
  case isTrue => exact .halt (hl _)
  case isFalse =>
    refine .bind (.bind .view fun _ => .bind .update fun _ => .pure) fun fate => ?_
    match fate with
    | .done          => exact .update
    | .failed e      => exact .halt (hl _)
    | .broken e left => exact .bind .update fun _ => .halt (hl _)
    | .stopped left  => exact .bind .update fun _ => .halt hs

theorem applySteps_routed {id : EpnId} {decision : Decision} {ev : Digest} {detail : String} {n : Nat}
    {steps : List AdmissionState} : ∀ i cur, Raises Routed (applySteps id decision ev detail n i cur steps) := by
  induction steps
  case nil => exact fun _ _ => .pure
  case cons step steps ih =>
    refine fun i cur => .bind (.bind ?_ fun _ => .update) fun _ => ih _ _
    refine .bind .view fun _ => .bind (.onlyIf (.zoom (operate_routed fun e _ => nofun))) fun _ => ?_
    exact .bind .view fun _ => .zoom append_routed

-- Every decision has a route from the state that it was made for.
theorem applyDecision_routed {id : EpnId} {p : ValidPolicy} {f : Facts} {now : UInt64} {ev : Digest} {detail : String}
    (hp : f.prior = m.engine.states.lookup id) {why : Halt}
    (h : applyDecision id (evaluate p f now) ev detail m = (.error why, m')) : Routed why := by
  rw [applyDecision, view_bind] at h
  split at h
  case isTrue => cases h
  case isFalse =>
    dsimp only at h
    have hr : (AdmissionState.route ((m.engine.states.lookup id).getD .unknown) (evaluate p f now).state).isSome := by
      refine AdmissionState.route_exists (fun hs => evaluate_of_revoked ?_) evaluate_state_ne_unknown
      rw [hp]
      cases hl : m.engine.states.lookup id <;> rw [hl] at hs
      case none => cases hs
      case some => exact congrArg some hs
    obtain ⟨steps, hs⟩ := Option.isSome_iff_exists.mp hr
    rw [hs] at h
    exact Raises.bind (applySteps_routed _ _) (fun _ => .pure) _ _ _ h

end Engine

-- In every run, whatever is observed and whatever fails, an open engine knows exactly the states that the events it
-- has written lead to. Only steps give states, the steps of each artifact are a legal walk that ends in its state, and
-- no decision is without a route from the state that it was made for.
theorem System.admission_history_legal (known : Set EpnRecord) (signed : Set Bytes) (s : System)
    (h : Reachable ⟨Logged, known, signed, True⟩ s) :
    (∀ e l, s.engine = some (e, l) → e.states = History.states s.dir.log.events) ∧
    (∀ d ∈ s.dir.log.replayed, d.newState.isSome → d.kind = .transition) ∧
    (∀ id, History.Walk none (History.transitions id s.dir.log.replayed)
      ((History.states s.dir.log.replayed).lookup id)) ∧
    (∀ (m : Machine) id p f now ev detail text m', f.prior = m.engine.states.lookup id →
      Engine.applyDecision id (evaluate p f now) ev detail m ≠ (.error (.error (.invalid text)), m')) := by
  have hs := (traced_stable fun _ _ => id).reachable (fun _ => StateDir.Fresh.archived) h
  have hl : History.Legal s.dir.log.replayed := by
    match he : s.engine with
    | none        => exact (hs.closed he).legal
    | some (e, l) => exact (hs.opened e l he).legal
  refine ⟨fun e l he => (hs.opened e l he).states, hl.transition, fun _ => hl.walk, ?_⟩
  intro m id p f now ev detail text m' hp hd
  exact Engine.applyDecision_routed hp hd text rfl

end

-- An installation with real values for everything that its setup hashes and signs.
namespace Installed

def deviceSeed : Bytes.Fixed 32 := Bytes.fixed 32 0x0707070707070707070707070707070707070707070707070707070707070707
def deviceKey  : Bytes.Fixed 32 := Bytes.fixed 32 0xea4a6c63e29c520abef5507b132ec5f9954776aebebe7b92421eea691446d22c
def deviceId   : Bytes.Fixed 32 := Bytes.fixed 32 0xfe812c12f3ab4ce6ac5db69ac352f906cb1b11ef43fb33e252ef7ff552263889
def policySeed : Bytes.Fixed 32 := Bytes.fixed 32 0x0808080808080808080808080808080808080808080808080808080808080808
def policyKey  : Bytes.Fixed 32 := Bytes.fixed 32 0x1398f62c6d1a457c51ba6a4b5f3dbd2f69fca93216218dc8997e416bd17d93ca
def policyId   : Bytes.Fixed 32 := Bytes.fixed 32 0x5c29b78f10a35a49a6231d08ee840a04bcc3a37a4f9d46df327dec56b8a9b7c9

def digests : List (Bytes × Bytes.Fixed 32) := [
  (deviceKey.val, deviceId),
  (policyKey.val, policyId),
  (toCbor (Policy.workstation 1), Bytes.fixed 32 0xa0c7bf6b417d771d441e584c3f1fe2a9c0525611f16a171ee5b53675492f61f0)
]

def signatures : List (Bytes × Bytes.Fixed 64) := [
  (Envelope.message RecordType.POLICY "*" ⟨policyId⟩ (toCbor (Policy.workstation 1)), Bytes.fixed 64
    0xe4364c5020b2297d03bf5d59e8ef62df14149a09e2376cbcc7f7d4faf2e16c6a4255216042f6d804f009146349c0ccf60e6c8d70eae2cc5aa129f299fb48960f),
  (Envelope.message RecordType.REVOCATIONS "*" ⟨policyId⟩ (toCbor Revocations.empty), Bytes.fixed 64
    0x87aa162c92d7c53f963b587c2e4ed682672912dac6691bf7fd2b5a181799be8229a6930acc13a7a6f337232783ed35dace5bdf8e4fc7fe281462f519eea5ec0f)
]

-- Other values can be added to those of the setup.
abbrev crypto (digests' : List (Bytes × Bytes.Fixed 32)) (signatures' : List (Bytes × Bytes.Fixed 64)) : Crypto :=
  let sign (message : Bytes) := ((signatures ++ signatures').lookup message).getD (Bytes.fixed 64 0)
  {
    sha256 data        := ((digests ++ digests').lookup data).getD (Bytes.fixed 32 0)
    publicKey seed     := if seed = deviceSeed then deviceKey else policyKey
    isPoint _          := true
    sign _             := sign
    verifyStrict k m s := (k = deviceKey ∨ k = policyKey) ∧ s = sign m
  }

def seeds : Engine.Seeds where
  device := deviceSeed
  policy := policySeed
  node   := Bytes.fixed 16 0

-- A process for which every operation succeeds.
def steady (time : UInt64) : Oracle where
  fate _  := .done
  clock _ := time

def setup [Crypto] : Except Halt NodeInfo × Host :=
  Engine.init .workstation 0 seeds (System.host (.empty "/") .new (steady 0))

def system [Crypto] : System :=
  ⟨setup.2.dir, none⟩

section

variable [Crypto] {change : StateDir → StateDir} {error : IoError → EngineError}

-- A process that nothing goes wrong for, and one that has not logged anything yet.
structure Unhindered (h : Host) : Prop where
  fate     : ∀ i, h.oracle.fate i = .done
  poisoned : h.ledger.poisoned = false

structure New (h : Host) : Prop extends Unhindered h where
  unlocked : h.locked = false
  log      : h.dir.log.replayed = []
  torn     : h.dir.log.torn = 0

theorem operate_new (hc : ∀ dir, (change dir).log = dir.log) :
    Triple New (Host.operate error change) (fun _ => New) fun _ _ => False := by
  intro h hn
  rw [Host.operate_done (hn.fate _)]
  exact ⟨⟨hn.fate, hn.poisoned⟩, hn.unlocked, congrArg EventLog.replayed (hc h.dir) ▸ hn.log,
    congrArg EventLog.torn (hc h.dir) ▸ hn.torn⟩

theorem writeAtomic_new {data : Bytes} {change : File → StateDir → StateDir} (hl : data.length < 2 ^ 63)
    (hc : ∀ f dir, (change f dir).log = dir.log) :
    Triple New (Host.writeAtomic data change) (fun _ => New) fun _ _ => False := by
  rw [Host.writeAtomic, dif_pos hl]
  exact operate_new (hc ⟨data, hl⟩)

theorem record_unhindered {write : EventLog → EventLog} {leave : Left → EventLog → EventLog} :
    Triple Unhindered (Host.record write leave) (fun _ => Unhindered) fun _ _ => False := by
  intro h hu
  rw [Host.record_done hu.poisoned (hu.fate _)]
  exact ⟨hu.fate, hu.poisoned⟩

theorem fold_append_unhindered {f : α → EventDraft} {as : List α} :
    Triple Unhindered (fold (fun _ a => Host.append (f a)) () as) (fun _ => Unhindered) fun _ _ => False := by
  induction as
  case nil => exact .pure fun _ => id
  case cons a as ih => exact .seq record_unhindered ih

theorem createLedger_new {node : String} :
    Triple New (Host.createLedger node) (fun _ => Unhindered) fun _ _ => False := by
  intro h hn
  have hx : ¬ (h.dir.log.replayed ≠ [] ∨ h.dir.log.torn ≠ 0) :=
    not_or.mpr ⟨not_not.mpr hn.log, not_not.mpr hn.torn⟩
  rw [Host.createLedger, view_bind, view_bind, hn.unlocked, if_neg Bool.false_ne_true, if_neg hx, update_bind]
  exact record_unhindered _ ⟨hn.fate, rfl⟩

theorem length_sign_lt {t : String} {payload : Bytes} {key : SigningKeypair}
    (h : (encode (.text (Envelope.typString t))).length + payload.length < 2 ^ 16) :
    (Envelope.sign t "*" payload key).length < 2 ^ 63 := by
  have : (Envelope.sign t "*" payload key).length ≤ _ := Envelope.length_sign_le
  omega

omit [Crypto] in
theorem sizes :
    (encode (.text (Envelope.typString RecordType.POLICY))).length + (toCbor PolicyKind.workstation.policy).length < 2 ^ 16 ∧
    (encode (.text (Envelope.typString RecordType.REVOCATIONS))).length + (toCbor Revocations.empty).length < 2 ^ 16 ∧
    (toCbor (⟨"node-" ++ Text.hex seeds.node.val, 0, "companion"⟩ : NodeInfo)).length < 2 ^ 63 ∧
    PolicyKind.workstation.policy.validate = .ok () := by
  decide +kernel

-- The setup does not depend on the values of what is hashed and signed.
theorem setup_ok : setup.1.toOption.isSome := by
  have ⟨hp, hr, hl, hv⟩ := sizes
  have hn : New (System.host (.empty "/") .new (steady 0)) := ⟨⟨fun _ => rfl, rfl⟩, rfl, rfl, rfl⟩
  rw [setup, Engine.init, view_bind, if_neg nofun]
  refine Triple.isSome (Q := fun _ _ => True) ?_ hn
  refine .seq (operate_new fun _ => rfl) ?_
  refine .seq (operate_new fun _ => rfl) ?_
  refine .seq (operate_new fun _ => rfl) ?_
  dsimp only
  rw [hv]
  refine .seq (Q := New) ?_ ?_
  · exact fun _ h => h
  refine .seq (Q := New) ?_ ?_
  · refine writeAtomic_new ?_ ?_
    · exact length_sign_lt hp
    · exact fun _ _ => rfl
  refine .seq (Q := New) ?_ ?_
  · refine writeAtomic_new ?_ ?_
    · exact length_sign_lt hr
    · exact fun _ _ => rfl
  refine .seq createLedger_new ?_
  refine .seq fold_append_unhindered ?_
  refine .seq record_unhindered ?_
  refine .seq record_unhindered ?_
  refine .seq (Q := fun _ => True) ?_ (.pure fun _ => id)
  intro h hu
  rw [Host.writeAtomic_done hl (hu.fate _)]
  trivial

theorem initial : System.Initial system := by
  have ⟨_, hs⟩ := eq_ok_of_isSome setup_ok
  exact ⟨"/", .workstation, 0, seeds, steady 0, _, _, hs, rfl⟩

end

end Installed

-- Runs in which every operation succeeds and nobody else does anything.
namespace Installed

def calm [Crypto] : Setting where
  tamper _ _ := False
  known      := Set.univ
  signed     := Set.univ
  fails      := False

def started [Crypto] (s : System) : Option System :=
  match Engine.open (System.host s.dir .new (steady 0)) with
  | (.ok e, h)    => some ⟨h.dir, some (e, h.ledger)⟩
  | (.error _, _) => none

def called [Crypto] (c : Call) (s : System) : Option System := do
  let (e, l) ← s.engine
  match c.run (System.machine s.dir e l (steady 0)) with
  | (.ok (), m)   => some (.ofMachine m)
  | (.error _, _) => none

variable [Crypto] {w : Setting} {s s' : System}

theorem step_started (h : started s = some s') : System.Step w ⟨s.dir, none⟩ s' := by
  unfold started at h
  split at h
  case h_1 hx => exact Option.some.inj h ▸ .open hx
  case h_2 => cases h

theorem run_called {c : Call} (h : called c s = some s') : ∃ e l m, s.engine = some (e, l) ∧
    c.run (System.machine s.dir e l (steady 0)) = (.ok (), m) ∧ s' = .ofMachine m := by
  have ⟨(e, l), he, h⟩ := Option.bind_eq_some_iff.mp h
  dsimp only at h
  split at h
  case h_1 hx => exact ⟨e, l, _, he, hx, (Option.some.inj h).symm⟩
  case h_2 => cases h

theorem step_called {c : Call} (hk : w.known = Set.univ) (hg : w.signed = Set.univ) (h : called c s = some s') :
    System.Step w s s' := by
  have ⟨d, engine⟩ := s
  obtain ⟨e, l, m, rfl, hx, rfl⟩ := run_called h
  exact .call ⟨fun r _ => hk ▸ Set.mem_univ r, fun b _ => hg ▸ Set.mem_univ b⟩ hx

theorem reachable_started (hs : System.Reachable w s) (hn : s.engine = none) (h : started s = some s') :
    System.Reachable w s' := by
  have ⟨s₀, hi, hr⟩ := hs
  have ⟨d, _⟩ := s
  subst hn
  exact ⟨s₀, hi, hr.tail (step_started h)⟩

theorem reachable_called {c : Call} (hk : w.known = Set.univ) (hg : w.signed = Set.univ) (hs : System.Reachable w s)
    (h : called c s = some s') : System.Reachable w s' := by
  have ⟨s₀, hi, hr⟩ := hs
  exact ⟨s₀, hi, hr.tail (step_called hk hg h)⟩

end Installed
