import JlrModel.Crypto.Theorems.Envelope
import JlrModel.Ledger.Replay
import JlrModel.Ledger.Theorems.Frame

open Cbor

namespace Ledger

-- The record that an envelope holds, whoever has signed it.
def Holds (α : Type) [Cbor α] (env : Bytes) (a : α) : Prop :=
  ∃ payload, Envelope.unverifiedPayload env = some payload ∧ fromCbor α payload = .ok a

theorem Holds.unique [Cbor α] {env : Bytes} {a b : α} (ha : Holds α env a) (hb : Holds α env b) :
    a = b := by
  have ⟨p, hp, ha⟩ := ha
  have ⟨q, hq, hb⟩ := hb
  cases hp.symm.trans hq
  exact Except.ok.inj (ha.symm.trans hb)

variable [Crypto] {node : String} {anchors : TrustAnchors}

-- The envelope of an event that is signed by a device key.
def Verified (node : String) (anchors : TrustAnchors) (env : Bytes) : Prop :=
  ∃ v, Envelope.verify env RecordType.EVENT node anchors [.device] = .ok v

-- An event at its place in the chain.
structure Linked (i : Nat) (prev : Digest) (env : Bytes) (ev : Event) : Prop where
  holds   : Holds Event env ev
  seq     : ev.seq = .ofNat i
  prev    : ev.prev = prev
  genesis : ev.kind = .genesis ↔ i = 0

theorem openEvent_ok_iff {payload : Bytes} {digest : Digest} :
    openEvent node anchors trusted i env = .ok (payload, digest) ↔
    Envelope.unverifiedPayload env = some payload ∧ digest = Digest.of env ∧
      (trusted ≤ i → Verified node anchors env) := by
  unfold openEvent Verified
  split
  case isTrue h =>
    rw [Except.bind_eq_ok]
    simp only [Except.okOr_eq_ok, Except.pure_eq_ok, Prod.mk.injEq]
    constructor
    case mp =>
      rintro ⟨p, hp, he, hd⟩
      exact ⟨he ▸ hp, hd.symm, fun ht => by omega⟩
    case mpr =>
      rintro ⟨hp, hd, _⟩
      exact ⟨payload, hp, rfl, hd.symm⟩
  case isFalse h =>
    rw [RecordType.allowedSigners_event, Except.bind_eq_ok]
    simp only [Except.mapError_eq_ok, Except.pure_eq_ok, Prod.mk.injEq]
    constructor
    case mp =>
      rintro ⟨v, hv, he, hd⟩
      obtain ⟨hp, hd'⟩ := Envelope.verify_ok_payload hv
      exact ⟨he ▸ hp, hd ▸ hd', fun _ => ⟨v, hv⟩⟩
    case mpr =>
      rintro ⟨hp, hd, hv⟩
      obtain ⟨v, hv⟩ := hv (Nat.le_of_not_lt h)
      obtain ⟨hp', hd'⟩ := Envelope.verify_ok_payload hv
      exact ⟨v, hv, Option.some.inj (hp'.symm.trans hp), hd'.trans hd.symm⟩

theorem replayEvent_ok_iff {ev : Event} {digest : Digest} :
    replayEvent node anchors trusted i prev env = .ok (ev, digest) ↔
    Linked i prev env ev ∧ digest = Digest.of env ∧ (trusted ≤ i → Verified node anchors env) := by
  constructor
  case mp =>
    intro h
    have ⟨⟨payload, d⟩, ho, h⟩ := Except.bind_eq_ok.mp h
    have ⟨e, he, h⟩ := Except.bind_eq_ok.mp h
    have ⟨_, hs, h⟩ := Except.bind_eq_ok.mp h
    have ⟨_, hp, h⟩ := Except.bind_eq_ok.mp h
    have ⟨_, hg, h⟩ := Except.bind_eq_ok.mp h
    have ⟨_, hn, h⟩ := Except.bind_eq_ok.mp h
    cases Except.pure_eq_ok.mp h
    have ⟨hy, hd, hv⟩ := openEvent_ok_iff.mp ho
    have hn := Except.ensure_eq_ok.mp hn
    refine ⟨?_, hd, hv⟩
    exact {
      holds   := ⟨payload, hy, Except.mapError_eq_ok.mp he⟩
      seq     := Except.ensure_eq_ok.mp hs
      prev    := Except.ensure_eq_ok.mp hp
      genesis := ⟨fun h => by_contra fun h0 => hn (Nat.pos_of_ne_zero h0) h, Except.ensure_eq_ok.mp hg⟩
    }
  case mpr =>
    intro ⟨l, hd, hv⟩
    have ⟨payload, hp, he⟩ := l.holds
    refine Except.bind_eq_ok.mpr ⟨(payload, digest), openEvent_ok_iff.mpr ⟨hp, hd, hv⟩, ?_⟩
    refine Except.bind_eq_ok.mpr ⟨ev, Except.mapError_eq_ok.mpr he, ?_⟩
    refine Except.bind_eq_ok.mpr ⟨(), Except.ensure_eq_ok.mpr l.seq, ?_⟩
    refine Except.bind_eq_ok.mpr ⟨(), Except.ensure_eq_ok.mpr l.prev, ?_⟩
    refine Except.bind_eq_ok.mpr ⟨(), Except.ensure_eq_ok.mpr l.genesis.mpr, ?_⟩
    refine Except.bind_eq_ok.mpr ⟨(), Except.ensure_eq_ok.mpr ?_, rfl⟩
    intro hi hg
    exact hi.ne' (l.genesis.mp hg)

-- The digest of the last envelope.
def lastDigest (prev : Digest) (envs : List Bytes) : Digest :=
  (envs.getLast?.map Digest.of).getD prev

-- The events of a list of envelopes, each linked to the one before.
inductive Chain : Nat → Digest → List Bytes → List Event → Prop
  | nil  : Chain i prev [] []
  | cons {envs evs} : Linked i prev env ev → Chain (i + 1) (Digest.of env) envs evs →
      Chain i prev (env :: envs) (ev :: evs)

theorem lastDigest_cons {env : Bytes} {envs : List Bytes} :
    lastDigest prev (env :: envs) = lastDigest (Digest.of env) envs := by
  cases h : envs.getLast? <;> simp [lastDigest, List.getLast?_cons, h]

theorem lastDigest_concat {env : Bytes} {envs : List Bytes} :
    lastDigest prev (envs ++ [env]) = Digest.of env := by
  simp [lastDigest]

namespace Chain

variable {envs envs' : List Bytes} {evs evs' : List Event}

theorem unique (c : Chain i prev envs evs) (c' : Chain i prev envs evs') : evs = evs' := by
  induction c generalizing evs'
  case nil => cases c'; rfl
  case cons l _ ih =>
    cases c'
    case cons l' c' => rw [l.holds.unique l'.holds, ih c']

theorem append (c : Chain i prev envs evs)
    (c' : Chain (i + envs.length) (lastDigest prev envs) envs' evs') :
    Chain i prev (envs ++ envs') (evs ++ evs') := by
  induction c
  case nil => exact c'
  case cons l c ih =>
    rw [lastDigest_cons, List.length_cons, Nat.add_comm _ 1, ← Nat.add_assoc] at c'
    exact .cons l (ih c')

theorem take (c : Chain i prev envs evs) (n : Nat) : Chain i prev (envs.take n) (evs.take n) := by
  induction c generalizing n
  case nil => simpa using .nil
  case cons l _ ih =>
    cases n
    case zero => exact .nil
    case succ n => exact .cons l (ih n)

end Chain

-- Only the events that are not trusted have to be verified.
theorem replayEvents_ok_iff {envs : List Bytes} {evs : List Event} {last : Digest} :
    replayEvents node anchors trusted i prev envs = .ok (evs, last) ↔
    Chain i prev envs evs ∧ last = lastDigest prev envs ∧
      ∀ env ∈ envs.drop (trusted - i), Verified node anchors env := by
  induction envs generalizing i prev evs
  case nil =>
    change Except.ok ([], prev) = _ ↔ _
    constructor
    case mp =>
      intro h
      cases h
      exact ⟨.nil, rfl, by simp⟩
    case mpr =>
      intro ⟨c, hl, _⟩
      cases c
      rw [hl]
      rfl
  case cons env envs ih =>
    have hd : (∀ e ∈ (env :: envs).drop (trusted - i), Verified node anchors e) ↔
        (trusted ≤ i → Verified node anchors env) ∧
        ∀ e ∈ envs.drop (trusted - (i + 1)), Verified node anchors e := by
      by_cases ht : trusted ≤ i
      · simp [Nat.sub_eq_zero_of_le ht, Nat.sub_eq_zero_of_le (ht.trans (Nat.le_succ i)), ht]
      · have hs : trusted - i = (trusted - (i + 1)) + 1 := by omega
        rw [hs, List.drop_succ_cons]
        simp [ht]
    rw [hd, replayEvents, Except.bind_eq_ok, lastDigest_cons]
    constructor
    case mp =>
      intro ⟨⟨ev, digest⟩, he, h⟩
      have ⟨⟨es, l⟩, hs, h⟩ := Except.bind_eq_ok.mp h
      cases Except.pure_eq_ok.mp h
      have ⟨hk, hg, hv⟩ := replayEvent_ok_iff.mp he
      subst hg
      have ⟨hc, hl, ha⟩ := ih.mp hs
      exact ⟨.cons hk hc, hl, hv, ha⟩
    case mpr =>
      intro ⟨c, hl, hv, ha⟩
      cases c
      case cons ev evs hk hc =>
        refine ⟨(ev, _), replayEvent_ok_iff.mpr ⟨hk, rfl, hv⟩, ?_⟩
        exact Except.bind_eq_ok.mpr ⟨(evs, last), ih.mpr ⟨hc, hl, ha⟩, rfl⟩

-- A checkpoint that is accepted for a tree, after another one.
structure Commits (node : String) (anchors : TrustAnchors) (tree : Merkle.Tree Digest) (last : Option Checkpoint)
    (env : Bytes) (cp : Checkpoint) : Prop where
  signed  : ∃ v, Envelope.verify env RecordType.CHECKPOINT node anchors [.device] = .ok v
  holds   : Holds Checkpoint env cp
  origin  : cp.origin = origin node
  forward : wentBackwards cp last = false
  root    : tree.rootAt cp.size.toNat = some cp.root

theorem replayCheckpoint_ok_iff {tree : Merkle.Tree Digest} {cp : Checkpoint} :
    replayCheckpoint node anchors tree seq last env = .ok cp ↔
    Commits node anchors tree last env cp := by
  unfold replayCheckpoint
  rw [RecordType.allowedSigners_checkpoint]
  constructor
  case mp =>
    intro h
    have ⟨v, hv, h⟩ := Except.bind_eq_ok.mp h
    have ⟨c, hc, h⟩ := Except.bind_eq_ok.mp h
    have ⟨_, ho, h⟩ := Except.bind_eq_ok.mp h
    have ⟨_, hb, h⟩ := Except.bind_eq_ok.mp h
    have ⟨root, ha, h⟩ := Except.bind_eq_ok.mp h
    have ⟨_, hr, h⟩ := Except.bind_eq_ok.mp h
    cases Except.pure_eq_ok.mp h
    have hv := Except.mapError_eq_ok.mp hv
    exact {
      signed  := ⟨v, hv⟩
      holds   := ⟨v.payload, (Envelope.verify_ok_payload hv).left, Except.mapError_eq_ok.mp hc⟩
      origin  := Except.ensure_eq_ok.mp ho
      forward := Bool.not_eq_true _ ▸ Except.ensure_eq_ok.mp hb
      root    := Except.ensure_eq_ok.mp hr ▸ Except.okOr_eq_ok.mp ha
    }
  case mpr =>
    intro c
    have ⟨v, hv⟩ := c.signed
    have ⟨payload, hp, hc⟩ := c.holds
    cases (Envelope.verify_ok_payload hv).left.symm.trans hp
    refine Except.bind_eq_ok.mpr ⟨v, Except.mapError_eq_ok.mpr hv, ?_⟩
    refine Except.bind_eq_ok.mpr ⟨cp, Except.mapError_eq_ok.mpr hc, ?_⟩
    refine Except.bind_eq_ok.mpr ⟨(), Except.ensure_eq_ok.mpr c.origin, ?_⟩
    refine Except.bind_eq_ok.mpr ⟨(), Except.ensure_eq_ok.mpr (by simp [c.forward]), ?_⟩
    refine Except.bind_eq_ok.mpr ⟨cp.root, Except.okOr_eq_ok.mpr c.root, ?_⟩
    exact Except.bind_eq_ok.mpr ⟨(), Except.ensure_eq_ok.mpr rfl, rfl⟩

-- The checkpoints of a list of envelopes, each after the one before.
inductive Commitments (node : String) (anchors : TrustAnchors) (tree : Merkle.Tree Digest) :
    Option Checkpoint → List Bytes → List Checkpoint → Prop
  | nil  : Commitments node anchors tree last [] []
  | cons {envs cps} : Commits node anchors tree last env cp →
      Commitments node anchors tree (some cp) envs cps →
      Commitments node anchors tree last (env :: envs) (cp :: cps)

namespace Commitments

variable {anchors' : TrustAnchors} {tree tree' : Merkle.Tree Digest} {envs envs' : List Bytes}
variable {cps cps' : List Checkpoint}

theorem unique (c : Commitments node anchors tree last envs cps)
    (c' : Commitments node anchors' tree' last' envs cps') : cps = cps' := by
  induction c generalizing last' cps'
  case nil => cases c'; rfl
  case cons h _ ih =>
    cases c'
    case cons h' c' => rw [h.holds.unique h'.holds, ih c']

theorem append (c : Commitments node anchors tree last envs cps)
    (c' : Commitments node anchors tree (cps.getLast?.or last) envs' cps') :
    Commitments node anchors tree last (envs ++ envs') (cps ++ cps') := by
  induction c
  case nil => exact c'
  case cons h c ih =>
    refine .cons h (ih ?_)
    rw [List.getLast?_cons] at c'
    cases hl : List.getLast? _ <;> simpa [hl] using c'

theorem take (c : Commitments node anchors tree last envs cps) (n : Nat) :
    Commitments node anchors tree last (envs.take n) (cps.take n) := by
  induction c generalizing n
  case nil => simpa using .nil
  case cons h _ ih =>
    cases n
    case zero => exact .nil
    case succ n => exact .cons h (ih n)

-- The roots of a tree stay where they are while it grows.
theorem grow (c : Commitments node anchors tree last envs cps)
    (h : ∀ n r, tree.rootAt n = some r → tree'.rootAt n = some r) :
    Commitments node anchors tree' last envs cps := by
  induction c
  case nil => exact .nil
  case cons hc _ ih => exact .cons { hc with root := h _ _ hc.root } ih

theorem commits (c : Commitments node anchors tree last envs cps) (h : cp ∈ cps) :
    ∃ env ∈ envs, ∃ last, Commits node anchors tree last env cp := by
  induction c
  case nil => contradiction
  case cons hc _ ih =>
    cases List.mem_cons.mp h
    case inl h => exact ⟨_, List.mem_cons_self, _, h ▸ hc⟩
    case inr h =>
      have ⟨env, he, hc⟩ := ih h
      exact ⟨env, List.mem_cons_of_mem _ he, hc⟩

end Commitments

theorem replayCheckpoints_ok_iff {tree : Merkle.Tree Digest} {envs : List Bytes} {cps : List Checkpoint} :
    replayCheckpoints node anchors tree i last envs = .ok cps ↔
    Commitments node anchors tree last envs cps := by
  induction envs generalizing i last cps
  case nil =>
    change Except.ok [] = _ ↔ _
    constructor
    case mp =>
      intro h
      cases h
      exact .nil
    case mpr =>
      intro c
      cases c
      rfl
  case cons env envs ih =>
    rw [replayCheckpoints, Except.bind_eq_ok]
    constructor
    case mp =>
      intro ⟨cp, hc, h⟩
      have ⟨cps, hs, h⟩ := Except.bind_eq_ok.mp h
      cases Except.pure_eq_ok.mp h
      exact .cons (replayCheckpoint_ok_iff.mp hc) (ih.mp hs)
    case mpr =>
      intro c
      cases c
      case cons cp cps hc hs =>
        exact ⟨cp, replayCheckpoint_ok_iff.mpr hc, Except.bind_eq_ok.mpr ⟨cps, ih.mpr hs, rfl⟩⟩

-- What a replay returns for frames with these events and checkpoints.
def replayed (frames cpFrames : List Bytes) (rest cpRest : Bytes) (evs : List Event)
    (cps : List Checkpoint) : Replayed where
  eventsParsed := evs
  tree         := .of (frames.map leafHash)
  lastEnv      := lastDigest Digest.ZERO frames
  events       := .ofNat frames.length
  torn         := .ofNat rest.length
  checkpoints  := cps
  bootIds      := bootIds evs
  validLen     := .ofNat (framed frames).length
  cpTorn       := .ofNat cpRest.length
  cpValidLen   := .ofNat (framed cpFrames).length

-- The logs that are replayed: whole frames, with an incomplete one at the end.
structure Replays (node : String) (anchors : TrustAnchors) (full : Bool) (frames cpFrames : List Bytes)
    (rest cpRest : Bytes) (evs : List Event) (cps : List Checkpoint) : Prop where
  framable     : ∀ env ∈ frames, Framable env
  incomplete   : Incomplete rest
  cpFramable   : ∀ env ∈ cpFrames, Framable env
  cpIncomplete : Incomplete cpRest
  commits      : Commitments node anchors (.of (frames.map leafHash)) none cpFrames cps
  chain        : Chain 0 Digest.ZERO frames evs
  verified     : ∀ env ∈ frames.drop (trustedPrefix full cps), Verified node anchors env

theorem replay_ok_iff {cpData eventsData : Bytes} {r : Replayed} :
    replay node anchors full cpData eventsData = .ok r ↔
    ∃ frames rest cpFrames cpRest, eventsData = framed frames ++ rest ∧ cpData = framed cpFrames ++ cpRest ∧
      Replays node anchors full frames cpFrames rest cpRest r.eventsParsed r.checkpoints ∧
      r = replayed frames cpFrames rest cpRest r.eventsParsed r.checkpoints := by
  constructor
  case mp =>
    intro h
    have ⟨⟨frames, pos, torn⟩, hs, h⟩ := Except.bind_eq_ok.mp h
    have ⟨⟨cpFrames, cpPos, cpTorn⟩, hc, h⟩ := Except.bind_eq_ok.mp h
    have ⟨cps, hk, h⟩ := Except.bind_eq_ok.mp h
    have ⟨⟨evs, last⟩, he, h⟩ := Except.bind_eq_ok.mp h
    cases Except.pure_eq_ok.mp h
    have ⟨rest, hd, hf, hi, hp, ht⟩ := splitFrames_ok_iff.mp hs
    have ⟨cpRest, hd', hf', hi', hp', ht'⟩ := splitFrames_ok_iff.mp hc
    have ⟨hn, hl, hv⟩ := replayEvents_ok_iff.mp he
    subst hp ht hp' ht' hl
    refine ⟨frames, rest, cpFrames, cpRest, hd, hd', ?_, rfl⟩
    exact {
      framable     := hf
      incomplete   := hi
      cpFramable   := hf'
      cpIncomplete := hi'
      commits      := replayCheckpoints_ok_iff.mp hk
      chain        := hn
      verified     := hv
    }
  case mpr =>
    intro ⟨frames, rest, cpFrames, cpRest, hd, hd', hr, he⟩
    have hs := splitFrames_ok_iff.mpr ⟨rest, hd, hr.framable, hr.incomplete, rfl, rfl⟩
    have hc := splitFrames_ok_iff.mpr ⟨cpRest, hd', hr.cpFramable, hr.cpIncomplete, rfl, rfl⟩
    have hv := replayEvents_ok_iff.mpr ⟨hr.chain, rfl, hr.verified⟩
    refine Except.bind_eq_ok.mpr ⟨_, hs, Except.bind_eq_ok.mpr ⟨_, hc, ?_⟩⟩
    refine Except.bind_eq_ok.mpr ⟨_, replayCheckpoints_ok_iff.mpr hr.commits, ?_⟩
    exact Except.bind_eq_ok.mpr ⟨_, hv, congrArg Except.ok he.symm⟩

-- Whatever is trusted, a replay that succeeds has the same result.
theorem replay_unique {anchors' : TrustAnchors} {full full' : Bool} {cpData eventsData : Bytes}
    {r r' : Replayed} (h : replay node anchors full cpData eventsData = .ok r)
    (h' : replay node anchors' full' cpData eventsData = .ok r') : r = r' := by
  have ⟨frames, rest, cpFrames, cpRest, hd, hc, hr, he⟩ := replay_ok_iff.mp h
  have ⟨frames', rest', cpFrames', cpRest', hd', hc', hr', he'⟩ := replay_ok_iff.mp h'
  have ⟨hf, ht⟩ := framed_inj hr.framable hr.incomplete hr'.framable hr'.incomplete (hd.symm.trans hd')
  have ⟨hf', ht'⟩ :=
    framed_inj hr.cpFramable hr.cpIncomplete hr'.cpFramable hr'.cpIncomplete (hc.symm.trans hc')
  subst hf ht hf' ht'
  rw [he, he', hr.chain.unique hr'.chain, hr.commits.unique hr'.commits]

-- A log that is verified in full is also accepted with a part of it trusted.
theorem replay_fast_of_full {cpData eventsData : Bytes} {r : Replayed}
    (h : replay node anchors true cpData eventsData = .ok r) :
    replay node anchors false cpData eventsData = .ok r := by
  have ⟨frames, rest, cpFrames, cpRest, hd, hc, hr, he⟩ := replay_ok_iff.mp h
  refine replay_ok_iff.mpr ⟨frames, rest, cpFrames, cpRest, hd, hc, ?_, he⟩
  exact { hr with verified := fun env h => hr.verified env (List.mem_of_mem_drop h) }

end Ledger
