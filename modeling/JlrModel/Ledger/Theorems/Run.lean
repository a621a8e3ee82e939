import JlrModel.Ledger.Run
import JlrModel.Ledger.Theorems.Append
import JlrModel.Ledger.Theorems.Open
import JlrModel.Ledger.Theorems.Size

open Cbor

section

variable [Crypto] {anchors : TrustAnchors} {key : SigningKeypair} {recordType scope : String} {payload : Bytes}

theorem DeviceKey.verify_sign (dk : DeviceKey anchors key)
    (hl : (Envelope.sign recordType scope payload key).length < 2 ^ 64) :
    ∃ v, Envelope.verify (Envelope.sign recordType scope payload key) recordType scope anchors [.device] =
      .ok v :=
  Envelope.verify_sign dk.anchored (List.mem_singleton.mpr dk.role) (dk.correct _) hl

end

namespace Ledger

theorem lt_of_fits {n : Nat} (h : n ≤ MAX_FRAME) : n < 2 ^ 64 :=
  h.trans_lt (by decide)

variable [Crypto] {node : String} {anchors : TrustAnchors} {l l' : Ledger} {j j' : Journal}

theorem holds_sign {recordType scope : String} {key : SigningKeypair} {α : Type} [Cbor α] [LawfulCbor α]
    {a : α} (hd : LawfulCbor.levels α ≤ MAX_DEPTH + 1) (hv : LawfulCbor.Valid a)
    (hl : (Envelope.sign recordType scope (toCbor a) key).length < 2 ^ 64) :
    Holds α (Envelope.sign recordType scope (toCbor a) key) a := by
  have hr := Envelope.read_sign hl
  have ⟨_, _, hp⟩ := Envelope.Parts.read_ok_iff.mp hr
  exact ⟨toCbor a, Envelope.unverifiedPayload_of_read hr, fromCbor_toCbor hd hv hp⟩

theorem holds_event {recordType scope : String} {key : SigningKeypair} {ev : Event}
    (hl : (Envelope.sign recordType scope (toCbor ev) key).length < 2 ^ 64) :
    Holds Event (Envelope.sign recordType scope (toCbor ev) key) ev :=
  holds_sign (RecordType.levels_le .event)
    (RecordType.valid_of_capabilities (t := .event) fun _ h => nomatch h) hl

theorem holds_checkpoint {recordType scope : String} {key : SigningKeypair} {cp : Checkpoint}
    (hl : (Envelope.sign recordType scope (toCbor cp) key).length < 2 ^ 64) :
    Holds Checkpoint (Envelope.sign recordType scope (toCbor cp) key) cp :=
  holds_sign (RecordType.levels_le .checkpoint)
    (RecordType.valid_of_capabilities (t := .checkpoint) fun _ h => nomatch h) hl

theorem framable_sign {recordType scope : String} {payload : Bytes} {key : SigningKeypair}
    (h : (Envelope.sign recordType scope payload key).length ≤ MAX_FRAME) :
    Framable (Envelope.sign recordType scope payload key) where
  pos := by
    rw [Envelope.length_sign]
    omega
  le  := h

theorem linked_event {clock : Clock} {d : EventDraft} {i : Nat} {prev : Digest}
    (hf : (l.eventEnvelope clock d).length ≤ MAX_FRAME) (hs : l.nextSeq = .ofNat i) (hp : l.lastEnv = prev)
    (hg : d.kind = .genesis ↔ i = 0) : Linked i prev (l.eventEnvelope clock d) (l.event clock d) where
  holds   := holds_event (lt_of_fits hf)
  seq     := hs
  prev    := hp
  genesis := hg

theorem verified_event {clock : Clock} {d : EventDraft} (dk : DeviceKey anchors l.key)
    (hf : (l.eventEnvelope clock d).length ≤ MAX_FRAME) :
    Verified l.node anchors (l.eventEnvelope clock d) :=
  dk.verify_sign (lt_of_fits hf)

-- What a call that succeeds has done.
theorem append_ok {io : Io} {clock : Clock} {d : EventDraft} (h : l.append io clock d = (.ok r, l')) :
    ∃ f : File, f.data = (l.logs .events).data ++ frame (l.eventEnvelope clock d) ∧
      l' = l.grown f (l.eventEnvelope clock d) := by
  have o := l.append_outcome io clock d
  rw [h] at o
  cases o
  case written f _ hf => exact ⟨f, hf, rfl⟩

theorem append_success {clock : Clock} {d : EventDraft} (hp : l.poisoned = false)
    (hs : ((l.logs .events).data ++ frame (l.eventEnvelope clock d)).length < 2 ^ 63) :
    ∃ r l', l.append .success clock d = (.ok r, l') := by
  have hx : (l.logs .events).extend (frame (l.eventEnvelope clock d)) = some ⟨_, hs⟩ := dif_pos hs
  have ha : appendFrame .success (l.logs .events) (frame (l.eventEnvelope clock d)) l.sync = (.ok (), ⟨_, hs⟩) := by
    simp only [appendFrame, File.append, Io.success, hx]
    cases l.sync <;> rfl
  have hc : l.appendChecked .success .events (frame (l.eventEnvelope clock d)) =
      (.ok (), l.setLog .events ⟨_, hs⟩) := by
    rw [appendChecked, hp, if_neg (by decide), ha]
  exact ⟨_, _, by rw [Ledger.append, hc]⟩

theorem checkpoint_ok {io : Io} {now : UInt64} {env : Bytes} (h : l.checkpoint io now = (.ok env, l')) :
    env = l.checkpointEnvelope now ∧
    ∃ f : File, f.data = (l.logs .checkpoints).data ++ frame (l.checkpointEnvelope now) ∧
      l' = l.committed f (l.nextCheckpoint now) := by
  have o := l.checkpoint_outcome io now
  rw [h] at o
  cases o
  case written f _ hf => exact ⟨rfl, f, hf, rfl⟩

theorem create_ok {dir : Dir} {io : Io} {clock : Clock} {key : SigningKeypair} {bootId : Bytes.Fixed 16}
    (h : (create dir io clock node key bootId).1 = .ok l) :
    dir.readAll .events = [] ∧
    ∃ r, (fresh dir node key bootId).append io clock (genesis node) = (.ok r, l) := by
  unfold create at h
  by_cases he : dir.readAll .events = []
  · rw [if_neg (not_not.mpr he)] at h
    generalize (fresh dir node key bootId).append io clock (genesis node) = c at h ⊢
    match c, h with
    | (.ok r, _), h => exact ⟨he, r, congrArg (Prod.mk _) (Except.ok.inj h)⟩
  · rw [if_pos he] at h
    simp only [reduceCtorEq] at h

-- A ledger without any records.
def blank : Ledger :=
  fresh .new "" ⟨Bytes.fixed 32 0, .device⟩ (Bytes.fixed 16 0)

-- What holds in every run: the ledger describes its history, and a reader accepts all of it.
structure Sound (node : String) (anchors : TrustAnchors) (l : Ledger) (j : Journal) : Prop where
  node_eq  : l.node = node
  device   : DeviceKey anchors l.key
  short    : (utf8 node).length + 271 ≤ MAX_FRAME
  extend   : Extends blank j l
  framable : ∀ log, ∀ env ∈ j.envelopes log, Framable env
  started  : j.events ≠ []
  chain    : Chain 0 Digest.ZERO (j.envelopes .events) (j.events.map Prod.fst)
  verified : ∀ env ∈ j.envelopes .events, Verified node anchors env
  commits  : Commitments node anchors j.tree none (j.envelopes .checkpoints) (j.checkpoints.map Prod.fst)
  counted  : (j.lastCheckpoint.map Checkpoint.counter).getD 0 = .ofNat j.checkpoints.length
  covered  : ((j.lastCheckpoint.map Checkpoint.size).getD 0).toNat ≤ j.events.length

namespace Sound

theorem data (s : Sound node anchors l j) (log : Log) : (l.logs log).data = framed (j.envelopes log) :=
  s.extend.files log

theorem length_lt (s : Sound node anchors l j) (log : Log) : (j.envelopes log).length < 2 ^ 63 :=
  calc (j.envelopes log).length
    _ ≤ (framed (j.envelopes log)).length := length_le_framed
    _ = (l.logs log).data.length := by rw [s.data]
    _ < 2 ^ 63 := (l.logs log).size_lt

theorem events_lt (s : Sound node anchors l j) : j.events.length < 2 ^ 63 := by
  simpa [Journal.envelopes] using s.length_lt .events

theorem checkpoints_lt (s : Sound node anchors l j) : j.checkpoints.length < 2 ^ 63 := by
  simpa [Journal.envelopes] using s.length_lt .checkpoints

theorem tree_eq (s : Sound node anchors l j) : l.tree = j.tree :=
  s.extend.tree

theorem nextSeq_eq (s : Sound node anchors l j) : l.nextSeq = .ofNat j.events.length :=
  s.extend.nextSeq.trans (UInt64.zero_add _)

theorem counter_eq (s : Sound node anchors l j) : l.counter = .ofNat j.checkpoints.length :=
  s.extend.counter.trans (UInt64.zero_add _)

theorem replays (s : Sound node anchors l j) (full : Bool) :
    Replays node anchors full (j.envelopes .events) (j.envelopes .checkpoints) [] []
      (j.events.map Prod.fst) (j.checkpoints.map Prod.fst) where
  framable     := s.framable .events
  incomplete   := incomplete_nil
  cpFramable   := s.framable .checkpoints
  cpIncomplete := incomplete_nil
  commits      := s.commits
  chain        := s.chain
  verified env h := s.verified env (List.mem_of_mem_drop h)

-- What a reader makes of the directory.
def result (j : Journal) : Replayed :=
  replayed (j.envelopes .events) (j.envelopes .checkpoints) [] [] (j.events.map Prod.fst)
    (j.checkpoints.map Prod.fst)

theorem replay_eq (s : Sound node anchors l j) (full : Bool) :
    replay node anchors full (l.dir.readAll .checkpoints) (l.dir.readAll .events) = .ok (result j) := by
  refine replay_ok_iff.mpr ⟨j.envelopes .events, [], j.envelopes .checkpoints, [], ?_, ?_, s.replays full, rfl⟩
  · rw [List.append_nil]
    exact s.data .events
  · rw [List.append_nil]
    exact s.data .checkpoints

theorem setSync (s : Sound node anchors l j) (sync : Bool) : Sound node anchors (l.setSync sync) j :=
  { s with extend := { s.extend with } }

theorem written {clock : Clock} {d : EventDraft} {f : File} (s : Sound node anchors l j)
    (hk : d.kind ≠ .genesis) (hf : (l.eventEnvelope clock d).length ≤ MAX_FRAME)
    (hd : f.data = (l.logs .events).data ++ frame (l.eventEnvelope clock d)) :
    Sound node anchors (l.grown f (l.eventEnvelope clock d))
      (j.append (l.event clock d) (l.eventEnvelope clock d)) := by
  have hn : (j.envelopes .events).length = j.events.length := by simp [Journal.envelopes]
  have hi : j.events.length ≠ 0 := by simp [s.started]
  have hlink : Linked (0 + (j.envelopes .events).length) (lastDigest Digest.ZERO (j.envelopes .events))
      (l.eventEnvelope clock d) (l.event clock d) := by
    rw [Nat.zero_add, hn]
    exact linked_event hf s.nextSeq_eq s.extend.lastEnv ⟨fun h => absurd h hk, fun h => absurd h hi⟩
  have hv : Verified node anchors (l.eventEnvelope clock d) := s.node_eq ▸ verified_event s.device hf
  exact {
    node_eq  := s.node_eq
    device   := s.device
    short    := s.short
    extend   := s.extend.append hd
    framable := by
      intro log env he
      cases log
      case checkpoints => exact s.framable .checkpoints env he
      case events =>
        rw [Journal.envelopes_append_events, List.mem_append, List.mem_singleton] at he
        cases he
        case inl he => exact s.framable .events env he
        case inr he => exact he ▸ framable_sign hf
    started  := by simp [Journal.append]
    chain    := by
      have := s.chain.append (.cons hlink .nil)
      simpa [Journal.append, Journal.envelopes] using this
    verified := by
      intro env he
      rw [Journal.envelopes_append_events, List.mem_append, List.mem_singleton] at he
      cases he
      case inl he => exact s.verified env he
      case inr he => exact he ▸ hv
    commits  := by
      apply s.commits.grow
      intro n r hr
      rw [Journal.tree, Journal.envelopes_append_events, List.map_append]
      exact Merkle.Tree.rootAt_of_append hr
    counted  := s.counted
    covered  := s.covered.trans (by simp [Journal.append])
  }

theorem append {clock : Clock} {d : EventDraft} {io : Io} (s : Sound node anchors l j)
    (hk : d.kind ≠ .genesis) (hf : (l.eventEnvelope clock d).length ≤ MAX_FRAME)
    (h : l.append io clock d = (.ok r, l')) :
    Sound node anchors l' (j.append (l.event clock d) (l.eventEnvelope clock d)) := by
  obtain ⟨f, hd, rfl⟩ := append_ok h
  exact s.written hk hf hd

theorem size_nextCheckpoint (s : Sound node anchors l j) (now : UInt64) :
    (l.nextCheckpoint now).size.toNat = j.events.length := by
  have hs : l.tree.size = j.events.length := by
    rw [s.tree_eq, Journal.tree, Merkle.Tree.size_of]
    simp [Journal.envelopes]
  have hl := s.events_lt
  rw [nextCheckpoint, hs]
  exact UInt64.toNat_ofNat_of_lt' (hl.trans (by decide))

theorem forward_nextCheckpoint (s : Sound node anchors l j) (now : UInt64) :
    wentBackwards (l.nextCheckpoint now) j.lastCheckpoint = false := by
  have hs := s.size_nextCheckpoint now
  have hc := s.counted
  have hv := s.covered
  have hn := s.checkpoints_lt
  cases hl : j.lastCheckpoint
  case none => rfl
  case some last =>
    simp only [hl, Option.map_some, Option.getD_some] at hc hv
    have h₁ : ¬ (l.nextCheckpoint now).counter ≤ last.counter := by
      have ht : (UInt64.ofNat j.checkpoints.length).toNat = j.checkpoints.length :=
        UInt64.toNat_ofNat_of_lt' (hn.trans (by decide))
      rw [nextCheckpoint, s.counter_eq, hc, UInt64.le_iff_toNat_le, UInt64.toNat_add, ht]
      simp
      omega
    have h₂ : ¬ (l.nextCheckpoint now).size < last.size := by
      rw [UInt64.lt_iff_toNat_lt, hs]
      omega
    simp [wentBackwards, h₁, h₂]

theorem fits_checkpoint (s : Sound node anchors l j) (now : UInt64) :
    (l.checkpointEnvelope now).length ≤ MAX_FRAME := by
  apply length_checkpointEnvelope.trans
  rw [s.node_eq]
  exact s.short

theorem commits_nextCheckpoint (s : Sound node anchors l j) (now : UInt64) :
    Commits node anchors j.tree j.lastCheckpoint (l.checkpointEnvelope now) (l.nextCheckpoint now) := by
  have hf := s.fits_checkpoint now
  exact {
    signed  := s.node_eq ▸ s.device.verify_sign (lt_of_fits hf)
    holds   := holds_checkpoint (lt_of_fits hf)
    origin  := congrArg Ledger.origin s.node_eq
    forward := s.forward_nextCheckpoint now
    root    := by
      rw [s.size_nextCheckpoint, nextCheckpoint, s.tree_eq, Journal.tree, ← Merkle.Tree.rootAt_size]
      simp [Journal.envelopes]
  }

theorem committed {now : UInt64} {f : File} (s : Sound node anchors l j)
    (hd : f.data = (l.logs .checkpoints).data ++ frame (l.checkpointEnvelope now)) :
    Sound node anchors (l.committed f (l.nextCheckpoint now))
      (j.commit (l.nextCheckpoint now) (l.checkpointEnvelope now)) := by
  have hc := s.commits_nextCheckpoint now
  have hs := s.size_nextCheckpoint now
  exact {
    node_eq  := s.node_eq
    device   := s.device
    short    := s.short
    extend   := s.extend.commit hd rfl
    framable := by
      intro log env he
      cases log
      case events => exact s.framable .events env he
      case checkpoints =>
        rw [Journal.envelopes_commit_checkpoints, List.mem_append, List.mem_singleton] at he
        cases he
        case inl he => exact s.framable .checkpoints env he
        case inr he => exact he ▸ framable_sign (s.fits_checkpoint now)
    started  := s.started
    chain    := s.chain
    verified := s.verified
    commits  := by
      have hn : (j.checkpoints.map Prod.fst).getLast?.or none = j.lastCheckpoint := Option.or_none
      have := s.commits.append (.cons (hn ▸ hc) .nil)
      simpa [Journal.commit, Journal.envelopes, Journal.tree] using this
    counted  := by
      have := s.counter_eq
      simp [Journal.commit, Journal.lastCheckpoint, nextCheckpoint, this, uint64_ofNat_succ]
    covered  := by
      rw [Journal.lastCheckpoint_commit]
      exact hs.le
  }

theorem checkpoint {io : Io} {now : UInt64} {env : Bytes} (s : Sound node anchors l j)
    (h : l.checkpoint io now = (.ok env, l')) : Sound node anchors l' (j.commit (l.nextCheckpoint now) env) := by
  obtain ⟨rfl, f, hd, rfl⟩ := checkpoint_ok h
  exact s.committed hd

theorem events_ne_zero (s : Sound node anchors l j) : (result j).events ≠ 0 := by
  have hl := s.length_lt .events
  have hp : (j.envelopes .events).length ≠ 0 := by simp [Journal.envelopes, s.started]
  intro h
  have h0 := congrArg UInt64.toNat h
  rw [result, replayed, UInt64.toNat_ofNat_of_lt' (hl.trans (by decide))] at h0
  exact hp h0

theorem openWithEvents_eq {key : SigningKeypair} {bootId : Bytes.Fixed 16} (s : Sound node anchors l j) :
    (openWithEvents l.dir node key anchors bootId).2 =
    .ok (opened l.dir (result j) node key bootId, openReport (result j), j.events.map Prod.fst) := by
  rw [Ledger.openWithEvents_eq (s.replay_eq false) s.events_ne_zero (repairs_untorn rfl rfl)]
  simp only [Dir.applyAll, List.foldl_cons, List.foldl_nil, dir_openAppend]
  rfl

-- Whoever opens the ledger, and with whatever anchors, finds the same.
theorem of_openWithEvents {key : SigningKeypair} {bootId : Bytes.Fixed 16} {anchors' : TrustAnchors}
    {report : OpenReport} {evs : List Event} (s : Sound node anchors l j)
    (h : (openWithEvents l.dir node key anchors' bootId).2 = .ok (l', report, evs)) :
    l' = opened l.dir (result j) node key bootId ∧ evs = j.events.map Prod.fst := by
  have ⟨r, ops, hr, hn, ho, hl, _, he⟩ := openWithEvents_ok h
  cases replay_unique hr (s.replay_eq false)
  cases (repairs_untorn rfl rfl).symm.trans ho
  simp only [Dir.applyAll, List.foldl_cons, List.foldl_nil, dir_openAppend] at hl
  exact ⟨hl, he⟩

-- The ledger of a directory that has the same records, whatever came after them.
theorem opened {dir : Dir} {rest cpRest : Bytes} {key : SigningKeypair} {bootId : Bytes.Fixed 16}
    (s : Sound node anchors l j) (dk : DeviceKey anchors key)
    (hd : ∀ log, dir.readAll log = framed (j.envelopes log)) :
    Sound node anchors (opened dir (replayed (j.envelopes .events) (j.envelopes .checkpoints) rest cpRest
      (j.events.map Prod.fst) (j.checkpoints.map Prod.fst)) node key bootId) j :=
  { s with
    node_eq := rfl
    device  := dk
    extend  := {
      files log          := data_getD.trans (hd log)
      tree               := rfl
      lastEnv            := rfl
      nextSeq            := by
        change UInt64.ofNat (j.envelopes .events).length = 0 + _
        simp [Journal.envelopes]
      counter            := s.counted.trans (UInt64.zero_add _).symm
      lastCheckpointSize := rfl
    }
  }

-- A ledger with its first event.
theorem begun {dir : Dir} {clock : Clock} {key : SigningKeypair} {bootId : Bytes.Fixed 16} {f : File}
    (dk : DeviceKey anchors key) (he : dir.readAll .events = []) (hc : dir.readAll .checkpoints = [])
    (hf : ((fresh dir node key bootId).eventEnvelope clock (genesis node)).length ≤ MAX_FRAME)
    (hd : f.data = ((fresh dir node key bootId).logs .events).data ++
      frame ((fresh dir node key bootId).eventEnvelope clock (genesis node))) :
    Sound node anchors
      ((fresh dir node key bootId).grown f ((fresh dir node key bootId).eventEnvelope clock (genesis node)))
      (Journal.new.append ((fresh dir node key bootId).event clock (genesis node))
        ((fresh dir node key bootId).eventEnvelope clock (genesis node))) := by
  have hx : Extends blank .new (fresh dir node key bootId) := by
    refine { Extends.refl (l := blank) with files := fun log => ?_ }
    cases log
    case events => exact data_getD.trans he
    case checkpoints => exact data_getD.trans hc
  have hk := @linked_event _ (fresh dir node key bootId) clock (genesis node) 0 Digest.ZERO hf rfl rfl
    ⟨fun _ => rfl, fun _ => rfl⟩
  have hv : Verified node anchors ((fresh dir node key bootId).eventEnvelope clock (genesis node)) :=
    @verified_event _ _ (fresh dir node key bootId) _ _ dk hf
  have hg := @length_eventEnvelope_genesis _ dir node key bootId clock
  exact {
    node_eq  := rfl
    device   := dk
    short    := by omega
    extend   := hx.append hd
    framable := by
      intro log env he
      cases log
      case checkpoints => exact nomatch he
      case events => exact List.mem_singleton.mp he ▸ framable_sign hf
    started  := List.cons_ne_nil _ _
    chain    := .cons hk .nil
    verified := fun env he => List.mem_singleton.mp he ▸ hv
    commits  := .nil
    counted  := rfl
    covered  := Nat.zero_le _
  }

theorem create {dir : Dir} {io : Io} {clock : Clock} {key : SigningKeypair} {bootId : Bytes.Fixed 16}
    (dk : DeviceKey anchors key) (hc : dir.readAll .checkpoints = [])
    (hf : ((fresh dir node key bootId).eventEnvelope clock (genesis node)).length ≤ MAX_FRAME)
    (h : (create dir io clock node key bootId).1 = .ok l) :
    Sound node anchors l (Journal.new.append ((fresh dir node key bootId).event clock (genesis node))
      ((fresh dir node key bootId).eventEnvelope clock (genesis node))) := by
  have ⟨he, r, ha⟩ := create_ok h
  obtain ⟨f, hd, rfl⟩ := append_ok ha
  exact .begun dk he hc hf hd

theorem step (s : Sound node anchors l j) (h : Step node anchors (l, j) (l', j')) :
    Sound node anchors l' j' := by
  cases h
  case append hk hf h => exact s.append hk hf h
  case checkpoint h => exact s.checkpoint h
  case setSync => exact s.setSync _
  case reopen dk h =>
    rw [(s.of_openWithEvents h).left]
    exact s.opened dk s.data

end Sound

theorem Run.sound (r : Run node anchors l j) : Sound node anchors l j := by
  induction r
  case create dk hc hf h => exact .create dk hc hf h
  case step h ih => exact ih.step h

theorem replay_of_parts {full : Bool} {cpData eventsData : Bytes} {envs cpEnvs : List Bytes} {torn cpTorn : UInt64}
    {cps : List Checkpoint} (he : splitFrames eventsData = .ok (envs, len, torn))
    (hc : splitFrames cpData = .ok (cpEnvs, cpLen, cpTorn))
    (hk : replayCheckpoints node anchors (.of (envs.map leafHash)) 0 none cpEnvs = .ok cps)
    (hv : (replayEvents node anchors (trustedPrefix full cps) 0 Digest.ZERO envs).toOption.isSome) :
    ∃ r, replay node anchors full cpData eventsData = .ok r := by
  have ⟨p, hp⟩ := Option.isSome_iff_exists.mp hv
  rw [replay, he, hc]
  change ∃ r, (replayCheckpoints node anchors (.of (envs.map leafHash)) 0 none cpEnvs >>= _) = .ok r
  rw [hk]
  change ∃ r, (replayEvents node anchors (trustedPrefix full cps) 0 Digest.ZERO envs >>= _) = .ok r
  rw [Except.toOption_eq_some.mp hp]
  exact ⟨_, rfl⟩

end Ledger

-- The primitives at the inputs of one recorded run: a ledger with two events and a checkpoint.
namespace Recorded

def device : SigningKeypair := { seed, role := .device }
def boot   : Bytes.Fixed 16 := Bytes.fixed 16 0
def clock  : Clock := { now := 0, monoNs := 0 }
def start  : Ledger := .fresh .new "n" device boot
def draft  : EventDraft := .new "a" .boot "d"

def genesisSignature : Bytes.Fixed 64 := Bytes.fixed 64
  0xcae38a7a087c33d15f2df17e68239d2a4bbb79b3f5577d15b52b25c4c8697d6a7e687f7e3d8428d27f75a4f74ba873eada156e0e315a34289916d5f50a12130f

def eventSignature : Bytes.Fixed 64 := Bytes.fixed 64
  0x9b75d71e42918ea72e4961975c96eda8d8812bb811c6b3394576696529168f1e64e2b3b24b1cd185c0fca4ee50c10ca0cfe1560adae1c7e8c300854aa88be30a

def checkpointSignature : Bytes.Fixed 64 := Bytes.fixed 64
  0xb59df4229b61b28cd66b1f9218394f01c1d0055704e1fe5b97bc6e456967dedbb9261e5c14761fe5746590e66b2c3c5d892164b9a7c6a18a6ac9323b2225960c

def genesisDigest : Bytes.Fixed 32 := Bytes.fixed 32 0xd0342100e7f687241950328c871b410773ca1fdf613125cd10fed12d3c1f5250
def genesisLeaf   : Bytes.Fixed 32 := Bytes.fixed 32 0x857ace7fa5775274aa96f29ac88566ef477b37bf842b2bd39175ceba730a1815
def eventDigest   : Bytes.Fixed 32 := Bytes.fixed 32 0x59f736561cf70fb5d87870c66d204fe7cba9a55e45dfc9630bf498b1e0c16669
def eventLeaf     : Bytes.Fixed 32 := Bytes.fixed 32 0xcab378edd65b0e05d2534a37cac2b99d879dedb12fb1c7e460abed5c92597868
def root          : Bytes.Fixed 32 := Bytes.fixed 32 0x736c7afb88d23969d82c5817a7564c282257974cbb328c5037a0758edc4adfab

def genesisEvent : Event :=
  start.event clock (Ledger.genesis "n")

def secondEvent : Event :=
  { start.event clock draft with seq := 1, prev := ⟨genesisDigest⟩ }

def checkpoint : Checkpoint where
  origin   := Ledger.origin "n"
  size     := 2
  root     := ⟨root⟩
  bootId   := boot
  wallTime := 0
  counter  := 1
  anchor   := .software

def envelope (recordType : String) (payload : Bytes) (signature : Bytes.Fixed 64) : Bytes :=
  Envelope.Parts.write { protect := Envelope.protectedHeader recordType ⟨kid⟩, payload, signature }

def genesisEnvelope    : Bytes := envelope "event" (toCbor genesisEvent) genesisSignature
def eventEnvelope      : Bytes := envelope "event" (toCbor secondEvent) eventSignature
def checkpointEnvelope : Bytes := envelope "checkpoint" (toCbor checkpoint) checkpointSignature

def lengthInput (len : Nat) : Bytes :=
  Digest.part (utf8 "JLR-frame") ++ Digest.part (Bytes.ofNat 4 len)

def digests : List (Bytes × Bytes.Fixed 32) := [
  (key.val, kid),
  (0 :: genesisEnvelope, genesisLeaf),
  (0 :: eventEnvelope, eventLeaf),
  (1 :: (genesisLeaf.val ++ eventLeaf.val), root),
  (genesisEnvelope, genesisDigest),
  (eventEnvelope, eventDigest),
  (checkpointEnvelope, Bytes.fixed 32 0xd543d057a26c291d21df682c98319c57ca8fbcada746dc8698c38b6a99ebc315),
  (toCbor genesisEvent, Bytes.fixed 32 0x6f2502f2b2bb6b3e7e2833a6350bbeb3d3599acb0eb548b105c68bb596f5534d),
  (toCbor secondEvent, Bytes.fixed 32 0x757d23aa9835335720abd709044a069196d883453c460c6f56567205362225cd),
  (toCbor checkpoint, Bytes.fixed 32 0x43e9a62f7a9cbd3cfa7b4f44202e53cd70312946a6a0495807788d17c3419606),
  (lengthInput 293, Bytes.fixed 32 0x0d3176f1c980954ea665b03a9879ad561b4ab422ef1791de0f61cd6ebf950afb),
  (lengthInput 259, Bytes.fixed 32 0x38fca7be81bfaa1c930e2653165dc2a4f5672c09c3603104488d50180ed0154d),
  (lengthInput 233, Bytes.fixed 32 0xc10d3dab0f8561729b1a8f276b6fc3d17deb401fd2c686ad0659cd11cc89004b)
]

def signatures : List (Bytes × Bytes.Fixed 64) := [
  (Envelope.message "event" "n" ⟨kid⟩ (toCbor genesisEvent), genesisSignature),
  (Envelope.message "event" "n" ⟨kid⟩ (toCbor secondEvent), eventSignature),
  (Envelope.message "checkpoint" "n" ⟨kid⟩ (toCbor checkpoint), checkpointSignature)
]

def sign (message : Bytes) : Bytes.Fixed 64 :=
  (signatures.lookup message).getD (Bytes.fixed 64 0)

abbrev crypto : Crypto where
  sha256 data        := (digests.lookup data).getD (Bytes.fixed 32 0)
  publicKey _        := key
  isPoint _          := true
  sign _             := sign
  verifyStrict k m s := k = key ∧ s = sign m

attribute [local instance] crypto

def trusted : TrustAnchors :=
  TrustAnchors.new.insert device.pub

theorem deviceKey : DeviceKey trusted device where
  anchored  := TrustAnchors.get_insert_self
  role      := rfl
  correct _ := Envelope.verifySignature_ok_iff.mpr ⟨rfl, decide_eq_true ⟨rfl, rfl⟩⟩

def created : Ledger := (start.append .success clock (Ledger.genesis "n")).2
def grown   : Ledger := (created.append .success clock draft).2
def sealed  : Ledger := (grown.checkpoint .success 0).2

-- What the ledger comes to when it is computed.
theorem recorded :
    (start.append .success clock (Ledger.genesis "n")).1 = .ok (0, ⟨genesisDigest⟩) ∧
    (created.append .success clock draft).1 = .ok (1, ⟨eventDigest⟩) ∧
    (grown.checkpoint .success 0).1 = .ok checkpointEnvelope ∧
    start.event clock (Ledger.genesis "n") = genesisEvent ∧
    created.event clock draft = secondEvent ∧
    grown.nextCheckpoint 0 = checkpoint ∧
    start.eventEnvelope clock (Ledger.genesis "n") = genesisEnvelope ∧
    created.eventEnvelope clock draft = eventEnvelope ∧
    created.key = device ∧
    sealed.poisoned = false ∧
    (sealed.logs .events).data.length = 568 := by
  decide +kernel

theorem lengths : genesisEnvelope.length = 293 ∧ eventEnvelope.length = 259 ∧ checkpointEnvelope.length = 233 := by
  decide +kernel

theorem created_ok : (start.append .success clock (Ledger.genesis "n")).1 = .ok (0, ⟨genesisDigest⟩) :=
  recorded.1

theorem grown_ok : (created.append .success clock draft).1 = .ok (1, ⟨eventDigest⟩) :=
  recorded.2.1

theorem sealed_ok : (grown.checkpoint .success 0).1 = .ok checkpointEnvelope :=
  recorded.2.2.1

theorem framable_genesis : Framable genesisEnvelope := by
  obtain ⟨h, _⟩ := lengths
  exact ⟨by omega, by rw [h]; decide⟩

theorem framable_event : Framable eventEnvelope := by
  obtain ⟨_, h, _⟩ := lengths
  exact ⟨by omega, by rw [h]; decide⟩

theorem framable_checkpoint : Framable checkpointEnvelope := by
  obtain ⟨_, _, h⟩ := lengths
  exact ⟨by omega, by rw [h]; decide⟩

theorem eq_of_fst {p : α × β} (h : p.1 = a) : p = (a, p.2) :=
  Prod.ext h rfl

theorem create_eq : (Ledger.create .new .success clock "n" device boot).1 = .ok created := by
  have h : (Ledger.fresh .new "n" device boot).append .success clock (Ledger.genesis "n") =
      (.ok (0, ⟨genesisDigest⟩), created) := eq_of_fst created_ok
  have hr : Dir.new.readAll .events = [] := rfl
  rw [Ledger.create, if_neg (not_not.mpr hr), h]

def createdJournal : Journal :=
  Journal.new.append (start.event clock (Ledger.genesis "n")) (start.eventEnvelope clock (Ledger.genesis "n"))

def grownJournal : Journal :=
  createdJournal.append (created.event clock draft) (created.eventEnvelope clock draft)

def journal : Journal :=
  grownJournal.commit (grown.nextCheckpoint 0) checkpointEnvelope

theorem run_created : Ledger.Run "n" trusted created createdJournal := by
  obtain ⟨_, _, _, _, _, _, he, _⟩ := recorded
  exact .create deviceKey rfl (he ▸ framable_genesis.le) create_eq

theorem step_grown : Ledger.Step "n" trusted (created, createdJournal) (grown, grownJournal) := by
  obtain ⟨_, _, _, _, _, _, _, he, _⟩ := recorded
  exact .append (by decide) (he ▸ framable_event.le) (eq_of_fst grown_ok)

theorem run_sealed : Ledger.Run "n" trusted sealed journal :=
  (run_created.step step_grown).step (.checkpoint (eq_of_fst sealed_ok))

theorem events_grown : grownJournal.events.map Prod.fst = [genesisEvent, secondEvent] := by
  obtain ⟨_, _, _, h₁, h₂, _⟩ := recorded
  change [start.event clock (Ledger.genesis "n"), created.event clock draft] = _
  rw [h₁, h₂]

-- What is left of the ledger when its events are removed and its checkpoint is not.
def leftover : Dir where
  logs | .events => none | .checkpoints => some (sealed.logs .checkpoints)
  torn _ _       := none

-- An event with a detail of 2 ^ 20 bytes. The ledger takes it, although no reader does.
def oversized : EventDraft :=
  .new "a" .boot (String.ofList (List.replicate (2 ^ 20) 'x'))

theorem length_oversized : (utf8 oversized.detail).length = 2 ^ 20 := by
  have h : ∀ n, (utf8 (String.ofList (List.replicate n 'x'))).length = n := by
    intro n
    induction n
    case zero => rfl
    case succ n ih =>
      rw [List.replicate_succ, String.ofList_cons, utf8_append, List.length_append, ih]
      exact Nat.add_comm 1 n
  exact h (2 ^ 20)

theorem append_oversized : ∃ l r,
    sealed.append .success clock oversized = (.ok r, l) ∧ ∃ reason,
      splitFrames (l.dir.readAll .events) = .error (.corrupt 2 reason) := by
  obtain ⟨_, _, _, _, _, _, _, _, _, hp, hk⟩ := recorded
  have hd := run_sealed.sound.data .events
  have hl : (sealed.eventEnvelope clock oversized).length ≤ 2 ^ 21 ∧
      MAX_FRAME < (sealed.eventEnvelope clock oversized).length := by
    have h := @Ledger.length_eventEnvelope_new _ sealed clock "a" oversized.detail .boot
    have ha : (utf8 "a").length = 1 := rfl
    rw [length_oversized, ha] at h
    exact ⟨h.right.trans (by decide), h.left.trans_lt' (by decide)⟩
  have hs : ((sealed.logs .events).data ++ frame (sealed.eventEnvelope clock oversized)).length < 2 ^ 63 := by
    rw [List.length_append, length_frame, hk, HEADER]
    omega
  obtain ⟨r, l, ha⟩ := @Ledger.append_success _ sealed clock oversized hp hs
  obtain ⟨f, hf, he⟩ := Ledger.append_ok ha
  obtain ⟨reason, hr⟩ := splitFrames_oversize (run_sealed.sound.framable .events) hl.right (hl.left.trans_lt (by decide))
  refine ⟨l, r, ha, reason, ?_⟩
  have hread : l.dir.readAll .events = framed (journal.envelopes .events) ++ frame (sealed.eventEnvelope clock oversized) := by
    rw [he, ← hd, ← hf]
    rfl
  rw [hread, hr]
  rfl

end Recorded
