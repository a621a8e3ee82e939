import JlrModel.Ledger.Theorems.Recover
import JlrModel.Ledger.Trust

open Cbor

theorem append_fixed_inj {a b c d : Bytes.Fixed n} (h : a.val ++ b.val = c.val ++ d.val) : a = c ∧ b = d := by
  have ⟨ha, hb⟩ := List.append_inj h (a.property.trans c.property.symm)
  exact ⟨Subtype.ext ha, Subtype.ext hb⟩

section

variable [Crypto] {S : Set Bytes} {envs envs' : List Bytes}

theorem nodeHash_injOn (inj : Set.InjOn Crypto.sha256 S) :
    Set.InjOn (fun p : Digest × Digest => Merkle.Hash.node p.1 p.2)
      { p | 0x01 :: (p.1.bytes.val ++ p.2.bytes.val) ∈ S } := by
  intro p hp q hq h
  have hi := inj hp hq (congrArg Digest.bytes h)
  have ⟨hl, hr⟩ := append_fixed_inj (List.cons.inj hi).right
  exact Prod.ext (congrArg Digest.mk hl) (congrArg Digest.mk hr)

theorem leafHashes_inj (inj : Set.InjOn Crypto.sha256 S) (hs : ∀ env ∈ envs, 0x00 :: env ∈ S)
    (hs' : ∀ env ∈ envs', 0x00 :: env ∈ S) (h : envs.map leafHash = envs'.map leafHash) : envs = envs' := by
  induction envs generalizing envs'
  case nil => exact (List.map_eq_nil_iff.mp h.symm).symm
  case cons env envs ih =>
    cases envs'
    case nil => contradiction
    case cons env' envs' =>
      have ⟨he, ht⟩ := List.cons.inj h
      have hi := inj (hs env List.mem_cons_self) (hs' env' List.mem_cons_self) (congrArg Digest.bytes he)
      rw [(List.cons.inj hi).right]
      congr 1
      exact ih (fun e h => hs e (List.mem_cons_of_mem _ h)) (fun e h => hs' e (List.mem_cons_of_mem _ h)) ht

theorem leaf_mem_rootInputs (h : env ∈ envs) : 0x00 :: env ∈ rootInputs envs :=
  List.mem_append_left _ (List.mem_map_of_mem h)

theorem node_mem_rootInputs (h : p ∈ Merkle.nodes (envs.map leafHash)) :
    0x01 :: (p.1.bytes.val ++ p.2.bytes.val) ∈ rootInputs envs :=
  List.mem_append_right _ (List.mem_map.mpr ⟨p, h, rfl⟩)

-- Without a collision, a root commits to the envelopes byte for byte.
theorem envs_eq_of_root (inj : Set.InjOn Crypto.sha256 S) (hs : ∀ b ∈ rootInputs envs, b ∈ S)
    (hs' : ∀ b ∈ rootInputs envs', b ∈ S) (hl : envs.length = envs'.length)
    (h : Merkle.rootOf (envs.map leafHash) = Merkle.rootOf (envs'.map leafHash)) : envs = envs' := by
  apply leafHashes_inj inj
  · exact fun e he => hs _ (leaf_mem_rootInputs he)
  · exact fun e he => hs' _ (leaf_mem_rootInputs he)
  · apply Merkle.rootOf_inj (nodeHash_injOn inj)
    · simpa using hl
    · exact fun p hp => hs _ (node_mem_rootInputs hp)
    · exact fun p hp => hs' _ (node_mem_rootInputs hp)
    · exact h

theorem rootInputs_subset_treeInputs (h : b ∈ rootInputs envs) : b ∈ treeInputs envs :=
  ⟨envs.length, by rwa [List.take_length]⟩

-- A tree that had the root of these envelopes when it was as large as they are begins with them.
theorem take_eq_of_rootAt (inj : Set.InjOn Crypto.sha256 S) (hs : treeInputs envs ⊆ S) (hs' : treeInputs envs' ⊆ S)
    (h : (Merkle.Tree.of (envs'.map leafHash)).rootAt envs.length = some (Merkle.rootOf (envs.map leafHash))) :
    envs'.take envs.length = envs := by
  rw [Merkle.Tree.rootAt_of] at h
  split_ifs at h with hle
  have h := Option.some.inj h
  rw [List.length_map] at hle
  rw [← List.map_take] at h
  apply envs_eq_of_root inj
  · exact fun b hb => hs' ⟨_, hb⟩
  · exact fun b hb => hs (rootInputs_subset_treeInputs hb)
  · rw [List.length_take]
    omega
  · exact h

end

namespace Ledger

variable [Crypto] {w : World} {node : String} {anchors : TrustAnchors} {seals : Set Seal}
variable {l l' : Ledger} {envs frames cpFrames : List Bytes}

-- What a checkpoint says about the events that the ledger held.
structure Genuine (w : World) (node : String) (anchors : TrustAnchors) (s : Seal) : Prop where
  short    : s.events.length < 2 ^ 63
  size     : s.checkpoint.size = .ofNat s.events.length
  root     : s.checkpoint.root = Merkle.rootOf (s.events.map leafHash)
  hashed   : treeInputs s.events ⊆ w.hashed
  verified : DeviceAnchor anchors s.key → ∀ env ∈ s.events, Verified node anchors env

-- The checkpoint of a frame that is accepted is the one that was signed.
theorem Commits.checkpoint_eq {tree : Merkle.Tree Digest} {cp cp' : Checkpoint}
    (c : Commits node anchors tree last env cp)
    (hv : Envelope.verify env RecordType.CHECKPOINT node anchors [.device] = .ok v)
    (hp : v.payload = toCbor cp') : cp = cp' := by
  have ⟨payload, hu, hd⟩ := c.holds
  cases (Envelope.verify_ok_payload hv).left.symm.trans hu
  have ⟨_, _, a⟩ := Envelope.verify_ok_iff.mp hv
  have hl := a.payload
  rw [hp] at hd hl
  have hd' := fromCbor_toCbor (RecordType.levels_le .checkpoint)
    (RecordType.valid_of_capabilities (t := .checkpoint) fun _ h => nomatch h) hl
  exact Except.ok.inj (hd.symm.trans hd')

-- The frames that a genuine checkpoint covers are the events that it was made for.
theorem Commits.take_eq {s : Seal} (c : Commits node anchors (.of (frames.map leafHash)) last env s.checkpoint)
    (g : Genuine w node anchors s) (hash : Set.InjOn Crypto.sha256 w.hashed) (hf : treeInputs frames ⊆ w.hashed) :
    frames.take s.checkpoint.size.toNat = s.events := by
  have hn : s.checkpoint.size.toNat = s.events.length := by rw [g.size, toNat_ofNat_lt g.short]
  have hr := c.root
  rw [hn, g.root] at hr
  rw [hn]
  exact take_eq_of_rootAt hash g.hashed hf hr

-- If the checkpoints are genuine, the events that were not verified would have been accepted, too.
theorem Replays.verified_all (r : Replays node anchors false frames cpFrames rest cpRest evs cps)
    (hash : Set.InjOn Crypto.sha256 w.hashed) (hf : treeInputs frames ⊆ w.hashed)
    (hs : ∀ s ∈ seals, Genuine w node anchors s) (ha : Authentic node anchors seals cpFrames) :
    ∀ env ∈ frames, Verified node anchors env := by
  intro env hm
  cases hl : cps.getLast?
  case none =>
    apply r.verified
    simpa [trustedPrefix, hl] using hm
  case some cp =>
    have ⟨cpEnv, hc, last, c⟩ := r.commits.commits (List.mem_of_getLast? hl)
    have ⟨v, hv⟩ := c.signed
    have ⟨s, hs', hk, hp⟩ := ha cpEnv hc v hv
    cases c.checkpoint_eq hv hp
    have ht := c.take_eq (hs s hs') hash hf
    rw [← List.take_append_drop s.checkpoint.size.toNat frames] at hm
    cases List.mem_append.mp hm
    case inl hm => exact (hs s hs').verified hk env (ht ▸ hm)
    case inr hm =>
      apply r.verified
      simpa [trustedPrefix, hl] using hm

theorem append_unpoisoned (h : l.append io clock d = (.ok r, l')) : l.poisoned = false := by
  have o := l.append_outcome io clock d
  rw [h] at o
  cases o
  case written hp _ => exact hp

theorem append_failed (h : l.append io clock d = (.error e, l')) :
    l' = l ∨ ∃ f, l' = { l.setLog .events f with poisoned := true } := by
  have o := l.append_outcome io clock d
  rw [h] at o
  cases o
  case restored => exact .inl rfl
  case poisoned f _ _ _ => exact .inr ⟨f, rfl⟩

-- What the ledger says about its events.
structure Describes (l : Ledger) (node : String) (envs : List Bytes) : Prop where
  node_eq : l.node = node
  tree    : l.tree = .of (envs.map leafHash)
  short   : envs.length < 2 ^ 63
  data    : l.poisoned = false → (l.logs .events).data = framed envs

namespace Describes

-- A ledger that has the same events, as far as it can tell.
theorem congr (d : Describes l node envs) (hn : l'.node = l.node) (ht : l'.tree = l.tree)
    (hp : l'.poisoned = false → l.poisoned = false ∧ (l'.logs .events).data = (l.logs .events).data) :
    Describes l' node envs where
  node_eq := hn.trans d.node_eq
  tree    := ht.trans d.tree
  short   := d.short
  data h  := (hp h).right.trans (d.data (hp h).left)

theorem append {draft : EventDraft} (d : Describes l node envs) (h : l.append io clock draft = (.ok r, l')) :
    Describes l' node (envs ++ [l.eventEnvelope clock draft]) := by
  have ⟨f, hd, hl⟩ := append_ok h
  have hf : f.data = framed (envs ++ [l.eventEnvelope clock draft]) := by
    rw [hd, d.data (append_unpoisoned h), framed_append, framed_cons, framed_nil, List.append_nil]
  subst hl
  exact {
    node_eq := d.node_eq
    tree    := by
      simp only [grown, List.map_append, List.map_cons, List.map_nil, Merkle.Tree.of_concat, ← d.tree]
    short   := length_le_framed.trans_lt (hf ▸ f.size_lt)
    data _  := by
      simp only [grown, setLog, Function.update_self]
      exact hf
  }

theorem appendFailed {draft : EventDraft} (d : Describes l node envs) (h : l.append io clock draft = (.error e, l')) :
    Describes l' node envs := by
  cases append_failed h
  case inl h => exact h ▸ d
  case inr h =>
    have ⟨f, h⟩ := h
    subst h
    exact d.congr rfl rfl nofun

theorem checkpoint (d : Describes l node envs) (h : l.checkpoint io now = (r, l')) : Describes l' node envs := by
  have o := l.checkpoint_outcome io now
  have hne : Log.events ≠ .checkpoints := by decide
  rw [h] at o
  cases o
  case written hp _ => exact d.congr rfl rfl fun _ => ⟨hp, by simp only [committed, setLog, Function.update_of_ne hne]⟩
  case restored => exact d
  case poisoned => exact d.congr rfl rfl fun hp => absurd hp Bool.false_ne_true.symm

end Describes

theorem verify_of_signs {recordType scope : String} {key : SigningKeypair} (ideal : w.Ideal)
    (h : w.Signs recordType scope payload key) (hk : DeviceAnchor anchors key) :
    ∃ v, Envelope.verify (Envelope.sign recordType scope payload key) recordType scope anchors [.device] =
      .ok v := by
  have ⟨_, hc⟩ := h
  have ⟨pub, hg, hb, hr⟩ := hk
  have hr : pub.role ∈ [Role.device] := List.mem_singleton.mpr hr
  have ⟨v, hv, _⟩ := Envelope.SignCall.verify_ok ideal.signatures hc hg hb hr
  exact ⟨v, hv⟩

theorem verified_of_signs {draft : EventDraft} (ideal : w.Ideal)
    (h : w.Signs RecordType.EVENT l.node (toCbor (l.event clock draft)) l.key)
    (hk : DeviceAnchor anchors l.key) : Verified l.node anchors (l.eventEnvelope clock draft) :=
  verify_of_signs ideal h hk

theorem describes_fresh {dir : Dir} {key : SigningKeypair} {bootId : Bytes.Fixed 16}
    (h : dir.readAll .events = []) : Describes (fresh dir node key bootId) node [] where
  node_eq := rfl
  tree    := rfl
  short   := by decide
  data _  := data_getD.trans h

theorem key_append {draft : EventDraft} (h : l.append io clock draft = (.ok r, l')) : l'.key = l.key := by
  have ⟨_, _, hl⟩ := append_ok h
  exact (congrArg Ledger.key hl).trans rfl

theorem key_appendFailed {draft : EventDraft} (h : l.append io clock draft = (.error e, l')) : l'.key = l.key := by
  cases append_failed h
  case inl h => rw [h]
  case inr h =>
    have ⟨_, h⟩ := h
    exact (congrArg Ledger.key h).trans rfl

theorem key_checkpoint (h : l.checkpoint io now = (r, l')) : l'.key = l.key := by
  have o := l.checkpoint_outcome io now
  rw [h] at o
  cases o <;> rfl

-- The frames of a directory that is opened, and what the ledger says about them.
theorem opens_describes {dir : Dir} {key : SigningKeypair} {bootId : Bytes.Fixed 16}
    (h : (openWithEvents dir node key anchors bootId).2 = .ok (l, report, evs))
    (hs : splitFrames (dir.readAll .events) = .ok (envs, len, tornLen))
    (hc : splitFrames (dir.readAll .checkpoints) = .ok (cpFrames, cpLen, cpTornLen)) :
    Describes l node envs ∧ ∃ rest cpRest cps, Replays node anchors false envs cpFrames rest cpRest evs cps := by
  obtain ⟨r, ops, hr, hn, ho, hl, _, he⟩ := openWithEvents_ok h
  obtain ⟨frames, rest, frames', rest', hd, hd', hp, her⟩ := replay_ok_iff.mp hr
  obtain ⟨tail, hs, hf, hi, _⟩ := splitFrames_ok_iff.mp hs
  obtain ⟨tail', hc, hf', hi', _⟩ := splitFrames_ok_iff.mp hc
  obtain ⟨h₁, h₂⟩ := framed_inj hp.framable hp.incomplete hf hi (hd.symm.trans hs)
  obtain ⟨h₁', h₂'⟩ := framed_inj hp.cpFramable hp.cpIncomplete hf' hi' (hd'.symm.trans hc)
  subst h₁ h₂ h₁' h₂' he
  refine ⟨?_, rest, rest', r.checkpoints, hp⟩
  let valid : Log → List Bytes := Log.pick frames frames'
  let tail : Log → Bytes := Log.pick rest rest'
  have hsplit : Split dir (fun log => framed (valid log)) tail r := by
    rw [her]
    refine split_replayed fun log => ?_
    cases log
    case events      => exact hd
    case checkpoints => exact hd'
  have hk : (repairs dir r).2 = .ok () := by rw [ho]
  have hrec : Recovered dir valid tail (opened (dir.applyAll (repairs dir r).1) r node key bootId) :=
    recovered_opened hsplit hk
  rw [ho] at hrec
  subst hl
  exact {
    node_eq := rfl
    tree    := by rw [her]; rfl
    short   := length_le_framed.trans_lt (hrec.logs .events ▸ File.size_lt _)
    data _  := hrec.logs .events
  }

theorem Holding.describes (r : Holding node l envs) : Describes l node envs := by
  induction r
  case create h =>
    have ⟨he, _, ha⟩ := create_ok h
    exact (describes_fresh he).append ha
  case append h d => exact d.append h
  case appendFailed h d => exact d.appendFailed h
  case checkpoint h d => exact d.checkpoint h
  case setSync d => exact d.congr rfl rfl fun h => ⟨h, rfl⟩
  case reopen hs hc h => exact (opens_describes h hs hc).left

namespace Writer

theorem holding (r : Writer w node anchors seals l envs) : Holding node l envs := by
  induction r
  case create h => exact .create h
  case append h ih => exact .append ih h
  case appendFailed h ih => exact .appendFailed ih h
  case checkpoint h ih => exact .checkpoint ih h
  case setSync ih => exact .setSync ih
  case reopen hs _ hc _ h => exact .reopen hs hc h

theorem describes (r : Writer w node anchors seals l envs) : Describes l node envs :=
  r.holding.describes

-- All events of a ledger are verified, if its key is trusted. Its own events are signed with its key,
-- and those that it has found were verified or are covered by a genuine checkpoint.
theorem verified (r : Writer w node anchors seals l envs) (ideal : w.Ideal)
    (hs : ∀ s ∈ seals, Genuine w node anchors s) (hk : DeviceAnchor anchors l.key) :
    ∀ env ∈ envs, Verified node anchors env := by
  induction r
  case create hg h =>
    have ⟨_, _, ha⟩ := create_ok h
    intro env he
    rw [List.mem_singleton.mp he]
    exact verified_of_signs ideal hg (key_append ha ▸ hk)
  case append r h ha ih =>
    intro env he
    have hk := key_append ha ▸ hk
    cases List.mem_append.mp he
    case inl he => exact ih hk env he
    case inr he =>
      rw [List.mem_singleton.mp he]
      exact r.describes.node_eq ▸ verified_of_signs ideal h hk
  case appendFailed h ih => exact ih (key_appendFailed h ▸ hk)
  case checkpoint h ih => exact ih (key_checkpoint h ▸ hk)
  case setSync ih => exact ih hk
  case reopen hs' hh hc ha h =>
    have ⟨_, _, _, _, hr⟩ := opens_describes h hs' hc
    exact hr.verified_all ideal.hashes hh hs ha

end Writer

theorem genuine_of_mem (ideal : w.Ideal) {s : Seal} (h : s ∈ Seals w node anchors n) :
    Genuine w node anchors s := by
  induction n generalizing s
  case zero => contradiction
  case succ n ih =>
    have ⟨hh, l, now, r, hk, hc⟩ := h
    have d := r.describes
    exact {
      short    := d.short
      size     := by rw [hc, nextCheckpoint, d.tree, Merkle.Tree.size_of, List.length_map]
      root     := by rw [hc, nextCheckpoint, d.tree, Merkle.Tree.root_of]
      hashed   := hh
      verified := fun hd => r.verified ideal (fun _ => ih) (hk ▸ hd)
    }

-- The checkpoints that are accepted have been signed by a run of the ledger.
theorem authentic_of_calls (ideal : w.Ideal)
    (hs : ∀ c ∈ w.calls, c.recordType = RecordType.CHECKPOINT → c.scope = node → DeviceAnchor anchors c.key →
      ∃ n, ∃ s ∈ Seals w node anchors n, c.key = s.key ∧ c.payload = toCbor s.checkpoint) :
    Authentic node anchors { s | ∃ n, s ∈ Seals w node anchors n } envs := by
  intro env _ v hv
  have ⟨key, _, a⟩ := Envelope.verify_ok_iff.mp hv
  have ⟨c, hc, hb, hi, ht, hn, hp⟩ := a.call ideal.signatures
  have hd : DeviceAnchor anchors c.key := ⟨key, hi ▸ a.anchored, hb.symm, List.mem_singleton.mp a.role⟩
  have ⟨n, s, hm, hk, hp'⟩ := hs c hc ht hn hd
  exact ⟨s, ⟨n, hm⟩, hk ▸ hd, hp.symm.trans hp'⟩

-- Trusting the events below the newest checkpoint changes nothing: what is verified in full is accepted
-- in part, and if all checkpoints were made by runs of this ledger, the other way round.
theorem replay_fast_agrees (node : String) (anchors : TrustAnchors) :
    (∀ cpData eventsData r, replay node anchors true cpData eventsData = .ok r →
      replay node anchors false cpData eventsData = .ok r) ∧
    (∀ w : World, w.Ideal →
      (∀ c ∈ w.calls, c.recordType = RecordType.CHECKPOINT → c.scope = node → DeviceAnchor anchors c.key →
        ∃ n, ∃ s ∈ Seals w node anchors n, c.key = s.key ∧ c.payload = toCbor s.checkpoint) →
      ∀ cpData eventsData r,
        (∀ envs len tornLen, splitFrames eventsData = .ok (envs, len, tornLen) → treeInputs envs ⊆ w.hashed) →
        replay node anchors false cpData eventsData = .ok r →
        replay node anchors true cpData eventsData = .ok r) := by
  constructor
  case left => exact fun _ _ _ => replay_fast_of_full
  case right =>
    intro w ideal hs cpData eventsData r hh h
    have ⟨frames, rest, cpFrames, cpRest, hd, hc, hr, he⟩ := replay_ok_iff.mp h
    have hf := hh frames _ _ (splitFrames_ok_iff.mpr ⟨rest, hd, hr.framable, hr.incomplete, rfl, rfl⟩)
    have hg : ∀ s ∈ { s | ∃ n, s ∈ Seals w node anchors n }, Genuine w node anchors s :=
      fun _ ⟨_, h⟩ => genuine_of_mem ideal h
    have hv := hr.verified_all ideal.hashes hf hg (authentic_of_calls ideal hs)
    refine replay_ok_iff.mpr ⟨frames, rest, cpFrames, cpRest, hd, hc, ?_, he⟩
    exact { hr with verified := fun env h => hv env (List.mem_of_mem_drop h) }

end Ledger

-- The strings that are hashed for two envelopes.
theorem mem_treeInputs_pair [Crypto] {x y b : Bytes} (h : b ∈ treeInputs [x, y]) :
    b = 0x00 :: x ∨ b = 0x00 :: y ∨ b = 0x01 :: ((leafHash x).bytes.val ++ (leafHash y).bytes.val) := by
  obtain ⟨_ | _ | n, h⟩ := h
  · simp [rootInputs, Merkle.nodes] at h
  · simp only [List.take_succ_cons, List.take_zero, rootInputs, Merkle.nodes, List.map_cons, List.map_nil,
      List.append_nil, List.mem_singleton] at h
    exact .inl h
  · simpa [rootInputs, Merkle.nodes_pair, or_assoc] using h

theorem injOn_treeInputs_pair [Crypto] {x y : Bytes} (hl : leafHash x ≠ leafHash y)
    (hx : leafHash x ≠ Merkle.Hash.node (leafHash x) (leafHash y))
    (hy : leafHash y ≠ Merkle.Hash.node (leafHash x) (leafHash y)) :
    Set.InjOn Crypto.sha256 (treeInputs [x, y]) := by
  have ne {a b : Bytes} (h : (⟨Crypto.sha256 a⟩ : Digest) ≠ ⟨Crypto.sha256 b⟩) : Crypto.sha256 a ≠ Crypto.sha256 b :=
    fun he => h (congrArg Digest.mk he)
  intro a ha b hb h
  obtain rfl | rfl | rfl := mem_treeInputs_pair ha <;> obtain rfl | rfl | rfl := mem_treeInputs_pair hb
  · rfl
  · exact absurd h (ne hl)
  · exact absurd h (ne hx)
  · exact absurd h.symm (ne hl)
  · rfl
  · exact absurd h (ne hy)
  · exact absurd h.symm (ne hx)
  · exact absurd h.symm (ne hy)
  · rfl

namespace Recorded

attribute [local instance] crypto

def envelopes : List Bytes :=
  [genesisEnvelope, eventEnvelope]

theorem hashes : leafHash genesisEnvelope ≠ leafHash eventEnvelope ∧
    leafHash genesisEnvelope ≠ Merkle.Hash.node (leafHash genesisEnvelope) (leafHash eventEnvelope) ∧
    leafHash eventEnvelope ≠ Merkle.Hash.node (leafHash genesisEnvelope) (leafHash eventEnvelope) := by
  decide +kernel

theorem hashes_injOn : Set.InjOn Crypto.sha256 (treeInputs envelopes) :=
  injOn_treeInputs_pair hashes.1 hashes.2.1 hashes.2.2

end Recorded

-- The recorded ledger, with signatures that are accepted only for what was signed.
namespace Recorded.Strict

abbrev strict : Crypto :=
  { crypto with verifyStrict := fun k m s => k = key ∧ (m, s) ∈ signatures }

section

variable {l : Ledger} {io : Io} {c : Clock} {d : EventDraft}

theorem append_eq : @Ledger.append strict l io c d = @Ledger.append crypto l io c d :=
  rfl

theorem eventEnvelope_eq : @Ledger.eventEnvelope strict l c d = @Ledger.eventEnvelope crypto l c d :=
  rfl

theorem nextCheckpoint_eq {now : UInt64} :
    @Ledger.nextCheckpoint strict l now = @Ledger.nextCheckpoint crypto l now :=
  rfl

theorem treeInputs_eq : @treeInputs strict = @treeInputs crypto :=
  rfl

theorem create_eq' {dir : Dir} {node : String} {key : SigningKeypair} {bootId : Bytes.Fixed 16} :
    @Ledger.create strict dir io c node key bootId = @Ledger.create crypto dir io c node key bootId :=
  rfl

end

attribute [local instance] strict

def anchors : TrustAnchors :=
  TrustAnchors.new.insert device.pub

theorem message_lt : (Envelope.message RecordType.EVENT "n" device.pub.id (toCbor genesisEvent)).length < 2 ^ 64 ∧
    (Envelope.message RecordType.EVENT "n" device.pub.id (toCbor secondEvent)).length < 2 ^ 64 ∧
    (Envelope.message RecordType.CHECKPOINT "n" device.pub.id (toCbor checkpoint)).length < 2 ^ 64 := by
  decide +kernel

def genesisCall : Envelope.SignCall :=
  ⟨RecordType.EVENT, "n", toCbor genesisEvent, device, message_lt.1⟩

def eventCall : Envelope.SignCall :=
  ⟨RecordType.EVENT, "n", toCbor secondEvent, device, message_lt.2.1⟩

def checkpointCall : Envelope.SignCall :=
  ⟨RecordType.CHECKPOINT, "n", toCbor checkpoint, device, message_lt.2.2⟩

def calls : List Envelope.SignCall :=
  [genesisCall, eventCall, checkpointCall]

theorem calls_signed : calls.map Envelope.SignCall.message = signatures.map Prod.fst ∧
    (signatures.map Prod.snd).Nodup ∧
    ∀ c ∈ calls, c.key.pub.bytes = key ∧ (c.message, c.key.sign c.message) ∈ signatures := by
  decide +kernel

theorem ideal_calls : Envelope.Ideal { c | c ∈ calls } where
  complete c hc := by
    have ⟨hk, hm⟩ := calls_signed.2.2 c hc
    exact Envelope.verifySignature_ok_iff.mpr ⟨rfl, decide_eq_true ⟨hk, hm⟩⟩
  sound {pk m s} h := by
    have ⟨hk, hm⟩ := of_decide_eq_true h
    have hm : m ∈ signatures.map Prod.fst := List.mem_map.mpr ⟨(m, s), hm, rfl⟩
    rw [← calls_signed.1] at hm
    have ⟨c, hc, hm⟩ := List.mem_map.mp hm
    exact ⟨c, hc, (calls_signed.2.2 c hc).left.trans hk.symm, hm⟩
  binding h h' := by
    have ⟨_, hm⟩ := of_decide_eq_true h
    have ⟨_, hm'⟩ := of_decide_eq_true h'
    exact congrArg Prod.fst (List.inj_on_of_nodup_map calls_signed.2.1 hm hm' rfl)

theorem strict_hashes_injOn : Set.InjOn Crypto.sha256 (treeInputs envelopes) := by
  rw [treeInputs_eq]
  exact hashes_injOn

def world : World where
  calls  := { c | c ∈ calls }
  hashed := treeInputs envelopes

theorem writer : Ledger.Writer world "n" anchors ∅ grown envelopes := by
  obtain ⟨_, _, _, hg, hs, _, hge, hse, hk, _⟩ := recorded
  have h₁ : world.Signs RecordType.EVENT "n" (toCbor (start.event clock (Ledger.genesis "n"))) device := by
    rw [hg]
    exact ⟨message_lt.1, List.mem_cons_self⟩
  have w₁ : Ledger.Writer world "n" anchors ∅ created [start.eventEnvelope clock (Ledger.genesis "n")] :=
    .create h₁ ((congrArg Prod.fst create_eq').trans create_eq)
  have h₂ : world.Signs RecordType.EVENT created.node (toCbor (created.event clock draft)) created.key := by
    rw [w₁.describes.node_eq, hs, hk]
    exact ⟨message_lt.2.1, List.mem_cons_of_mem _ List.mem_cons_self⟩
  have w₂ := w₁.append h₂ (append_eq.trans (eq_of_fst grown_ok))
  rw [eventEnvelope_eq, eventEnvelope_eq, hge, hse] at w₂
  exact w₂

theorem sealed_mem : ⟨device, checkpoint, envelopes⟩ ∈ Ledger.Seals world "n" anchors 1 := by
  obtain ⟨_, _, _, _, _, hc, _, _, hk, _⟩ := recorded
  have ha : created.append .success clock draft = (.ok (1, ⟨eventDigest⟩), grown) := append_eq.trans (eq_of_fst grown_ok)
  have hg : grown.key = device := (Ledger.key_append ha).trans hk
  exact ⟨subset_rfl, grown, 0, writer, hg.symm, hc.symm.trans nextCheckpoint_eq.symm⟩

theorem replayed_parts :
    Ledger.replayCheckpoints "n" anchors (.of (envelopes.map leafHash)) 0 none [checkpointEnvelope] = .ok [checkpoint] ∧
    (Ledger.replayEvents "n" anchors (Ledger.trustedPrefix false [checkpoint]) 0 Digest.ZERO envelopes).toOption.isSome := by
  decide +kernel

theorem replay_fast_agrees_recorded : ∃ r,
    Ledger.replay "n" anchors false (framed [checkpointEnvelope]) (framed envelopes) = .ok r ∧
    Ledger.replay "n" anchors true (framed [checkpointEnvelope]) (framed envelopes) = .ok r := by
  have hs : splitFrames (framed envelopes) = .ok (envelopes, (framed envelopes).length, 0) :=
    splitFrames_framed (List.forall_mem_cons.mpr ⟨framable_genesis, List.forall_mem_singleton.mpr framable_event⟩)
  have hc := splitFrames_framed (List.forall_mem_singleton.mpr framable_checkpoint)
  have ⟨r, hr⟩ := Ledger.replay_of_parts hs hc replayed_parts.1 replayed_parts.2
  have ⟨fast, full⟩ := Ledger.replay_fast_agrees "n" anchors
  have h := full world ⟨ideal_calls, strict_hashes_injOn⟩ ?_ _ _ r ?_ hr
  · exact ⟨r, fast _ _ r h, h⟩
  · intro c hm ht _ _
    refine ⟨1, _, sealed_mem, ?_⟩
    have hm : c ∈ calls := hm
    simp only [calls, List.mem_cons, List.not_mem_nil, or_false] at hm
    obtain rfl | rfl | rfl := hm
    · exact absurd ht (by decide)
    · exact absurd ht (by decide)
    · exact ⟨rfl, rfl⟩
  · intro envs len torn he
    cases hs.symm.trans he
    exact subset_rfl

end Recorded.Strict
