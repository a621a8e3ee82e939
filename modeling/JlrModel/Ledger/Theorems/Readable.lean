import JlrModel.Ledger.Theorems.Trust

-- What a reader makes of an event that a ledger has accepted.

open Cbor

section

variable [Crypto] {recordType scope : String} {payload f e rest : Bytes} {key : SigningKeypair}

-- No envelope is the beginning of a signed one.
theorem Envelope.eq_sign_of_prefix (hl : (Envelope.sign recordType scope payload key).length < 2 ^ 64)
    (hp : f <+: Envelope.sign recordType scope payload key) (hf : Envelope.unverifiedPayload f = some p) :
    f = Envelope.sign recordType scope payload key := by
  have ⟨top, hd, _⟩ := Option.bind_eq_some_iff.mp hf
  have ⟨he, hv⟩ := decode_eq_ok_iff.mp (Except.toOption_eq_some.mp hd)
  have ⟨_, hw⟩ := Parts.read_ok_iff.mp (read_sign hl)
  have ⟨t, ht⟩ := hp
  rw [he, ← List.append_nil (sign _ _ _ _)] at ht
  have ⟨_, ht'⟩ := encode_append_inj hv (Parts.decodable_iff.mpr hw) ht
  rw [ht', List.append_nil, List.append_nil] at ht
  exact he.trans ht

-- The reader takes the frame of an envelope as a whole, or not at all.
def Whole (e : Bytes) : Prop :=
  Framable e ∨ ∀ f p, f <+: e → Envelope.unverifiedPayload f = some p → f = e

-- A frame that is read where one was written is the same, or holds the beginning of its envelope.
theorem prefix_of_frame {rest' : Bytes} (hf : Framable f) (h : frame e ++ rest = frame f ++ rest') :
    f <+: e ∧ (e.length < 2 ^ 32 → f = e) := by
  have hh : UInt32.ofNat e.length = UInt32.ofNat f.length := by
    have ht : (frame f ++ rest').take HEADER = frameHeader (.ofNat e.length) := h ▸ take_frame
    exact (len_of_take ht).symm.trans (len_of_take take_frame)
  have hn : f.length = e.length % 2 ^ 32 := by
    rw [← hf.toNat_length, ← hh]
    rfl
  have hb : e ++ rest = f ++ rest' := by
    rw [frame, frame, hh, List.append_assoc, List.append_assoc] at h
    exact List.append_cancel_left h
  have hp : f <+: e := by
    apply List.prefix_of_prefix_length_le ⟨rest', hb.symm⟩ (List.prefix_append e rest)
    rw [hn]
    exact Nat.mod_le _ _
  refine ⟨hp, fun hl => hp.eq_of_length ?_⟩
  rw [hn, Nat.mod_eq_of_lt hl]

-- What is read is what was written, if every frame that is read holds an envelope.
theorem frames_eq_of_whole {envs frames : List Bytes} (hw : ∀ e ∈ envs, Whole e) (hf : ∀ f ∈ frames, Framable f)
    (ho : ∀ f ∈ frames, ∃ p, Envelope.unverifiedPayload f = some p) (hi : Incomplete rest)
    (h : framed envs = framed frames ++ rest) : envs = frames ∧ rest = [] := by
  induction envs generalizing frames
  case nil =>
    obtain ⟨hn, hr⟩ := List.append_eq_nil_iff.mp h.symm
    cases frames
    case nil => exact ⟨rfl, hr⟩
    case cons f frames =>
      have hl := congrArg List.length hn
      rw [framed_cons, List.length_append, length_frame, HEADER, List.length_nil] at hl
      omega
  case cons e envs ih =>
    cases frames
    case nil =>
      rw [framed_cons, framed_nil, List.nil_append] at h
      exact absurd (h ▸ hi) not_incomplete_of_frame
    case cons f frames =>
      rw [framed_cons, framed_cons, List.append_assoc] at h
      have hm := hf f List.mem_cons_self
      obtain ⟨hp, he⟩ := prefix_of_frame hm h
      have he : f = e := by
        cases hw e List.mem_cons_self
        case inl hw => exact he (hw.le.trans_lt (by decide))
        case inr hw =>
          obtain ⟨p, hp'⟩ := ho f List.mem_cons_self
          exact hw f p hp hp'
      rw [he] at h
      obtain ⟨hs, hr⟩ := ih (fun e h => hw e (List.mem_cons_of_mem _ h)) (fun f h => hf f (List.mem_cons_of_mem _ h))
        (fun f h => ho f (List.mem_cons_of_mem _ h)) (List.append_cancel_left h)
      exact ⟨by rw [he, hs], hr⟩

end

namespace Ledger

variable [Crypto] {node : String} {anchors : TrustAnchors} {l l' : Ledger} {envs : List Bytes}

-- The next event has its place after those that the ledger holds.
structure Numbers (l : Ledger) (envs : List Bytes) : Prop where
  nextSeq : l.nextSeq = .ofNat envs.length
  lastEnv : l.lastEnv = lastDigest Digest.ZERO envs
  whole   : ∀ env ∈ envs, Whole env

namespace Numbers

theorem congr (n : Numbers l envs) (hn : l'.nextSeq = l.nextSeq) (hl : l'.lastEnv = l.lastEnv) : Numbers l' envs where
  nextSeq := hn.trans n.nextSeq
  lastEnv := hl.trans n.lastEnv
  whole   := n.whole

theorem fresh {dir : Dir} {key : SigningKeypair} {bootId : Bytes.Fixed 16} :
    Numbers (fresh dir node key bootId) [] where
  nextSeq := rfl
  lastEnv := rfl
  whole   := nofun

theorem append {draft : EventDraft} (n : Numbers l envs) (h : l.append io clock draft = (.ok r, l')) :
    Numbers l' (envs ++ [l.eventEnvelope clock draft]) := by
  have ⟨f, hd, hl⟩ := append_ok h
  have hlen : (l.eventEnvelope clock draft).length < 2 ^ 64 := by
    have hf := f.size_lt
    rw [hd, List.length_append, length_frame] at hf
    omega
  subst hl
  exact {
    nextSeq := by
      rw [List.length_append, List.length_singleton, uint64_ofNat_succ, ← n.nextSeq]
      rfl
    lastEnv := lastDigest_concat.symm
    whole   := by
      intro env he
      cases List.mem_append.mp he
      case inl he => exact n.whole env he
      case inr he =>
        rw [List.mem_singleton.mp he]
        exact .inr fun f p hp hf => Envelope.eq_sign_of_prefix hlen hp hf
  }

theorem appendFailed {draft : EventDraft} (n : Numbers l envs) (h : l.append io clock draft = (.error e, l')) :
    Numbers l' envs := by
  cases append_failed h
  case inl h => exact h ▸ n
  case inr h =>
    have ⟨f, h⟩ := h
    subst h
    exact n.congr rfl rfl

theorem checkpoint (n : Numbers l envs) (h : l.checkpoint io now = (r, l')) : Numbers l' envs := by
  have o := l.appendChecked_outcome io .checkpoints (frame (l.checkpointEnvelope now))
  simp only [Ledger.checkpoint] at h
  generalize l.appendChecked io .checkpoints (frame (l.checkpointEnvelope now)) = c at o h
  cases o <;> cases h <;> exact n.congr rfl rfl

theorem opened {dir : Dir} {key : SigningKeypair} {bootId : Bytes.Fixed 16}
    (h : (openWithEvents dir node key anchors bootId).2 = .ok (l, report, evs))
    (hs : splitFrames (dir.readAll .events) = .ok (envs, len, tornLen)) : Numbers l envs ∧ envs ≠ [] := by
  obtain ⟨r, ops, hr, hn, _, hl, _⟩ := openWithEvents_ok h
  obtain ⟨frames, rest, _, _, hd, _, hp, her⟩ := replay_ok_iff.mp hr
  obtain ⟨tail, hs, hf, hi, _⟩ := splitFrames_ok_iff.mp hs
  obtain ⟨h₁, _⟩ := framed_inj hp.framable hp.incomplete hf hi (hd.symm.trans hs)
  subst h₁ hl
  have he : r.events = .ofNat frames.length := congrArg Replayed.events her
  have hl : r.lastEnv = lastDigest Digest.ZERO frames := congrArg Replayed.lastEnv her
  refine ⟨⟨he, hl, fun env hm => .inl (hf env hm)⟩, fun h => hn ?_⟩
  rw [he, h]
  rfl

end Numbers

theorem Holding.numbers (h : Holding node l envs) : Numbers l envs ∧ envs ≠ [] := by
  induction h
  case create h =>
    have ⟨_, _, ha⟩ := create_ok h
    exact ⟨Numbers.fresh.append ha, List.cons_ne_nil _ _⟩
  case append h ih => exact ⟨ih.left.append h, by simp⟩
  case appendFailed h ih => exact ⟨ih.left.appendFailed h, ih.right⟩
  case checkpoint h ih => exact ⟨ih.left.checkpoint h, ih.right⟩
  case setSync ih => exact ⟨ih.left.congr rfl rfl, ih.right⟩
  case reopen hs _ h => exact Numbers.opened h hs

theorem Chain.opens (c : Chain i prev envs evs) : ∀ env ∈ envs, ∃ p, Envelope.unverifiedPayload env = some p := by
  induction c
  case nil => exact nofun
  case cons h _ ih =>
    intro env he
    cases List.mem_cons.mp he
    case inl he =>
      have ⟨p, hp, _⟩ := h.holds
      exact ⟨p, he ▸ hp⟩
    case inr he => exact ih env he

-- A replay of what a ledger has written finds its events and nothing else.
theorem Holding.replays {cpData : Bytes} {r : Replayed} (h : Holding node l envs) (hp : l.poisoned = false)
    (hr : replay node anchors full cpData (l.logs .events).data = .ok r) :
    ∃ cpFrames cpRest, cpData = framed cpFrames ++ cpRest ∧
      Replays node anchors full envs cpFrames [] cpRest r.eventsParsed r.checkpoints := by
  have ⟨frames, rest, cpFrames, cpRest, hd, hc, hr, _⟩ := replay_ok_iff.mp hr
  rw [h.describes.data hp] at hd
  have ⟨hf, ht⟩ := frames_eq_of_whole h.numbers.left.whole hr.framable hr.chain.opens hr.incomplete hd
  subst hf ht
  exact ⟨cpFrames, cpRest, hc, hr⟩

-- The events that are trusted are some of those that are there.
theorem Commitments.trustedPrefix_le {cps : List Checkpoint} {cpFrames : List Bytes}
    (c : Commitments node anchors (.of (envs.map leafHash)) none cpFrames cps) :
    trustedPrefix full cps ≤ envs.length := by
  unfold trustedPrefix
  split
  case isTrue => exact Nat.zero_le _
  case isFalse =>
    cases hl : cps.getLast?
    case none => exact Nat.zero_le _
    case some cp =>
      have ⟨_, _, _, hc⟩ := c.commits (List.mem_of_getLast? hl)
      have hr := hc.root
      rw [Merkle.Tree.rootAt_of] at hr
      split_ifs at hr with hle
      simpa using hle

-- The anchors accept what was signed with a key, as that of a device.
def Accepted (anchors : TrustAnchors) (key : SigningKeypair) (message : Bytes) : Prop :=
  ∃ pub, anchors.get key.pub.id = some pub ∧ pub.role = .device ∧
    verifySignature pub message (key.sign message) = .ok ()

theorem verified_sign_iff {payload : Bytes} {key : SigningKeypair}
    (hl : (Envelope.sign RecordType.EVENT node payload key).length < 2 ^ 64) :
    Verified node anchors (Envelope.sign RecordType.EVENT node payload key) ↔
    Accepted anchors key (Envelope.message RecordType.EVENT node key.pub.id payload) := by
  have hr := Envelope.read_sign hl
  have ⟨_, hp⟩ := Envelope.Parts.read_ok_iff.mp hr
  constructor
  case mp =>
    intro ⟨v, hv⟩
    have ⟨pub, signature, a⟩ := Envelope.verify_ok_iff.mp hv
    have he := Except.ok.inj (hr.symm.trans a.read)
    have hk : key.pub.id = v.kid :=
      congrArg Envelope.Header.kid (Envelope.Header.write_inj hp.left (congrArg Envelope.Parts.protect he))
    have hy : payload = v.payload := congrArg Envelope.Parts.payload he
    have hs : key.sign (Envelope.message RecordType.EVENT node key.pub.id payload) = signature :=
      congrArg Envelope.Parts.signature he
    have ha := a.signed
    rw [← hs, ← hk, ← hy] at ha
    exact ⟨pub, hk ▸ a.anchored, List.mem_singleton.mp a.role, ha⟩
  case mpr =>
    intro ⟨pub, hg, hr, hs⟩
    exact ⟨_, Envelope.verify_ok_iff.mpr ⟨_, _, Envelope.accepts_sign hg (List.mem_singleton.mpr hr) hs hp⟩⟩

-- What a ledger has accepted is read back, if its envelope is not longer than a frame may be and the anchors
-- know the key of the ledger.
theorem append_readable_iff (node : String) (anchors : TrustAnchors) (full : Bool) (l l' : Ledger) (envs : List Bytes)
    (io : Io) (clock : Clock) (d : EventDraft) (r : Replayed) (result : UInt64 × Digest)
    (h : Holding node l envs) (hg : d.kind ≠ .genesis)
    (hr : replay node anchors full (l.dir.readAll .checkpoints) (l.dir.readAll .events) = .ok r)
    (ha : l.append io clock d = (.ok result, l')) :
    (∃ r', replay node anchors full (l'.dir.readAll .checkpoints) (l'.dir.readAll .events) = .ok r' ∧
      r'.eventsParsed.getLast? = some (l.event clock d)) ↔
    (l.eventEnvelope clock d).length ≤ MAX_FRAME ∧
    Accepted anchors l.key
      (Envelope.message RecordType.EVENT l.node l.key.pub.id (toCbor (l.event clock d))) := by
  have hp := append_unpoisoned ha
  have ⟨cpFrames, cpRest, hc, hr⟩ := h.replays hp hr
  have h' := h.append ha
  have ⟨f, hd, hl⟩ := append_ok ha
  have hcp : l'.dir.readAll .checkpoints = l.dir.readAll .checkpoints := by rw [hl]; rfl
  have hnode : l.node = node := h.describes.node_eq
  rw [hcp]
  constructor
  case mp =>
    intro ⟨r', hr', _⟩
    have hp' : l'.poisoned = false := hl ▸ hp
    have ⟨cpFrames', cpRest', hc', hr'⟩ := h'.replays hp' hr'
    have hf := hr'.framable _ (List.mem_append_right _ List.mem_cons_self)
    refine ⟨hf.le, ?_⟩
    have ⟨hcf, _⟩ := framed_inj hr.cpFramable hr.cpIncomplete hr'.cpFramable hr'.cpIncomplete (hc.symm.trans hc')
    subst hcf
    have ht : trustedPrefix full r'.checkpoints ≤ envs.length := by
      rw [← hr.commits.unique hr'.commits]
      exact hr.commits.trustedPrefix_le
    have hv := hr'.verified (l.eventEnvelope clock d) (by
      rw [List.drop_append_of_le_length ht]
      exact List.mem_append_right _ List.mem_cons_self)
    rw [← hnode] at hv
    exact (verified_sign_iff (lt_of_fits hf.le)).mp hv
  case mpr =>
    intro ⟨hf, hs⟩
    have hv := (verified_sign_iff (lt_of_fits hf)).mpr hs
    have ⟨hn, hne⟩ := h.numbers
    have hlink : Linked (0 + envs.length) (lastDigest Digest.ZERO envs) (l.eventEnvelope clock d)
        (l.event clock d) := by
      rw [Nat.zero_add]
      exact linked_event hf hn.nextSeq hn.lastEnv
        ⟨fun h => absurd h hg, fun h => absurd (List.length_eq_zero_iff.mp h) hne⟩
    let envs' := envs ++ [l.eventEnvelope clock d]
    let evs' := r.eventsParsed ++ [l.event clock d]
    have hr' : Replays node anchors full envs' cpFrames [] cpRest evs' r.checkpoints := { hr with
      framable := by
        intro env he
        cases List.mem_append.mp he
        case inl he => exact hr.framable env he
        case inr he => exact List.mem_singleton.mp he ▸ framable_sign hf
      commits  := by
        apply hr.commits.grow
        intro n root hroot
        rw [List.map_append]
        exact Merkle.Tree.rootAt_of_append hroot
      chain    := hr.chain.append (.cons hlink .nil)
      verified := by
        intro env he
        rw [List.drop_append_of_le_length hr.commits.trustedPrefix_le] at he
        cases List.mem_append.mp he
        case inl he => exact hr.verified env he
        case inr he => exact List.mem_singleton.mp he ▸ hnode ▸ hv
    }
    have hd' : l'.dir.readAll .events = framed envs' ++ [] := by
      rw [hl, List.append_nil]
      change (Function.update l.logs .events f .events).data = _
      rw [Function.update_self, hd, h.describes.data hp, framed_append, framed_cons, framed_nil,
        List.append_nil]
    refine ⟨replayed envs' cpFrames [] cpRest evs' r.checkpoints, ?_, ?_⟩
    · exact replay_ok_iff.mpr ⟨envs', [], cpFrames, cpRest, hd', hc, hr', rfl⟩
    · exact List.getLast?_concat

end Ledger

namespace Recorded

attribute [local instance] crypto

theorem holding_created : Ledger.Holding "n" created [start.eventEnvelope clock (Ledger.genesis "n")] :=
  .create create_eq

theorem holding_sealed : Ledger.Holding "n" sealed
    ([start.eventEnvelope clock (Ledger.genesis "n")] ++ [created.eventEnvelope clock draft]) :=
  .checkpoint (.append holding_created (eq_of_fst grown_ok)) (eq_of_fst sealed_ok)

-- The ledger has replayed before the event that it accepts, and does not replay after it.
theorem append_unreadable : ∃ envs r l result, Ledger.Holding "n" sealed envs ∧ oversized.kind ≠ .genesis ∧
    Ledger.replay "n" trusted true (sealed.dir.readAll .checkpoints) (sealed.dir.readAll .events) = .ok r ∧
    sealed.append .success clock oversized = (.ok result, l) ∧ ∃ reason,
      Ledger.replay "n" trusted true (l.dir.readAll .checkpoints) (l.dir.readAll .events) =
        .error (.corrupt 2 reason) := by
  have ⟨l, result, hl, reason, hs⟩ := append_oversized
  refine ⟨_, _, l, result, holding_sealed, nofun, run_sealed.sound.replay_eq true, hl, reason, ?_⟩
  rw [Ledger.replay, hs]
  rfl

theorem append_readable_draft : ∃ r,
    Ledger.replay "n" trusted true (grown.dir.readAll .checkpoints) (grown.dir.readAll .events) = .ok r ∧
    r.eventsParsed.getLast? = some secondEvent := by
  obtain ⟨_, _, _, _, he, _, _, hf, hk, _⟩ := recorded
  have h := Ledger.append_readable_iff "n" trusted true created grown _ .success clock draft _ _ holding_created nofun
    (run_created.sound.replay_eq true) (eq_of_fst grown_ok)
  rw [he] at h
  refine h.mpr ⟨hf ▸ framable_event.le, device.pub, ?_, rfl, ?_⟩
  · rw [hk]
    exact deviceKey.anchored
  · rw [hk]
    exact deviceKey.correct _

end Recorded
