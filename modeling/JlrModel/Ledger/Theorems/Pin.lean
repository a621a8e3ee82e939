import JlrModel.Ledger.Theorems.Reader
import JlrModel.Ledger.Theorems.Trust

open Cbor

namespace Ledger

variable [Crypto] {node : String} {anchors : TrustAnchors} {l l' : Ledger} {j j' : Journal}

-- A checkpoint that was kept elsewhere and fits to what a reader has found.
structure Pins (node : String) (anchors : TrustAnchors) (r : Replayed) (external : Bytes) (cp : Checkpoint) :
    Prop where
  signed : ∃ v, Envelope.verify external RecordType.CHECKPOINT node anchors [.device] = .ok v
  holds  : Holds Checkpoint external cp
  origin : cp.origin = origin node
  size   : cp.size ≤ r.events
  root   : r.tree.rootAt cp.size.toNat = some cp.root

theorem verifyExternal_ok_iff {r : Replayed} {external : Bytes} :
    verifyExternal node anchors r external = .ok () ↔ ∃ cp, Pins node anchors r external cp := by
  unfold verifyExternal
  rw [RecordType.allowedSigners_checkpoint]
  constructor
  case mp =>
    intro h
    have ⟨v, hv, h⟩ := Except.bind_eq_ok.mp h
    have ⟨cp, hc, h⟩ := Except.bind_eq_ok.mp h
    have ⟨_, ho, h⟩ := Except.bind_eq_ok.mp h
    have ⟨_, hs, h⟩ := Except.bind_eq_ok.mp h
    have hv := Except.mapError_eq_ok.mp hv
    refine ⟨cp, ⟨v, hv⟩, ?_, Except.ensure_eq_ok.mp ho, Except.ensure_eq_ok.mp hs, Except.ensure_eq_ok.mp h⟩
    exact ⟨v.payload, (Envelope.verify_ok_payload hv).left, Except.mapError_eq_ok.mp hc⟩
  case mpr =>
    intro ⟨cp, p⟩
    have ⟨v, hv⟩ := p.signed
    have ⟨payload, hp, hc⟩ := p.holds
    cases (Envelope.verify_ok_payload hv).left.symm.trans hp
    refine Except.bind_eq_ok.mpr ⟨v, Except.mapError_eq_ok.mpr hv, ?_⟩
    refine Except.bind_eq_ok.mpr ⟨cp, Except.mapError_eq_ok.mpr hc, ?_⟩
    refine Except.bind_eq_ok.mpr ⟨(), Except.ensure_eq_ok.mpr p.origin, ?_⟩
    exact Except.bind_eq_ok.mpr ⟨(), Except.ensure_eq_ok.mpr p.size, Except.ensure_eq_ok.mpr p.root⟩

theorem verifyDir_some_ok_iff {external cpData eventsData : Bytes} :
    (∃ report, verifyDir node anchors (some external) cpData eventsData = .ok report) ↔
    ∃ r cp, replay node anchors true cpData eventsData = .ok r ∧ r.events ≠ 0 ∧
      Pins node anchors r external cp := by
  constructor
  case mp =>
    intro ⟨report, h⟩
    have ⟨r, hr, h⟩ := Except.bind_eq_ok.mp h
    have ⟨_, hn, h⟩ := Except.bind_eq_ok.mp h
    have ⟨_, he, _⟩ := Except.bind_eq_ok.mp h
    have ⟨cp, hp⟩ := verifyExternal_ok_iff.mp he
    exact ⟨r, cp, hr, Except.ensure_eq_ok.mp hn, hp⟩
  case mpr =>
    intro ⟨r, cp, hr, hn, hp⟩
    refine ⟨verifyDir.report r true, ?_⟩
    refine Except.bind_eq_ok.mpr ⟨r, hr, Except.bind_eq_ok.mpr ⟨(), Except.ensure_eq_ok.mpr hn, ?_⟩⟩
    exact Except.bind_eq_ok.mpr ⟨(), verifyExternal_ok_iff.mpr ⟨cp, hp⟩, rfl⟩

theorem Sound.steps {s : Ledger × Journal} (h : Sound node anchors l j)
    (hs : Relation.ReflTransGen (Step node anchors) (l, j) s) :
    Sound node anchors s.1 s.2 ∧ j.Grows s.2 := by
  induction hs
  case refl => exact ⟨h, .refl j⟩
  case tail hs ih => exact ⟨ih.left.step hs, ih.right.trans hs.grows⟩

-- The checkpoint that a call has returned, in a file that is not too large.
theorem holds_of_checkpoint {io : Io} {now : UInt64} {env : Bytes} (h : l.checkpoint io now = (.ok env, l')) :
    Holds Checkpoint env (l.nextCheckpoint now) := by
  have ⟨he, f, hd, _⟩ := checkpoint_ok h
  have hl : (l.checkpointEnvelope now).length < 2 ^ 64 := by
    have hs := f.size_lt
    rw [hd, List.length_append, length_frame] at hs
    omega
  rw [he]
  exact holds_checkpoint hl

-- What a checkpoint covers can not be changed any more without a reader who knows it seeing that, and
-- as long as only readable events are added, it sees no change.
theorem external_checkpoint_pins (node : String) (anchors : TrustAnchors) :
    (∀ S : Set Bytes, Set.InjOn Crypto.sha256 S →
      ∀ l envs, Holding node l envs → treeInputs envs ⊆ S →
      ∀ io now env l', l.checkpoint io now = (.ok env, l') →
      ∀ cpData eventsData report,
        (∀ envs' len tornLen, splitFrames eventsData = .ok (envs', len, tornLen) → treeInputs envs' ⊆ S) →
        verifyDir node anchors (some env) cpData eventsData = .ok report →
        ∃ envs' len tornLen, splitFrames eventsData = .ok (envs', len, tornLen) ∧ envs'.take envs.length = envs) ∧
    (∀ l j, Run node anchors l j →
      ∀ io now env l', l.checkpoint io now = (.ok env, l') →
      ∀ s, Relation.ReflTransGen (Step node anchors) (l', j.commit (l.nextCheckpoint now) env) s →
        ∃ report, verifyDir node anchors (some env) (s.1.dir.readAll .checkpoints) (s.1.dir.readAll .events) =
          .ok report) := by
  constructor
  case left =>
    intro S inj l envs hold hs io now env l' hc cpData eventsData report hs' hv
    have d := hold.describes
    obtain ⟨r, cp, hr, _, p⟩ := verifyDir_some_ok_iff.mp ⟨report, hv⟩
    cases p.holds.unique (holds_of_checkpoint hc)
    obtain ⟨frames, rest, _, _, hd, _, hp, he⟩ := replay_ok_iff.mp hr
    have hf := splitFrames_ok_iff.mpr ⟨rest, hd, hp.framable, hp.incomplete, rfl, rfl⟩
    refine ⟨frames, _, _, hf, take_eq_of_rootAt inj hs (hs' _ _ _ hf) ?_⟩
    have h := p.root
    rw [he, nextCheckpoint, d.tree, Merkle.Tree.size_of, List.length_map, toNat_ofNat_lt d.short,
      Merkle.Tree.root_of] at h
    exact h
  case right =>
    intro l j run io now env l' hc s hs
    have sd := run.sound
    obtain ⟨sd', hg⟩ := (sd.checkpoint hc).steps hs
    obtain ⟨he, _⟩ := checkpoint_ok hc
    have c := sd.commits_nextCheckpoint now
    obtain ⟨t, ht⟩ := hg.envelopes .events
    have hn : j.events.length ≤ s.2.events.length := hg.events.length_le
    refine verifyDir_some_ok_iff.mpr
      ⟨Sound.result s.2, l.nextCheckpoint now, sd'.replay_eq true, sd'.events_ne_zero, ?_⟩
    exact {
      signed := he ▸ c.signed
      holds  := holds_of_checkpoint hc
      origin := c.origin
      size   := by
        have hl := sd'.length_lt .events
        rw [UInt64.le_iff_toNat_le, sd.size_nextCheckpoint, Sound.result, replayed, toNat_ofNat_lt hl]
        simpa [Journal.envelopes] using hn
      root   := by
        have h := c.root
        rw [Journal.tree] at h
        rw [Sound.result, replayed, ← ht, List.map_append]
        exact Merkle.Tree.rootAt_of_append h
    }

end Ledger

namespace Recorded

attribute [local instance] crypto

theorem holding_grown : Ledger.Holding "n" grown envelopes := by
  obtain ⟨_, _, _, _, _, _, hg, he, _⟩ := recorded
  have h : Ledger.Holding "n" created [start.eventEnvelope clock (Ledger.genesis "n")] := .create create_eq
  have h := h.append (eq_of_fst grown_ok)
  rw [hg, he] at h
  exact h

theorem events_sealed : sealed.dir.readAll .events = framed envelopes := by
  obtain ⟨_, _, _, _, _, _, hg, he, _⟩ := recorded
  have hd : (sealed.logs .events).data = framed (journal.envelopes .events) := run_sealed.sound.data .events
  have hj : journal.envelopes .events = envelopes := by
    change [start.eventEnvelope clock (Ledger.genesis "n"), created.eventEnvelope clock draft] = _
    rw [hg, he]
    rfl
  rw [← hj]
  exact hd

-- Whoever knows the checkpoint finds the two events that it was made for.
theorem external_checkpoint_pins_recorded :
    grown.checkpoint .success 0 = (.ok checkpointEnvelope, sealed) ∧
    (∃ report, Ledger.verifyDir "n" trusted (some checkpointEnvelope) (sealed.dir.readAll .checkpoints)
      (sealed.dir.readAll .events) = .ok report) ∧
    ∃ envs len torn, splitFrames (sealed.dir.readAll .events) = .ok (envs, len, torn) ∧ envs.take 2 = envelopes := by
  have hc : grown.checkpoint .success 0 = (.ok checkpointEnvelope, sealed) := eq_of_fst sealed_ok
  have hs : splitFrames (sealed.dir.readAll .events) = .ok (envelopes, (framed envelopes).length, 0) := by
    rw [events_sealed]
    exact splitFrames_framed
      (List.forall_mem_cons.mpr ⟨framable_genesis, List.forall_mem_singleton.mpr framable_event⟩)
  obtain ⟨pins, stays⟩ := Ledger.external_checkpoint_pins "n" trusted
  obtain ⟨report, hv⟩ := stays grown grownJournal (run_created.step step_grown) .success 0 checkpointEnvelope sealed hc
    (sealed, grownJournal.commit (grown.nextCheckpoint 0) checkpointEnvelope) .refl
  dsimp only at hv
  have he (envs : List Bytes) (len : Nat) (torn : UInt64)
      (h : splitFrames (sealed.dir.readAll .events) = .ok (envs, len, torn)) : treeInputs envs ⊆ treeInputs envelopes := by
    cases hs.symm.trans h
    exact subset_rfl
  have k := pins (treeInputs envelopes) hashes_injOn grown envelopes holding_grown subset_rfl .success 0
    checkpointEnvelope sealed hc (sealed.dir.readAll .checkpoints) (sealed.dir.readAll .events) report he hv
  exact ⟨hc, ⟨report, hv⟩, k⟩

-- The directory was extended by one call, which has succeeded, and the checkpoint is no longer accepted.
theorem pinned_oversized : ∃ l r,
    grown.checkpoint .success 0 = (.ok checkpointEnvelope, sealed) ∧
    sealed.append .success clock oversized = (.ok r, l) ∧ ∃ reason,
      Ledger.verifyDir "n" trusted (some checkpointEnvelope) (l.dir.readAll .checkpoints)
        (l.dir.readAll .events) = .error (.corrupt 2 reason) := by
  have ⟨l, r, hl, reason, hs⟩ := append_oversized
  refine ⟨l, r, eq_of_fst sealed_ok, hl, reason, ?_⟩
  rw [Ledger.verifyDir, Ledger.replay, hs]
  rfl

end Recorded
