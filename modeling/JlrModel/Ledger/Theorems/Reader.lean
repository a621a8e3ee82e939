import JlrModel.Ledger.Reader
import JlrModel.Ledger.Theorems.Run

open Cbor

-- Nothing that is in a history is changed or lost later.
structure Journal.Grows (j j' : Journal) : Prop where
  events      : j.events <+: j'.events
  checkpoints : j.checkpoints <+: j'.checkpoints

namespace Journal.Grows

variable {j j' j'' : Journal}

theorem refl (j : Journal) : Grows j j where
  events      := List.prefix_rfl
  checkpoints := List.prefix_rfl

theorem trans (h : Grows j j') (h' : Grows j' j'') : Grows j j'' where
  events      := h.events.trans h'.events
  checkpoints := h.checkpoints.trans h'.checkpoints

theorem envelopes (h : Grows j j') (log : Log) : j.envelopes log <+: j'.envelopes log := by
  cases log
  case events => exact h.events.map Prod.snd
  case checkpoints => exact h.checkpoints.map Prod.snd

end Journal.Grows

section

variable [Crypto] {node : String} {anchors : TrustAnchors} {l l' : Ledger} {j j' : Journal}

theorem framed_mono {envs envs' : List Bytes} (h : envs <+: envs') : framed envs <+: framed envs' := by
  have ⟨t, h⟩ := h
  exact ⟨framed t, by rw [← h, framed_append]⟩

theorem Ledger.Step.grows (h : Ledger.Step node anchors (l, j) (l', j')) : j.Grows j' := by
  cases h
  case append => exact ⟨List.prefix_append _ _, List.prefix_rfl⟩
  case checkpoint => exact ⟨List.prefix_rfl, List.prefix_append _ _⟩
  case setSync => exact .refl j
  case reopen => exact .refl j

-- A call that writes a checkpoint adds no events, so its checkpoint is one of the events before the call.
theorem Ledger.Sound.step_commits (s : Ledger.Sound node anchors l j)
    (h : Ledger.Step node anchors (l, j) (l', j')) :
    Commitments node anchors j.tree none (j'.envelopes .checkpoints) (j'.checkpoints.map Prod.fst) := by
  have s' := s.step h
  cases h
  case append => exact s.commits
  case checkpoint => exact s'.commits
  case setSync => exact s.commits
  case reopen => exact s.commits

end

namespace Writing

variable {w w' : Writing}

-- One state of a writer is later than another.
structure Later (w w' : Writing) : Prop where
  before : w.before.2.Grows w'.before.2
  after  : w.after.2.Grows w'.after.2
  shown  : ∀ log, w.shown log <+: w'.shown log

theorem Later.refl (w : Writing) : Later w w where
  before    := .refl _
  after     := .refl _
  shown _   := List.prefix_rfl

theorem Later.trans (h : Later w w') (h' : Later w' w'') : Later w w'' where
  before    := h.before.trans h'.before
  after     := h.after.trans h'.after
  shown log := (h.shown log).trans (h'.shown log)

variable [Crypto] {node : String} {anchors : TrustAnchors}

-- What others see while a call is going on is between its beginning and its end.
structure Sound (node : String) (anchors : TrustAnchors) (w : Writing) : Prop where
  before  : Ledger.Sound node anchors w.before.1 w.before.2
  after   : Ledger.Sound node anchors w.after.1 w.after.2
  grows   : w.before.2.Grows w.after.2
  commits : Ledger.Commitments node anchors w.before.2.tree none (w.after.2.envelopes .checkpoints)
    (w.after.2.checkpoints.map Prod.fst)
  started : ∀ log, framed (w.before.2.envelopes log) <+: w.shown log
  within  : ∀ log, w.shown log <+: framed (w.after.2.envelopes log)

theorem sound_idle {s : Ledger × Journal} (h : Ledger.Sound node anchors s.1 s.2) : Sound node anchors (idle s) where
  before      := h
  after       := h
  grows       := .refl _
  commits     := h.commits
  started log := (h.data log).symm ▸ List.prefix_rfl
  within log  := (h.data log).symm ▸ List.prefix_rfl

theorem Sound.step (s : Sound node anchors w) (h : Step node anchors w w') : Sound node anchors w' ∧ Later w w' := by
  cases h
  case call h =>
    have hg := h.grows
    refine ⟨{ s with after := s.before.step h, grows := hg, commits := s.before.step_commits h, within := ?_ }, ?_⟩
    · exact fun log => (s.within log).trans (framed_mono (hg.envelopes log))
    · exact { Later.refl _ with after := hg }
  case byte log b h =>
    have hu : ∀ log', w.shown log' <+: Function.update w.shown log (w.shown log ++ [b]) log' := by
      intro log'
      by_cases hl : log' = log
      · subst hl
        rw [Function.update_self]
        exact List.prefix_append _ _
      · exact ⟨[], by rw [Function.update_of_ne hl, List.append_nil]⟩
    refine ⟨{ s with started := fun log' => (s.started log').trans (hu log'), within := ?_ }, ?_⟩
    · intro log'
      by_cases hl : log' = log
      · subst hl
        simp only [Function.update_self]
        exact s.after.data log' ▸ h
      · simp only [Function.update_of_ne hl]
        exact s.within log'
    · exact { Later.refl w with shown := hu }
  case «return» h =>
    refine ⟨sound_idle s.after, ?_⟩
    exact { before := s.grows, after := .refl _, shown := fun log => h log ▸ List.prefix_rfl }

theorem Sound.reaches (s : Sound node anchors w) (h : Reaches node anchors w w') :
    Sound node anchors w' ∧ Later w w' := by
  induction h
  case refl => exact ⟨s, .refl w⟩
  case tail h ih =>
    have ⟨s', hl⟩ := ih.left.step h
    exact ⟨s', ih.right.trans hl⟩

-- A reader needs no lock. It reads the checkpoints at one moment, and then the events from a later
-- moment to another: the events that the checkpoints cover are there by then.
theorem replay_beside_writer {l : Ledger} {j : Journal} {w₁ w₂ w₃ : Writing} {cpData eventsData : Bytes}
    (run : Ledger.Run node anchors l j) (h₁ : Reaches node anchors (idle (l, j)) w₁)
    (h₂ : Reaches node anchors w₁ w₂) (h₃ : Reaches node anchors w₂ w₃)
    (hc : cpData <+: w₁.shown .checkpoints) (hs : w₂.shown .events <+: eventsData)
    (he : eventsData <+: w₃.shown .events) (full : Bool) :
    ∃ r, Ledger.replay node anchors full cpData eventsData = .ok r ∧
      r.eventsParsed <+: w₃.after.2.events.map Prod.fst := by
  have ⟨s₁, _⟩ := (sound_idle (s := (l, j)) run.sound).reaches h₁
  have ⟨s₂, hl⟩ := s₁.reaches h₂
  have ⟨s₃, hl'⟩ := s₂.reaches h₃
  have hf := s₃.after.framable .events
  have ⟨k, cpRest, _, hcd, hci⟩ := framed_prefix (s₁.after.framable .checkpoints) (hc.trans (s₁.within _))
  have ⟨n, rest, hn, hed, hei⟩ := framed_prefix hf (he.trans (s₃.within _))
  -- The events that were there when the checkpoints were read are among those that are read.
  have hp : w₁.before.2.envelopes .events <+: w₃.after.2.envelopes .events :=
    (((hl.trans hl').before).trans s₃.grows).envelopes .events
  have ht := List.prefix_iff_eq_take.mp hp
  have hb : framed (w₁.before.2.envelopes .events) <+: eventsData :=
    ((s₁.started .events).trans (hl.shown .events)).trans hs
  rw [hed, ht] at hb
  have hle := le_of_framed_prefix hei hp.length_le hb
  have ⟨more, hm⟩ : w₁.before.2.envelopes .events <+: (w₃.after.2.envelopes .events).take n :=
    ht ▸ List.take_prefix_take_left hle
  have hr : Ledger.Replays node anchors full ((w₃.after.2.envelopes .events).take n)
      ((w₁.after.2.envelopes .checkpoints).take k) rest cpRest ((w₃.after.2.events.map Prod.fst).take n)
      ((w₁.after.2.checkpoints.map Prod.fst).take k) := {
    framable     := fun env h => hf env (List.mem_of_mem_take h)
    incomplete   := hei
    cpFramable   := fun env h => s₁.after.framable .checkpoints env (List.mem_of_mem_take h)
    cpIncomplete := hci
    commits      := by
      apply (s₁.commits.take k).grow
      intro i root hi
      rw [← hm, List.map_append]
      exact Merkle.Tree.rootAt_of_append hi
    chain        := s₃.after.chain.take n
    verified     := fun env h => s₃.after.verified env (List.mem_of_mem_take (List.mem_of_mem_drop h))
  }
  exact ⟨Ledger.replayed _ _ rest cpRest _ _,
    Ledger.replay_ok_iff.mpr ⟨_, rest, _, cpRest, hed, hcd, hr, rfl⟩, List.take_prefix n _⟩

end Writing

namespace Recorded

attribute [local instance] crypto

-- The reader has seen the first byte of the second event when it comes to the end of the file.
theorem replay_beside_writer_recorded : ∃ r,
    Ledger.replay "n" trusted true [] ((created.logs .events).data ++ [0]) = .ok r ∧
    r.eventsParsed <+: [genesisEvent, secondEvent] := by
  let w₁ := Writing.idle (created, createdJournal)
  let w₂ : Writing := { w₁ with after := (grown, grownJournal) }
  let w₃ : Writing := { w₂ with shown := Function.update w₂.shown .events (w₂.shown .events ++ [0]) }
  have h₂ : Writing.Step "n" trusted w₁ w₂ := .call step_grown
  have h₃ : Writing.Step "n" trusted w₂ w₃ := @Writing.Step.byte _ _ _ .events 0 w₂ (by decide +kernel)
  have hs : w₃.shown .events = w₂.shown .events ++ [0] := by
    simp only [w₃, Function.update_self]
  have hc : [] <+: w₁.shown .checkpoints := List.nil_prefix
  have hb : w₂.shown .events <+: w₂.shown .events ++ [0] := List.prefix_append _ _
  have hw : w₂.shown .events ++ [0] <+: w₃.shown .events := ⟨[], by rw [hs, List.append_nil]⟩
  have ⟨r, hr, hp⟩ := Writing.replay_beside_writer run_created .refl (.single h₂) (.single h₃) hc hb hw true
  have hd : w₂.shown .events = (created.logs .events).data := by simp only [w₂, w₁, Writing.idle]
  rw [hd] at hr
  refine ⟨r, hr, ?_⟩
  rw [← events_grown]
  exact hp

-- After an event whose envelope is too long, a reader takes the log for corrupt.
theorem replay_oversized : ∃ l r,
    sealed.append .success clock oversized = (.ok r, l) ∧ ∀ full, ∃ reason,
      Ledger.replay "n" trusted full (l.dir.readAll .checkpoints) (l.dir.readAll .events) =
        .error (.corrupt 2 reason) := by
  have ⟨l, r, hl, reason, hs⟩ := append_oversized
  refine ⟨l, r, hl, fun full => ⟨reason, ?_⟩⟩
  rw [Ledger.replay, hs]
  rfl

end Recorded
