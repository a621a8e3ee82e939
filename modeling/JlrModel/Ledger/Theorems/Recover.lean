import JlrModel.Ledger.Theorems.Repair
import JlrModel.Ledger.Theorems.Run

namespace Ledger

variable {dir dir' dir'' : Dir} {log : Log} {valid tail : Bytes}

namespace Recoverable

-- No torn file of an earlier repair is touched.
theorem older (h : Recoverable dir log valid tail dir') (hf : dir.torn log n = some f) :
    dir'.torn log n = some f := by
  cases h
  case inl h => rw [h.left, hf]
  case inr h =>
    have ⟨k, hk, ht, _⟩ := h
    have hne : n ≠ k := by
      intro he
      rw [he, hk] at hf
      contradiction
    rw [ht n hne, hf]

theorem free (h : Recoverable dir log valid tail dir')
    (hf : ∃ k k', k ≠ k' ∧ k < TORN_NAMES ∧ k' < TORN_NAMES ∧ dir.torn log k = none ∧ dir.torn log k' = none) :
    ∃ k < TORN_NAMES, dir'.torn log k = none := by
  have ⟨k, k', hne, hl, hl', hk, hk'⟩ := hf
  cases h
  case inl h => exact ⟨k, hl, by rw [h.left, hk]⟩
  case inr h =>
    have ⟨n, _, ht, _⟩ := h
    by_cases he : k = n
    · exact ⟨k', hl', by rw [ht k' (he ▸ hne.symm), hk']⟩
    · exact ⟨k, hl, by rw [ht k he, hk]⟩

-- What is left of the tail in the log: all of it, or nothing if it is in a file.
theorem content (h : Recoverable dir log valid tail dir') :
    ∃ t, dir'.readAll log = valid ++ t ∧ (t = tail ∨ t = [] ∧ Kept dir log tail dir') := by
  cases h
  case inl h => exact ⟨tail, h.right, .inl rfl⟩
  case inr h =>
    have ⟨n, hn, _, h⟩ := h
    cases h
    case inl h => exact ⟨tail, h, .inl rfl⟩
    case inr h =>
      have ⟨h, f, hf, hd⟩ := h
      exact ⟨[], by rw [h, List.append_nil], .inr ⟨rfl, n, f, hn, hf, hd⟩⟩

end Recoverable

-- Wherever the repair of both logs stops, it has come to one of three stages: no tail was cut off, or only that of the
-- events, or both.
theorem Split.stage {valid tail : Log → Bytes} {r : Replayed} {pre : List DirOp} (s : Split dir valid tail r)
    (hp : pre <+: (repairs dir r).1) :
    ∃ left, (∀ log, (dir.applyAll pre).readAll log = valid log ++ left log) ∧
      (left = tail ∨ left = Log.pick [] (tail .checkpoints) ∨ left = fun _ => []) := by
  cases s.prefix_cases hp
  case inl hp =>
    have hr := repairing_of_isPrefix (s.content .events) hp
    have hc := s.checkpoints_content hr
    have ⟨t, ht, h⟩ := hr.state.content
    cases h
    case inl h => exact ⟨tail, fun log => log.casesOn (h ▸ ht) hc, .inl rfl⟩
    case inr h => exact ⟨_, fun log => log.casesOn (h.left ▸ ht) hc, .inr (.inl rfl)⟩
  case inr h =>
    obtain ⟨he, dir₁, pre', hd, h, hp⟩ := h
    have hr := repairing_of_isPrefix (s.content .events) (List.prefix_refl (repairLog dir valid tail .events).1)
    rw [← hd] at hr
    have hr' := repairing_of_isPrefix (s.checkpoints_content hr) hp
    have hv : (dir₁.applyAll pre').readAll .events = valid .events ++ [] := by
      rw [Dir.readAll_of_logs (hr'.logs .events (by decide)), hd, List.append_nil]
      exact (repair_ok (s.content .events) he).left
    have ⟨t, ht, hc⟩ := hr'.state.content
    rw [h]
    cases hc
    case inl hc => exact ⟨_, fun log => log.casesOn hv (hc ▸ ht), .inr (.inl rfl)⟩
    case inr hc => exact ⟨_, fun log => log.casesOn hv (hc.left ▸ ht), .inr (.inr rfl)⟩

theorem Kept.of_older (h : Kept dir' log tail dir'') (ho : ∀ n f, dir.torn log n = some f → dir'.torn log n = some f) :
    Kept dir log tail dir'' := by
  have ⟨n, f, hn, hf, hd⟩ := h
  refine ⟨n, f, ?_, hf, hd⟩
  cases hn' : dir.torn log n
  case none => rfl
  case some f' =>
    rw [ho n f' hn'] at hn
    contradiction

theorem Kept.older (h : Kept dir log tail dir') (ho : ∀ n f, dir'.torn log n = some f → dir''.torn log n = some f) :
    Kept dir log tail dir'' := by
  have ⟨n, f, hn, hf, hd⟩ := h
  exact ⟨n, f, hn, ho n f hf, hd⟩

theorem data_opened {r : Replayed} {node : String} {key : SigningKeypair} {bootId : Bytes.Fixed 16} :
    ((opened dir r node key bootId).logs log).data = dir.readAll log :=
  data_getD

section

variable [Crypto]

-- The ledger of a directory in which each log was cut back to its whole frames.
structure Recovered (dir : Dir) (frames : Log → List Bytes) (tail : Log → Bytes) (l : Ledger) : Prop where
  logs  : ∀ log, (l.logs log).data = framed (frames log)
  kept  : ∀ log, tail log ≠ [] → Kept dir log (tail log) l.dir
  older : ∀ log n f, dir.torn log n = some f → l.torn log n = some f

variable {node : String} {anchors : TrustAnchors} {frames : Log → List Bytes} {tail : Log → Bytes}
variable {evs : List Event} {cps : List Checkpoint} {r : Replayed}

theorem split_replayed (h : ∀ log, dir.readAll log = framed (frames log) ++ tail log) :
    Split dir (fun log => framed (frames log)) tail
      (replayed (frames .events) (frames .checkpoints) (tail .events) (tail .checkpoints) evs cps) where
  content    := h
  torn       := rfl
  validLen   := rfl
  cpTorn     := rfl
  cpValidLen := rfl

theorem recovered_opened {key : SigningKeypair} {bootId : Bytes.Fixed 16}
    (s : Split dir (fun log => framed (frames log)) tail r) (hk : (repairs dir r).2 = .ok ()) :
    Recovered dir frames tail (opened (dir.applyAll (repairs dir r).1) r node key bootId) where
  logs log        := data_opened.trans (s.repaired hk log).left
  kept log        := (s.repaired hk log).right
  older log _ _ h := (s.recoverable List.prefix_rfl log).older h

-- The logs of a directory have fewer frames than a `u64` can count.
theorem length_frames_lt (h : dir.readAll log = framed (frames log) ++ tail log) :
    (frames log).length < 2 ^ 63 :=
  length_le_framed.trans_lt (lengths_lt h).left

theorem events_ne_zero (h : dir.readAll .events = framed (frames .events) ++ tail .events)
    (hn : frames .events ≠ []) : UInt64.ofNat (frames .events).length ≠ 0 := by
  intro he
  have hz := congrArg UInt64.toNat he
  rw [toNat_ofNat_lt (length_frames_lt h)] at hz
  exact hn (List.eq_nil_of_length_eq_zero hz)

theorem replay_split (h : ∀ log, dir.readAll log = framed (frames log) ++ tail log)
    (hr : Replays node anchors full (frames .events) (frames .checkpoints) (tail .events) (tail .checkpoints)
      evs cps) :
    replay node anchors full (dir.readAll .checkpoints) (dir.readAll .events) =
    .ok (replayed (frames .events) (frames .checkpoints) (tail .events) (tail .checkpoints) evs cps) :=
  replay_ok_iff.mpr ⟨_, _, _, _, h .events, h .checkpoints, hr, rfl⟩

-- A directory with valid frames opens, if there is a name for each torn tail.
theorem openWithEvents_split (h : ∀ log, dir.readAll log = framed (frames log) ++ tail log)
    (hr : Replays node anchors false (frames .events) (frames .checkpoints) (tail .events) (tail .checkpoints)
      evs cps) (hn : frames .events ≠ [])
    (hf : ∀ log, tail log ≠ [] → ∃ k < TORN_NAMES, dir.torn log k = none) (key : SigningKeypair)
    (bootId : Bytes.Fixed 16) :
    let r := replayed (frames .events) (frames .checkpoints) (tail .events) (tail .checkpoints) evs cps
    ∃ l, openWithEvents dir node key anchors bootId = ((repairs dir r).1, .ok (l, openReport r, evs)) ∧
      l = opened l.dir r node key bootId ∧ Recovered dir frames tail l := by
  intro r
  have s : Split dir _ tail r := split_replayed h
  have hk := s.completed hf
  refine ⟨_, openWithEvents_eq (replay_split h hr) (events_ne_zero (h .events) hn) ?_, rfl,
    recovered_opened s hk⟩
  exact Prod.ext rfl hk

-- A directory of valid frames, with a frame at the end of each log of which only a part was written.
-- For each of these tails there are two names that are free: the first may be used up by a repair that
-- does not come to its end.
structure TornDir (node : String) (anchors : TrustAnchors) (dir : Dir) (frames : Log → List Bytes)
    (tail : Log → Bytes) (r : Replayed) : Prop where
  content  : ∀ log, dir.readAll log = framed (frames log) ++ tail log
  framable : ∀ log, ∀ env ∈ frames log, Framable env
  torn     : ∀ log, ∃ env, Framable env ∧ tail log <+: frame env ∧ tail log ≠ frame env
  started  : frames .events ≠ []
  valid    : replay node anchors false (framed (frames .checkpoints)) (framed (frames .events)) = .ok r
  free     : ∀ log, tail log ≠ [] → ∃ k k', k ≠ k' ∧ k < TORN_NAMES ∧ k' < TORN_NAMES ∧
    dir.torn log k = none ∧ dir.torn log k' = none

namespace TornDir

theorem incomplete (t : TornDir node anchors dir frames tail r) (log : Log) : Incomplete (tail log) := by
  have ⟨_, hf, hp, hne⟩ := t.torn log
  exact incomplete_of_isPrefix hf hp hne

theorem frames_eq (t : TornDir node anchors dir frames tail r) (log : Log) {envs : List Bytes} {rest : Bytes}
    (he : framed (frames log) = framed envs ++ rest) (hf : ∀ env ∈ envs, Framable env) (hi : Incomplete rest) :
    envs = frames log ∧ rest = [] := by
  rw [← List.append_nil (framed (frames log))] at he
  have ⟨he, hr⟩ := framed_inj (t.framable log) incomplete_nil hf hi he
  exact ⟨he.symm, hr.symm⟩

theorem replays (t : TornDir node anchors dir frames tail r) :
    r = replayed (frames .events) (frames .checkpoints) [] [] r.eventsParsed r.checkpoints ∧
    ∀ rest cpRest, Incomplete rest → Incomplete cpRest →
      Replays node anchors false (frames .events) (frames .checkpoints) rest cpRest r.eventsParsed
        r.checkpoints := by
  have ⟨envs, rest, cpEnvs, cpRest, he, hc, hr, h⟩ := replay_ok_iff.mp t.valid
  have ⟨he, hn⟩ := t.frames_eq .events he hr.framable hr.incomplete
  have ⟨hc, hn'⟩ := t.frames_eq .checkpoints hc hr.cpFramable hr.cpIncomplete
  subst he hn hc hn'
  exact ⟨h, fun _ _ hi hi' => { hr with incomplete := hi, cpIncomplete := hi' }⟩

-- The whole frames of the directory with as much of each tail as there is left.
theorem opens (t : TornDir node anchors dir frames tail r) {tail' : Log → Bytes}
    (h : ∀ log, dir'.readAll log = framed (frames log) ++ tail' log)
    (hi : ∀ log, Incomplete (tail' log))
    (hf : ∀ log, tail' log ≠ [] → ∃ k < TORN_NAMES, dir'.torn log k = none) (key : SigningKeypair)
    (bootId : Bytes.Fixed 16) :
    let r' := { r with torn := .ofNat (tail' .events).length, cpTorn := .ofNat (tail' .checkpoints).length }
    ∃ l, openWithEvents dir' node key anchors bootId =
        ((repairs dir' r').1, .ok (l, openReport r', r.eventsParsed)) ∧
      l = opened l.dir r node key bootId ∧ Recovered dir' frames tail' l := by
  have ⟨he, hr⟩ := t.replays
  have ⟨l, ho, hl, hd⟩ :=
    openWithEvents_split h (hr _ _ (hi .events) (hi .checkpoints)) t.started hf key bootId
  rw [he]
  exact ⟨l, ho, hl, hd⟩

theorem reopens (t : TornDir node anchors dir frames tail r)
    (hc : ∀ log, Recoverable dir log (framed (frames log)) (tail log) dir') (key : SigningKeypair)
    (bootId : Bytes.Fixed 16) :
    ∃ l report, (openWithEvents dir' node key anchors bootId).2 = .ok (l, report, r.eventsParsed) ∧
      l = opened l.dir r node key bootId ∧ Recovered dir frames tail l := by
  choose tail' hd ht using fun log => (hc log).content
  have hi (log : Log) : Incomplete (tail' log) := by
    cases ht log
    case inl h => exact h ▸ t.incomplete log
    case inr h => exact h.left ▸ incomplete_nil
  have hf (log : Log) (hne : tail' log ≠ []) : ∃ k < TORN_NAMES, dir'.torn log k = none := by
    cases ht log
    case inl h => exact (hc log).free (t.free log (h ▸ hne))
    case inr h => exact absurd h.left hne
  have ⟨l, ho, hl, hr⟩ := t.opens hd hi hf key bootId
  refine ⟨l, _, congrArg Prod.snd ho, hl, hr.logs, ?_, ?_⟩
  case refine_1 =>
    intro log hne
    cases ht log
    case inl h =>
      have hk := hr.kept log (h ▸ hne)
      exact h ▸ hk.of_older fun _ _ => (hc log).older
    case inr h => exact h.right.older (hr.older log)
  case refine_2 =>
    intro log n f h
    exact hr.older log n f ((hc log).older h)

end TornDir

-- Opening a directory with torn logs cuts them back to their whole frames and keeps what it cuts off.
-- Should it stop anywhere on the way, the next opening comes to the same end.
theorem torn_tails_recovered (t : TornDir node anchors dir frames tail r) :
    (∀ log, splitFrames (dir.readAll log) =
      .ok (frames log, (framed (frames log)).length, .ofNat (tail log).length)) ∧
    ∀ key bootId,
      (∃ l report, (openWithEvents dir node key anchors bootId).2 = .ok (l, report, r.eventsParsed) ∧
        l = opened l.dir r node key bootId ∧ Recovered dir frames tail l) ∧
      ∀ ops, ops <+: (openWithEvents dir node key anchors bootId).1 →
        ∀ key' bootId',
          ∃ l report, (openWithEvents (dir.applyAll ops) node key' anchors bootId').2 =
              .ok (l, report, r.eventsParsed) ∧
            l = opened l.dir r node key' bootId' ∧ Recovered dir frames tail l := by
  constructor
  case left =>
    intro log
    exact splitFrames_ok_iff.mpr ⟨tail log, t.content log, t.framable log, t.incomplete log, rfl, rfl⟩
  case right =>
    intro key bootId
    have hf (log : Log) (h : tail log ≠ []) : ∃ k < TORN_NAMES, dir.torn log k = none := by
      have ⟨k, _, _, hl, _, hk, _⟩ := t.free log h
      exact ⟨k, hl, hk⟩
    have ⟨l, ho, hl, hr⟩ := t.opens t.content t.incomplete hf key bootId
    refine ⟨⟨l, _, congrArg Prod.snd ho, hl, hr⟩, ?_⟩
    intro ops hp key' bootId'
    have s : Split dir (fun log => framed (frames log)) tail
        { r with torn := .ofNat (tail .events).length, cpTorn := .ofNat (tail .checkpoints).length } := by
      rw [t.replays.left]
      exact split_replayed t.content
    rw [ho] at hp
    exact t.reopens (s.recoverable hp) key' bootId'

end

end Ledger

namespace Recorded

open Ledger

attribute [local instance] crypto

-- The recorded ledger after a crash in the middle of a third event.
def frames : Log → List Bytes
  | .events      => [genesisEnvelope, eventEnvelope]
  | .checkpoints => [checkpointEnvelope]

def tail : Log → Bytes
  | .events      => (frame eventEnvelope).take 10
  | .checkpoints => []

theorem length_tail : (tail .events).length = 10 := by
  obtain ⟨_, h, _⟩ := lengths
  rw [tail, List.length_take, length_frame, h]
  rfl

theorem size_lt (log : Log) : (framed (frames log) ++ tail log).length < 2 ^ 63 := by
  obtain ⟨hg, he, hc⟩ := lengths
  cases log
  case events =>
    simp only [frames, framed, List.flatMap_cons, List.flatMap_nil, List.append_nil, List.length_append, length_frame,
      length_tail, hg, he]
    decide
  case checkpoints =>
    simp only [frames, framed, tail, List.flatMap_cons, List.flatMap_nil, List.append_nil, length_frame, hc]
    decide

def torn (files : Log → Nat → Option File) : Dir where
  logs log := some ⟨framed (frames log) ++ tail log, size_lt log⟩
  torn     := files

def result : Replayed :=
  replayed (frames .events) (frames .checkpoints) [] [] [genesisEvent, secondEvent] [checkpoint]

theorem framable (log : Log) : ∀ env ∈ frames log, Framable env := by
  intro env h
  cases log
  case events =>
    cases List.mem_cons.mp h
    case inl h => exact h ▸ framable_genesis
    case inr h => exact List.mem_singleton.mp h ▸ framable_event
  case checkpoints =>
    obtain ⟨_, _, hc⟩ := lengths
    exact List.mem_singleton.mp h ▸ ⟨by omega, by rw [hc]; decide⟩

theorem tail_torn (log : Log) : tail log <+: frame eventEnvelope ∧ tail log ≠ frame eventEnvelope := by
  have hf : (frame eventEnvelope).length = 267 := by
    obtain ⟨_, h, _⟩ := lengths
    rw [length_frame, h]
    rfl
  have hne (hl : (tail log).length ≠ 267) : tail log ≠ frame eventEnvelope := fun h => hl (h ▸ hf)
  cases log
  case events => exact ⟨List.take_prefix _ _, hne (length_tail ▸ by decide)⟩
  case checkpoints => exact ⟨List.nil_prefix, hne (by decide)⟩

theorem replay_frames :
    replay "n" trusted false (framed (frames .checkpoints)) (framed (frames .events)) = .ok result := by
  decide +kernel

theorem tornDir : TornDir "n" trusted (torn fun _ _ => none) frames tail result where
  content _  := rfl
  framable   := framable
  torn log   := ⟨eventEnvelope, framable .events _ (by simp [frames]), tail_torn log⟩
  started    := by simp [frames]
  valid      := replay_frames
  free _ _   := ⟨0, 1, by decide, by decide, by decide, rfl, rfl⟩

theorem torn_tails_recovered_recorded :
    ∃ l report, (openWithEvents (torn fun _ _ => none) "n" device trusted boot).2 =
        .ok (l, report, [genesisEvent, secondEvent]) ∧
      Recovered (torn fun _ _ => none) frames tail l := by
  have ⟨l, report, ho, _, hr⟩ := ((torn_tails_recovered tornDir).right device boot).left
  exact ⟨l, report, ho, hr⟩

-- With all names of torn files in use, the same logs cannot be opened.
theorem torn_tail_unnamed :
    let dir := torn fun _ _ => some .empty
    (∀ log, dir.readAll log = framed (frames log) ++ tail log) ∧
    (∀ log, tail log <+: frame eventEnvelope ∧ tail log ≠ frame eventEnvelope) ∧
    replay "n" trusted false (framed (frames .checkpoints)) (framed (frames .events)) = .ok result ∧
    (openWithEvents dir "n" device trusted boot).2 = .error (.io "too many torn-tail files") := by
  intro dir
  have hd : ∀ log, dir.readAll log = framed (frames log) ++ tail log := fun _ => rfl
  refine ⟨hd, tail_torn, replay_frames, ?_⟩
  have hr := tornDir.replays.right _ _ (tornDir.incomplete .events) (tornDir.incomplete .checkpoints)
  have hn : tail .events ≠ [] := List.ne_nil_of_length_pos (length_tail ▸ by decide)
  have he := repair_full (hd .events) hn (firstFree_eq_none fun _ => rfl)
  have hn' := events_ne_zero (hd .events) tornDir.started
  have hs := (@split_replayed dir _ frames tail result.eventsParsed result.checkpoints hd).repairs_error (congrArg Prod.snd he)
  exact congrArg Prod.snd (openWithEvents_error (replay_split hd hr) hn' hs)

end Recorded
