import JlrModel.Engine.Theorems.Host
import JlrModel.Lib.Sorted

open Program Relation

variable [Crypto] {h h' : Host} {d : StateDir} {e : Engine}

namespace Host

theorem repaired_setLedger (hl : h.ledger = .new) : h.repaired.setLedger (fun _ => .new) = h.repaired := by
  simp only [repaired, trimmed, setLedger, setLog, setDir, advance, hl]

theorem quiet_trimmed : h.Quiet h.trimmed :=
  .trans .advance (.setLog rfl rfl)

-- A log that was not opened: it is as it was, or without the tail of the events, or without both.
inductive Unopened (h : Host) : Host → Prop
  | found    : Unopened h h
  | advanced : Unopened h h.advance
  | trimmed  : Unopened h h.trimmed
  | stuck    : Unopened h h.trimmed.advance
  | repaired : Unopened h h.repaired

-- The ways in which opening the ledger can go.
theorem openLedger_cases (hl : h.ledger = .new) :
    openLedger h = (.ok h.dir.log, h.repaired) ∧ h.locked = false ∧ h.dir.log.replayed ≠ [] ∨
    ∃ why h₁, openLedger h = (.error why, h₁) ∧ Unopened h h₁ := by
  rw [openLedger, view_bind, view_bind]
  cases hk : h.locked
  case true => exact .inr ⟨_, h, rfl, .found⟩
  case false =>
    rw [if_neg Bool.false_ne_true]
    split
    case isTrue => exact .inr ⟨_, h, rfl, .found⟩
    case isFalse he =>
      obtain ho | ⟨why, ho | ho⟩ := operate_cases (fun e => .ledger (.io e))
        (fun dir => { dir with log := dir.log.trimmed }) h
      · rw [bind_ok ho]
        obtain ho | ⟨why, ho | ho⟩ := operate_cases (fun e => .ledger (.io e))
          (fun dir => { dir with log := dir.log.repaired }) h.trimmed
        · refine .inl ⟨(bind_ok ho).trans ?_, rfl, he⟩
          exact congrArg (Prod.mk _) (repaired_setLedger hl)
        · exact .inr ⟨why, _, bind_error ho, .stuck⟩
        · exact .inr ⟨why, _, bind_error ho, .repaired⟩
      · rw [bind_error ho]
        exact .inr ⟨why, _, rfl, .advanced⟩
      · rw [bind_error ho]
        exact .inr ⟨why, _, rfl, .trimmed⟩

end Host

namespace Engine

theorem degradedNote_note {p : ValidPolicy} {detail : String} : (degradedNote p detail).Note :=
  ⟨rfl, nofun, nofun⟩

theorem appendBestEffort_does {d : EventDraft} (hd : d.Note) : Does Host.Act (appendBestEffort d) :=
  .bind (.attempt (Host.append_does hd)) fun _ => .pure

theorem appendBestEffort_logOnly {d : EventDraft} : Does Host.LogOnly (appendBestEffort d) :=
  .bind (.attempt Host.append_logOnly) fun _ => .pure

theorem noteProblem_does {p : ValidPolicy} {already : List String} {problem : String} :
    Does Host.Act (noteProblem p already problem) :=
  .onlyIf fun _ => appendBestEffort_does degradedNote_note

theorem noteProblem_logOnly {p : ValidPolicy} {already : List String} {problem : String} :
    Does Host.LogOnly (noteProblem p already problem) :=
  .onlyIf fun _ => appendBestEffort_logOnly

theorem noteTorn_does {p : ValidPolicy} {log : EventLog} : Does Host.Act (noteTorn p log) :=
  .bind (.onlyIf fun _ => Host.append_does degradedNote_note) fun _ =>
    .onlyIf fun _ => Host.append_does degradedNote_note

theorem noteTorn_logOnly {p : ValidPolicy} {log : EventLog} : Does Host.LogOnly (noteTorn p log) :=
  .bind (.onlyIf fun _ => Host.append_logOnly) fun _ => .onlyIf fun _ => Host.append_logOnly

theorem openIndex_does {p : ValidPolicy} {events : List EventDraft} {states : States} :
    Does Host.Act (openIndex p events states) := by
  refine .bind .view fun dir => .ite (fun _ => ?_) fun _ => .pure
  exact .bind (appendBestEffort_does degradedNote_note) fun _ =>
    .bind (.attempt Host.saveIndex_does) fun _ => .pure

theorem openIndex_ok {p : ValidPolicy} {events : List EventDraft} {states : States} {index : List (String × IndexRow)}
    (hx : openIndex p events states h = (.ok index, h')) :
    index = if h.dir.loadIndex.2 ∧ states.entries ≠ [] then
        (events.foldl (rebuild h.dir) (indexOf h.dir.loadIndex.1.rows, 0)).1
      else
        indexOf h.dir.loadIndex.1.rows := by
  rw [openIndex, view_bind] at hx
  dsimp only at hx
  split at hx
  case isTrue hc =>
    have ⟨_, _, _, hx⟩ := bind_eq_ok.mp hx
    have ⟨_, _, _, hx⟩ := bind_eq_ok.mp hx
    cases hx
    rw [if_pos hc]
  case isFalse hc =>
    cases hx
    rw [if_neg hc]

-- A file that can not be read is not loaded.
theorem loaded_loadGrants {load : Bytes → Except String α} {dir : StateDir} {kind : GrantKind} :
    loaded (loadGrants load dir kind) = loaded (loadAll load (dir.grants kind)) := by
  refine Sorted.filterMap_foldr_orderedInsert fun f hf => ?_
  have ⟨_, _, hf⟩ := List.mem_map.mp hf
  rw [← hf]
  rfl

-- The reports that the log already has.
def reported (events : List EventDraft) : List String :=
  (events.filter (·.kind = .degraded)).map (·.detail)

-- The grants that are ignored, each with the reason.
def ignored (node : String) (anchors : TrustAnchors) (current : AList fun _ : String => Digest) (dir : StateDir) :
    List String :=
  problems "baseline" (dir.root ++ "/baselines") (loadGrants (loadBaseline node anchors current) dir .baseline) ++
  problems "approval" (dir.root ++ "/approvals") (loadGrants (loadApproval node anchors current) dir .approval)

section

variable {node : NodeInfo} {anchors : TrustAnchors} {policy : ValidPolicy} {revocations : Revocations} {log : EventLog}

theorem assemble_does : Does Host.Act (assemble node anchors policy revocations log) := by
  refine .bind .ofExcept fun _ => .bind .ofExcept fun _ => .bind .view fun dir => .bind noteTorn_does fun _ => ?_
  exact .bind (.fold (fun _ _ _ => noteProblem_does) _) fun _ => .bind openIndex_does fun _ => .pure

theorem openLocked_acts (hl : h.ledger = .new) :
    h.Quiet (openLocked node anchors policy revocations h).2 ∨
    ReflTransGen Host.Act h.repaired (openLocked node anchors policy revocations h).2 := by
  rw [openLocked]
  obtain ⟨ho, _⟩ | ⟨why, h₁, ho, ha⟩ := Host.openLedger_cases hl
  · rw [bind_ok ho]
    exact .inr (assemble_does _)
  · rw [bind_error ho]
    cases ha
    case found => exact .inl .refl
    case advanced => exact .inl .advance
    case trimmed => exact .inl Host.quiet_trimmed
    case stuck => exact .inl (Host.quiet_trimmed.trans .advance)
    case repaired => exact .inr .refl

-- Nothing has changed, or the log was repaired first.
theorem open_acts (hl : h.ledger = .new) :
    h.Quiet (Engine.open h).2 ∨ ReflTransGen Host.Act h.repaired (Engine.open h).2 := by
  let P (r : Except Halt Engine × Host) : Prop := h.Quiet r.2 ∨ ReflTransGen Host.Act h.repaired r.2
  have he (why : Halt) : P (.error why, h) := .inl .refl
  change P _
  refine ofExcept_bind_cases he fun _ _ => ofExcept_bind_cases he fun _ _ => ofExcept_bind_cases he fun _ _ => ?_
  exact ofExcept_bind_cases he fun _ _ => ofExcept_bind_cases he fun _ _ => openLocked_acts hl

-- The steps of opening that come to an end: what is loaded, and what is written from the repair of the log on.
structure Assembles (h : Host) (e : Engine) (h' : Host) (h₁ h₂ : Host) : Prop where
  node        : loadNode h.dir = .ok e.node
  anchors     : h.dir.anchors = .ok e.anchors
  policy      : loadPolicy h.dir e.anchors = .ok e.policy
  revocations : loadRevocations h.dir e.anchors = .ok e.revocations
  device      : ∃ key, h.dir.deviceKey = .ok key
  unlocked    : h.locked = false
  started     : h.dir.log.replayed ≠ []
  policyFloor : History.floor .policyLoad h.dir.log.replayed ≤ e.policy.epoch
  listFloor   : History.floor .revocation h.dir.log.replayed ≤ e.revocations.epoch
  torn        : noteTorn e.policy h.dir.log h.repaired = (.ok (), h₁)
  problems    : fold (fun _ problem => noteProblem e.policy (reported h.dir.log.replayed) problem) ()
    (ignored e.node.nodeId e.anchors (History.current h.dir.log.replayed) h.dir) h₁ = (.ok (), h₂)
  states      : e.states = History.states h.dir.log.replayed
  index       : openIndex e.policy h.dir.log.replayed e.states h₂ = (.ok e.index, h')
  baselines   : e.baselines = (loaded (loadAll
    (loadBaseline e.node.nodeId e.anchors (History.current h.dir.log.replayed)) (h.dir.grants .baseline))).map
      fun b => (b.name, b)
  approvals   : e.approvals = (loaded (loadAll
    (loadApproval e.node.nodeId e.anchors (History.current h.dir.log.replayed)) (h.dir.grants .approval))).foldl
      (fun m a => m.insert a.1 a.2) ∅

theorem open_assembles (hl : h.ledger = .new) (hx : Engine.open h = (.ok e, h')) :
    ∃ h₁ h₂, Assembles h e h' h₁ h₂ := by
  rw [Engine.open, view_bind] at hx
  have ⟨node, hn, hx⟩ := ofExcept_bind_eq_ok.mp hx
  have ⟨anchors, ha, hx⟩ := ofExcept_bind_eq_ok.mp hx
  have ⟨policy, hp, hx⟩ := ofExcept_bind_eq_ok.mp hx
  have ⟨list, hr, hx⟩ := ofExcept_bind_eq_ok.mp hx
  have ⟨key, hk, hx⟩ := ofExcept_bind_eq_ok.mp hx
  rw [openLocked] at hx
  obtain ⟨ho, hlock, hne⟩ | ⟨why, h₁, ho, _⟩ := Host.openLedger_cases hl
  case inr =>
    rw [bind_error ho] at hx
    cases hx
  case inl =>
    rw [bind_ok ho] at hx
    have ⟨_, hf, hx⟩ := ofExcept_bind_eq_ok.mp hx
    have ⟨_, hg, hx⟩ := ofExcept_bind_eq_ok.mp hx
    rw [view_bind] at hx
    have ⟨_, h₁, ht, hx⟩ := bind_eq_ok.mp hx
    have ⟨_, h₂, hq, hx⟩ := bind_eq_ok.mp hx
    have ⟨index, h₃, hi, hx⟩ := bind_eq_ok.mp hx
    cases hx
    exact ⟨h₁, h₂, {
      node        := Except.mapError_eq_ok.mp hn
      anchors     := Except.mapError_eq_ok.mp ha
      policy      := Except.mapError_eq_ok.mp hp
      revocations := Except.mapError_eq_ok.mp hr
      device      := ⟨key, Except.mapError_eq_ok.mp hk⟩
      unlocked    := hlock
      started     := hne
      policyFloor := Except.ensure_eq_ok.mp (Except.mapError_eq_ok.mp hf)
      listFloor   := Except.ensure_eq_ok.mp (Except.mapError_eq_ok.mp hg)
      torn        := ht
      problems    := hq
      states      := rfl
      index       := hi
      baselines   := congrArg (List.map _) loaded_loadGrants
      approvals   := congrArg (List.foldl _ ∅) loaded_loadGrants
    }⟩

-- The log is all that is different when it comes to the index.
theorem Assembles.logOnly {h₁ h₂ : Host} (a : Assembles h e h' h₁ h₂) :
    Host.LogOnly h h₂ := by
  have ht : Host.LogOnly h.repaired h₁ := .of_steps (noteTorn_logOnly.of_ok a.torn)
  have hp : Host.LogOnly h₁ h₂ := .of_steps ((Does.fold (fun _ _ _ => noteProblem_logOnly) _).of_ok a.problems)
  exact Host.LogOnly.trans (show Host.LogOnly h h.repaired from rfl) (ht.trans hp)

-- An engine that was opened is made of what was found in the directory. After the repair of the log, only events
-- that change nothing are new.
theorem open_ok (hl : h.ledger = .new) (hx : Engine.open h = (.ok e, h')) :
    Opens h.dir e ∧ h.locked = false ∧ ReflTransGen Host.Act h.repaired h' := by
  have ⟨h₁, h₂, a⟩ := open_assembles hl hx
  have ht := (noteTorn_does (p := e.policy)).of_ok a.torn
  have hp := (Does.fold (fun _ _ _ => noteProblem_does) _).of_ok a.problems
  have hindex := openIndex_ok a.index
  have hd : h₂.dir = { h.dir with log := h₂.dir.log } := a.logOnly
  rw [hd] at hindex
  exact ⟨{ a with index := hindex }, a.unlocked, ht.trans (hp.trans (openIndex_does.of_ok a.index))⟩

end

end Engine
