import JlrModel.Engine.Theorems.Process
import JlrModel.Engine.Theorems.Saved

-- Opening a directory a second time.

open Cbor Program

variable [Crypto] {h h' h₁ h₂ : Host} {ds ds' : List EventDraft} {es : List EventDraft}

namespace Host

-- Each operation between two states of a process succeeds.
def Smooth (h h' : Host) : Prop :=
  ∀ i, h.tick ≤ i → i < h'.tick → h.oracle.fate i = .done

-- A process that has appended events, one after the other.
def noted (h : Host) (ds : List EventDraft) : Host :=
  { h.setLog fun log => { log with events := log.events ++ ds } with tick := h.tick + ds.length }

theorem noted_nil : h.noted [] = h := by
  simp only [noted, setLog, setDir, List.append_nil]
  rfl

theorem noted_noted : (h.noted ds).noted ds' = h.noted (ds ++ ds') := by
  simp only [noted, setLog, setDir, List.append_assoc, List.length_append, Nat.add_assoc]

theorem Smooth.left (hs : h.Smooth h') (ht : h₁.tick ≤ h'.tick) : h.Smooth h₁ :=
  fun i hi hl => hs i hi (hl.trans_le ht)

theorem Smooth.right (hs : h.Smooth h') (ho : h₁.oracle = h.oracle) (ht : h.tick ≤ h₁.tick) : h₁.Smooth h' :=
  fun i hi hl => ho ▸ hs i (ht.trans hi) hl

theorem operate_smooth {error : IoError → EngineError} {change : StateDir → StateDir}
    (hs : h.Smooth (operate error change h).2) : operate error change h = (.ok (), h.advance.setDir change) := by
  have ht : h.tick < (operate error change h).2.tick := by
    obtain ho | ⟨_, ho | ho⟩ := operate_cases error change h <;> rw [ho] <;> exact Nat.lt_succ_self _
  exact operate_done (hs h.tick (Nat.le_refl _) ht)

theorem Smooth.noted (hs : h.Smooth h') : (h.noted ds).Smooth h' :=
  hs.right rfl (Nat.le_add_right _ _)

-- If nothing fails, a program appends these events and does nothing else.
structure Notes (ds : List EventDraft) (x : HostM Unit) : Prop where
  goes : Does (Proceeds fun _ => True) x
  done : ∀ h, h.ledger.poisoned = false → h.Smooth (x h).2 → x h = (.ok (), h.noted ds)

namespace Notes

variable {x y : HostM Unit} {d : EventDraft}

protected theorem pure : Notes [] (pure ()) where
  goes       := .pure
  done _ _ _ := congrArg (Prod.mk _) noted_nil.symm

theorem append : Notes [d] (append d) where
  goes         := append_proceeds trivial
  done h hp hs := by
    have hr : Host.append d h = _ := bind_ok view_apply
    rw [hp, if_neg Bool.false_ne_true, bind_ok nextFate_apply] at hr
    have ht : h.tick < (Host.append d h).2.tick := by
      rw [hr]
      cases h.oracle.fate h.tick <;> exact Nat.lt_succ_self _
    rw [hr, hs h.tick (Nat.le_refl _) ht]
    rfl

protected theorem bind (hx : Notes ds x) (hy : Notes ds' y) : Notes (ds ++ ds') (x >>= fun _ => y) where
  goes         := .bind hx.goes fun _ => hy.goes
  done h hp hs := by
    -- The second program only comes later.
    have ht : (x h).2.tick ≤ ((x >>= fun _ => y) h).2.tick := by
      cases hr : x h
      case mk r h₁ =>
        cases r
        case error => rw [bind_error hr]
        case ok => rw [bind_ok hr]; exact (Proceeds.of_steps (hy.goes h₁)).tick
    have hr := hx.done h hp (hs.left ht)
    rw [bind_ok hr] at hs ⊢
    rw [hy.done (h.noted ds) hp hs.noted, noted_noted]

protected theorem onlyIf {c : Prop} [Decidable c] (hx : Notes ds x) :
    Notes (if c then ds else []) (onlyIf c x) := by
  unfold onlyIf
  split
  case isTrue => exact hx
  case isFalse => exact .pure

theorem fold {f : α → List EventDraft} {g : α → HostM Unit} (hg : ∀ a, Notes (f a) (g a)) (as : List α) :
    Notes (as.flatMap f) (fold (fun _ a => g a) () as) := by
  induction as
  case nil => exact .pure
  case cons a as ih => exact .bind (hg a) ih

theorem of_ok (n : Notes ds x) (hx : x h = (.ok (), h')) (hp : h.ledger.poisoned = false) (hs : h.Smooth h') :
    h' = h.noted ds := by
  have hd := n.done h hp
  rw [hx] at hd
  exact congrArg Prod.snd (hd hs)

theorem tick_le (n : Notes ds x) (hx : x h = (.ok (), h')) : h.tick ≤ h'.tick :=
  (Proceeds.of_steps (n.goes.of_ok hx)).tick

end Notes

end Host

namespace Engine

variable {p : ValidPolicy} {already : List String} {log : EventLog}

theorem appendBestEffort_notes {d : EventDraft} : Host.Notes [d] (appendBestEffort d) where
  goes         := .bind (.attempt (Host.append_proceeds trivial)) fun _ => .pure
  done h hp hs := by
    have ha : (attempt Halt.error? (Host.append d) h).2 = (Host.append d h).2 := attempt_snd
    have hb : (appendBestEffort d h).2 = (Host.append d h).2 := by
      rw [← ha]
      cases hr : attempt Halt.error? (Host.append d) h
      case mk r h₁ =>
        cases r
        case error => exact congrArg Prod.snd (bind_error hr)
        case ok => exact congrArg Prod.snd (bind_ok hr)
    rw [hb] at hs
    exact bind_ok (attempt_ok (Host.Notes.append.done h hp hs))

-- The reports about the ignored grants that the log does not have yet.
def reports (p : ValidPolicy) (already : List String) (problem : String) : List EventDraft :=
  let detail := sanitize ("ignored unverifiable object: " ++ problem)
  if detail ∉ already then [degradedNote p detail] else []

theorem reports_note {problem : String} {d : EventDraft} (hd : d ∈ reports p already problem) : d.Note := by
  have ⟨_, hd⟩ := List.mem_ite_nil_right.mp hd
  exact List.mem_singleton.mp hd ▸ degradedNote_note

omit [Crypto] in
theorem reported_append {detail : String} (hd : detail ∈ reported es) : detail ∈ reported (es ++ ds) := by
  rw [reported, List.filter_append, List.map_append]
  exact List.mem_append_left _ hd

-- A problem is reported, before or now.
theorem reported_of_mem {problem : String} {problems : List String} (hq : problem ∈ problems) :
    sanitize ("ignored unverifiable object: " ++ problem) ∈
      reported (es ++ (ds ++ problems.flatMap (reports p (reported es)))) := by
  let detail := sanitize ("ignored unverifiable object: " ++ problem)
  by_cases ha : detail ∈ reported es
  case pos => exact reported_append ha
  case neg =>
    have hr : degradedNote p detail ∈ problems.flatMap (reports p (reported es)) :=
      List.mem_flatMap.mpr ⟨problem, hq, List.mem_ite_nil_right.mpr ⟨ha, List.mem_singleton_self _⟩⟩
    have hr := List.mem_append_right es (List.mem_append_right ds hr)
    exact List.mem_map.mpr ⟨_, List.mem_filter.mpr ⟨hr, rfl⟩, rfl⟩

theorem noteProblem_notes {problem : String} :
    Host.Notes (reports p already problem) (noteProblem p already problem) :=
  .onlyIf appendBestEffort_notes

theorem noteTorn_notes : ∃ ds, (∀ d ∈ ds, d.Note) ∧ Host.Notes ds (noteTorn p log) := by
  refine ⟨_, ?_, .bind (.onlyIf .append) (.onlyIf .append)⟩
  simp only [List.mem_append, List.mem_ite_nil_right, List.mem_singleton]
  rintro d (⟨_, rfl⟩ | ⟨_, rfl⟩) <;> exact degradedNote_note

theorem openIndex_tick_le {events : List EventDraft} {states : States} {index : List (String × IndexRow)}
    (hx : openIndex p events states h = (.ok index, h')) : h.tick ≤ h'.tick := by
  have ho : Does (Host.Proceeds fun _ => True) (openIndex p events states) := by
    refine .bind .view fun dir => .ite (fun _ => ?_) fun _ => .pure
    exact .bind appendBestEffort_notes.goes fun _ => .bind (.attempt Host.saveIndex_proceeds) fun _ => .pure
  exact (Host.Proceeds.of_steps (ho.of_ok hx)).tick

-- An index that was lost is there after the directory was opened.
theorem openIndex_smooth {events : List EventDraft} {states : States} {index : List (String × IndexRow)}
    (hx : openIndex p events states h = (.ok index, h')) (hp : h.ledger.poisoned = false) (hs : h.Smooth h')
    (hf : (toCbor (⟨index.map Prod.snd⟩ : IndexFile)).length < 2 ^ 63) :
    (∃ d, d.Note ∧ h'.dir = { (h.noted [d]).dir with index := some ⟨_, hf⟩ }) ∨
    h' = h ∧ ¬ (h.dir.loadIndex.2 ∧ states.entries ≠ []) := by
  rw [openIndex, view_bind] at hx
  dsimp only at hx
  split at hx
  case isFalse hn =>
    cases hx
    exact .inr ⟨rfl, hn⟩
  case isTrue =>
    obtain ⟨_, h₁, ha, hx⟩ := bind_eq_ok.mp hx
    obtain ⟨_, h₂, hw, hx⟩ := bind_eq_ok.mp hx
    obtain ⟨hi, rfl⟩ := pure_eq_ok.mp hx
    have hw : _ = h₂ := congrArg Prod.snd hw
    rw [attempt_snd, hi] at hw
    have ht : h₁.tick ≤ h₂.tick := by
      rw [← hw]
      exact (Host.Proceeds.of_steps (Host.saveIndex_proceeds (K := fun _ => True) h₁)).tick
    obtain rfl := appendBestEffort_notes.of_ok ha hp (hs.left ht)
    rw [Host.saveIndex, Host.writeAtomic, dif_pos hf] at hw
    rw [← hw, Host.operate_smooth (hw ▸ hs.noted)]
    exact .inl ⟨_, degradedNote_note, rfl⟩

-- What was reported is not reported again.
theorem fold_noteProblem {problems : List String}
    (hr : ∀ problem ∈ problems, sanitize ("ignored unverifiable object: " ++ problem) ∈ already) :
    fold (fun _ problem => noteProblem p already problem) () problems h = (.ok (), h) := by
  induction problems
  case nil => rfl
  case cons problem problems ih =>
    have hp : noteProblem p already problem h = (.ok (), h) :=
      congrFun (if_neg (not_not.mpr (hr problem List.mem_cons_self))) h
    exact (bind_ok hp).trans (ih fun problem hq => hr problem (List.mem_cons_of_mem _ hq))

-- What opening a directory leaves behind, if nothing fails.
structure Opened (h : Host) (e : Engine) (dir : StateDir) (ds : List EventDraft) : Prop where
  notes    : ∀ d ∈ ds, d.Note
  log      : dir.log = { h.dir.log.repaired with events := h.dir.log.replayed ++ ds }
  others   : { dir with log := h.dir.log, index := h.dir.index } = h.dir
  told     : ∀ problem ∈ ignored e.node.nodeId e.anchors (History.current h.dir.log.replayed) h.dir,
    sanitize ("ignored unverifiable object: " ++ problem) ∈ reported (h.dir.log.replayed ++ ds)
  indexed  : ¬ (dir.loadIndex.2 ∧ e.states.entries ≠ [])

-- The log is repaired, and has the reports that it did not have.
theorem Assembles.noted {e : Engine} (a : Assembles h e h' h₁ h₂) (hl : h.ledger = .new) (hs : h.Smooth h₂) :
    ∃ ds, (∀ d ∈ ds, d.Note) ∧ h₂ = h.repaired.noted ds ∧
      ∀ problem ∈ ignored e.node.nodeId e.anchors (History.current h.dir.log.replayed) h.dir,
        sanitize ("ignored unverifiable object: " ++ problem) ∈ reported (h.dir.log.replayed ++ ds) := by
  have hp : h.repaired.ledger.poisoned = false := congrArg LedgerHandle.poisoned hl
  have ⟨ts, hts, nt⟩ : ∃ ds, (∀ d ∈ ds, d.Note) ∧ Host.Notes ds (noteTorn e.policy h.dir.log) := noteTorn_notes
  have np (problem : String) : Host.Notes (reports e.policy (reported h.dir.log.replayed) problem)
      (noteProblem e.policy (reported h.dir.log.replayed) problem) := noteProblem_notes
  have nr := Host.Notes.fold np
    (ignored e.node.nodeId e.anchors (History.current h.dir.log.replayed) h.dir)
  have hs : h.repaired.Smooth h₂ := hs.right rfl (Nat.le_add_right _ 2)
  obtain rfl := nt.of_ok a.torn hp (hs.left (nr.tick_le a.problems))
  obtain rfl := nr.of_ok a.problems hp hs.noted
  refine ⟨_, ?_, Host.noted_noted, fun problem hq => reported_of_mem hq⟩
  intro d hd
  cases List.mem_append.mp hd
  case inl hd => exact hts d hd
  case inr hd =>
    have ⟨_, _, hd⟩ := List.mem_flatMap.mp hd
    exact reports_note hd

theorem opened_smooth {e : Engine} (hl : h.ledger = .new) (hx : Engine.open h = (.ok e, h')) (hs : h.Smooth h')
    (hf : (toCbor (⟨e.index.map Prod.snd⟩ : IndexFile)).length < 2 ^ 63) : ∃ ds, Opened h e h'.dir ds := by
  have ⟨h₁, h₂, a⟩ := open_assembles hl hx
  obtain ⟨ds, hds, rfl, hr⟩ := a.noted hl (hs.left (openIndex_tick_le a.index))
  have hp : h.repaired.ledger.poisoned = false := congrArg LedgerHandle.poisoned hl
  have hs : h.repaired.Smooth h' := hs.right rfl (Nat.le_add_right _ 2)
  obtain ⟨d, hd, hdir⟩ | ⟨rfl, hn⟩ := openIndex_smooth a.index hp hs.noted hf
  case inl =>
    rw [Host.noted_noted] at hdir
    refine ⟨ds ++ [d], ?_, ?_, ?_, fun problem hq => ?_, ?_⟩
    · intro d' hd'
      cases List.mem_append.mp hd'
      case inl hd' => exact hds d' hd'
      case inr hd' => exact List.mem_singleton.mp hd' ▸ hd
    · rw [hdir]
      rfl
    · rw [hdir]
      rfl
    · rw [← List.append_assoc]
      exact reported_append (hr problem hq)
    · rw [hdir, loadIndex_save rfl]
      exact fun h => Bool.false_ne_true h.left
  case inr => exact ⟨ds, hds, rfl, rfl, hr, hn⟩

namespace Opened

variable {e : Engine} {dir : StateDir}

theorem same {f : StateDir → α} (o : Opened h e dir ds) (hf : ∀ dir log index, f { dir with log, index } = f dir) :
    f dir = f h.dir :=
  (hf _ _ _).symm.trans (congrArg f o.others)

theorem replayed (o : Opened h e dir ds) : dir.log.replayed = h.dir.log.replayed ++ ds := by
  rw [o.log]
  exact List.append_nil _

theorem repaired (o : Opened h e dir ds) : dir.log.repaired = dir.log := by
  rw [EventLog.repaired, o.replayed, o.log]
  rfl

theorem dir_trimmed (o : Opened h e h₁.dir ds) : h₁.trimmed.dir = h₁.dir := by
  have ht : h₁.dir.log.trimmed = h₁.dir.log := by
    rw [o.log]
    rfl
  change { h₁.dir with log := h₁.dir.log.trimmed } = h₁.dir
  rw [ht]

theorem dir_repaired (o : Opened h e h₁.dir ds) : h₁.repaired.dir = h₁.dir := by
  change { h₁.dir with log := h₁.dir.log.repaired } = h₁.dir
  rw [o.repaired]

-- There is nothing left to report or to rebuild.
theorem assemble_eq (o : Opened h e h₁.dir ds) {revocations : Revocations}
    (hst : e.states = History.states h.dir.log.replayed) :
    (assemble e.node e.anchors p revocations h₁.dir.log h₁).2 = h₁ := by
  let P (r : Except Halt Engine × Host) : Prop := r.2 = h₁
  have he (why : Halt) : P (.error why, h₁) := rfl
  change P _
  refine ofExcept_bind_cases he fun _ _ => ofExcept_bind_cases he fun _ _ => ?_
  have ht : noteTorn p h₁.dir.log h₁ = (.ok (), h₁) := by
    rw [o.log]
    rfl
  have hr : ∀ problem ∈ ignored e.node.nodeId e.anchors (History.current h₁.dir.log.replayed) h₁.dir,
      sanitize ("ignored unverifiable object: " ++ problem) ∈ reported h₁.dir.log.replayed := by
    rw [o.replayed, History.current_notes o.notes, o.same (f := ignored _ _ _) fun _ _ _ => rfl]
    exact o.told
  have hi : openIndex p h₁.dir.log.replayed (History.states h₁.dir.log.replayed) h₁ =
      (.ok (indexOf h₁.dir.loadIndex.1.rows), h₁) := by
    rw [o.replayed, History.states_notes o.notes, ← hst]
    exact congrFun (if_neg o.indexed) h₁
  rw [view_bind, bind_ok ht]
  refine (congrArg Prod.snd (bind_ok (fold_noteProblem hr))).trans ?_
  exact congrArg Prod.snd (bind_ok hi)

end Opened

-- Opening a directory a second time changes nothing.
theorem open_again {e : Engine} (hl : h.ledger = .new) (hx : Engine.open h = (.ok e, h')) (hs : h.Smooth h')
    (hf : (toCbor (⟨e.index.map Prod.snd⟩ : IndexFile)).length < 2 ^ 63) (hl₁ : h₁.ledger = .new)
    (hd : h₁.dir = h'.dir) : (Engine.open h₁).2.dir = h'.dir := by
  have ⟨ds, o⟩ := opened_smooth hl hx hs hf
  have ⟨_, _, a⟩ := open_assembles hl hx
  rw [← hd] at o ⊢
  let P (r : Except Halt Engine × Host) : Prop := r.2.dir = h₁.dir
  have he (why : Halt) : P (.error why, h₁) := rfl
  change P _
  refine ofExcept_bind_cases he fun node hn => ofExcept_bind_cases he fun anchors ha => ?_
  refine ofExcept_bind_cases he fun policy _ => ofExcept_bind_cases he fun list _ => ?_
  refine ofExcept_bind_cases he fun key _ => ?_
  have hn := Except.mapError_eq_ok.mp hn
  have ha := Except.mapError_eq_ok.mp ha
  rw [o.same (f := loadNode) fun _ _ _ => rfl, a.node] at hn
  rw [o.same (f := StateDir.anchors) fun _ _ _ => rfl, a.anchors] at ha
  cases hn
  cases ha
  rw [openLocked]
  obtain ⟨ho, _⟩ | ⟨why, h₂, ho, hq⟩ := Host.openLedger_cases hl₁
  · have hr := o.dir_repaired
    rw [← hr] at o
    rw [bind_ok ho, ← hr]
    exact (congrArg Host.dir (o.assemble_eq a.states)).trans hr
  · rw [bind_error ho]
    cases hq
    case found => rfl
    case advanced => rfl
    case trimmed => exact o.dir_trimmed
    case stuck => exact o.dir_trimmed
    case repaired => exact o.dir_repaired

end Engine
