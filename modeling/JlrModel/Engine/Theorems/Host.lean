import JlrModel.Engine.Act

open Program

variable [Crypto]

namespace Host

variable {h h₁ h₂ : Host} {d : EventDraft}

namespace LogOnly

-- What does not depend on the log is the same.
theorem same {f : StateDir → α} (hl : LogOnly h h₁) (hf : ∀ dir log, f { dir with log } = f dir) :
    f h₁.dir = f h.dir :=
  (congrArg f hl).trans (hf _ _)

theorem trans (hl : LogOnly h h₁) (hl' : LogOnly h₁ h₂) : LogOnly h h₂ := by
  rw [LogOnly, hl] at hl'
  exact hl'

theorem of_steps (hs : Relation.ReflTransGen LogOnly h h₁) : LogOnly h h₁ := by
  induction hs
  case refl => rfl
  case tail hl ih => exact ih.trans hl

theorem setLog {f : EventLog → EventLog} (hl : LogOnly h h₁) : LogOnly h (h₁.setLog f) := by
  have hd := congrArg (fun dir : StateDir => { dir with log := f h₁.dir.log }) hl
  exact hd

end LogOnly

namespace Quiet

theorem refl : Quiet h h :=
  ⟨rfl, rfl, rfl, id⟩

theorem trans (q : Quiet h h₁) (q' : Quiet h₁ h₂) : Quiet h h₂ where
  dir      := q.dir.trans q'.dir
  events   := q'.events.trans q.events
  left     := q'.left.trans q.left
  open'    := q.open' ∘ q'.open'

theorem advance : Quiet h h.advance :=
  ⟨rfl, rfl, rfl, id⟩

theorem setSync {sync : Bool} : Quiet h (h.setLedger fun l => { l with sync }) :=
  ⟨rfl, rfl, rfl, id⟩

theorem poison : Quiet h (h.setLedger fun l => { l with poisoned := true }) :=
  ⟨rfl, rfl, rfl, nofun⟩

-- A part of the log that no reader looks at.
theorem setLog {f : EventLog → EventLog} (he : (f h.dir.log).events = h.dir.log.events)
    (hl : (f h.dir.log).left = h.dir.log.left) : Quiet h (h.setLog f) :=
  ⟨rfl, he, hl, id⟩

theorem grants (q : Quiet h h₁) : h₁.dir.grants = h.dir.grants :=
  q.dir.same (f := StateDir.grants) fun _ _ => rfl

theorem replayed (q : Quiet h h₁) : h₁.dir.log.replayed = h.dir.log.replayed := by
  rw [EventLog.replayed, q.events, q.left]
  rfl

end Quiet

theorem replayed_logged : (h.logged d).dir.log.replayed = h.dir.log.events ++ [d] ++ h.dir.log.left.toList :=
  rfl

theorem replayed_lost : (h.lost d).dir.log.replayed = h.dir.log.events ++ [d] :=
  rfl

theorem nextFate_apply : nextFate h = (.ok (h.oracle.fate h.tick), h.advance) :=
  rfl

-- The ways in which an operation can go.
theorem operate_cases (error : IoError → EngineError) (change : StateDir → StateDir) (h : Host) :
    operate error change h = (.ok (), h.advance.setDir change) ∨
    ∃ why, operate error change h = (.error why, h.advance) ∨
      operate error change h = (.error why, h.advance.setDir change) := by
  rw [operate, bind_ok nextFate_apply]
  match h.oracle.fate h.tick with
  | .done               => exact .inl rfl
  | .failed e           => exact .inr ⟨_, .inl rfl⟩
  | .broken e .whole    => exact .inr ⟨_, .inr rfl⟩
  | .broken e .nothing  => exact .inr ⟨_, .inl rfl⟩
  | .broken e (.part n) => exact .inr ⟨_, .inl rfl⟩
  | .stopped .whole     => exact .inr ⟨_, .inr rfl⟩
  | .stopped .nothing   => exact .inr ⟨_, .inl rfl⟩
  | .stopped (.part n)  => exact .inr ⟨_, .inl rfl⟩

theorem operate_done {error : IoError → EngineError} {change : StateDir → StateDir}
    (hf : h.oracle.fate h.tick = .done) : operate error change h = (.ok (), h.advance.setDir change) := by
  rw [operate, bind_ok nextFate_apply, hf]
  rfl

theorem operate_eq_ok {error : IoError → EngineError} {change : StateDir → StateDir}
    (hx : operate error change h = (.ok (), h₁)) : h₁ = h.advance.setDir change := by
  obtain ho | ⟨_, ho | ho⟩ := operate_cases error change h <;> rw [ho] at hx <;> cases hx
  rfl

-- The ways in which replacing a file can go.
theorem writeAtomic_cases (data : Bytes) (change : File → StateDir → StateDir) (h : Host) :
    (∃ why h₁, Quiet h h₁ ∧ writeAtomic data change h = (.error why, h₁)) ∨
    ∃ f : File, f.data = data ∧ (writeAtomic data change h = (.ok (), h.advance.setDir (change f)) ∨
      ∃ why, writeAtomic data change h = (.error why, h.advance.setDir (change f))) := by
  by_cases hl : data.length < 2 ^ 63
  case neg => exact .inl ⟨_, h, .refl, by rw [writeAtomic, dif_neg hl]; rfl⟩
  case pos =>
    rw [writeAtomic, dif_pos hl]
    obtain ho | ⟨why, ho | ho⟩ := operate_cases .io (change ⟨data, hl⟩) h
    · exact .inr ⟨⟨data, hl⟩, rfl, .inl ho⟩
    · exact .inl ⟨why, _, .advance, ho⟩
    · exact .inr ⟨⟨data, hl⟩, rfl, .inr ⟨why, ho⟩⟩

theorem writeAtomic_eq_ok {data : Bytes} {change : File → StateDir → StateDir}
    (hx : writeAtomic data change h = (.ok (), h₁)) :
    ∃ f : File, f.data = data ∧ h₁ = h.advance.setDir (change f) := by
  obtain ⟨_, _, _, ho⟩ | ⟨f, hf, ho | ⟨_, ho⟩⟩ := writeAtomic_cases data change h <;> rw [ho] at hx <;> cases hx
  exact ⟨f, hf, rfl⟩

theorem writeAtomic_done {data : Bytes} {change : File → StateDir → StateDir} (hl : data.length < 2 ^ 63)
    (hf : h.oracle.fate h.tick = .done) : writeAtomic data change h = (.ok (), h.advance.setDir (change ⟨data, hl⟩)) := by
  rw [writeAtomic, dif_pos hl, operate_done hf]

theorem record_done {write : EventLog → EventLog} {leave : Left → EventLog → EventLog}
    (hp : h.ledger.poisoned = false) (hf : h.oracle.fate h.tick = .done) :
    record write leave h = (.ok (), h.advance.setLog write) := by
  rw [record, view_bind, hp, if_neg Bool.false_ne_true, bind_ok nextFate_apply, hf]
  rfl

-- The ways in which writing a record can go.
theorem record_cases (write : EventLog → EventLog) (leave : Left → EventLog → EventLog) (h : Host) :
    (∃ why h₁, Quiet h h₁ ∧ record write leave h = (.error why, h₁)) ∨
    h.ledger.poisoned = false ∧ (record write leave h = (.ok (), h.advance.setLog write) ∨
      ∃ why left, record write leave h =
        (.error why, (h.advance.setLog (leave left)).setLedger fun l => { l with poisoned := true })) := by
  rw [record, bind_ok view_apply]
  cases hp : h.ledger.poisoned
  case true => exact .inl ⟨_, h, .refl, rfl⟩
  case false =>
    rw [if_neg Bool.false_ne_true, bind_ok nextFate_apply]
    match h.oracle.fate h.tick with
    | .done          => exact .inr ⟨rfl, .inl rfl⟩
    | .failed e      => exact .inl ⟨_, h.advance, .advance, rfl⟩
    | .broken e left => exact .inr ⟨rfl, .inr ⟨_, left, rfl⟩⟩
    | .stopped left  => exact .inr ⟨rfl, .inr ⟨_, left, rfl⟩⟩

theorem record_eq_ok {write : EventLog → EventLog} {leave : Left → EventLog → EventLog}
    (hx : record write leave h = (.ok (), h₁)) : h₁ = h.advance.setLog write := by
  obtain ⟨_, _, _, ho⟩ | ⟨_, ho | ⟨_, _, ho⟩⟩ := record_cases write leave h <;> rw [ho] at hx <;> cases hx
  rfl

-- The ways in which appending an event can go.
inductive Appends (d : EventDraft) (h : Host) : Except Halt Unit × Host → Prop
  | done {h₁ : Host}   : Quiet h h₁ → h₁.ledger.poisoned = false → Appends d h (.ok (), h₁.logged d)
  | failed {h₁ : Host} : Quiet h h₁ → Appends d h (.error why, h₁)
  | lost {h₁ : Host}   : Quiet h h₁ → h₁.ledger.poisoned = false → Appends d h (.error why, h₁.lost d)

theorem Appends.of_quiet (q : Quiet h h₁) (a : Appends d h₁ r) : Appends d h r := by
  cases a
  case done q' hp => exact .done (q.trans q') hp
  case failed q' => exact .failed (q.trans q')
  case lost q' hp => exact .lost (q.trans q') hp

theorem append_appends : Appends d h (append d h) := by
  cases record_cases (fun log => { log with events := log.events ++ [d] }) (leave d) h
  case inl hq =>
    have ⟨_, _, q, hr⟩ := hq
    rw [append, hr]
    exact .failed q
  case inr hr =>
    have ⟨hp, hr⟩ := hr
    rw [append]
    obtain hr | ⟨_, left, hr⟩ := hr <;> rw [hr]
    · exact .done .advance hp
    · cases left
      case nothing => exact .failed (.trans .advance .poison)
      case part => exact .failed (.trans .advance (.trans (.setLog rfl rfl) .poison))
      case whole => exact .lost .advance hp

theorem syncFs_quiet : Quiet h (syncFs h).2 := by
  rw [syncFs]
  obtain ho | ⟨_, ho | ho⟩ := operate_cases .io id h <;> rw [ho] <;> exact .advance

theorem checkpoint_quiet : Quiet h (checkpoint h).2 := by
  rw [checkpoint]
  cases record_cases (fun log => { log with covered := log.events.length }) leaveCheckpoint h
  case inl hq =>
    have ⟨_, _, q, hr⟩ := hq
    rw [hr]
    exact q
  case inr hr =>
    have ⟨_, hr⟩ := hr
    obtain hr | ⟨_, left, hr⟩ := hr <;> rw [hr] <;> dsimp only
    · exact .trans .advance (.setLog rfl rfl)
    · refine .trans .advance (.trans (.setLog ?_ ?_) .poison) <;> cases left <;> rfl

theorem Appends.logOnly (a : Appends d h r) : LogOnly h r.2 := by
  cases a
  case done q _ => exact LogOnly.setLog q.dir
  case failed q => exact q.dir
  case lost q _ =>
    have hl := LogOnly.setLog (f := fun log => { log with left := some d }) q.dir
    exact hl

theorem append_logOnly : Does LogOnly (append d) :=
  fun _ => .single append_appends.logOnly

section

open Relation

theorem Act.of_appends (hd : d.Note) (a : Appends d h r) : ReflTransGen Act h r.2 := by
  cases a
  case done q hp => exact .tail (.single (.quiet q)) (.event hp hd)
  case failed q => exact .single (.quiet q)
  case lost q hp => exact .tail (.single (.quiet q)) (.lost hp hd)

variable {error : IoError → EngineError} {change : StateDir → StateDir}

theorem operate_does {A : Host → Host → Prop} (ha : ∀ h : Host, A h h.advance)
    (hc : ∀ h : Host, A h (h.setDir change)) : Does A (operate error change) := by
  intro h
  obtain ho | ⟨_, ho | ho⟩ := operate_cases error change h <;> rw [ho]
  · exact .tail (.single (ha h)) (hc _)
  · exact .single (ha h)
  · exact .tail (.single (ha h)) (hc _)

theorem writeAtomic_does {A : Host → Host → Prop} {data : Bytes} {change : File → StateDir → StateDir}
    (ha : ∀ h : Host, A h h.advance) (hc : ∀ (h : Host) (f : File), f.data = data → A h (h.setDir (change f))) :
    Does A (writeAtomic data change) := by
  unfold writeAtomic
  split
  case isTrue => exact operate_does ha fun h => hc h _ rfl
  case isFalse => exact .halt

theorem now_does : Does Act now :=
  fun _ => .single (.quiet .advance)

theorem syncFs_does : Does Act syncFs :=
  operate_does (fun _ => .quiet .advance) fun _ => .quiet .refl

theorem syncLedger_does : Does Act syncLedger :=
  operate_does (fun _ => .quiet .advance) fun _ => .quiet .refl

theorem setSync_does {sync : Bool} : Does Act (setSync sync) :=
  fun _ => .single (.quiet .setSync)

theorem append_does (hd : d.Note) : Does Act (append d) :=
  fun _ => Act.of_appends hd append_appends

theorem checkpoint_does : Does Act checkpoint :=
  fun _ => .single (.quiet checkpoint_quiet)

theorem putObject_does {kind : ObjectKind} {data : Bytes} : Does Act (putObject kind data) := by
  refine .bind .view fun _ => .bind (.onlyIf fun _ => ?_) fun _ => .pure
  refine writeAtomic_does (fun _ => .quiet .advance) fun h f hf => ?_
  rw [← hf]
  exact .object

theorem saveIndex_does {index : List (String × IndexRow)} : Does Act (saveIndex index) :=
  writeAtomic_does (fun _ => .quiet .advance) fun _ _ _ => .index

end

end Host
