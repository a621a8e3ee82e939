import JlrModel.Boot.Media
import JlrModel.Theorems.Records

open Cbor Program

variable {d d' : Disk} {s s' t : BootState} {io : WriteIo} {b : Bytes}

namespace Disk

-- The state that is read from a disk.
def Yields (d : Disk) (s : BootState) : Prop :=
  ∀ media, (readState media d).map StateRead.intoState = .ok s

-- What is beside a state file does not matter.
theorem yields_file (h : d.state = some (.file b)) : d.Yields s ↔ fromCbor BootState b = .ok s := by
  unfold Yields readState
  rw [h]
  dsimp only
  constructor
  case mp =>
    intro h
    have h := h ""
    cases hb : fromCbor BootState b <;> rw [hb] at h <;> cases h
    rfl
  case mpr =>
    intro h _
    rw [h]
    rfl

theorem Yields.state (h : d.Yields s) (hd : d.state ≠ none) :
    ∃ b, d.state = some (.file b) ∧ fromCbor BootState b = .ok s := by
  match hs : d.state, hd with
  | some (.file b), _       => exact ⟨b, rfl, (yields_file hs).mp h⟩
  | some (.unreadable e), _ =>
    have h := h ""
    unfold readState at h
    rw [hs] at h
    cases h

-- A replacement that is torn is no replacement.
theorem yields_new (hd : d.state = none) (hn : d.new = some (.file b)) :
    d.Yields s ↔ match fromCbor BootState b with
      | .ok t    => t = s
      | .error _ => .fresh = s := by
  unfold Yields readState
  rw [hd, hn]
  dsimp only
  cases fromCbor BootState b <;> simp [Except.map, StateRead.intoState]

theorem yields_none (hd : d.state = none) (hn : d.new = none) : d.Yields s ↔ .fresh = s := by
  unfold Yields readState
  rw [hd, hn]
  simp [Except.map, StateRead.intoState]

-- One of the two states is read from the disk.
def Safe (s s' : BootState) (d : Disk) : Prop :=
  d.Yields s ∨ d.Yields s'

-- Whatever is done to the replacement, nothing is lost.
def Ready (s s' : BootState) (d : Disk) : Prop :=
  (∃ b, d.state = some (.file b) ∧ (fromCbor BootState b = .ok s ∨ fromCbor BootState b = .ok s')) ∨
    d.state = none ∧ (s = .fresh ∨ s' = .fresh)

theorem Ready.of_state (h : d.Safe s s') (hd : d.state ≠ none) : d.Ready s s' := by
  cases h
  case inl h =>
    have ⟨b, hb, hs⟩ := h.state hd
    exact .inl ⟨b, hb, .inl hs⟩
  case inr h =>
    have ⟨b, hb, hs⟩ := h.state hd
    exact .inl ⟨b, hb, .inr hs⟩

theorem Ready.setNew (h : d.Ready s s') (bytes : Bytes) : (Media.setNew bytes d).Ready s s' :=
  h

theorem Safe.of_file (hd : d.state = some (.file b))
    (h : fromCbor BootState b = .ok s ∨ fromCbor BootState b = .ok s') : d.Safe s s' :=
  h.imp (yields_file hd).mpr (yields_file hd).mpr

-- A part of the new state is either all of it or torn.
theorem Ready.safe (h : d.Ready s s') (hl : fromCbor BootState (toCbor s') = .ok s') {n : Nat}
    (hn : d.new = some (.file ((toCbor s').take n))) : d.Safe s s' := by
  cases h
  case inl h =>
    have ⟨b, hb, h⟩ := h
    exact .of_file hb h
  case inr h =>
    have ⟨hd, hf⟩ := h
    match hp : fromCbor BootState ((toCbor s').take n) with
    | .ok t    =>
      refine .inr ((yields_new hd hn).mpr ?_)
      rw [hp]
      exact (fromCbor_take hl hp).symm
    | .error _ =>
      refine hf.imp (fun hf => (yields_new hd hn).mpr ?_) (fun hf => (yields_new hd hn).mpr ?_)
      all_goals
        rw [hp]
        exact hf.symm

end Disk

-- However a rename ends, the replacement is where it is read.
theorem Renaming.apply_safe (hd : d.Safe s s') (hn : d.new = some (.file b))
    (hb : fromCbor BootState b = .ok s ∨ fromCbor BootState b = .ok s') (r : Renaming) : (r.apply d).Safe s s' := by
  cases r
  case unchanged => exact hd
  case renamed => exact .of_file hn hb
  case unlinked =>
    have hy (t : BootState) (ht : fromCbor BootState b = .ok t) : (Renaming.unlinked.apply d).Yields t := by
      refine (Disk.yields_new (d := Renaming.unlinked.apply d) rfl hn).mpr ?_
      rw [ht]
    exact hb.imp (hy s) (hy s')

-- The errors that the checks of `promote_recovered` do not see make no difference to what it has to do.
structure Harmless (d : Disk) (s s' : BootState) (stateExists newExists : MediaFate) : Prop where
  state : ∀ e b t, d.state ≠ none → stateExists = .fails e → newExists = .succeeds → d.new = some (.file b) →
    fromCbor BootState b = .ok t → t = s ∨ t = s'
  new   : ∀ e, d.state = none → stateExists ≠ .stops → newExists = .fails e → s = .fresh ∨ s' = .fresh

namespace Media

variable {P : Disk → Prop} {Q : Unit → Disk → Prop} {E : MediaHalt → Disk → Prop} {fate : MediaFate}

theorem operate_triple {whole part : Disk → Disk} (hw : ∀ d, P d → Q () (whole d)) (hp : ∀ e d, P d → E e (part d)) :
    Triple P (operate fate whole part) Q E := by
  cases fate
  case succeeds => exact .update hw
  case fails e => exact hp (.failed e)
  case stops => exact hp .stopped

theorem exists_triple {entry : Disk → Option Entry} (hp : ∀ e d, P d → E e d) :
    Triple P («exists» fate entry) (fun r d => P d ∧
      (fate = .succeeds ∧ r = (entry d).isSome ∨ (∃ e, fate = .fails e) ∧ r = false)) E := by
  cases fate
  case succeeds => exact .view fun d hd => ⟨hd, .inl ⟨rfl, rfl⟩⟩
  case fails e => exact .pure fun d hd => ⟨hd, .inr ⟨⟨e, rfl⟩, rfl⟩⟩
  case stops => exact .halt (hp .stopped)

theorem readNew_triple (hp : ∀ e d, P d → E e d) :
    Triple P (readNew fate) (fun bytes d => P d ∧ d.new = some (.file bytes)) E := by
  refine .bind (operate_triple (fun _ => id) hp) fun _ => .bind (.view (Q := fun e d => P d ∧ d.new = e)
    fun d hd => ⟨hd, rfl⟩) fun entry => ?_
  match entry with
  | some (.file b)       => exact .pure fun _ => id
  | some (.unreadable e) => exact .halt fun d hd => hp _ d hd.left
  | none                 => exact .halt fun d hd => hp _ d hd.left

end Media

-- A torn replacement beside no state file is all that is left of a first write.
theorem Disk.Yields.fresh_of_torn (hs : d.Yields s) (hd : d.state = none) (hn : d.new = some (.file b))
    (hb : fromCbor BootState b = .error e) : s = .fresh := by
  have h := (Disk.yields_new hd hn).mp hs
  rw [hb] at h
  exact h.symm

theorem Disk.Safe.ready (h : d.Safe s s') (hf : d.state = none → s = .fresh ∨ s' = .fresh) : d.Ready s s' := by
  by_cases hd : d.state = none
  case pos => exact .inr ⟨hd, hf hd⟩
  case neg => exact .of_state h hd

-- What a check that has found nothing says.
theorem Media.not_found {fate : MediaFate} {entry : Option Entry} {r : Bool} (hr : ¬ r = true)
    (h : fate = .succeeds ∧ r = entry.isSome ∨ (∃ e, fate = .fails e) ∧ r = false) :
    fate = .succeeds ∧ entry = none ∨ ∃ e, fate = .fails e := by
  refine h.imp (fun h => ⟨h.left, ?_⟩) And.left
  cases entry
  case none => rfl
  case some => exact absurd h.right hr

theorem promoteRecovered_triple (hs : d.Yields s) (hh : Harmless d s s' io.stateExists io.newExists) :
    Triple (· = d) (promoteRecovered io) (fun _ d' => d'.Ready s s' ∧ d'.Safe s s') (fun _ d' => d'.Safe s s') := by
  have hsafe : d.Safe s s' := .inl hs
  have unchanged : ∀ (e : MediaHalt) d', d' = d → d'.Safe s s' := fun _ _ he => he ▸ hsafe
  refine .bind (Media.exists_triple unchanged) fun r => .ite (fun hr => .pure ?_) fun hr => ?_
  · intro d' ⟨he, hx⟩
    subst he hr
    have hx := hx.resolve_right nofun
    exact ⟨.of_state hsafe (Option.isSome_iff_ne_none.mp hx.right.symm), hsafe⟩
  refine .bind (Media.exists_triple fun e d' h => unchanged e d' h.left) fun r' => .ite (fun hr' => .pure ?_) fun hr' => ?_
  · intro d' ⟨⟨he, hx⟩, hx'⟩
    subst he
    have hx := Media.not_found hr hx
    refine ⟨hsafe.ready fun hd => ?_, hsafe⟩
    cases Media.not_found (by simpa using hr') hx'
    case inl hn => exact .inl ((Disk.yields_none hd hn.right).mp hs).symm
    case inr he =>
      have ⟨e, he⟩ := he
      refine hh.new e hd (fun hst => ?_) he
      cases hx
      case inl hx => exact absurd (hst.symm.trans hx.left) nofun
      case inr hx => exact absurd (hst.symm.trans hx.choose_spec) nofun
  refine .bind (Media.readNew_triple fun e d' h => unchanged e d' h.left.left) fun bytes => ?_
  intro d' ⟨⟨⟨he, hx⟩, hx'⟩, hn⟩
  subst he
  have hx := Media.not_found hr hx
  have hx' : io.newExists = .succeeds := by
    cases hx'
    case inl hx' => exact hx'.left
    case inr hx' => exact absurd hx'.right (by simpa using hr')
  refine (?_ : Triple (· = d') _ _ _) d' rfl
  match hp : fromCbor BootState bytes with
  | .ok t    =>
    -- What is promoted is one of the two states: if there is a state file after all, by what was assumed.
    have ht : t = s ∨ t = s' := by
      by_cases hd : d'.state = none
      case pos =>
        have h := (Disk.yields_new hd hn).mp hs
        rw [hp] at h
        exact .inl h
      case neg =>
        have ⟨e, he⟩ := hx.resolve_left fun h => hd h.right
        exact hh.state e bytes t hd he hx' hn hp
    have hb : fromCbor BootState bytes = .ok s ∨ fromCbor BootState bytes = .ok s' := by
      rwa [hp, Except.ok.injEq, Except.ok.injEq]
    refine .bind (Media.operate_triple (Q := fun _ d' => d'.Ready s s' ∧ d'.Safe s s') ?_ ?_) fun _ => .pure fun _ => id
    · intro d₁ he
      subst he
      exact ⟨.inl ⟨bytes, hn, hb⟩, Renaming.apply_safe hsafe hn hb .renamed⟩
    · intro _ d₁ he
      subst he
      exact Renaming.apply_safe hsafe hn hb _
  | .error e =>
    have hfresh : d'.state = none → s = .fresh ∨ s' = .fresh := fun hd => .inl (hs.fresh_of_torn hd hn hp)
    have hready := hsafe.ready hfresh
    have removed : Triple (· = d') (Media.removeNew io.removeTorn) (fun _ d' => d'.Ready s s' ∧ d'.Safe s s')
        (fun _ d₁ => d₁ = d') := by
      refine Media.operate_triple (fun d₁ he => ?_) fun _ _ => id
      subst he
      refine ⟨hready, ?_⟩
      by_cases hd : d₁.state = none
      case pos => exact .inl ((Disk.yields_none (d := { d₁ with new := none }) hd rfl).mpr (hs.fresh_of_torn hd hn hp).symm)
      case neg =>
        have ⟨b, hb, h⟩ := hs.state hd
        exact .of_file hb (.inl h)
    refine .bind (.attempt (R := fun _ d' => d'.Ready s s' ∧ d'.Safe s s') removed (fun _ _ => id) ?_ ?_) fun _ =>
      .pure fun _ => id
    · intro _ _ d₁ _ he
      exact he ▸ ⟨hready, hsafe⟩
    · intro _ d₁ _ he
      exact he ▸ hsafe

theorem replaceState_triple (hl : fromCbor BootState (toCbor s') = .ok s') :
    Triple (fun d => d.Ready s s' ∧ d.Safe s s') (replaceState io s')
      (fun _ d => d.state = some (.file (toCbor s'))) (fun _ d => d.Safe s s') := by
  have prefixed (n : Nat) (d : Disk) (h : d.Ready s s') : (Media.setNew ((toCbor s').take n) d).Safe s s' :=
    (h.setNew _).safe hl rfl
  have all : (toCbor s').take (toCbor s').length = toCbor s' := List.take_length
  let written (d : Disk) : Prop := d.Ready s s' ∧ d.new = some (.file (toCbor s'))
  refine .bind (Media.operate_triple (Q := fun _ d => d.Ready s s' ∧ d.Safe s s') ?_ fun _ _ h => h.right) fun _ => ?_
  · exact fun d h => ⟨h.left, prefixed 0 d h.left⟩
  refine .bind (Media.operate_triple (Q := fun _ => written) ?_ fun _ d h => prefixed _ d h.left) fun _ => ?_
  · exact fun d h => ⟨h.left, rfl⟩
  refine .bind (Media.operate_triple (Q := fun _ => written) (fun _ => id) fun _ d h => prefixed _ d h.left) fun _ => ?_
  refine .bind (Media.operate_triple (Q := fun _ d => d.state = some (.file (toCbor s'))) (fun _ h => h.right) ?_)
    fun _ => ?_
  · exact fun _ d h => Renaming.apply_safe (h.left.safe hl (all.symm ▸ h.right)) h.right (.inr hl) _
  exact Media.operate_triple (fun _ => id) fun _ d h => .of_file h (.inr hl)

-- The disk after an attempt to replace the state.
def Disk.Replaced (d : Disk) (s s' : BootState) : Except IoError Unit → Prop
  | .ok ()   => d.state = some (.file (toCbor s'))
  | .error _ => d.Safe s s'

theorem writeState_triple (hs : d.Yields s) (hl : fromCbor BootState (toCbor s') = .ok s')
    (hh : Harmless d s s' io.stateExists io.newExists) :
    Triple (· = d) (writeState io s') (fun _ d' => d'.Yields s') (fun _ d' => d'.Safe s s') := by
  refine .bind (promoteRecovered_triple hs hh) fun _ => .bind (.attempt (R := fun r d' => d'.Replaced s s' r)
    (replaceState_triple hl) (fun _ _ => id) (fun _ _ _ _ => id) fun _ _ _ => id) fun r => ?_
  cases r
  case ok      => exact .pure fun d' hd => (Disk.yields_file hd).mpr hl
  case error e =>
    refine .bind (Media.exists_triple fun _ _ => id) fun r => .ite (fun hr => ?_) fun _ => .halt fun _ => And.left
    -- Beside a state file the replacement can be removed.
    have removed : Triple (fun d : Disk => d.Safe s s' ∧ d.state ≠ none) (Media.removeNew io.removeNew)
        (fun _ d => d.Safe s s') (fun _ d => d.Safe s s') := by
      refine Media.operate_triple (fun d₁ h => ?_) fun _ _ => And.left
      obtain ⟨b, hb, h⟩ := (Disk.Ready.of_state h.left h.right).resolve_right fun hd => h.right hd.left
      exact .of_file hb h
    refine .bind (.attempt (R := fun _ d => d.Safe s s') (removed.mono ?_ (fun _ _ => id) fun _ _ => id) (fun _ _ => id)
      (fun _ _ _ _ => id) fun _ _ _ => id) fun _ => .halt fun _ => id
    rintro d₁ ⟨h, hx⟩
    subst hr
    exact ⟨h, Option.isSome_iff_ne_none.mp (hx.resolve_right nofun).right.symm⟩

theorem Disk.Yields.unique (hs : d.Yields s) (ht : d.Yields t) : s = t :=
  Except.ok.inj ((hs "").symm.trans (ht ""))

-- The operations on a medium that works.
def WriteIo.works (stateExists newExists : MediaFate) : WriteIo where
  stateExists  := stateExists
  newExists    := newExists
  readNew      := .succeeds
  promote      := (.succeeds, .unchanged)
  removeTorn   := .succeeds
  create       := .succeeds
  write        := (.succeeds, 0)
  sync         := (.succeeds, 0)
  rename       := (.succeeds, .unchanged)
  syncDir      := .succeeds
  stateRemains := .succeeds
  removeNew    := .succeeds

-- The machine stops after a replacement that is not the state was put in the place of the state file.
theorem writeState_promotes (hn : d.new = some (.file b)) (hb : fromCbor BootState b = .ok t) (e : IoError) :
    writeState { WriteIo.works (.fails e) .succeeds with promote := (.stops, .renamed) } s d =
      (.error .stopped, ⟨some (.file b), none⟩) := by
  have hp : promoteRecovered { WriteIo.works (.fails e) .succeeds with promote := (.stops, .renamed) } d =
      (.error .stopped, ⟨some (.file b), none⟩) := by
    simp [promoteRecovered, Media.exists, Media.readNew, Media.operate, Media.rename, Renaming.apply, WriteIo.works,
      bind_apply, hn, hb]
  exact bind_error hp

-- The machine stops after the only copy of the state was truncated.
theorem writeState_truncates (hd : d.state = none) {stateExists : MediaFate} (hx : stateExists ≠ .stops) (e : IoError) :
    writeState { WriteIo.works stateExists (.fails e) with write := (.stops, 0) } s d =
      (.error .stopped, ⟨none, some (.file [])⟩) := by
  have hp : promoteRecovered { WriteIo.works stateExists (.fails e) with write := (.stops, 0) } d = (.ok false, d) := by
    cases stateExists
    case stops => exact absurd rfl hx
    all_goals simp [promoteRecovered, Media.exists, WriteIo.works, bind_apply, hd]
  rw [writeState, bind_ok hp]
  simp [replaceState, Media.operate, Media.setNew, WriteIo.works, attempt, MediaHalt.error?, bind_apply, hd]

-- An interrupted write leaves the old or the new state, exactly if the checks of `promote_recovered` have no errors
-- that matter to it.
theorem state_survives (d : Disk) (s s' : BootState) (hs : d.Yields s) (hl : (toCbor s').length < 2 ^ 64)
    (stateExists newExists : MediaFate) :
    (∀ io : WriteIo, io.stateExists = stateExists → io.newExists = newExists →
      ∀ r d', writeState io s' d = (r, d') → (d'.Yields s ∨ d'.Yields s') ∧ (r = .ok () → d'.Yields s')) ↔
    Harmless d s s' stateExists newExists := by
  constructor
  case mp =>
    intro h
    constructor
    case state =>
      intro e b t _ hx hx' hn hb
      subst hx hx'
      have hy : Disk.Yields ⟨some (.file b), none⟩ t := (Disk.yields_file rfl).mpr hb
      have h := (h _ rfl rfl _ _ (writeState_promotes hn hb e)).left
      exact h.imp hy.unique hy.unique
    case new =>
      intro e hd hx hx'
      subst hx'
      have hy : Disk.Yields ⟨none, some (.file [])⟩ .fresh := (Disk.yields_new rfl rfl).mpr rfl
      have h := (h _ rfl rfl _ _ (writeState_truncates hd hx e)).left
      exact h.imp (fun h => h.unique hy) fun h => h.unique hy
  case mpr =>
    intro hh io hx hx' r d' h
    subst hx hx'
    have hl : fromCbor BootState (toCbor s') = .ok s' :=
      fromCbor_toCbor (by decide) (RecordType.valid_of_capabilities (t := .bootState) nofun) hl
    have ht := writeState_triple hs hl hh
    match r with
    | .ok ()   =>
      have hy := ht.of_ok rfl h
      exact ⟨.inr hy, fun _ => hy⟩
    | .error e => exact ⟨ht.of_error rfl h, nofun⟩

-- A medium that was left without a state file, beside a complete replacement.
namespace Interrupted

def kept : BootState := { BootState.fresh with floor := 12 }
def next : BootState := { BootState.fresh with floor := 20 }

def disk : Disk where
  state := none
  new   := some (.file (toCbor kept))

theorem yields_kept : disk.Yields kept := by
  have h : fromCbor BootState (toCbor kept) = .ok kept := by decide +kernel
  refine (Disk.yields_new rfl rfl).mpr ?_
  rw [h]

theorem length_next : (toCbor next).length < 2 ^ 64 := by
  decide +kernel

theorem state_survives_interrupted :
    disk.Yields kept ∧ (toCbor next).length < 2 ^ 64 ∧
    ∀ io : WriteIo, io.stateExists = .succeeds → io.newExists = .succeeds →
      ∀ r d', writeState io next disk = (r, d') → (d'.Yields kept ∨ d'.Yields next) ∧ (r = .ok () → d'.Yields next) :=
  ⟨yields_kept, length_next,
    (state_survives disk kept next yields_kept length_next .succeeds .succeeds).mpr ⟨nofun, nofun⟩⟩

-- The check of the replacement fails, the replacement is truncated, and the machine stops.
theorem floor_reset : disk.Yields kept ∧ ∃ d',
    writeState { WriteIo.works .succeeds (.fails "Input/output error (os error 5)") with write := (.stops, 0) } next disk =
      (.error .stopped, d') ∧ ¬ d'.Yields kept ∧ ¬ d'.Yields next ∧ d'.Yields .fresh := by
  have hy : Disk.Yields ⟨none, some (.file [])⟩ .fresh := (Disk.yields_new rfl rfl).mpr rfl
  have hx : MediaFate.succeeds ≠ .stops := by decide
  refine ⟨yields_kept, _, writeState_truncates rfl hx _, fun h => ?_, fun h => ?_, hy⟩
  · exact absurd (h.unique hy) (by decide)
  · exact absurd (h.unique hy) (by decide)

end Interrupted
