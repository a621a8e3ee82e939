import JlrModel.Engine.Theorems.Launch
import JlrModel.Engine.Theorems.Open
import JlrModel.Engine.Theorems.Rows
import JlrModel.Theorems.Records

-- The rows that are saved, compared with those that an engine knows.

open Cbor Program Relation

-- A row is the one that is known, but for the times, and is not valid for longer.
structure IndexRow.Lags (saved row : IndexRow) : Prop where
  fields     : { saved with measuredAt := 0, validUntil := 0 } = { row with measuredAt := 0, validUntil := 0 }
  validUntil : saved.validUntil ≤ row.validUntil

namespace IndexRow.Lags

variable {x y z : IndexRow}

theorem refl : Lags x x :=
  ⟨rfl, UInt64.le_refl _⟩

theorem trans (h : Lags x y) (h' : Lags y z) : Lags x z :=
  ⟨h.fields.trans h'.fields, UInt64.le_trans h.validUntil h'.validUntil⟩

end IndexRow.Lags

namespace SavedRow

variable {x y z : Option IndexRow}

theorem refl : Option.Rel IndexRow.Lags x x := by
  cases x
  case none => exact .none
  case some => exact .some .refl

theorem trans (h : Option.Rel IndexRow.Lags x y) (h' : Option.Rel IndexRow.Lags y z) :
    Option.Rel IndexRow.Lags x z := by
  cases h
  case none => exact h'
  case some h =>
    cases h'
    case some h' => exact .some (h.trans h')

end SavedRow

theorem rowsEquivalent_iff {x y : Option IndexRow} : rowsEquivalent x y ↔ Option.Rel IndexRow.Lags x y := by
  cases x <;> cases y
  case none.none => exact iff_of_true rfl .none
  case none.some => exact iff_of_false nofun nofun
  case some.none => exact iff_of_false nofun nofun
  case some.some x y =>
    rw [Option.rel_some_some, rowsEquivalent, decide_eq_true_eq]
    exact ⟨fun ⟨hv, hf⟩ => ⟨hf, hv⟩, fun h => ⟨h.validUntil, h.fields⟩⟩

namespace Engine

-- The rows of an index stand under their own paths, in the order of these.
structure Indexed (index : List (String × IndexRow)) : Prop where
  sorted : SortedMap.Sorted index
  keyed  : ∀ e ∈ index, e.1 = e.2.path

namespace Indexed

variable {index : List (String × IndexRow)}

theorem nil : Indexed [] :=
  ⟨SortedMap.sorted_nil, nofun⟩

theorem insert (h : Indexed index) (row : IndexRow) : Indexed (SortedMap.insert row.path row index) where
  sorted := h.sorted.insert
  keyed e he := by
    obtain rfl | he := SortedMap.mem_insert_fst he
    · rfl
    · exact h.keyed e he

theorem indexOf {rows : List IndexRow} : Indexed (indexOf rows) :=
  List.foldlRecOn rows (fun m row => SortedMap.insert row.path row m) nil fun _ h row _ => h.insert row

-- What is saved is read back.
theorem indexOf_rows (h : Indexed index) : Engine.indexOf (index.map Prod.snd) = index := by
  have hk : ∀ (l m : List (String × IndexRow)), (∀ e ∈ l, e.1 = e.2.path) →
      l.foldl (fun m e => SortedMap.insert e.2.path e.2 m) m = l.foldl (fun m e => SortedMap.insert e.1 e.2 m) m := by
    intro l m hl
    exact List.foldl_ext _ _ _ fun m e he => by rw [hl e he]
  rw [Engine.indexOf, List.foldl_map, hk _ _ h.keyed]
  exact SortedMap.foldl_insert_eq_append h.sorted nofun

theorem rebuild [Crypto] {dir : StateDir} {r : List (String × IndexRow) × Nat} {d : EventDraft} (h : Indexed r.1) :
    Indexed (rebuild dir r d).1 := by
  rw [Engine.rebuild]
  cases discovered dir d
  case none => exact h
  case some found => exact h.insert (rebuiltRow found.2 found.1)

theorem rebuilt [Crypto] {dir : StateDir} {r : List (String × IndexRow) × Nat} (h : Indexed r.1)
    (events : List EventDraft) : Indexed (events.foldl (Engine.rebuild dir) r).1 := by
  induction events generalizing r
  case nil => exact h
  case cons d events ih => exact ih h.rebuild

end Indexed

variable [Crypto]

theorem loadIndex_save {dir : StateDir} {index : List (String × IndexRow)} {f : File}
    (hf : f.data = toCbor (⟨index.map Prod.snd⟩ : IndexFile)) :
    StateDir.loadIndex { dir with index := some f } = (⟨index.map Prod.snd⟩, false) := by
  have hl : (toCbor (⟨index.map Prod.snd⟩ : IndexFile)).length < 2 ^ 64 := by
    have := f.size_lt
    rw [hf] at this
    omega
  have hr := fromCbor_toCbor (by decide) (RecordType.valid_of_capabilities (t := .indexFile) nofun) hl
  rw [StateDir.loadIndex, Option.map_some, hf, hr]

end Engine

section

variable [Crypto] {m m' : Machine}

namespace Machine

-- What the disk says about a path.
def Lags (m : Machine) (path : String) : Prop :=
  Option.Rel IndexRow.Lags (m.dir.row path) (m.engine.row path)

-- No row on disk is ahead of the one that is known.
structure Saved (m : Machine) : Prop where
  indexed : Engine.Indexed m.engine.index
  lags    : ∀ path, m.Lags path

theorem Steady.row (s : Steady m m') (path : String) : m'.dir.row path = m.dir.row path := by
  rw [StateDir.row, StateDir.loadIndex, s.disk]
  rfl

theorem Steady.saved (s : Steady m m') (h : m.Saved) : m'.Saved where
  indexed   := s.rows ▸ h.indexed
  lags path := by
    rw [Lags, s.row, Engine.row, s.rows]
    exact h.lags path

end Machine

namespace Engine

open Machine

theorem saveIndex_saved (h : saveIndex m = (.ok (), m')) (hi : Indexed m.engine.index) : m'.Saved := by
  obtain ⟨f, hf, rfl⟩ := writeAtomic_ok h
  refine ⟨hi, fun path => ?_⟩
  have hr : StateDir.row { m.dir with index := some f } path = m.engine.row path := by
    rw [StateDir.row, loadIndex_save hf, hi.indexOf_rows]
    rfl
  change Option.Rel _ (StateDir.row { m.dir with index := some f } path) (m.engine.row path)
  rw [hr]
  exact SavedRow.refl

-- Whether the index is written after a file was processed.
def Unsaved (path : String) (p : Processed) (m m' : Machine) : Prop :=
  0 < p.transitions ∨ p.isNew ∨ ¬ rowsEquivalent (m.engine.row path) (m'.engine.row path)

-- The writes that a decision about a file comes to succeed.
def Saves (observed : Except String Observation) (m : Machine) : Prop :=
  ∀ obs seen p m₁ m₂, observed = .ok obs → seenFrom obs m = (.ok seen, m₁) → processAlone seen [] m₁ = (.ok p, m₂) →
    Unsaved obs.path p m₁ m₂ → ∃ m₃, (do flush; saveIndex) m₂ = (.ok (), m₃)

-- The row of a file that was processed is the only one that is new.
theorem Enters.saved {seen : Seen} {requested : List Capability} {p : Processed} {i j : Nat}
    (e : Enters seen requested m p m' i j) (h : m.Saved) (hp : seen.row.path = seen.path) :
    Indexed m'.engine.index ∧ (¬ Unsaved seen.path p m m' → m'.Saved) := by
  have hi : Indexed m'.engine.index := by
    rw [e.rows, ← hp]
    exact h.indexed.insert (m.engine.entry seen _)
  refine ⟨hi, fun hu => ⟨hi, fun path => ?_⟩⟩
  have hd : m'.dir.row path = m.dir.row path := by
    rw [StateDir.row, StateDir.loadIndex, e.disk]
    rfl
  rw [Lags, hd]
  refine SavedRow.trans (h.lags path) ?_
  by_cases hk : path = seen.path
  case pos =>
    have hr := not_not.mp (not_or.mp (not_or.mp hu).right).right
    exact hk ▸ rowsEquivalent_iff.mp hr
  case neg =>
    rw [Engine.row, Engine.row, e.rows, SortedMap.get_insert_of_ne hk]
    exact SavedRow.refl

theorem decideExec_saved {observed : Except String Observation} (h : m.Saved) (hs : Saves observed m) :
    (decideExec observed m).2.Saved := by
  cases observed
  case error => exact h
  case ok obs =>
    rw [decideExec]
    rcases hx : seenFrom obs m with ⟨why | seen, m₁⟩
    case error => cases hx
    case ok =>
      have h₁ : m₁.Saved := Steady.saved (.of_ok (.bind now_steady fun _ => .pure) hx) h
      have hp : seen.path = obs.path ∧ seen.row.path = obs.path := by
        cases hx
        exact ⟨rfl, rfl⟩
      rw [bind_ok hx, view_bind]
      rcases hy : processAlone seen [] m₁ with ⟨why | p, m₂⟩
      case error =>
        rw [bind_error hy]
        exact (processAlone_keeps.of_error .refl hy).saved h₁
      case ok =>
        obtain ⟨i, j, e⟩ := processAlone_enters hy
        obtain ⟨hi, hu⟩ := e.saved h₁ (hp.right.trans hp.left.symm)
        rw [bind_ok hy, view_bind, onlyIf]
        split
        case isTrue hc =>
          obtain ⟨m₃, hw⟩ := hs obs seen p m₁ m₂ rfl hx hy (hp.left ▸ hc)
          rw [bind_ok hw]
          obtain ⟨_, m₄, hf, hw⟩ := bind_eq_ok.mp hw
          have h₃ : m₃.Saved := saveIndex_saved hw ((Steady.of_ok flush_steady hf).rows ▸ hi)
          exact Steady.saved (.of_does (.bind remaining_steady fun _ => .bind .view fun _ => .pure) m₃) h₃
        case isFalse hc =>
          exact Steady.saved (.of_does (.bind remaining_steady fun _ => .bind .view fun _ => .pure) m₂) (hu hc)

-- An engine that was opened has its rows in order. If the index was there, they are those of the disk.
theorem open_saved {h h' : Host} {e : Engine} (hl : h.ledger = .new) (hx : Engine.open h = (.ok e, h')) :
    Indexed e.index ∧ (h.dir.loadIndex.2 = false → Machine.Saved ⟨h', e⟩) := by
  obtain ⟨h₁, h₂, a⟩ := open_assembles hl hx
  have hi : Indexed e.index := by
    rw [openIndex_ok a.index]
    split
    case isTrue => exact Indexed.rebuilt (r := (_, 0)) .indexOf _
    case isFalse => exact .indexOf
  refine ⟨hi, fun hn => ⟨hi, fun path => ?_⟩⟩
  have hd : h₂.dir.loadIndex = h.dir.loadIndex := a.logOnly.same (f := StateDir.loadIndex) fun _ _ => rfl
  have hx := a.index
  rw [openIndex, view_bind] at hx
  dsimp only at hx
  rw [if_neg (by simp [hd, hn])] at hx
  obtain ⟨hr, hh⟩ := Program.pure_eq_ok.mp hx
  rw [Lags, Machine.dir, Engine.row, StateDir.row, ← hh, ← hr]
  exact SavedRow.refl

-- A decision about a file on one engine, whose writes succeed.
def Executes (m m' : Machine) : Prop :=
  ∃ observed, Saves observed m ∧ m' = (decideExec observed m).2

theorem Executes.saved (h : m.Saved) (hr : ReflTransGen Executes m m') : m'.Saved := by
  refine Does.kept hr (fun m m' he h => ?_) h
  obtain ⟨observed, hs, rfl⟩ := he
  exact decideExec_saved h hs

-- While no write of the index fails, no row on disk is ahead of the one that is known, however many decisions were not
-- written. So it is from the start on if the index was not lost.
theorem saved_rows_lag :
    (∀ h e h', h.ledger = .new → Engine.open h = (.ok e, h') → h.dir.loadIndex.2 = false → Machine.Saved ⟨h', e⟩) ∧
    ∀ m, m.Saved → ∀ m₁, ReflTransGen Executes m m₁ → ∀ observed v m₂, Saves observed m₁ →
      decideExec observed m₁ = (.ok v, m₂) → (∀ path, m₂.Lags path) ∧
      ∀ obs, observed = .ok obs → ∃ saved row, m₂.dir.row obs.path = some saved ∧ m₂.engine.row obs.path = some row ∧
        { saved with measuredAt := row.measuredAt, validUntil := row.validUntil } = row ∧
        saved.validUntil ≤ row.validUntil := by
  refine ⟨fun h e h' hl hx => (open_saved hl hx).right, fun m hm m₁ hr observed v m₂ hs hx => ?_⟩
  have hl : m₂.Saved := by
    have h := decideExec_saved (Executes.saved hm hr) hs
    rwa [hx] at h
  refine ⟨hl.lags, ?_⟩
  rintro obs rfl
  have ⟨_, _, _, j⟩ := decideExec_judges hx
  have ⟨row, hr, _⟩ := j.maxAge
  have h := hl.lags obs.path
  rw [Lags, hr] at h
  generalize m₂.dir.row obs.path = x at h
  cases h
  case some saved h =>
    refine ⟨saved, row, rfl, hr, ?_, h.validUntil⟩
    let timed (r : IndexRow) : IndexRow := { r with measuredAt := row.measuredAt, validUntil := row.validUntil }
    have hf := congrArg timed h.fields
    exact hf

end Engine

end

-- The disk is full when the script is decided on for the first time, and has space again for the second.
namespace Installed.Unsaved

attribute [local instance] measuring

def full : Oracle where
  fate i  := if i = 7 then .failed "No space left on device (os error 28)" else .done
  clock _ := 0

def first (m : Machine) : Except Halt ExecVerdict × Machine :=
  Engine.decideExec (.ok observation) (System.machine m.dir m.engine m.host.ledger full)

theorem decided : opened.any fun m =>
    let second := Engine.decideExec (.ok observation) (first m).2
    (first m).1.toOption.isNone && second.1.toOption.isSome && (second.2.dir.row "/opt/tool").isNone &&
    (second.2.engine.row "/opt/tool").isSome := by
  rw [opened_system (verify_policy _ _)]
  decide +kernel

theorem row_never_saved : ∃ m v m₂, opened = some m ∧ (first m).1.toOption = none ∧
    Engine.decideExec (.ok observation) (first m).2 = (.ok v, m₂) ∧
    m₂.dir.row "/opt/tool" = none ∧ (m₂.engine.row "/opt/tool").isSome := by
  have ⟨m, hm, h⟩ := (Option.any_eq_true _ _).mp decided
  simp only [Bool.and_eq_true, Option.isNone_iff_eq_none] at h
  have ⟨⟨⟨hf, hx⟩, hd⟩, hr⟩ := h
  have ⟨v, hx⟩ := eq_ok_of_isSome hx
  exact ⟨m, v, _, hm, hf, hx, hd, hr⟩

end Installed.Unsaved
