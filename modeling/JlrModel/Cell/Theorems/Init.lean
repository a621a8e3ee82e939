import JlrModel.Cell.Init
import JlrModel.Lib.Result

namespace Control

@[simp]
theorem parse_asStr (c : Control) : parse c.asStr = some c := by
  cases c <;> decide

theorem asStr_inj {c c' : Control} (h : c.asStr = c'.asStr) : c = c' := by
  have h := congrArg parse h
  simpa using h

theorem colon_not_mem_asStr (c : Control) : ∀ x ∈ c.asStr.toList, x ≠ ':' := by
  have h : ':' ∉ c.asStr.toList := by cases c <;> decide
  exact fun x hx he => h (he ▸ hx)

-- The lines of a report name their control before the first colon.
def Names (line : String) (c : Control) : Prop :=
  ∃ why, line = c.asStr ++ ": " ++ why

theorem takeWhile_line (c : Control) (why : String) :
    (c.asStr ++ ": " ++ why).toList.takeWhile (· ≠ ':') = c.asStr.toList := by
  have hc : ∀ x ∈ c.asStr.toList, decide (x ≠ ':') = true := by
    simpa using c.colon_not_mem_asStr
  rw [String.toList_append, String.toList_append, List.append_assoc, List.takeWhile_append_of_pos hc]
  simp

theorem Names.unique {line : String} {c c' : Control} (h : Names line c) (h' : Names line c') : c = c' := by
  have ⟨why, h⟩ := h
  have ⟨why', h'⟩ := h'
  have he := (c.takeWhile_line why).symm.trans (h ▸ h' ▸ c'.takeWhile_line why')
  exact asStr_inj (String.toList_inj.mp he)

theorem not_names_capability {what : String} {c : Control} : ¬ Names ("capability: " ++ what) c := by
  intro ⟨why, h⟩
  have hc : ("capability: " ++ what).toList.takeWhile (· ≠ ':') = "capability".toList := by
    simp
  rw [h, takeWhile_line] at hc
  revert hc
  cases c <;> decide

end Control

namespace Builder

variable {b : Builder} {c : Control} {why kernel : String}

-- Both lists only grow.
theorem mem_active_ok {c' : Control} : c' ∈ (b.ok c).active ↔ c' ∈ b.active ∨ c' = c := by
  unfold ok
  split
  case isTrue h => exact ⟨.inl, fun | .inl h => h | .inr he => he ▸ h⟩
  case isFalse => simp

theorem mem_unavailable_fail {u : Control × String} :
    u ∈ (b.fail c why).unavailable ↔ u ∈ b.unavailable ∨ u = (c, why) := by
  simp [fail]

@[simp]
theorem unavailable_ok : (b.ok c).unavailable = b.unavailable := by
  unfold ok
  split <;> rfl

@[simp]
theorem spec_ok : (b.ok c).spec = b.spec := by
  unfold ok
  split <;> rfl

theorem mem_active_finish : c.asStr ∈ (b.finish kernel).active ↔ c ∈ b.active := by
  rw [finish, List.mem_map]
  constructor
  case mp =>
    intro ⟨c', h, he⟩
    exact Control.asStr_inj he ▸ (List.mem_insertionSort _).mp h
  case mpr =>
    intro h
    exact ⟨c, (List.mem_insertionSort _).mpr h, rfl⟩

-- A line of the report names a control that has failed or that was forgotten.
theorem named_unavailable : (∃ line ∈ (b.finish kernel).unavailable, Control.Names line c) ↔
    (∃ why, (c, why) ∈ b.unavailable) ∨ c ∈ b.notEstablished := by
  constructor
  case mp =>
    intro ⟨line, hl, hn⟩
    cases List.mem_append.mp hl
    case inr hl =>
      have ⟨what, _, hw⟩ := List.mem_map.mp hl
      exact absurd (hw ▸ hn) Control.not_names_capability
    case inl hl =>
      cases List.mem_append.mp hl
      case inl hl =>
        have ⟨u, hu, hw⟩ := List.mem_map.mp hl
        cases hn.unique ⟨u.2, hw.symm⟩
        exact .inl ⟨u.2, hu⟩
      case inr hl =>
        have ⟨c', hc, hw⟩ := List.mem_map.mp hl
        cases hn.unique ⟨"not established", by rw [← hw, String.append_assoc]; rfl⟩
        exact .inr hc
  case mpr =>
    intro h
    cases h
    case inl h =>
      have ⟨why, h⟩ := h
      refine ⟨c.asStr ++ ": " ++ why, ?_, why, rfl⟩
      exact List.mem_append_left _ (List.mem_append_left _ (List.mem_map.mpr ⟨(c, why), h, rfl⟩))
    case inr h =>
      refine ⟨c.asStr ++ ": not established", ?_, "not established", by rw [String.append_assoc]; rfl⟩
      exact List.mem_append_left _ (List.mem_append_right _ (List.mem_map.mpr ⟨c, h, rfl⟩))

-- A requested control is missing from the lines only if it is active.
theorem not_named_unavailable (hr : c ∈ b.spec.requestedControls)
    (h : ¬ ∃ line ∈ (b.finish kernel).unavailable, Control.Names line c) : c ∈ b.active := by
  rw [named_unavailable] at h
  by_contra ha
  refine h (.inr (List.mem_filter.mpr ⟨hr, ?_⟩))
  have hu : ∀ u ∈ b.unavailable, u.1 ≠ c := fun u hu he => h (.inl ⟨u.2, he ▸ hu⟩)
  simpa [ha] using hu

-- Every step marks a control that was not marked before, as active only if it is established. A control that is torn
-- may be on both sides.
structure Clean (spec : CellSpec) (established torn : Control → Prop) (marked : List Control) (b : Builder) : Prop where
  same      : b.spec = spec
  marked    : ∀ c, (c ∈ b.active ∨ ∃ why, (c, why) ∈ b.unavailable) → c ∈ marked
  apart     : ∀ c ∈ b.active, ¬ torn c → ∀ why, (c, why) ∉ b.unavailable
  requested : ∀ c why, (c, why) ∈ b.unavailable → c ∈ spec.requestedControls
  truthful  : ∀ c ∈ b.active, established c

namespace Clean

variable {spec : CellSpec} {established torn : Control → Prop} {marked : List Control}

theorem new {abi : Option UInt32} : Clean spec established torn [] (.new spec abi) where
  same      := rfl
  marked    := by simp [Builder.new]
  apart     := by simp [Builder.new]
  requested := by simp [Builder.new]
  truthful  := by simp [Builder.new]

-- A control may be marked though no step has said anything about it.
theorem skip (h : Clean spec established torn marked b) : Clean spec established torn (c :: marked) b :=
  { h with marked := fun c hc => List.mem_cons_of_mem _ (h.marked c hc) }

theorem ok (h : Clean spec established torn marked b) (hc : c ∉ marked) (he : established c) :
    Clean spec established torn (c :: marked) (b.ok c) where
  same      := spec_ok.trans h.same
  marked c' := by
    rw [mem_active_ok, unavailable_ok]
    rintro ((ha | rfl) | hu)
    · exact List.mem_cons_of_mem _ (h.marked c' (.inl ha))
    · exact List.mem_cons_self
    · exact List.mem_cons_of_mem _ (h.marked c' (.inr hu))
  apart c' hc' ht why := by
    rw [unavailable_ok]
    cases mem_active_ok.mp hc'
    case inl ha => exact h.apart c' ha ht why
    case inr he => exact fun hu => hc (h.marked c (.inr ⟨why, he ▸ hu⟩))
  requested := by
    rw [unavailable_ok]
    exact h.requested
  truthful c' hc' := by
    cases mem_active_ok.mp hc'
    case inl ha => exact h.truthful c' ha
    case inr hs => exact hs ▸ he

theorem fail (h : Clean spec established torn marked b) (hc : c ∉ marked) (hr : c ∈ spec.requestedControls) :
    Clean spec established torn (c :: marked) (b.fail c why) where
  same      := h.same
  marked c' := by
    rintro (ha | ⟨why', hu⟩)
    · exact List.mem_cons_of_mem _ (h.marked c' (.inl ha))
    · cases mem_unavailable_fail.mp hu
      case inl hu => exact List.mem_cons_of_mem _ (h.marked c' (.inr ⟨why', hu⟩))
      case inr he =>
        cases he
        exact List.mem_cons_self
  apart c' hc' ht why' hu := by
    cases mem_unavailable_fail.mp hu
    case inl hu => exact h.apart c' hc' ht why' hu
    case inr he =>
      cases he
      exact hc (h.marked c (.inl hc'))
  requested c' why' hu := by
    cases mem_unavailable_fail.mp hu
    case inl hu => exact h.requested c' why' hu
    case inr he =>
      cases he
      exact hr
  truthful := h.truthful

-- What is torn is marked once more.
theorem tear (h : Clean spec established torn marked b) (hc : c ∈ marked) (ht : torn c)
    (hr : c ∈ spec.requestedControls) : Clean spec established torn marked (b.fail c why) where
  same      := h.same
  marked c' := by
    rintro (ha | ⟨why', hu⟩)
    · exact h.marked c' (.inl ha)
    · cases mem_unavailable_fail.mp hu
      case inl hu => exact h.marked c' (.inr ⟨why', hu⟩)
      case inr he =>
        cases he
        exact hc
  apart c' hc' ht' why' hu := by
    cases mem_unavailable_fail.mp hu
    case inl hu => exact h.apart c' hc' ht' why' hu
    case inr he =>
      cases he
      exact ht' ht
  requested c' why' hu := by
    cases mem_unavailable_fail.mp hu
    case inl hu => exact h.requested c' why' hu
    case inr he =>
      cases he
      exact hr
  truthful := h.truthful

theorem result {r : Except String Unit} (h : Clean spec established torn marked b) (hc : c ∉ marked)
    (hr : c ∈ spec.requestedControls) (he : r = .ok () → established c) :
    Clean spec established torn (c :: marked) (b.result c r) := by
  match r with
  | .ok ()   => exact h.ok hc (he rfl)
  | .error _ => exact h.fail hc hr

theorem ok_if {p : Prop} [Decidable p] (h : Clean spec established torn marked b) (hc : c ∉ marked)
    (he : p → established c) : Clean spec established torn (c :: marked) (if p then b.ok c else b) := by
  split
  case isTrue hp => exact h.ok hc (he hp)
  case isFalse => exact h.skip

theorem ok_or_fail {p : Prop} [Decidable p] (h : Clean spec established torn marked b) (hc : c ∉ marked)
    (hr : c ∈ spec.requestedControls) (he : p → established c) :
    Clean spec established torn (c :: marked) (if p then b.ok c else b.fail c why) := by
  split
  case isTrue hp => exact h.ok hc (he hp)
  case isFalse => exact h.fail hc hr

theorem result_if {p : Prop} [Decidable p] {r : Except String Unit} (h : Clean spec established torn marked b)
    (hc : c ∉ marked) (hr : p → c ∈ spec.requestedControls) (he : r = .ok () → established c) :
    Clean spec established torn (c :: marked) (if p then b.result c r else b) := by
  split
  case isTrue hp => exact h.result hc (hr hp) he
  case isFalse => exact h.skip

-- What is requested is on one side of the report, and not on the other.
theorem exactly_one (h : Clean spec established torn marked b) (ht : ¬ torn c) (hc : c ∈ spec.requestedControls) :
    c.asStr ∈ (b.finish kernel).active ↔ ¬ ∃ line ∈ (b.finish kernel).unavailable, Control.Names line c := by
  rw [mem_active_finish]
  constructor
  case mp =>
    intro ha hn
    cases named_unavailable.mp hn
    case inl hu =>
      have ⟨why, hu⟩ := hu
      exact h.apart c ha ht why hu
    case inr hu =>
      have hu := (List.mem_filter.mp hu).right
      simp [ha] at hu
  case mpr => exact not_named_unavailable (h.same ▸ hc)

theorem full_iff (h : Clean spec established torn marked b) (ht : ∀ c, ¬ torn c)
    (hm : ∀ c ∈ spec.parsedMandatory, c ∈ spec.requestedControls) :
    (b.finish kernel).status = .full ↔
      (b.finish kernel).unavailable = [] ∧ ∀ c ∈ spec.requestedControls, c.asStr ∈ (b.finish kernel).active := by
  have hactive : (∀ c ∈ spec.requestedControls, c.asStr ∈ (b.finish kernel).active) ↔
      ∀ c ∈ spec.requestedControls, c ∈ b.active :=
    forall₂_congr fun _ _ => mem_active_finish
  have hmissing (ha : ∀ c ∈ spec.requestedControls, c ∈ b.active) : b.missingMandatory = [] := by
    refine List.filter_eq_nil_iff.mpr fun c hc => ?_
    simpa using ha c (hm c (h.same ▸ hc))
  have hforgotten (ha : ∀ c ∈ spec.requestedControls, c ∈ b.active) : b.notEstablished = [] := by
    refine List.filter_eq_nil_iff.mpr fun c hc => ?_
    simp [ha c (h.same ▸ hc)]
  have hfailed (ha : ∀ c ∈ spec.requestedControls, c ∈ b.active) : b.unavailable = [] := by
    refine List.eq_nil_iff_forall_not_mem.mpr fun u hu => ?_
    exact h.apart u.1 (ha u.1 (h.requested u.1 u.2 hu)) (ht u.1) u.2 hu
  have hstatus : (b.finish kernel).status = .full ↔
      b.missingMandatory = [] ∧ (∀ c ∈ spec.requestedControls, c ∈ b.active) ∧ b.skipped = [] := by
    unfold finish
    dsimp only
    rw [h.same]
    split_ifs <;> simp_all
  have hlines (ha : ∀ c ∈ spec.requestedControls, c ∈ b.active) :
      (b.finish kernel).unavailable = b.skipped.map ("capability: " ++ ·) := by
    unfold finish
    simp [hfailed ha, hforgotten ha]
  rw [hactive, hstatus]
  constructor
  case mp =>
    intro ⟨_, ha, hk⟩
    rw [hlines ha, hk]
    exact ⟨rfl, ha⟩
  case mpr =>
    intro ⟨hu, ha⟩
    rw [hlines ha] at hu
    exact ⟨hmissing ha, ha, List.map_eq_nil_iff.mp hu⟩

-- A cell that is not refused has all of its mandatory controls.
theorem mandatory (h : Clean spec established torn marked b) (hs : (b.finish kernel).status ≠ .refused)
    (hc : c ∈ spec.parsedMandatory) : established c ∧ c.asStr ∈ (b.finish kernel).active := by
  have ha : c ∈ b.active := by
    by_contra ha
    have hmem : c ∈ b.missingMandatory := List.mem_filter.mpr ⟨h.same ▸ hc, by simpa using ha⟩
    exact hs (if_pos (List.ne_nil_of_mem hmem))
  exact ⟨h.truthful c ha, mem_active_finish.mpr ha⟩

end Clean

-- Nothing that was noted is taken back.
structure Grows (b b' : Builder) : Prop where
  active      : b.active ⊆ b'.active
  unavailable : b.unavailable ⊆ b'.unavailable

namespace Grows

variable {b' : Builder}

theorem refl : Grows b b :=
  ⟨List.Subset.refl _, List.Subset.refl _⟩

theorem ok (h : Grows b b') : Grows b (b'.ok c) where
  active _ hc := mem_active_ok.mpr (.inl (h.active hc))
  unavailable := by simpa using h.unavailable

theorem fail (h : Grows b b') : Grows b (b'.fail c why) where
  active           := h.active
  unavailable _ hu := mem_unavailable_fail.mpr (.inl (h.unavailable hu))

theorem result {r : Except String Unit} (h : Grows b b') : Grows b (b'.result c r) := by
  match r with
  | .ok ()   => exact h.ok
  | .error _ => exact h.fail

theorem ite {p : Prop} [Decidable p] {b'' : Builder} (h : Grows b b') (h' : Grows b b'') :
    Grows b (if p then b' else b'') := by
  split
  · exact h
  · exact h'

end Grows

end Builder

namespace Stage2

open Builder

variable {io : Stage2Io} {spec : CellSpec} {nsNote cgroupName : String} {b : Builder} {layout : Layout}

-- The step for a control has succeeded. The namespaces for processes to talk to each other and for the name of the host
-- were made outside, before anything else.
def Established (io : Stage2Io) (spec : CellSpec) (nsNote cgroupName : String) : Control → Prop
  | .userNs      => usedUserNs nsNote
  | .mountNs     => ∃ layout, io.buildRoot spec = .ok layout
  | .pidNs       => io.pid = 1
  | .ipcNs       => True
  | .utsNs       => True
  | .netNs       => usedNetNs nsNote
  | .noNewPrivs  => io.noNewPrivs = .ok ()
  | .capDrop     => io.dropCapabilities (! usedUserNs nsNote) = .ok ()
  | .seccomp     => ∃ denied, io.filters = .ok denied ∧ io.install = .ok ()
  | .landlockFs  => ∃ layout o, io.buildRoot spec = .ok layout ∧ io.landlock (plan spec layout) = .ok o ∧ o.fs
  | .landlockNet => ∃ layout o, io.buildRoot spec = .ok layout ∧ io.landlock (plan spec layout) = .ok o ∧ o.net ∧
    spec.network = .destinationAllowlist
  | .rlimits     => limited io spec
  | .cgroup      => io.cgroup spec cgroupName = .ok ()

-- The name of the host is set after its namespace has been noted.
def Torn (io : Stage2Io) (spec : CellSpec) (c : Control) : Prop :=
  c = .utsNs ∧ io.hostname spec.hostname ≠ .ok ()

theorem always_requested {c : Control} (h : c ∈ [.mountNs, .pidNs, .ipcNs, .utsNs, .noNewPrivs, .capDrop, .seccomp,
    .landlockFs, .rlimits]) : c ∈ spec.requestedControls := by
  unfold CellSpec.requestedControls
  simp only [List.append_assoc]
  exact List.mem_append_left _ h

theorem landlockNet_requested (h : spec.network = .destinationAllowlist) : .landlockNet ∈ spec.requestedControls := by
  simp [CellSpec.requestedControls, h]

theorem cgroup_requested (h : needsCgroup spec) : .cgroup ∈ spec.requestedControls := by
  have h : spec.memoryBytes.isSome ∨ spec.pidsMax.isSome := of_decide_eq_true h
  simp [CellSpec.requestedControls, h]

theorem enter_clean (abi : Option UInt32) :
    Clean spec (Established io spec nsNote cgroupName) (Torn io spec)
      [.cgroup, .noNewPrivs, .netNs, .pidNs, .utsNs, .ipcNs, .userNs]
      (enter io spec nsNote cgroupName (.new spec abi)) := by
  unfold enter
  extract_lets b₁ b₂ b₃ b₄ b₅ b₆ b₇
  have h₆ : Clean spec (Established io spec nsNote cgroupName) (Torn io spec)
      [.noNewPrivs, .netNs, .pidNs, .utsNs, .ipcNs, .userNs] b₆ := by
    refine .result ?_ (by decide) (always_requested (by decide)) id
    refine .ok_if ?_ (by decide) id
    refine .ok_or_fail ?_ (by decide) (always_requested (by decide)) id
    refine .ok ?_ (by decide) trivial
    refine .ok ?_ (by decide) trivial
    exact .ok_if .new (by decide) id
  have h₇ : Clean spec (Established io spec nsNote cgroupName) (Torn io spec)
      [.noNewPrivs, .netNs, .pidNs, .utsNs, .ipcNs, .userNs] b₇ := by
    unfold b₇
    split
    case h_1 => exact h₆
    case h_2 hh => exact h₆.tear (by decide) ⟨rfl, by rw [hh]; nofun⟩ (always_requested (by decide))
  exact h₇.result_if (by decide) cgroup_requested id

theorem landlock_clean {marked : List Control} (hl : io.buildRoot spec = .ok layout)
    (h : Clean spec (Established io spec nsNote cgroupName) (Torn io spec) marked b) (hf : .landlockFs ∉ marked)
    (hn : .landlockNet ∉ marked) :
    Clean spec (Established io spec nsNote cgroupName) (Torn io spec) (.landlockNet :: .landlockFs :: marked)
      (landlock io (plan spec layout) b) := by
  have hn : .landlockNet ∉ .landlockFs :: marked := by simpa using hn
  have htcp (ht : (plan spec layout).tcp.isSome) : spec.network = .destinationAllowlist := by
    unfold plan at ht
    by_contra hne
    rw [if_neg hne] at ht
    cases ht
  have hfs : .landlockFs ∈ spec.requestedControls := always_requested (by decide)
  unfold landlock
  match ho : io.landlock (plan spec layout) with
  | .ok o    =>
    have hb : Clean spec (Established io spec nsNote cgroupName) (Torn io spec) (.landlockFs :: marked)
        (if o.fs then b.ok .landlockFs else b.fail .landlockFs "kernel does not enforce Landlock") :=
      h.ok_or_fail hf hfs fun he => ⟨layout, o, hl, ho, he⟩
    dsimp only
    split
    case isTrue ht =>
      exact hb.ok_or_fail hn (landlockNet_requested (htcp ht)) fun he => ⟨layout, o, hl, ho, he, htcp ht⟩
    case isFalse => exact hb.skip
  | .error e =>
    have hb : Clean spec (Established io spec nsNote cgroupName) (Torn io spec) (.landlockFs :: marked) (b.fail .landlockFs e) :=
      h.fail hf hfs
    dsimp only
    split
    case isTrue ht => exact hb.fail hn (landlockNet_requested (htcp ht))
    case isFalse => exact hb.skip

theorem seccomp_clean {marked : List Control} (h : Clean spec (Established io spec nsNote cgroupName) (Torn io spec) marked b)
    (hc : .seccomp ∉ marked) :
    Clean spec (Established io spec nsNote cgroupName) (Torn io spec) (.seccomp :: marked) (seccomp io b) := by
  have hr : .seccomp ∈ spec.requestedControls := always_requested (by decide)
  unfold seccomp
  match hf : io.filters with
  | .ok denied =>
    have h : Clean spec (Established io spec nsNote cgroupName) (Torn io spec) marked { b with seccompDenied := denied } := { h with }
    exact h.result hc hr fun hi => ⟨denied, hf, hi⟩
  | .error e   => exact h.fail hc hr

theorem confine_clean (hl : io.buildRoot spec = .ok layout)
    (h : Clean spec (Established io spec nsNote cgroupName) (Torn io spec)
      [.cgroup, .noNewPrivs, .netNs, .pidNs, .utsNs, .ipcNs, .userNs] b) :
    Clean spec (Established io spec nsNote cgroupName) (Torn io spec) Control.ALL (confine io spec nsNote layout b) := by
  have hm := h.ok (c := .mountNs) (by decide) ⟨layout, hl⟩
  let b₁ : Builder := { b.ok .mountNs with skipped := (b.ok .mountNs).skipped ++ layout.skipped }
  let b₂ := if limited io spec then b₁.ok .rlimits else b₁.fail .rlimits "setrlimit failed"
  have hs : Clean spec (Established io spec nsNote cgroupName) (Torn io spec) _ b₁ := { hm with }
  have hr : Clean spec (Established io spec nsNote cgroupName) (Torn io spec) _ b₂ :=
    hs.ok_or_fail (c := .rlimits) (by decide) (always_requested (by decide)) id
  have hd := (landlock_clean hl hr (by decide) (by decide)).result (c := .capDrop)
    (r := io.dropCapabilities (! usedUserNs nsNote)) (by decide) (always_requested (by decide)) id
  have hc := seccomp_clean hd (by decide)
  exact { hc with marked := fun c _ => by cases c <;> decide }

theorem landlock_grows {plan : LandlockPlan} {b' : Builder} (h : Grows b b') : Grows b (landlock io plan b') := by
  unfold landlock
  split
  · exact .ite (.ite (.ok (.ite h.ok h.fail)) (.fail (.ite h.ok h.fail))) (.ite h.ok h.fail)
  · exact .ite h.fail.fail h.fail

theorem seccomp_grows {b' : Builder} (h : Grows b b') : Grows b (seccomp io b') := by
  unfold seccomp
  split
  case h_1 denied _ =>
    have h : Grows b { b' with seccompDenied := denied } := { h with }
    exact h.result
  case h_2 => exact h.fail

theorem confine_grows : Grows b (confine io spec nsNote layout b) := by
  have h : Grows b { b.ok .mountNs with skipped := (b.ok .mountNs).skipped ++ layout.skipped } :=
    { Grows.refl.ok (c := .mountNs) with }
  exact seccomp_grows (landlock_grows (.ite h.ok h.fail)).result

-- A name that can not be set leaves its namespace on both sides.
theorem enter_torn {e : String} (hh : io.hostname spec.hostname = .error e) (nsNote cgroupName : String) (b : Builder) :
    .utsNs ∈ (enter io spec nsNote cgroupName b).active ∧
      ∃ why, (.utsNs, why) ∈ (enter io spec nsNote cgroupName b).unavailable := by
  unfold enter
  rw [hh]
  extract_lets b₁ b₂ b₃ b₄ b₅ b₆ b₇
  have ha : .utsNs ∈ b₃.active := mem_active_ok.mpr (.inr rfl)
  have h₄ : Grows b₃ b₄ := .ite Grows.refl.ok Grows.refl.fail
  have h₅ : Grows b₃ b₅ := .ite h₄.ok h₄
  have h₇ : Grows b₃ b₇ := h₅.result.fail
  have hu : (.utsNs, "sethostname: " ++ e) ∈ b₇.unavailable := mem_unavailable_fail.mpr (.inr rfl)
  clear_value b₇
  split
  · exact ⟨h₇.result.active ha, _, Grows.refl.result.unavailable hu⟩
  · exact ⟨h₇.active ha, _, hu⟩

theorem stage2_grows (io : Stage2Io) (spec : CellSpec) (nsNote cgroupName : String) :
    ∃ b, (stage2 io spec nsNote cgroupName).report = b.finish io.kernel ∧
    Grows (enter io spec nsNote cgroupName (.new spec io.landlockAbi)) b := by
  unfold stage2
  cases io.buildRoot spec
  case error => exact ⟨_, rfl, Grows.refl.fail⟩
  case ok => exact ⟨_, rfl, confine_grows⟩

theorem stage2_clean (io : Stage2Io) (spec : CellSpec) (nsNote cgroupName : String) :
    ∃ b marked, (stage2 io spec nsNote cgroupName).report = b.finish io.kernel ∧
      Clean spec (Established io spec nsNote cgroupName) (Torn io spec) marked b ∧
      ((stage2 io spec nsNote cgroupName).executes → (b.finish io.kernel).status ≠ .refused) := by
  have h : Clean spec (Established io spec nsNote cgroupName) (Torn io spec) _ _ := enter_clean io.landlockAbi
  unfold stage2
  match hl : io.buildRoot spec with
  | .error e   => exact ⟨_, _, rfl, h.fail (by decide) (always_requested (by decide)), nofun⟩
  | .ok layout => exact ⟨_, _, rfl, confine_clean hl h, of_decide_eq_true⟩

end Stage2

namespace CellSpec

variable {d : Decision} {argv env : List String} {spec : CellSpec}

theorem mandatory_fromDecision (h : fromDecision d argv env = .ok spec) :
    spec.mandatory = (mandatoryControls spec.network).map Control.asStr := by
  have ⟨_, _, h⟩ := Except.bind_eq_ok.mp h
  have ⟨_, _, h⟩ := Except.bind_eq_ok.mp h
  have ⟨_, _, h⟩ := Except.bind_eq_ok.mp h
  have ⟨_, _, h⟩ := Except.bind_eq_ok.mp h
  cases h
  rfl

theorem parsedMandatory_fromDecision (h : fromDecision d argv env = .ok spec) :
    spec.parsedMandatory = mandatoryControls spec.network := by
  rw [parsedMandatory, mandatory_fromDecision h, List.filterMap_map]
  have hp : Control.parse ∘ Control.asStr = some := funext Control.parse_asStr
  rw [hp, List.filterMap_some]

theorem mandatory_requested {c : Control} (hc : c ∈ mandatoryControls spec.network) : c ∈ spec.requestedControls := by
  revert hc
  unfold mandatoryControls requestedControls
  cases spec.network <;> simp <;> aesop

end CellSpec

-- The report is truthful, exactly if the name of the host could be set.
theorem report_truthful (d : Decision) (argv env : List String) (spec : CellSpec)
    (h : CellSpec.fromDecision d argv env = .ok spec) (io : Stage2Io) (nsNote cgroupName : String) :
    (((stage2 io spec nsNote cgroupName).executes →
        ∀ c : Control, c.asStr ∈ spec.mandatory → Stage2.Established io spec nsNote cgroupName c) ∧
      (∀ c ∈ spec.requestedControls, c.asStr ∈ (stage2 io spec nsNote cgroupName).report.active ↔
        ¬ ∃ line ∈ (stage2 io spec nsNote cgroupName).report.unavailable, Control.Names line c) ∧
      ((stage2 io spec nsNote cgroupName).report.status = .full ↔
        (stage2 io spec nsNote cgroupName).report.unavailable = [] ∧
        ∀ c ∈ spec.requestedControls, c.asStr ∈ (stage2 io spec nsNote cgroupName).report.active)) ↔
    io.hostname spec.hostname = .ok () := by
  have hp := CellSpec.parsedMandatory_fromDecision h
  have hm : ∀ c ∈ spec.parsedMandatory, c ∈ spec.requestedControls := hp ▸ fun _ => CellSpec.mandatory_requested
  have hmem (c : Control) (hc : c.asStr ∈ spec.mandatory) : c ∈ spec.parsedMandatory :=
    List.mem_filterMap.mpr ⟨c.asStr, hc, c.parse_asStr⟩
  constructor
  case mp =>
    intro ⟨_, hone, _⟩
    match hh : io.hostname spec.hostname with
    | .ok ()   => rfl
    | .error e =>
      have ⟨b, hb, hg⟩ := Stage2.stage2_grows io spec nsNote cgroupName
      have ⟨ha, why, hu⟩ := Stage2.enter_torn hh nsNote cgroupName (.new spec io.landlockAbi)
      have hone := hone .utsNs (Stage2.always_requested (by decide))
      rw [hb, Builder.mem_active_finish, Builder.named_unavailable] at hone
      exact absurd (.inl ⟨why, hg.unavailable hu⟩) (hone.mp (hg.active ha))
  case mpr =>
    intro hh
    have ⟨b, marked, hb, hc, hx⟩ := Stage2.stage2_clean io spec nsNote cgroupName
    have ht (c : Control) : ¬ Stage2.Torn io spec c := fun ht => ht.right hh
    rw [hb]
    exact ⟨fun he c hm => (hc.mandatory (hx he) (hmem c hm)).left, fun c => hc.exactly_one (ht c), hc.full_iff ht hm⟩

-- A program that was admitted without a network.
namespace Confined

def decision : Decision where
  state        := .admitted
  cell         := .cell1
  network      := .none
  capabilities := []
  reasons      := [.operatorAuthorized]
  basis        := .manualOverride
  needsUser    := none
  policy       := ⟨Bytes.fixed 32 0⟩

def spec : CellSpec where
  cls          := .cell1
  network      := .none
  capabilities := []
  memoryBytes  := some 2147483648
  pidsMax      := some 512
  cpuSecs      := none
  wallSecs     := none
  nofile       := some 1024
  tmpMib       := 128
  hostname     := "cell-ls"
  mandatory    := ["mount-ns", "pid-ns", "no-new-privs", "cap-drop", "seccomp", "net-ns"]
  env          := []
  argv         := ["/usr/bin/ls"]

theorem fromDecision_decision : CellSpec.fromDecision decision ["/usr/bin/ls"] [] = .ok spec := by
  rfl

-- Every step succeeds, except perhaps for the name of the host.
def io (hostname : Except String Unit) : Stage2Io where
  kernel             := "6.1.0"
  landlockAbi        := some 4
  pid                := 1
  noNewPrivs         := .ok ()
  hostname _         := hostname
  cgroup _ _         := .ok ()
  buildRoot _        := .ok ⟨[], []⟩
  rlimit _ _         := .ok ()
  landlock _         := .ok ⟨true, true⟩
  dropCapabilities _ := .ok ()
  filters            := .ok 40
  install            := .ok ()

theorem report_truthful_confined : CellSpec.fromDecision decision ["/usr/bin/ls"] [] = .ok spec ∧
    ((stage2 (io (.ok ())) spec "un" "jlr-1").report.status = .full ↔
      (stage2 (io (.ok ())) spec "un" "jlr-1").report.unavailable = [] ∧
      ∀ c ∈ spec.requestedControls, c.asStr ∈ (stage2 (io (.ok ())) spec "un" "jlr-1").report.active) :=
  ⟨fromDecision_decision,
    ((report_truthful decision ["/usr/bin/ls"] [] spec fromDecision_decision (io (.ok ())) "un" "jlr-1").mpr rfl).right.right⟩

-- The name of the host could not be set: its namespace is reported as active and as unavailable, in a full report.
theorem hostname_reported_twice : CellSpec.fromDecision decision ["/usr/bin/ls"] [] = .ok spec ∧
    (stage2 (io (.error "EPERM: Operation not permitted")) spec "un" "jlr-1").report.status = .full ∧
    "uts-ns" ∈ (stage2 (io (.error "EPERM: Operation not permitted")) spec "un" "jlr-1").report.active ∧
    (stage2 (io (.error "EPERM: Operation not permitted")) spec "un" "jlr-1").report.unavailable =
      ["uts-ns: sethostname: EPERM: Operation not permitted"] := by
  refine ⟨fromDecision_decision, ?_⟩
  decide +kernel

end Confined
