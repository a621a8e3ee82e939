import JlrModel.Boot.Theorems.Choose
import JlrModel.Lib.Sorted

-- What a choice between slots is for, and on which states it comes to that.

open Cbor Sorted

namespace SlotState

variable {a b c : SlotState}

theorem before_iff : a.before b ↔
    b.priority.toNat < a.priority.toNat ∨ a.priority.toNat = b.priority.toNat ∧ a.name ≤ b.name := by
  rw [← UInt16.lt_iff_toNat_lt, UInt16.toNat_inj]
  exact decide_eq_true_iff

theorem before_trans (a b c : SlotState) (h : a.before b) (h' : b.before c) : a.before c := by
  rw [before_iff] at *
  rcases h with h | ⟨h, hn⟩
  · exact .inl (by omega)
  · rcases h' with h' | ⟨h', hn'⟩
    · exact .inl (by omega)
    · exact .inr ⟨h.trans h', String.le_trans hn hn'⟩

theorem before_total (a b : SlotState) : a.before b ∨ b.before a := by
  rw [before_iff, before_iff]
  rcases Nat.lt_trichotomy a.priority.toNat b.priority.toNat with h | h | h
  · exact .inr (.inl h)
  · exact (String.le_total a.name b.name).imp (.inr ⟨h, ·⟩) (.inr ⟨h.symm, ·⟩)
  · exact .inl (.inl h)

theorem name_eq_of_before (h : a.before b) (h' : b.before a) : a.name = b.name := by
  rw [before_iff] at h h'
  rcases h with h | ⟨h, hn⟩
  · omega
  · rcases h' with h' | ⟨_, hn'⟩
    · omega
    · exact String.le_antisymm hn hn'

-- Whether a slot may be booted with one of the manifests, whichever it is.
structure Eligible (floor : UInt64) (verified : List (String × ReleaseManifest)) (s : SlotState) : Prop where
  priority : 0 < s.priority
  manifest : ∃ v ∈ verified, v.1 = s.name ∧ floor ≤ v.2.epoch
  tries    : s.successful ∨ 0 < s.tries

end SlotState

-- A slot that may be booted and that comes before all others that may.
structure Preferred (b : BootState) (verified : List (String × ReleaseManifest)) (s : SlotState) : Prop where
  mem      : s ∈ b.slots
  eligible : s.Eligible b.floor verified
  before   : ∀ s' ∈ b.slots, s'.Eligible b.floor verified → s.before s'

-- What the choice is for: such a slot, if there is any. One of its tries is spent, unless it is proven.
inductive Exact (b : BootState) (verified : List (String × ReleaseManifest)) : Except BootError Choice → Prop where
  | none   : (∀ s ∈ b.slots, ¬ s.Eligible b.floor verified) → Exact b verified (.error .noBootableSlot)
  | proven : Preferred b verified s → s.successful → Exact b verified (.ok ⟨s.name, b⟩)
  | trying : b.slots = l₁ ++ s :: l₂ → Preferred b verified s → s.successful = false →
      tries.toNat + 1 = s.tries.toNat →
      Exact b verified (.ok ⟨s.name, { b with slots := l₁ ++ { s with tries := tries } :: l₂ }⟩)

-- The manifest of a slot and the slot whose tries are spent are both found by name. They are the right ones if no
-- manifest below the floor is listed for the slot before, and no slot of its name is stored before.
def Unambiguous (b : BootState) (verified : List (String × ReleaseManifest)) : Prop :=
  ∀ l₁ s l₂, b.slots = l₁ ++ s :: l₂ → First (SlotState.before · ·) (·.Eligible b.floor verified) l₁ s l₂ →
    (∀ v, verified.find? (·.1 = s.name) = some v → b.floor ≤ v.2.epoch) ∧
    (s.successful = false → ∀ s' ∈ l₁, s'.name ≠ s.name)

variable {b : BootState} {verified : List (String × ReleaseManifest)} {c : Choice} {s s' : SlotState}
variable {l₁ l₂ ss : List SlotState} {name : String}

-- Whether the choice considers a slot.
def BootState.Offers (b : BootState) (verified : List (String × ReleaseManifest)) (s : SlotState) : Prop :=
  0 < s.priority ∧ bootable b.floor verified s

-- The first of the slots that come before all others is the one that is chosen.
theorem choose_first (h : choose b verified = .ok c) :
    ∃ l₁ s l₂, b.slots = l₁ ++ s :: l₂ ∧
      First (SlotState.before · ·) (b.Offers verified) l₁ s l₂ ∧
      c = ⟨s.name, if s.successful then b else { b with slots := BootState.modify s.name .spent b.slots }⟩ := by
  unfold choose at h
  dsimp only at h
  split at h
  case h_1 => cases h
  case h_2 s hs =>
    cases h
    have ⟨k₁, k₂, hk, hf⟩ := find_insertionSort SlotState.before_trans SlotState.before_total hs
    have ⟨l₁, l₂, hl, hf⟩ := hf.of_filter hk
    exact ⟨l₁, s, l₂, hl, hf.mono (fun _ => .imp_left decide_eq_true) (hf.pass.imp_left of_decide_eq_true), rfl⟩

theorem choose_error (h : choose b verified = .error e) :
    e = .noBootableSlot ∧ ∀ s ∈ b.slots, ¬ b.Offers verified s := by
  refine ⟨?_, fun s hs ⟨hp, hb⟩ => ?_⟩
  · unfold choose at h
    dsimp only at h
    split at h
    · cases h; rfl
    · cases h
  · have ⟨c, hc⟩ := choose_of_bootable hs hp hb
    rw [h] at hc
    cases hc

namespace BootState

theorem modify_of_not_mem (h : ∀ s' ∈ l₁, s'.name ≠ s.name) :
    modify s.name f (l₁ ++ s :: l₂) = l₁ ++ f s :: l₂ := by
  induction l₁
  case nil => simp [modify]
  case cons s' l₁ ih =>
    have hn : s'.name ≠ s.name := h s' List.mem_cons_self
    simp [modify, hn, ih fun s' hs => h s' (.tail _ hs)]

theorem modify_of_mem (h : ∃ s ∈ l₁, s.name = name) : modify name f (l₁ ++ l₂) = modify name f l₁ ++ l₂ := by
  induction l₁
  case nil => simp at h
  case cons s l₁ ih =>
    by_cases hn : s.name = name
    · simp [modify, hn]
    · have h : ∃ s ∈ l₁, s.name = name := by simpa [hn] using h
      simp [modify, hn, ih h]

theorem length_modify : (modify name f ss).length = ss.length := by
  induction ss
  case nil => rfl
  case cons s ss ih =>
    rw [modify]
    split <;> simp [ih]

end BootState

-- The first manifest of a slot that may be booted is the one that counts.
theorem SlotState.Eligible.may_boot (h : s.Eligible b.floor verified)
    (hm : ∀ v, verified.find? (·.1 = s.name) = some v → b.floor ≤ v.2.epoch) : bootable b.floor verified s := by
  have ⟨v, hv, hn, _⟩ := h.manifest
  rw [bootable_iff]
  cases hf : verified.find? (·.1 = s.name)
  case none => exact absurd (decide_eq_true hn) (List.find?_eq_none.mp hf v hv)
  case some v' => exact ⟨v', rfl, hm v' hf, h.tries⟩

theorem BootState.Offers.eligible (h : b.Offers verified s) : s.Eligible b.floor verified := by
  have ⟨v, hv, hf, ht⟩ := bootable_iff.mp h.right
  have hn : v.1 = s.name := by simpa using List.find?_some hv
  exact ⟨h.left, ⟨v, List.mem_of_find?_eq_some hv, hn, hf⟩, ht⟩

-- If its first manifest is good enough, the first of the slots that may be booted is chosen.
theorem choose_of_first (hl : b.slots = l₁ ++ s :: l₂)
    (h : First (SlotState.before · ·) (·.Eligible b.floor verified) l₁ s l₂)
    (hm : ∀ v, verified.find? (·.1 = s.name) = some v → b.floor ≤ v.2.epoch) :
    choose b verified =
      .ok ⟨s.name, if s.successful then b else { b with slots := BootState.modify s.name .spent b.slots }⟩ := by
  have hp := h.pass.priority
  have hb := h.pass.may_boot hm
  have hs : s ∈ b.slots := by simp [hl]
  have ⟨c, hc⟩ := choose_of_bootable hs hp hb
  have ⟨l₁', s', l₂', hl', h', he⟩ := choose_first hc
  have h := h.mono (fun _ => BootState.Offers.eligible) ⟨hp, hb⟩
  have ⟨_, hs, _⟩ := h.unique h' (hl.symm.trans hl')
  rw [hc, he, hs]

theorem toNat_tries_spent (h : 0 < s.tries) : s.spent.tries.toNat + 1 = s.tries.toNat := by
  have ht : 0 < s.tries.toNat := UInt16.lt_iff_toNat_lt.mp h
  have h1 : (1 : UInt16) ≤ s.tries := UInt16.le_iff_toNat_le.mpr ht
  change (s.tries - 1).toNat + 1 = _
  rw [UInt16.toNat_sub_of_le _ _ h1]
  exact Nat.sub_add_cancel ht

-- It also shows when there is no try left to spend.
theorem BootState.modify_spent_ne (h : ∃ s ∈ ss, s.name = name) : modify name .spent ss ≠ ss := by
  induction ss
  case nil => simp at h
  case cons s ss ih =>
    rw [modify]
    by_cases hn : s.name = name
    · rw [if_pos hn]
      intro he
      have ht : s.tries - 1 = s.tries := congrArg SlotState.tries (List.cons.inj he).left
      grind
    · have h : ∃ s ∈ ss, s.name = name := by simpa [hn] using h
      rw [if_neg hn]
      exact fun he => ih h (List.cons.inj he).right

theorem Exact.preferred (h : Exact b verified (choose b verified)) (hs : s ∈ b.slots)
    (he : s.Eligible b.floor verified) :
    ∃ s next, Preferred b verified s ∧ choose b verified = .ok ⟨s.name, next⟩ := by
  generalize hc : choose b verified = r at h
  cases h
  case none hn        => exact absurd he (hn s hs)
  case proven hp _    => exact ⟨_, _, hp, rfl⟩
  case trying hp _ _  => exact ⟨_, _, hp, rfl⟩

theorem Exact.manifest (h : Exact b verified (choose b verified)) (hl : b.slots = l₁ ++ s :: l₂)
    (hf : First (SlotState.before · ·) (·.Eligible b.floor verified) l₁ s l₂) (v : String × ReleaseManifest)
    (hv : verified.find? (·.1 = s.name) = some v) : b.floor ≤ v.2.epoch := by
  have hs : s ∈ b.slots := by simp [hl]
  have ⟨t, next, hp, hc⟩ := h.preferred hs hf.pass
  have ⟨s', hch⟩ := choose_ok hc
  -- Slots that are before each other have the same name, and so the same manifest.
  have ht : t.name = s.name :=
    SlotState.name_eq_of_before (hp.before s hs hf.pass) (hf.least t (hl ▸ hp.mem) hp.eligible)
  have ⟨v', hv', hfl, _⟩ := bootable_iff.mp hch.bootable
  rw [hch.name, ht, hv] at hv'
  cases hv'
  exact hfl

-- The slot whose tries were spent is no other one.
theorem Exact.not_mem (h : Exact b verified (choose b verified)) (hl : b.slots = l₁ ++ s :: l₂)
    (hf : First (SlotState.before · ·) (·.Eligible b.floor verified) l₁ s l₂) (hs : s.successful = false) :
    ∀ s' ∈ l₁, s'.name ≠ s.name := by
  intro s' hs' hn
  have hc := choose_of_first hl hf (h.manifest hl hf)
  rw [hs, if_neg Bool.false_ne_true, hl, BootState.modify_of_mem ⟨s', hs', hn⟩] at hc
  have hne := BootState.modify_spent_ne ⟨s', hs', hn⟩
  rw [hc] at h
  generalize hr : Except.ok _ = r at h
  cases h
  case none => cases hr
  case proven hp hps =>
    simp only [Except.ok.injEq, Choice.mk.injEq] at hr
    have he : BootState.modify s.name .spent l₁ ++ s :: l₂ = l₁ ++ s :: l₂ :=
      (congrArg BootState.slots hr.right).trans hl
    exact hne (List.append_cancel_right he)
  case trying k₁ t k₂ n hk hp _ _ =>
    simp only [Except.ok.injEq, Choice.mk.injEq] at hr
    have he : BootState.modify s.name .spent l₁ ++ s :: l₂ = k₁ ++ { t with tries := n } :: k₂ :=
      congrArg BootState.slots hr.right
    rcases List.append_eq_append_iff.mp (hl.symm.trans hk) with ⟨k, rfl, _⟩ | ⟨k, rfl, ht⟩
    · rw [List.append_assoc] at he
      exact hne (List.append_inj_left he BootState.length_modify)
    · cases k
      case nil =>
        rw [List.append_nil] at he hne
        exact hne (List.append_inj_left he BootState.length_modify)
      case cons x k =>
        cases (List.cons.inj ht).left
        exact hf.first t (by simp) hp.eligible (hp.before s (by simp [hl]) hf.pass)

theorem choose_exact (b : BootState) (verified : List (String × ReleaseManifest)) :
    Exact b verified (choose b verified) ↔ Unambiguous b verified := by
  constructor
  case mp => exact fun h l₁ s l₂ hl hf => ⟨h.manifest hl hf, h.not_mem hl hf⟩
  case mpr =>
    intro h
    by_cases he : ∃ s ∈ b.slots, s.Eligible b.floor verified
    case pos =>
      have ⟨s, hs, he⟩ := he
      have ⟨l₁, s, l₂, hl, hf⟩ := exists_first SlotState.before_trans SlotState.before_total hs he
      have ⟨hm, hn⟩ := h l₁ s l₂ hl hf
      have hp : Preferred b verified s := ⟨by simp [hl], hf.pass, by simpa [hl] using hf.least⟩
      rw [choose_of_first hl hf hm]
      cases hs : s.successful
      case true => exact .proven hp hs
      case false =>
        rw [if_neg Bool.false_ne_true, hl, BootState.modify_of_not_mem (hn hs)]
        have ht : 0 < s.tries := hf.pass.tries.resolve_left (ne_true_of_eq_false hs)
        exact .trying hl hp hs (toNat_tries_spent ht)
    case neg =>
      cases hc : choose b verified
      case error e =>
        rw [(choose_error hc).left]
        exact .none fun s hs h => he ⟨s, hs, h⟩
      case ok c =>
        have ⟨s, hs⟩ := choose_ok hc
        have ho : b.Offers verified s := ⟨hs.priority, hs.bootable⟩
        exact absurd ⟨s, hs.mem, ho.eligible⟩ he

-- A stored state with two slots of one name. The one that is chosen is the second.
namespace Repeated

def used : SlotState := { name := "b", priority := 1, tries := 0, successful := false }

def stored : BootState := { floor := 0, slots := [used, .installed "b"] }

def manifest : ReleaseManifest where
  schema       := 1
  name         := "jlr"
  version      := "1"
  epoch        := 1
  imageDigest  := ⟨Bytes.fixed 32 0⟩
  imageSize    := 4
  minEpoch     := 1
  policyDigest := none
  components   := []

-- The tries of the first go from 0 to 65535, and those of the second stay.
def next : BootState := { floor := 0, slots := [{ used with tries := 65535 }, .installed "b"] }

theorem wrong_slot_spent : fromCbor BootState (toCbor stored) = .ok stored ∧
    choose stored [("b", manifest)] = .ok ⟨"b", next⟩ ∧
    ¬ Exact stored [("b", manifest)] (choose stored [("b", manifest)]) := by
  have hc : choose stored [("b", manifest)] = .ok ⟨"b", next⟩ := by decide +kernel
  refine ⟨by decide +kernel, hc, fun h => ?_⟩
  rw [hc] at h
  generalize hr : Except.ok (Choice.mk "b" next) = r at h
  cases h
  case none => cases hr
  case proven => exact absurd (congrArg BootState.slots (Choice.mk.inj (Except.ok.inj hr)).right) (by decide)
  case trying l₁ s l₂ tries hl hp hs ht =>
    have he := congrArg BootState.slots (Choice.mk.inj (Except.ok.inj hr)).right
    cases l₁
    case nil =>
      cases hl
      exact absurd ht (Nat.succ_ne_zero _)
    case cons s' l₁ =>
      have hu : used = s' := (List.cons.inj hl).left
      have hn : { used with tries := 65535 } = s' := (List.cons.inj he).left
      exact absurd (hn.trans hu.symm) (by decide)

end Repeated
