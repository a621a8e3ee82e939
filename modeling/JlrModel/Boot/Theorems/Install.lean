import JlrModel.Boot.Theorems.Exact

-- Which slot is left to fall back to when another one is installed.

open Sorted

variable {b : BootState} {verified : List (String × ReleaseManifest)} {s s' : SlotState} {name : String}

namespace SlotState

theorem priority_demote : s.demote.priority.toNat = min s.priority.toNat 14 := by
  unfold demote
  split
  case isTrue h =>
    have h : 15 ≤ s.priority.toNat := UInt16.le_iff_toNat_le.mp h
    exact (Nat.min_eq_right (Nat.le_of_succ_le h)).symm
  case isFalse h =>
    have h : ¬ 15 ≤ s.priority.toNat := fun hle => h (UInt16.le_iff_toNat_le.mpr hle)
    exact (Nat.min_eq_left (by omega)).symm

-- The order of two slots changes if the one was above the limit, the other is then its equal, and their names are
-- the other way round.
theorem before_demote (h : s.before s') : s.demote.before s'.demote ↔
    (MAX_PRIORITY ≤ s.priority → MAX_PRIORITY - 1 ≤ s'.priority → s.name ≤ s'.name) := by
  rw [before_iff] at h ⊢
  rw [priority_demote, priority_demote, name_demote, name_demote, UInt16.le_iff_toNat_le, UInt16.le_iff_toNat_le]
  change _ ↔ (15 ≤ s.priority.toNat → 14 ≤ s'.priority.toNat → s.name ≤ s'.name)
  constructor
  case mp =>
    rintro (h | ⟨_, hn⟩) hs hs'
    · omega
    · exact hn
  case mpr =>
    intro hn
    by_cases hs : 15 ≤ s.priority.toNat ∧ 14 ≤ s'.priority.toNat
    · exact .inr ⟨by omega, hn hs.left hs.right⟩
    · rcases h with h | ⟨h, hn⟩
      · exact .inl (by omega)
      · exact .inr ⟨by omega, hn⟩

end SlotState

-- A slot that is chosen.
def BootState.Prefers (b : BootState) (verified : List (String × ReleaseManifest)) (s : SlotState) : Prop :=
  s ∈ b.slots ∧ b.Offers verified s ∧ ∀ s' ∈ b.slots, b.Offers verified s' → s.before s'

theorem choose_slot (h : b.Prefers verified s) : (choose b verified).map (·.slot) = .ok s.name := by
  have ⟨hs, ho, hf⟩ := h
  have ⟨c, hc⟩ := choose_of_bootable hs ho.left ho.right
  have ⟨l₁, s', l₂, hl, h', he⟩ := choose_first hc
  have hm : s' ∈ b.slots := by simp [hl]
  have hn : s'.name = s.name := SlotState.name_eq_of_before (h'.least s (hl ▸ hs) ho) (hf s' hm h'.pass)
  rw [hc, he, ← hn]
  rfl

theorem choose_none (h : ∀ s ∈ b.slots, ¬ b.Offers verified s) : choose b verified = .error .noBootableSlot := by
  cases hc : choose b verified
  case error => rw [(choose_error hc).left]
  case ok =>
    have ⟨l₁, s, l₂, hl, hf, _⟩ := choose_first hc
    exact absurd hf.pass (h s (by simp [hl]))

theorem prefers_of_choose (h : (choose b verified).map (·.slot) = .ok name) :
    ∃ s, b.Prefers verified s ∧ s.name = name := by
  cases hc : choose b verified
  case error => rw [hc] at h; cases h
  case ok c =>
    rw [hc] at h
    cases h
    have ⟨l₁, s, l₂, hl, hf, he⟩ := choose_first hc
    exact ⟨s, ⟨by simp [hl], hf.pass, hl ▸ hf.least⟩, by rw [he]⟩

namespace BootState

theorem mem_modify_other (hn : s.name ≠ name) (hf : Keeps name f) : s ∈ modify name f ss ↔ s ∈ ss := by
  induction ss
  case nil => rfl
  case cons s' ss ih =>
    rw [modify]
    split
    case isTrue h =>
      have hs' : s ≠ s' := fun he => hn (he ▸ h)
      have hf' : s ≠ f s' := fun he => hn (he ▸ hf s' h)
      simp [hs', hf']
    case isFalse => simp [ih]

theorem mem_install_other (hn : s.name ≠ name) :
    s ∈ (b.install name).slots ↔ ∃ s' ∈ b.slots, s'.name ≠ name ∧ s = s'.demote := by
  have hd : s ∈ b.demoted name ↔ ∃ s' ∈ b.slots, s'.name ≠ name ∧ s = s'.demote := by
    rw [demoted, List.mem_map]
    constructor
    case mp =>
      rintro ⟨s', hs', rfl⟩
      split
      case isTrue h => exact ⟨s', hs', h, rfl⟩
      case isFalse h =>
        rw [if_neg h] at hn
        exact absurd (not_not.mp h) hn
    case mpr =>
      rintro ⟨s', hs', hn', rfl⟩
      exact ⟨s', hs', if_pos hn'⟩
  rw [← hd]
  by_cases h : name ∈ b.names
  · rw [install_of_mem h]
    exact mem_modify_other hn .installed
  · rw [install_of_not_mem h, List.mem_append, List.mem_singleton]
    exact or_iff_left fun he => hn (he ▸ rfl)

theorem Offers.name_ne (h : b.Offers verified s) (hv : ∀ v ∈ verified, v.1 ≠ name) : s.name ≠ name := by
  have ⟨v, hv', hn, _⟩ := h.eligible.manifest
  exact hn ▸ hv v hv'

theorem offers_demote (name : String) : (b.install name).Offers verified s.demote ↔ b.Offers verified s := by
  have hp : 0 < s.demote.priority ↔ 0 < s.priority := by
    rw [UInt16.lt_iff_toNat_lt, UInt16.lt_iff_toNat_lt, SlotState.priority_demote]
    exact Nat.lt_min.trans (and_iff_left (by decide))
  have hb : bootable b.floor verified s.demote = bootable b.floor verified s := by
    unfold bootable
    rw [SlotState.name_demote, SlotState.successful_demote, SlotState.tries_demote]
  exact and_congr hp (by rw [← hb]; rfl)

-- The slots that are offered are the same ones, some of them with a lower priority.
theorem forall_offers_install (hv : ∀ v ∈ verified, v.1 ≠ name) {P : SlotState → Prop} :
    (∀ s ∈ (b.install name).slots, (b.install name).Offers verified s → P s) ↔
      ∀ s ∈ b.slots, b.Offers verified s → P s.demote := by
  constructor
  case mp =>
    intro h s hs ho
    have ho' := (offers_demote name).mpr ho
    exact h _ ((mem_install_other (ho'.name_ne hv)).mpr ⟨s, hs, ho.name_ne hv, rfl⟩) ho'
  case mpr =>
    intro h s hs ho
    obtain ⟨s', hs', _, rfl⟩ := (mem_install_other (ho.name_ne hv)).mp hs
    exact h s' hs' ((offers_demote name).mp ho)

theorem prefers_install (hv : ∀ v ∈ verified, v.1 ≠ name) : (b.install name).Prefers verified s ↔
    ∃ s' ∈ b.slots, b.Offers verified s' ∧ s = s'.demote ∧
      ∀ t ∈ b.slots, b.Offers verified t → s'.demote.before t.demote := by
  constructor
  case mp =>
    rintro ⟨hs, ho, hf⟩
    obtain ⟨s', hs', _, rfl⟩ := (mem_install_other (ho.name_ne hv)).mp hs
    exact ⟨s', hs', (offers_demote name).mp ho, rfl, (forall_offers_install hv).mp hf⟩
  case mpr =>
    rintro ⟨s', hs', ho, rfl, hf⟩
    have ho' := (offers_demote name).mpr ho
    refine ⟨(mem_install_other (ho'.name_ne hv)).mpr ⟨s', hs', ho.name_ne hv, rfl⟩, ho', ?_⟩
    exact (forall_offers_install hv).mpr hf

-- Slots of the two highest priorities, which become one, are already in the order of their names.
def Ordered (b : BootState) (verified : List (String × ReleaseManifest)) : Prop :=
  ∀ s s', b.Prefers verified s → s' ∈ b.slots → b.Offers verified s' →
    MAX_PRIORITY ≤ s.priority → MAX_PRIORITY - 1 ≤ s'.priority → s.name ≤ s'.name

theorem fallback_kept (b : BootState) (name : String) (verified : List (String × ReleaseManifest))
    (hv : ∀ v ∈ verified, v.1 ≠ name) :
    (choose (b.install name) verified).map (·.slot) = (choose b verified).map (·.slot) ↔
      b.Ordered verified := by
  constructor
  case mp =>
    intro h s s' hp hs' ho hm hm'
    rw [choose_slot hp] at h
    obtain ⟨t, ht, hn⟩ := prefers_of_choose h
    obtain ⟨u, hu, _, rfl, hf⟩ := (prefers_install hv).mp ht
    have hb := hf s' hs' ho
    rw [SlotState.before_iff, SlotState.priority_demote, SlotState.priority_demote, hn, SlotState.name_demote] at hb
    have hm' : 14 ≤ s'.priority.toNat := UInt16.le_iff_toNat_le.mp hm'
    rcases hb with hb | ⟨_, hb⟩
    · omega
    · exact hb
  case mpr =>
    intro h
    by_cases he : ∃ s ∈ b.slots, b.Offers verified s
    case pos =>
      have ⟨s, hs, ho⟩ := he
      have ⟨l₁, s, l₂, hl, hf⟩ := exists_first SlotState.before_trans SlotState.before_total hs ho
      have hp : b.Prefers verified s := ⟨by simp [hl], hf.pass, hl ▸ hf.least⟩
      have hp' : (b.install name).Prefers verified s.demote := by
        refine (prefers_install hv).mpr ⟨s, hp.left, hp.right.left, rfl, fun t ht hot => ?_⟩
        exact (SlotState.before_demote (hp.right.right t ht hot)).mpr (h s t hp ht hot)
      rw [choose_slot hp, choose_slot hp', SlotState.name_demote]
    case neg =>
      have hn : ∀ s ∈ b.slots, ¬ b.Offers verified s := fun s hs ho => he ⟨s, hs, ho⟩
      have hn' : ∀ s ∈ (b.install name).slots, ¬ (b.install name).Offers verified s := (forall_offers_install hv).mpr hn
      rw [choose_none hn, choose_none hn']

end BootState

-- A third slot is installed beside two that have booted.
namespace Fallback

open Repeated (manifest)

-- The second slot was installed, booted, and has passed its self-test.
def updated : BootState := (BootState.fresh.install "b").markSuccessful "b" manifest

theorem older_slot_chosen : updated.names.Nodup ∧
    (choose (BootState.fresh.install "b") [("b", manifest)]).map (·.slot) = .ok "b" ∧
    (choose updated [("a", manifest), ("b", manifest)]).map (·.slot) = .ok "b" ∧
    (choose (updated.install "c") [("a", manifest), ("b", manifest)]).map (·.slot) = .ok "a" := by
  decide +kernel

theorem ordered_fresh : BootState.fresh.Ordered [("a", manifest)] := by
  intro s s' hp hs' _ _ _
  have hs := (List.mem_singleton.mp hp.left).trans (List.mem_singleton.mp hs').symm
  exact hs ▸ String.le_refl _

theorem fallback_kept_fresh : (∀ v ∈ [("a", manifest)], v.1 ≠ "b") ∧
    (choose (BootState.fresh.install "b") [("a", manifest)]).map (·.slot) =
      (choose BootState.fresh [("a", manifest)]).map (·.slot) := by
  have hv : ∀ v ∈ [("a", manifest)], v.1 ≠ "b" := by simp
  exact ⟨hv, (BootState.fallback_kept .fresh "b" [("a", manifest)] hv).mpr ordered_fresh⟩

end Fallback
