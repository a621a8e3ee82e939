import JlrModel.Boot.Choose
import Mathlib.Data.List.Nodup

variable {b : BootState} {name name' : String} {f : SlotState → SlotState} {s s' : SlotState} {ss : List SlotState}

namespace BootState

-- The slot of a name, of which there is at most one.
def slot (b : BootState) (name : String) : Option SlotState :=
  b.slots.find? (·.name = name)

def names (b : BootState) : List String :=
  b.slots.map (·.name)

-- The tries that are left.
def tries (b : BootState) : Nat :=
  (b.slots.map (·.tries.toNat)).sum

-- A change that leaves a slot its name.
def Keeps (name : String) (f : SlotState → SlotState) : Prop :=
  ∀ s, s.name = name → (f s).name = name

theorem Keeps.installed : Keeps name fun _ => .installed name :=
  fun _ _ => rfl

theorem Keeps.bad : Keeps name .bad :=
  fun _ h => h

theorem Keeps.proven : Keeps name .proven :=
  fun _ h => h

theorem Keeps.spent : Keeps name .spent :=
  fun _ h => h

theorem map_name_modify (hf : Keeps name f) :
    (modify name f ss).map (·.name) = ss.map (·.name) := by
  induction ss
  case nil => rfl
  case cons s ss ih =>
    rw [modify]
    by_cases h : s.name = name
    · simp [h, hf s h]
    · simp [h, ih]

theorem find_modify_self (hf : Keeps name f) :
    (modify name f ss).find? (·.name = name) = (ss.find? (·.name = name)).map f := by
  induction ss
  case nil => rfl
  case cons s ss ih =>
    rw [modify]
    by_cases h : s.name = name
    · simp [h, hf s h]
    · simp [h, ih]

theorem find_modify_other (hf : Keeps name f) (hn : name' ≠ name) :
    (modify name f ss).find? (·.name = name') = ss.find? (·.name = name') := by
  induction ss
  case nil => rfl
  case cons s ss ih =>
    rw [modify]
    by_cases h : s.name = name
    · simp [h, hf s h, Ne.symm hn]
    · by_cases h' : s.name = name'
      · simp [h', hn]
      · simp [h, h', ih]

-- A slot is found under its name.
theorem slot_of_mem (hb : b.names.Nodup) (hs : s ∈ b.slots) : b.slot s.name = some s := by
  unfold slot
  unfold names at hb
  generalize b.slots = ss at hb hs
  induction ss
  case nil => cases hs
  case cons s' ss ih =>
    have ⟨hn, hb⟩ := List.nodup_cons.mp hb
    cases List.mem_cons.mp hs
    case inl h => simp [h]
    case inr h =>
      have hne : s'.name ≠ s.name := by
        intro he
        exact hn (List.mem_map.mpr ⟨s, h, he.symm⟩)
      simp [hne, ih hb h]

end BootState

namespace SlotState

theorem name_demote : s.demote.name = s.name := by
  unfold demote
  split <;> rfl

theorem tries_demote : s.demote.tries = s.tries := by
  unfold demote
  split <;> rfl

theorem successful_demote : s.demote.successful = s.successful := by
  unfold demote
  split <;> rfl

end SlotState

section

variable {verified : List (String × ReleaseManifest)} {c : Choice}

-- What a slot that was chosen is like.
structure Chosen (b : BootState) (verified : List (String × ReleaseManifest)) (c : Choice) (s : SlotState) : Prop where
  mem      : s ∈ b.slots
  name     : s.name = c.slot
  priority : 0 < s.priority
  bootable : bootable b.floor verified s
  next     : c.next = if s.successful then b else { b with slots := BootState.modify s.name .spent b.slots }

theorem choose_ok (h : choose b verified = .ok c) : ∃ s, Chosen b verified c s := by
  unfold choose at h
  dsimp only at h
  split at h
  case h_1 => cases h
  case h_2 s hs =>
    cases h
    have hm := List.mem_filter.mp ((List.mem_insertionSort _).mp (List.mem_of_find?_eq_some hs))
    have hb : bootable b.floor verified s := List.find?_some hs
    exact ⟨s, hm.left, rfl, of_decide_eq_true hm.right, hb, rfl⟩

-- There is a choice exactly if some slot may be booted.
theorem choose_of_bootable (hs : s ∈ b.slots) (hp : 0 < s.priority) (hb : bootable b.floor verified s) :
    ∃ c, choose b verified = .ok c := by
  unfold choose
  dsimp only
  split
  case h_1 hn =>
    have hm : s ∈ (b.slots.filter (0 < ·.priority)).insertionSort fun a b => a.before b :=
      (List.mem_insertionSort _).mpr (List.mem_filter.mpr ⟨hs, decide_eq_true hp⟩)
    exact absurd hb (List.find?_eq_none.mp hn s hm)
  case h_2 => exact ⟨_, rfl⟩

theorem bootable_iff : bootable b.floor verified s ↔
    ∃ v, verified.find? (·.1 = s.name) = some v ∧ b.floor ≤ v.2.epoch ∧ (s.successful ∨ 0 < s.tries) := by
  unfold bootable
  split
  case h_1 hn => simp [hn]
  case h_2 name m hv => simp [hv]

end

namespace BootState

variable {m : ReleaseManifest}

theorem names_markBad : (b.markBad name).names = b.names :=
  map_name_modify .bad

theorem names_markSuccessful : (b.markSuccessful name m).names = b.names :=
  map_name_modify .proven

theorem slot_markBad : (b.markBad name).slot name = (b.slot name).map .bad :=
  find_modify_self .bad

theorem slot_markBad_other (hn : name' ≠ name) : (b.markBad name).slot name' = b.slot name' :=
  find_modify_other .bad hn

theorem slot_markSuccessful_other (hn : name' ≠ name) : (b.markSuccessful name m).slot name' = b.slot name' :=
  find_modify_other .proven hn

-- The slots that are left when another one is installed.
def demoted (b : BootState) (name : String) : List SlotState :=
  b.slots.map fun s => if s.name ≠ name then s.demote else s

theorem map_name_demoted (b : BootState) (name : String) : (b.demoted name).map (·.name) = b.names := by
  rw [demoted, names, List.map_map]
  apply List.map_congr_left
  intro s _
  simp only [Function.comp_apply]
  split
  · exact SlotState.name_demote
  · rfl

theorem install_of_mem (h : name ∈ b.names) :
    (b.install name).slots = modify name (fun _ => .installed name) (b.demoted name) := by
  rw [← map_name_demoted b name] at h
  have ⟨s, hs, hn⟩ := List.mem_map.mp h
  exact if_pos (List.any_eq_true.mpr ⟨s, hs, decide_eq_true hn⟩)

theorem install_of_not_mem (h : name ∉ b.names) :
    (b.install name).slots = b.demoted name ++ [.installed name] := by
  rw [← map_name_demoted b name] at h
  refine if_neg fun ha => ?_
  have ⟨s, hs, hn⟩ := List.any_eq_true.mp ha
  exact h (List.mem_map.mpr ⟨s, hs, of_decide_eq_true hn⟩)

theorem nodup_install (h : b.names.Nodup) : (b.install name).names.Nodup := by
  by_cases hn : name ∈ b.names
  · rw [names, install_of_mem hn, map_name_modify .installed, map_name_demoted]
    exact h
  · rw [names, install_of_not_mem hn, List.map_append, map_name_demoted]
    rw [List.map_singleton, ← List.concat_eq_append]
    exact (List.nodup_concat _ _).mpr ⟨hn, h⟩

theorem slot_demoted (hn : name' ≠ name) :
    (b.demoted name).find? (·.name = name') = (b.slot name').map .demote := by
  unfold demoted slot
  induction b.slots
  case nil => rfl
  case cons s ss ih =>
    by_cases h : s.name = name'
    · have hs : s.name ≠ name := h ▸ hn
      have hd : s.demote.name = name' := SlotState.name_demote.trans h
      rw [List.map_cons, if_pos hs]
      simp [hd, h]
    · by_cases hs : s.name = name
      · simpa [h, hs, Ne.symm hn] using ih
      · simpa [h, hs, SlotState.name_demote] using ih

theorem slot_install : (b.install name).slot name = some (.installed name) := by
  by_cases hn : name ∈ b.names
  · rw [slot, install_of_mem hn, find_modify_self .installed]
    rw [← map_name_demoted b name] at hn
    have ⟨s, hs, he⟩ := List.mem_map.mp hn
    cases hf : (b.demoted name).find? (·.name = name)
    case none => exact absurd (decide_eq_true he) (List.find?_eq_none.mp hf s hs)
    case some => rfl
  · rw [slot, install_of_not_mem hn, List.find?_append]
    have hf : (b.demoted name).find? (·.name = name) = none := by
      rw [← map_name_demoted b name] at hn
      refine List.find?_eq_none.mpr fun s hs he => ?_
      exact hn (List.mem_map.mpr ⟨s, hs, of_decide_eq_true he⟩)
    rw [hf]
    simp [SlotState.installed]

theorem slot_install_other (hn : name' ≠ name) : (b.install name).slot name' = (b.slot name').map .demote := by
  by_cases h : name ∈ b.names
  · rw [slot, install_of_mem h, find_modify_other .installed hn, slot_demoted hn]
  · rw [slot, install_of_not_mem h, List.find?_append, slot_demoted hn]
    have hi : [SlotState.installed name].find? (·.name = name') = none :=
      List.find?_cons_of_neg fun h => Ne.symm hn (of_decide_eq_true h)
    rw [hi, Option.or_none]

theorem sum_tries_modify (h : ss.find? (·.name = name) = some s) :
    ((modify name f ss).map (·.tries.toNat)).sum + s.tries.toNat =
      (ss.map (·.tries.toNat)).sum + (f s).tries.toNat := by
  induction ss
  case nil => cases h
  case cons s' ss ih =>
    rw [modify]
    by_cases hn : s'.name = name
    · have hs : s' = s := by simpa [hn] using h
      rw [if_pos hn, hs]
      simp only [List.map_cons, List.sum_cons]
      omega
    · have ih := ih (by simpa [hn] using h)
      rw [if_neg hn]
      simp only [List.map_cons, List.sum_cons]
      omega

-- A slot that is not proven and has at most this many tries left.
def Trying (b : BootState) (name : String) (n : Nat) : Prop :=
  ∃ s, b.slot name = some s ∧ s.successful = false ∧ s.tries.toNat ≤ n

theorem Trying.install (h : b.Trying name n) (hn : name ≠ name') : (b.install name').Trying name n := by
  have ⟨s, hs, hf, ht⟩ := h
  refine ⟨s.demote, ?_, ?_, ?_⟩
  · rw [slot_install_other hn, hs]
    rfl
  · rw [SlotState.successful_demote, hf]
  · rwa [SlotState.tries_demote]

theorem Trying.markBad (h : b.Trying name n) : (b.markBad name').Trying name n := by
  have ⟨s, hs, hf, ht⟩ := h
  by_cases hn : name = name'
  · subst hn
    refine ⟨s.bad, ?_, rfl, Nat.zero_le _⟩
    rw [slot_markBad, hs]
    rfl
  · exact ⟨s, (slot_markBad_other hn).trans hs, hf, ht⟩

theorem Trying.markSuccessful (h : b.Trying name n) (hn : name ≠ name') :
    (b.markSuccessful name' m).Trying name n := by
  have ⟨s, hs, hf, ht⟩ := h
  exact ⟨s, (slot_markSuccessful_other hn).trans hs, hf, ht⟩

end BootState

section

variable {verified : List (String × ReleaseManifest)} {c : Choice}

namespace Chosen

theorem names_next (h : Chosen b verified c s) : c.next.names = b.names := by
  rw [h.next]
  split
  · rfl
  · exact BootState.map_name_modify .spent

theorem floor_next (h : Chosen b verified c s) : c.next.floor = b.floor := by
  rw [h.next]
  split <;> rfl

-- The slot is proven, or it has a try to spend.
theorem tries_pos (h : Chosen b verified c s) (hf : s.successful = false) : 0 < s.tries.toNat := by
  have ⟨_, _, _, ht⟩ := bootable_iff.mp h.bootable
  rw [hf, or_iff_right Bool.false_ne_true] at ht
  exact UInt16.lt_iff_toNat_lt.mp ht

theorem spent (h : Chosen b verified c s) (hf : s.successful = false) :
    s.spent.tries.toNat + 1 = s.tries.toNat := by
  have ht := h.tries_pos hf
  have h1 : (1 : UInt16) ≤ s.tries := UInt16.le_iff_toNat_le.mpr ht
  change (s.tries - 1).toNat + 1 = _
  rw [UInt16.toNat_sub_of_le _ _ h1]
  exact Nat.sub_add_cancel ht

theorem tries_next (h : Chosen b verified c s) (hb : b.names.Nodup) (hf : s.successful = false) :
    c.next.tries + 1 = b.tries := by
  have hs := BootState.sum_tries_modify (f := .spent) (BootState.slot_of_mem hb h.mem)
  have he := h.spent hf
  rw [h.next, hf, if_neg Bool.false_ne_true]
  change ((BootState.modify s.name .spent b.slots).map (·.tries.toNat)).sum + 1 = (b.slots.map (·.tries.toNat)).sum
  omega

-- A boot of a slot that is not proven spends one of its tries.
theorem trying (h : Chosen b verified c s) (hb : b.names.Nodup) (ht : b.Trying c.slot n) :
    ∃ k, n = k + 1 ∧ c.next.Trying c.slot k := by
  have ⟨s', hs', hf, hle⟩ := ht
  have hs : b.slot c.slot = some s := h.name ▸ BootState.slot_of_mem hb h.mem
  rw [hs] at hs'
  cases hs'
  have he := h.spent hf
  refine ⟨n - 1, by omega, s.spent, ?_, hf, by omega⟩
  rw [h.next, hf, if_neg Bool.false_ne_true, BootState.slot, h.name, BootState.find_modify_self .spent]
  exact congrArg (Option.map _) hs

theorem trying_other (h : Chosen b verified c s) (ht : b.Trying name n) (hn : name ≠ c.slot) :
    c.next.Trying name n := by
  rw [h.next]
  split
  · exact ht
  · have ⟨s', hs', hf, hle⟩ := ht
    refine ⟨s', ?_, hf, hle⟩
    rw [BootState.slot, BootState.find_modify_other .spent (h.name ▸ hn)]
    exact hs'

end Chosen

end
