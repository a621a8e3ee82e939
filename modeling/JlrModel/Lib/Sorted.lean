import Mathlib.Data.List.Destutter
import Mathlib.Data.List.Dedup
import Mathlib.Data.List.Sort
import Mathlib.Order.Lattice

-- Lists that are sorted, and of which equal neighbours are then dropped or the first that passes a test is taken.

namespace Sorted

-- A total order that is given by a test.
structure Order (le : α → α → Bool) : Prop where
  trans    : ∀ a b c, le a b → le b c → le a c
  total    : ∀ a b, le a b || le b a
  antisymm : ∀ a b, le a b → le b a → a = b

-- Elements that are compared by their keys.
theorem key_le [LinearOrder β] (key : α → β) :
    (∀ a b c, decide (key a ≤ key b) → decide (key b ≤ key c) → decide (key a ≤ key c)) ∧
    ∀ a b, decide (key a ≤ key b) || decide (key b ≤ key a) := by
  constructor
  · exact fun _ _ _ h₁ h₂ => decide_eq_true ((of_decide_eq_true h₁).trans (of_decide_eq_true h₂))
  · intro a b
    rw [Bool.or_eq_true, decide_eq_true_eq, decide_eq_true_eq]
    exact le_total _ _

-- An order that is given by keys which no two elements share.
theorem Order.of_key {key : α → β} [LinearOrder β] (h : Function.Injective key) :
    Order fun a b : α => key a ≤ key b where
  trans              := (key_le key).left
  total              := (key_le key).right
  antisymm _ _ h₁ h₂ := h ((of_decide_eq_true h₁).antisymm (of_decide_eq_true h₂))

-- Inserting what a filter drops does not show behind the filter.
theorem filterMap_orderedInsert {r : α → α → Prop} [DecidableRel r] {f : α → Option β} {l : List α} {a : α}
    (h : f a = none) : (l.orderedInsert r a).filterMap f = l.filterMap f := by
  induction l
  case nil => simp [h]
  case cons b l ih =>
    rw [List.orderedInsert_cons]
    split
    case isTrue => rw [List.filterMap_cons, h]
    case isFalse => simp only [List.filterMap_cons, ih]

theorem filterMap_foldr_orderedInsert {r : α → α → Prop} [DecidableRel r] {f : α → Option β} {l l' : List α}
    (h : ∀ a ∈ l', f a = none) : (l'.foldr (List.orderedInsert r) l).filterMap f = l.filterMap f := by
  induction l'
  case nil => rfl
  case cons a l' ih =>
    rw [List.foldr_cons, filterMap_orderedInsert (h a List.mem_cons_self)]
    exact ih fun b hb => h b (List.mem_cons_of_mem _ hb)

variable {α : Type _} [DecidableEq α] {le : α → α → Bool} {l l' : List α} {a b : α}

theorem mem_destutter'_ne : a ∈ l.destutter' (· ≠ ·) b ↔ a = b ∨ a ∈ l := by
  induction l generalizing b
  case nil => simp
  case cons c l ih =>
    by_cases h : b = c
    case pos => rw [List.destutter'_cons_neg _ (not_not.mpr h), ih, List.mem_cons, h, or_self_left]
    case neg => rw [List.destutter'_cons_pos _ h, List.mem_cons, ih, List.mem_cons]

-- Nothing but neighbours that are equal is dropped.
@[simp]
theorem mem_destutter_ne : a ∈ l.destutter (· ≠ ·) ↔ a ∈ l := by
  cases l
  case nil => simp
  case cons => rw [List.destutter_cons', mem_destutter'_ne, List.mem_cons]

@[simp]
theorem mem_iff : a ∈ (l.mergeSort le).destutter (· ≠ ·) ↔ a ∈ l := by
  rw [mem_destutter_ne, List.mem_mergeSort]

theorem eq_nil_iff : (l.mergeSort le).destutter (· ≠ ·) = [] ↔ l = [] := by
  simp only [List.eq_nil_iff_forall_not_mem, mem_iff]

-- What is left is strictly sorted.
theorem strict (h : Order le) :
    ((l.mergeSort le).destutter (· ≠ ·)).Pairwise fun a b => le a b ∧ a ≠ b := by
  have hle : ((l.mergeSort le).destutter (· ≠ ·)).Pairwise fun a b => le a b :=
    (List.pairwise_mergeSort h.trans h.total l).sublist (List.destutter_sublist _ _)
  have hne := List.isChain_destutter (· ≠ ·) (l.mergeSort le)
  generalize (l.mergeSort le).destutter (· ≠ ·) = s at hle hne
  -- Between equal elements, all those of a sorted list would be equal to their neighbours.
  induction s
  case nil => exact .nil
  case cons a s ih =>
    have ⟨ha, hs⟩ := List.pairwise_cons.mp hle
    replace ih := ih hs hne.of_cons
    refine .cons (fun b hb => ⟨ha b hb, ?_⟩) ih
    cases s with
    | nil      => contradiction
    | cons c s =>
      have hc : a ≠ c := (List.isChain_cons_cons.mp hne).left
      cases List.mem_cons.mp hb
      case inl hb => exact hb ▸ hc
      case inr hb =>
        intro he
        have hcb := ((List.pairwise_cons.mp ih).left b hb).left
        exact hc (h.antisymm _ _ (ha c List.mem_cons_self) (he ▸ hcb))

-- Lists with the same elements come to the same, whatever their order is and however often they have each.
theorem congr (h : Order le) (hm : ∀ a, a ∈ l ↔ a ∈ l') :
    (l.mergeSort le).destutter (· ≠ ·) = (l'.mergeSort le).destutter (· ≠ ·) := by
  have hl := strict h (l := l)
  have hl' := strict h (l := l')
  refine List.Perm.eq_of_pairwise (fun a b _ _ => h.antisymm a b) (hl.imp And.left) (hl'.imp And.left) ?_
  refine (List.perm_ext_iff_of_nodup (hl.imp And.right) (hl'.imp And.right)).mpr fun a => ?_
  rw [mem_iff, mem_iff, hm]

section

variable {α : Type _} {r : α → α → Prop} {P Q : α → Prop} {l l₁ l₂ l₁' l₂' : List α} {a a' b : α}

-- The first of the least elements of a list among those that pass a test.
structure First (r : α → α → Prop) (P : α → Prop) (l₁ : List α) (a : α) (l₂ : List α) : Prop where
  pass  : P a
  least : ∀ b ∈ l₁ ++ a :: l₂, P b → r a b
  first : ∀ b ∈ l₁, P b → ¬ r b a

namespace First

theorem cons (h : First r P l₁ a l₂) (hb : P b → r a b ∧ ¬ r b a) : First r P (b :: l₁) a l₂ where
  pass  := h.pass
  least := by
    rintro c (_ | ⟨_, hc⟩) hp
    · exact (hb hp).left
    · exact h.least c hc hp
  first := by
    rintro c (_ | ⟨_, hc⟩) hp
    · exact (hb hp).right
    · exact h.first c hc hp

theorem head (ha : P a) (hr : r a a) (h : ∀ b ∈ l, P b → r a b) : First r P [] a l where
  pass  := ha
  least := by
    rintro b (_ | ⟨_, hb⟩) hp
    · exact hr
    · exact h b hb hp
  first := nofun

theorem mono (h : First r P l₁ a l₂) (hQ : ∀ b, Q b → P b) (ha : Q a) : First r Q l₁ a l₂ where
  pass         := ha
  least b hb q := h.least b hb (hQ b q)
  first b hb q := h.first b hb (hQ b q)

-- There is no other.
theorem unique (h : First r P l₁ a l₂) (h' : First r P l₁' a' l₂') (he : l₁ ++ a :: l₂ = l₁' ++ a' :: l₂') :
    l₁ = l₁' ∧ a = a' ∧ l₂ = l₂' := by
  have ha : a ∉ l₁' := fun hm => h'.first a hm h.pass (h.least a' (by simp [he]) h'.pass)
  have ha' : a' ∉ l₁ := fun hm => h.first a' hm h'.pass (h'.least a (by simp [← he]) h.pass)
  obtain ⟨k, rfl, hk⟩ | ⟨k, rfl, hk⟩ := List.append_eq_append_iff.mp he
  all_goals
    cases k
    case nil => simp_all
    case cons => simp_all

-- What does not pass may be left out.
theorem of_filter {p : α → Bool} (h : First r P l₁ a l₂) (hl : l.filter p = l₁ ++ a :: l₂) :
    ∃ l₁ l₂, l = l₁ ++ a :: l₂ ∧ First r (fun b => p b ∧ P b) l₁ a l₂ := by
  obtain ⟨k₁, k, rfl, h₁, hk⟩ := List.filter_eq_append_iff.mp hl
  obtain ⟨k₂, k₃, rfl, h₂, ha, h₃⟩ := List.filter_eq_cons_iff.mp hk
  refine ⟨k₁ ++ k₂, k₃, (List.append_assoc ..).symm, ⟨ha, h.pass⟩, ?_, ?_⟩
  · intro b hb ⟨hp, hP⟩
    refine h.least b ?_ hP
    rw [← hl]
    exact List.mem_filter.mpr ⟨by simpa using hb, hp⟩
  · intro b hb ⟨hp, hP⟩
    refine h.first b ?_ hP
    cases List.mem_append.mp hb
    case inl hb => exact h₁ ▸ List.mem_filter.mpr ⟨hb, hp⟩
    case inr hb => exact absurd hp (h₂ b hb)

end First

variable [DecidableRel r] {p : α → Bool}

theorem find_orderedInsert_neg (h : p a = false) : (l.orderedInsert r a).find? p = l.find? p := by
  induction l
  case nil => simp [h]
  case cons b l ih =>
    rw [List.orderedInsert]
    split
    · simp [h]
    · simp only [List.find?_cons, ih]

theorem find_orderedInsert_none (h : p a) (hl : l.find? p = none) : (l.orderedInsert r a).find? p = some a := by
  induction l
  case nil => simp [h]
  case cons b l ih =>
    have hb : ¬ p b := List.find?_eq_none.mp hl b List.mem_cons_self
    rw [List.find?_cons_of_neg hb] at hl
    rw [List.orderedInsert]
    split
    · simp [h]
    · simp [hb, ih hl]

theorem find_orderedInsert_some (ht : ∀ a b c, r a b → r b c → r a c) (hs : l.Pairwise r) (h : p a)
    (hl : l.find? p = some b) : (l.orderedInsert r a).find? p = some (if r a b then a else b) := by
  induction l
  case nil => cases hl
  case cons c l ih =>
    have ⟨hc, hs⟩ := List.pairwise_cons.mp hs
    rw [List.orderedInsert]
    by_cases hp : p c
    · have he : c = b := by simpa [hp] using hl
      subst he
      split
      · simp [h]
      · simp [hp]
    · have hb : l.find? p = some b := by simpa [hp] using hl
      split
      case isTrue hr =>
        have hab : r a b := ht a c b hr (hc b (List.mem_of_find?_eq_some hb))
        simp [h, hab]
      case isFalse => simp [hp, ih hs hb]

-- A stable sort brings it to the front of all those that pass.
theorem find_insertionSort (ht : ∀ a b c, r a b → r b c → r a c) (hr : ∀ a b, r a b ∨ r b a)
    (h : (l.insertionSort r).find? p = some a) : ∃ l₁ l₂, l = l₁ ++ a :: l₂ ∧ First r (p ·) l₁ a l₂ := by
  have : Std.Total r := ⟨hr⟩
  have : IsTrans α r := ⟨ht⟩
  induction l generalizing a
  case nil => cases h
  case cons b l ih =>
    have hs : (l.insertionSort r).Pairwise r := List.pairwise_insertionSort r l
    have hrefl : r b b := or_self_iff.mp (hr b b)
    rw [List.insertionSort_cons] at h
    cases hb : p b
    case false =>
      rw [find_orderedInsert_neg hb] at h
      have ⟨l₁, l₂, he, hf⟩ := ih h
      refine ⟨b :: l₁, l₂, congrArg (b :: ·) he, hf.cons fun hp => ?_⟩
      exact absurd hp (ne_true_of_eq_false hb)
    case true =>
      cases hc : (l.insertionSort r).find? p
      case none =>
        rw [find_orderedInsert_none hb hc] at h
        cases h
        refine ⟨[], l, rfl, .head hb hrefl fun c hm hp => ?_⟩
        exact absurd hp (List.find?_eq_none.mp hc c ((List.mem_insertionSort r).mpr hm))
      case some c =>
        rw [find_orderedInsert_some ht hs hb hc] at h
        have ⟨l₁, l₂, he, hf⟩ := ih hc
        split at h
        case isTrue hbc =>
          cases h
          exact ⟨[], l, rfl, .head hb hrefl fun d hm hp => ht _ _ _ hbc (hf.least d (he ▸ hm) hp)⟩
        case isFalse hbc =>
          cases h
          refine ⟨b :: l₁, l₂, congrArg (b :: ·) he, hf.cons fun _ => ⟨?_, hbc⟩⟩
          exact (hr b a).resolve_left hbc

open Classical in
theorem exists_first (ht : ∀ a b c, r a b → r b c → r a c) (hr : ∀ a b, r a b ∨ r b a) (ha : a ∈ l) (hP : P a) :
    ∃ l₁ b l₂, l = l₁ ++ b :: l₂ ∧ First r P l₁ b l₂ := by
  have hm : a ∈ l.insertionSort r := (List.mem_insertionSort r).mpr ha
  cases hf : (l.insertionSort r).find? (decide <| P ·)
  case none => exact absurd (decide_eq_true hP) (List.find?_eq_none.mp hf a hm)
  case some b =>
    have ⟨l₁, l₂, he, hb⟩ := find_insertionSort ht hr hf
    exact ⟨l₁, b, l₂, he, hb.mono (fun _ => decide_eq_true) (of_decide_eq_true hb.pass)⟩

end

section

variable {α κ : Type _} [LinearOrder κ] {key : α → κ} {R : α → α → Prop} [DecidableRel R] {q : α → Bool}
  {l : List α} {a b : α} {k : κ}

-- A stable sort keeps the elements with one key in their order.
theorem find_mergeSort_key (hq : ∀ a, q a ↔ key a = k) :
    (l.mergeSort fun a b => key a ≤ key b).find? q = l.find? q := by
  have ⟨ht, hc⟩ := key_le key
  have hp : (l.filter q).Pairwise fun a b => decide (key a ≤ key b) := by
    refine List.pairwise_of_forall_mem_list fun a ha b hb => decide_eq_true ?_
    rw [(hq a).mp (List.mem_filter.mp ha).right, (hq b).mp (List.mem_filter.mp hb).right]
  have hs := (List.sublist_mergeSort ht hc hp List.filter_sublist).filter q
  simp only [List.filter_filter, Bool.and_self] at hs
  rw [← List.head?_filter, ← List.head?_filter, hs.eq_of_length ((List.mergeSort_perm l _).filter _).length_eq.symm]

-- Of neighbours with one key, the first stays.
omit [LinearOrder κ] in
theorem find_destutter'_key (hR : ∀ a b, R a b ↔ key a ≠ key b) (hq : ∀ a, q a ↔ key a = k) :
    (l.destutter' R a).find? q = (a :: l).find? q := by
  induction l generalizing a
  case nil => rfl
  case cons b l ih =>
    by_cases h : R a b
    case pos => simp only [List.destutter'_cons_pos _ h, List.find?_cons, ih]
    case neg =>
      have hk : key a = key b := not_not.mp ((hR a b).not.mp h)
      have hb : q a = q b := by rw [Bool.eq_iff_iff, hq, hq, hk]
      rw [List.destutter'_cons_neg _ h, ih, List.find?_cons, List.find?_cons, List.find?_cons, hb]
      cases q b <;> rfl

omit [LinearOrder κ] in
theorem find_destutter_key (hR : ∀ a b, R a b ↔ key a ≠ key b) (hq : ∀ a, q a ↔ key a = k) :
    (l.destutter R).find? q = l.find? q := by
  cases l
  case nil => rfl
  case cons => rw [List.destutter_cons', find_destutter'_key hR hq]

-- What is left of sorted elements has increasing keys.
theorem strict_key (hR : ∀ a b, R a b ↔ key a ≠ key b) :
    ((l.mergeSort fun a b => key a ≤ key b).destutter R).Pairwise fun a b => key a < key b := by
  have ⟨ht, hc⟩ := key_le key
  have hle := (List.pairwise_mergeSort ht hc l).sublist (List.destutter_sublist R _)
  have hne := List.isChain_destutter R (l.mergeSort fun a b => key a ≤ key b)
  have htr : Trans (fun a b : α => key a < key b) (fun a b => key a < key b) (fun a b => key a < key b) :=
    ⟨fun h₁ h₂ => h₁.trans h₂⟩
  refine List.isChain_iff_pairwise.mp (List.isChain_iff_getElem.mpr fun i hi => ?_)
  have h₁ := List.pairwise_iff_getElem.mp hle i (i + 1) (by omega) hi (by omega)
  have h₂ := List.isChain_iff_getElem.mp hne i hi
  exact (of_decide_eq_true h₁).lt_of_ne ((hR _ _).mp h₂)

end

end Sorted
