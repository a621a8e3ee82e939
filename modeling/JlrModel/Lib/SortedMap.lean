import Mathlib.Order.Defs.LinearOrder
import Mathlib.Data.List.Basic
import Mathlib.Order.Basic
import Mathlib.Order.Lattice

-- Finite maps as association lists whose keys strictly increase, the observable behavior of an
-- ordered map: iteration is in key order and inserting under a present key replaces its entry.

namespace SortedMap

variable {κ α : Type _} [LinearOrder κ]

def insert (k : κ) (a : α) : List (κ × α) → List (κ × α)
  | [] => [(k, a)]
  | e :: m => if k < e.1 then (k, a) :: e :: m else if k = e.1 then (k, a) :: m else e :: insert k a m

def get (k : κ) (m : List (κ × α)) : Option α :=
  m.find? (·.1 = k) |>.map Prod.snd

def erase (k : κ) (m : List (κ × α)) : List (κ × α) :=
  m.filter (·.1 ≠ k)

def Sorted (m : List (κ × α)) : Prop :=
  m.Pairwise (·.1 < ·.1)

variable {k k' : κ} {a a' : α} {e : κ × α} {m m' : List (κ × α)}

@[simp]
theorem get_nil : get k ([] : List (κ × α)) = none :=
  rfl

theorem get_cons : get k (e :: m) = if e.1 = k then some e.2 else get k m := by
  by_cases h : e.1 = k <;> simp [get, h]

@[simp]
theorem sorted_nil : Sorted ([] : List (κ × α)) :=
  List.Pairwise.nil

theorem sorted_cons : Sorted (e :: m) ↔ (∀ e' ∈ m, e.1 < e'.1) ∧ Sorted m :=
  List.pairwise_cons

theorem mem_insert_fst (h : e ∈ insert k a m) : e = (k, a) ∨ e ∈ m := by
  induction m
  case nil => simpa [insert] using h
  case cons e' m ih =>
    simp only [insert] at h
    split at h <;> try split at h
    all_goals simp only [List.mem_cons] at h ⊢
    · exact h
    · exact h.imp_right .inr
    · obtain h | h := h
      · exact .inr (.inl h)
      · exact (ih h).imp_right .inr

theorem Sorted.insert (h : Sorted m) : Sorted (SortedMap.insert k a m) := by
  induction m
  case nil => simp [SortedMap.insert, Sorted]
  case cons e m ih =>
    have ⟨hlt, hm⟩ := sorted_cons.mp h
    simp only [SortedMap.insert]
    split
    case isTrue hk =>
      refine sorted_cons.mpr ⟨?_, h⟩
      simp only [List.mem_cons, forall_eq_or_imp]
      exact ⟨hk, fun e' he' => hk.trans (hlt e' he')⟩
    case isFalse hk =>
      split
      case isTrue hk => exact sorted_cons.mpr ⟨hk ▸ hlt, hm⟩
      case isFalse hk' =>
        refine sorted_cons.mpr ⟨fun e' he' => ?_, ih hm⟩
        obtain rfl | he' := mem_insert_fst he'
        · exact lt_of_le_of_ne (not_lt.mp hk) (Ne.symm hk')
        · exact hlt e' he'

theorem get_insert_self : get k (insert k a m) = some a := by
  induction m
  case nil => simp [insert, get_cons]
  case cons e m ih =>
    simp only [insert]
    split <;> try split
    · simp [get_cons]
    · simp [get_cons]
    · rename_i h
      rw [get_cons, if_neg (Ne.symm h), ih]

theorem get_insert_of_ne (h : k' ≠ k) : get k' (insert k a m) = get k' m := by
  induction m
  case nil => simp [insert, get_cons, h.symm]
  case cons e m ih =>
    simp only [insert]
    split <;> try split
    · simp [get_cons, h.symm]
    · rename_i he
      simp [get_cons, h.symm, ← he]
    · simp [get_cons, ih]

-- Inserting above every key present appends, so filling a map in key order lists the entries in
-- the order they were inserted in.
theorem insert_eq_append (h : ∀ e ∈ m, e.1 < k) : insert k a m = m ++ [(k, a)] := by
  induction m
  case nil => rfl
  case cons e m ih =>
    have hk := h e (by simp)
    have ih := ih (fun e' he' => h e' (by simp [he']))
    simp [insert, hk.not_gt, hk.ne', ih]

-- Filling a map with entries that come after its own appends them.
theorem foldl_insert_eq_append {l : List (κ × α)} (hs : Sorted l) (h : ∀ e ∈ m, ∀ e' ∈ l, e.1 < e'.1) :
    l.foldl (fun m e => insert e.1 e.2 m) m = m ++ l := by
  induction l generalizing m
  case nil => simp
  case cons e l ih =>
    have ⟨hlt, hl⟩ := sorted_cons.mp hs
    rw [List.foldl_cons, insert_eq_append fun e' he' => h e' he' e List.mem_cons_self]
    rw [ih hl, List.append_assoc, List.singleton_append]
    intro e₁ he₁ e₂ he₂
    obtain he₁ | he₁ := List.mem_append.mp he₁
    · exact h e₁ he₁ e₂ (List.mem_cons_of_mem _ he₂)
    · exact List.mem_singleton.mp he₁ ▸ hlt e₂ he₂

theorem get_eq_none_iff : get k m = none ↔ ∀ e ∈ m, e.1 ≠ k := by
  simp [get]

theorem mem_of_get (h : get k m = some a) : (k, a) ∈ m := by
  induction m
  case nil => simp at h
  case cons e m ih =>
    rw [get_cons] at h
    split at h
    case isTrue hk =>
      obtain ⟨k', a'⟩ := e
      simp_all
    case isFalse => exact List.mem_cons_of_mem _ (ih h)

theorem Sorted.get_of_mem (hs : Sorted m) (h : e ∈ m) : get e.1 m = some e.2 := by
  induction m
  case nil => simp at h
  case cons e' m ih =>
    have ⟨hlt, hm⟩ := sorted_cons.mp hs
    obtain rfl | h := List.mem_cons.mp h
    · simp [get_cons]
    · rw [get_cons, if_neg (hlt e h).ne, ih hm h]

theorem Sorted.head_le (hs : Sorted (e :: m)) (h : e' ∈ e :: m) : e.1 ≤ e'.1 := by
  cases List.mem_cons.mp h
  case inl h => exact h ▸ le_rfl
  case inr h => exact ((sorted_cons.mp hs).left e' h).le

theorem Sorted.get_tail (hs : Sorted (e :: m)) : get k m = if e.1 = k then none else get k (e :: m) := by
  split_ifs with hk
  · exact get_eq_none_iff.mpr fun e' he => hk ▸ ((sorted_cons.mp hs).left e' he).ne'
  · rw [get_cons, if_neg hk]

-- A map is determined by what it holds under each key.
theorem Sorted.ext (hs : Sorted m) (hs' : Sorted m') (h : ∀ k, get k m = get k m') : m = m' := by
  induction m generalizing m'
  case nil =>
    cases m'
    case nil => rfl
    case cons e' m' => simpa [get_cons] using h e'.1
  case cons e m ih =>
    cases m'
    case nil => simpa [get_cons] using h e.1
    case cons e' m' =>
      have hm  := mem_of_get ((h e.1).symm.trans (hs.get_of_mem (by simp)))
      have hm' := mem_of_get ((h e'.1).trans (hs'.get_of_mem (by simp)))
      have hk : e.1 = e'.1 := le_antisymm (hs.head_le hm') (hs'.head_le hm)
      have he : e = e' := by
        have hv := h e.1
        rw [get_cons, get_cons, if_pos rfl, if_pos hk.symm] at hv
        exact Prod.ext hk (Option.some.inj hv)
      have ht : m = m' := by
        apply ih (sorted_cons.mp hs).right (sorted_cons.mp hs').right
        intro k
        rw [hs.get_tail, hs'.get_tail, h k, hk]
      rw [he, ht]

end SortedMap
