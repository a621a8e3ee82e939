import Mathlib.Data.Nat.Basic

-- Binary search between two positions, where to look at a position may fail.

namespace BinarySearch

-- A probe compares what is at a position with what is looked for.
def search (probe : Nat → Except ε Ordering) (lo hi : Nat) : Except ε (Option Nat) :=
  if lo < hi then
    let mid := (lo + hi) / 2
    match probe mid with
    | .error e => .error e
    | .ok .lt  => search probe (mid + 1) hi
    | .ok .gt  => search probe lo mid
    | .ok .eq  => .ok (some mid)
  else
    .ok none
termination_by hi - lo

variable {ε : Type _} {probe : Nat → Except ε Ordering} {lo hi i : Nat}

theorem search_empty : search probe i i = .ok none := by
  rw [search, if_neg (Nat.lt_irrefl i)]

-- The search fails only where a probe does.
theorem search_total (h : ∀ i, lo ≤ i → i < hi → ∃ o, probe i = .ok o) : ∃ r, search probe lo hi = .ok r := by
  fun_induction search probe lo hi
  case case1 lo hi hl mid e he =>
    have ⟨o, ho⟩ := h mid (by omega) (by omega)
    rw [ho] at he
    contradiction
  case case2 lo hi hl mid he ih => exact ih fun i h₁ h₂ => h i (by omega) h₂
  case case3 lo hi hl mid he ih => exact ih fun i h₁ h₂ => h i h₁ (by omega)
  case case4 => exact ⟨_, rfl⟩
  case case5 => exact ⟨_, rfl⟩

theorem search_found (h : search probe lo hi = .ok (some i)) : lo ≤ i ∧ i < hi ∧ probe i = .ok .eq := by
  fun_induction search probe lo hi
  case case1 => contradiction
  case case2 lo hi hl mid he ih =>
    have ⟨h₁, h₂, h₃⟩ := ih h
    exact ⟨by omega, h₂, h₃⟩
  case case3 lo hi hl mid he ih =>
    have ⟨h₁, h₂, h₃⟩ := ih h
    exact ⟨h₁, by omega, h₃⟩
  case case4 lo hi hl mid he =>
    have hi : mid = i := Option.some.inj (Except.ok.inj h)
    exact hi ▸ ⟨by omega, by omega, he⟩
  case case5 => exact nomatch Except.ok.inj h

-- If what is too small is only before what is not, and what is too large only behind it, what is not found is not
-- there: each half that is left out is on one side.
theorem search_missed {cmp : Nat → Ordering} (hp : ∀ i, lo ≤ i → i < hi → probe i = .ok (cmp i))
    (hl : ∀ i j, lo ≤ i → i < j → j < hi → cmp j = .lt → cmp i = .lt)
    (hg : ∀ i j, lo ≤ i → i < j → j < hi → cmp i = .gt → cmp j = .gt)
    (h : search probe lo hi = .ok none) : ∀ i, lo ≤ i → i < hi → cmp i ≠ .eq := by
  fun_induction search probe lo hi
  case case1 => contradiction
  case case2 lo hi hm mid he ih =>
    rw [hp mid (by omega) (by omega)] at he
    intro i h₁ h₂
    rcases Nat.lt_trichotomy i mid with hi | hi | hi
    · exact fun h => nomatch h.symm.trans (hl i mid h₁ hi (by omega) (Except.ok.inj he))
    · exact fun h => nomatch (hi ▸ h.symm).trans (Except.ok.inj he)
    · exact ih (fun i h₁ => hp i (by omega)) (fun i j h₁ => hl i j (by omega)) (fun i j h₁ => hg i j (by omega)) h i hi h₂
  case case3 lo hi hm mid he ih =>
    rw [hp mid (by omega) (by omega)] at he
    intro i h₁ h₂
    rcases Nat.lt_trichotomy i mid with hi | hi | hi
    · exact ih (fun i h₁ h₂ => hp i h₁ (by omega)) (fun i j h₁ h₂ h₃ => hl i j h₁ h₂ (by omega))
        (fun i j h₁ h₂ h₃ => hg i j h₁ h₂ (by omega)) h i h₁ hi
    · exact fun h => nomatch (hi ▸ h.symm).trans (Except.ok.inj he)
    · exact fun h => nomatch h.symm.trans (hg mid i (by omega) hi h₂ (Except.ok.inj he))
  case case4 => exact nomatch Except.ok.inj h
  case case5 => omega

end BinarySearch
