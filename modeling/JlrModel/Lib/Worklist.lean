import Mathlib.Data.List.Flatten
import Mathlib.Algebra.BigOperators.Group.List.Basic
import Mathlib.Algebra.GroupWithZero.Nat

-- Searches with a stack of what is still to be looked at.

-- A turn looks at one node: it finds other nodes, which are put on the stack one after the other, and results. There is
-- an end to it, since what is found from a node is of a lower rank.
structure Search (ν β : Type) where
  turn  : ν → List ν × List β
  rank  : ν → Nat
  falls : ∀ d, ∀ c ∈ (turn d).1, rank c < rank d

namespace Search

variable {ν β : Type} (s : Search ν β)

-- How many nodes are looked at from a node on.
def visits (d : ν) : Nat :=
  1 + ((s.turn d).1.map visits).sum
termination_by s.rank d
decreasing_by exact s.falls _ _ ‹_›

-- What is found from a node on, by recursion instead of a stack.
def below (d : ν) : List β :=
  (s.turn d).2 ++ (s.turn d).1.reverse.flatMap below
termination_by s.rank d
decreasing_by exact s.falls _ _ ‹_›

def loop (stack : List ν) (out : List β) : List β :=
  match stack with
  | []         => out
  | d :: stack => loop ((s.turn d).1.reverse ++ stack) (out ++ (s.turn d).2)
termination_by (stack.map s.visits).sum
decreasing_by
  rw [List.unattach_reverse, List.unattach_attach, List.map_append, List.sum_append, List.map_reverse, List.sum_reverse,
    List.map_cons, List.sum_cons, visits]
  omega

-- The nodes that are found from a node on, after so many turns.
inductive Finds : ν → Nat → ν → Prop
  | here : Finds d 0 d
  | next : Finds d n c → e ∈ (s.turn c).1 → Finds d (n + 1) e

variable {s} {c d e : ν} {b : β} {n : Nat}

-- The stack is no more than a way to do the recursion.
theorem loop_eq (stack : List ν) (out : List β) : s.loop stack out = out ++ stack.flatMap s.below := by
  fun_induction loop
  case case1 => simp
  case case2 out d stack ih =>
    rw [List.unattach_reverse, List.unattach_attach] at ih
    rw [ih, List.flatMap_append, List.flatMap_cons, below.eq_def s d]
    simp only [List.append_assoc]

theorem Finds.trans_next (hc : c ∈ (s.turn d).1) (h : Finds s c n e) : Finds s d (n + 1) e := by
  induction h
  case here => exact .next .here hc
  case next he ih => exact .next ih he

theorem Finds.cases_next (h : Finds s d n e) :
    (n = 0 ∧ e = d) ∨ ∃ m c, n = m + 1 ∧ c ∈ (s.turn d).1 ∧ Finds s c m e := by
  induction h
  case here => exact .inl ⟨rfl, rfl⟩
  case next he ih =>
    obtain ⟨rfl, rfl⟩ | ⟨m, c, rfl, hc, hf⟩ := ih
    · exact .inr ⟨0, _, rfl, he, .here⟩
    · exact .inr ⟨m + 1, c, rfl, hc, .next hf he⟩

theorem mem_below_iff : b ∈ s.below d ↔ ∃ n e, Finds s d n e ∧ b ∈ (s.turn e).2 := by
  fun_induction below
  case case1 d ih =>
    rw [List.mem_append, List.mem_flatMap]
    constructor
    case mp =>
      rintro (h | ⟨c, hc, h⟩)
      · exact ⟨0, d, .here, h⟩
      · have hc := List.mem_reverse.mp hc
        obtain ⟨n, e, hf, hb⟩ := (ih c hc).mp h
        exact ⟨n + 1, e, hf.trans_next hc, hb⟩
    case mpr =>
      rintro ⟨n, e, hf, hb⟩
      obtain ⟨_, rfl⟩ | ⟨m, c, _, hc, hf⟩ := hf.cases_next
      · exact .inl hb
      · exact .inr ⟨c, List.mem_reverse.mpr hc, (ih c hc).mpr ⟨m, e, hf, hb⟩⟩

end Search
