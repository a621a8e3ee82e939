import Mathlib.Algebra.GroupWithZero.Nat
import Mathlib.Algebra.Order.Group.Nat
import Mathlib.Data.List.Basic

-- Amounts that are charged to windows of time. A window lasts for `w` at least, and the next one starts with the first
-- use after its end. If no window is charged more than `b`, then nor is any interval that lasts for `w` charged more than
-- twice as much.

namespace Window

-- What was charged at the times that are asked for. A charge is a time and an amount.
def total (p : Nat → Bool) (charges : List (Nat × Nat)) : Nat :=
  ((charges.filter fun c => p c.1).map Prod.snd).sum

-- The times of an interval that lasts for `w`, with both ends. If `w` is zero there are none.
def during (w start t : Nat) : Bool :=
  start ≤ t ∧ t ≤ start + w ∧ 0 < w

variable {p q r : Nat → Bool} {cs : List (Nat × Nat)} {c : Nat × Nat} {w b s x n n' t : Nat}

@[simp]
theorem total_nil : total p [] = 0 :=
  rfl

theorem total_concat : total p (cs ++ [c]) = total p cs + if p c.1 then c.2 else 0 := by
  rw [total, List.filter_append, List.map_append, List.sum_append, ← total]
  by_cases h : p c.1 <;> simp [h]

theorem total_cons : total p (c :: cs) = (if p c.1 then c.2 else 0) + total p cs := by
  by_cases h : p c.1 <;> simp [total, h]

-- Times that are among others, or among two kinds of others.
theorem total_le_add (h : ∀ c ∈ cs, p c.1 → q c.1 ∨ r c.1) : total p cs ≤ total q cs + total r cs := by
  induction cs
  case nil => exact Nat.le_refl 0
  case cons c cs ih =>
    have ih := ih fun c hc => h c (List.mem_cons_of_mem _ hc)
    have hc := h c List.mem_cons_self
    rw [total_cons, total_cons, total_cons]
    grind

theorem total_eq_zero (h : ∀ c ∈ cs, p c.1 = false) : total p cs = 0 := by
  rw [total, List.filter_eq_nil_iff.mpr fun c hc => by simp [h c hc]]
  rfl

theorem total_le (h : ∀ c ∈ cs, p c.1 → q c.1) : total p cs ≤ total q cs := by
  have hr : total (fun _ => false) cs = 0 := total_eq_zero fun _ _ => rfl
  have hp := total_le_add (r := fun _ => false) fun c hc hp => .inl (h c hc hp)
  rwa [hr] at hp

-- A window can start at `n`, because the one before it has ended.
structure Fresh (w b : Nat) (cs : List (Nat × Nat)) (n : Nat) : Prop where
  before : ∀ c ∈ cs, c.1 < n
  recent : ∀ a, n ≤ a + w → total (a ≤ ·) cs ≤ b
  bound  : ∀ a, total (during w a) cs ≤ 2 * b

-- A window has started at `s`, and `x` was charged to it.
structure Started (w b : Nat) (cs : List (Nat × Nat)) (s x : Nat) : Prop where
  spent  : total (s ≤ ·) cs = x
  le     : x ≤ b
  inside : ∀ c ∈ cs, c.1 < s + w
  older  : ∀ a, s ≤ a + w → total (fun t => a ≤ t ∧ t < s) cs ≤ b
  bound  : ∀ a, total (during w a) cs ≤ 2 * b

theorem Fresh.nil : Fresh w b [] n where
  before _ h := nomatch h
  recent _ _ := Nat.zero_le _
  bound _    := Nat.zero_le _

theorem Fresh.mono (h : Fresh w b cs n) (hn : n ≤ n') : Fresh w b cs n' where
  before c hc := Nat.lt_of_lt_of_le (h.before c hc) hn
  recent a ha := h.recent a (Nat.le_trans hn ha)
  bound       := h.bound

theorem Fresh.start (h : Fresh w b cs n) : Started w b cs n 0 where
  spent       := total_eq_zero fun c hc => decide_eq_false (Nat.not_le.mpr (h.before c hc))
  le          := Nat.zero_le b
  inside c hc := Nat.lt_of_lt_of_le (h.before c hc) (Nat.le_add_right n w)
  older a ha  := Nat.le_trans (total_le fun c _ hc => by simp_all) (h.recent a ha)
  bound       := h.bound

theorem Started.expire (h : Started w b cs s x) (hn : s + w ≤ n) : Fresh w b cs n where
  before c hc := Nat.lt_of_lt_of_le (h.inside c hc) hn
  recent a ha := by
    have hs : s ≤ a := Nat.le_of_add_le_add_right (Nat.le_trans hn ha)
    have ht : total (a ≤ ·) cs ≤ total (s ≤ ·) cs := total_le fun c _ hc => by
      simp only [decide_eq_true_eq] at hc ⊢
      exact Nat.le_trans hs hc
    exact Nat.le_trans ht (h.spent ▸ h.le)
  bound       := h.bound

theorem Started.charge {d : Nat} (h : Started w b cs s x) (hs : s ≤ t) (ht : t < s + w) (hb : x + d ≤ b) :
    Started w b (cs ++ [(t, d)]) s (x + d) where
  spent       := by rw [total_concat, h.spent, if_pos (decide_eq_true hs)]
  le          := hb
  inside c hc := by
    cases List.mem_append.mp hc
    case inl hc => exact h.inside c hc
    case inr hc => exact List.mem_singleton.mp hc ▸ ht
  older a ha  := by
    rw [total_concat, if_neg (by simp [Nat.not_lt.mpr hs])]
    exact h.older a ha
  bound a     := by
    rw [total_concat]
    split
    case isFalse => exact h.bound a
    case isTrue hd =>
      -- The interval reaches into the current window, so of the earlier ones it can only meet the last.
      have hd := of_decide_eq_true hd
      have hle : total (during w a) cs ≤ total (fun t => a ≤ t ∧ t < s) cs + total (s ≤ ·) cs :=
        total_le_add fun c _ hc => by
          simp only [during, decide_eq_true_eq] at hc ⊢
          omega
      have ho := h.older a (by omega)
      rw [h.spent] at hle
      omega

-- What is kept of a window: its start and what was charged to it. A new window replaces one that has ended.
def roll (w now : Nat) : Option (Nat × Nat) → Nat × Nat
  | some (s, x) => if now - s < w then (s, x) else (now, 0)
  | none        => (now, 0)

-- The window that is kept accounts for what was charged until now. A window that has ended may be forgotten.
def Tracks (w b : Nat) (cs : List (Nat × Nat)) (now : Nat) : Option (Nat × Nat) → Prop
  | some (s, x) => s ≤ now ∧ Started w b cs s x
  | none        => Fresh w b cs now

namespace Tracks

variable {m : Option (Nat × Nat)} {now d : Nat}

theorem mono (h : Tracks w b cs now m) (hn : now ≤ n) : Tracks w b cs n m :=
  match m with
  | some _ => ⟨Nat.le_trans h.left hn, h.right⟩
  | none   => Fresh.mono h hn

theorem bound (h : Tracks w b cs now m) (a : Nat) : total (during w a) cs ≤ 2 * b :=
  match m with
  | some _ => h.right.bound a
  | none   => Fresh.bound h a

theorem forget (h : Tracks w b cs now (some (s, x))) (he : w ≤ now - s) : Tracks w b cs now none :=
  h.right.expire (by have := h.left; omega)

theorem roll (h : Tracks w b cs now m) (hn : now ≤ n) : Tracks w b cs n (some (roll w n m)) := by
  have h := h.mono hn
  match m with
  | none        => exact ⟨Nat.le_refl n, Fresh.start h⟩
  | some (s, x) =>
    rw [Window.roll]
    split
    case isTrue => exact h
    case isFalse he => exact ⟨Nat.le_refl n, Fresh.start (h.forget (Nat.not_lt.mp he))⟩

theorem roll_lt (h : Tracks w b cs now m) (hn : now ≤ n) (hw : 0 < w) : n < (Window.roll w n m).1 + w := by
  match m with
  | none        => exact Nat.lt_add_of_pos_right hw
  | some (s, x) =>
    have hs := h.left
    rw [Window.roll]
    split
    case isTrue => omega
    case isFalse => exact Nat.lt_add_of_pos_right hw

theorem charge (h : Tracks w b cs now m) (hn : now ≤ n) (hw : 0 < w) (hb : (Window.roll w n m).2 + d ≤ b) :
    Tracks w b (cs ++ [(n, d)]) n (some ((Window.roll w n m).1, (Window.roll w n m).2 + d)) :=
  have hr := h.roll hn
  ⟨hr.left, hr.right.charge hr.left (h.roll_lt hn hw) hb⟩

end Tracks

end Window
