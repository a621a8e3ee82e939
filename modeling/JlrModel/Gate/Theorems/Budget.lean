import JlrModel.Gate.Budget

-- How much time the users can spend, however many there are.

namespace Gate

theorem Users.lookup_retain {p : Nat × Nat → Bool} {users : Users} {uid : UInt32} :
    (users.retain p).lookup uid = (users.lookup uid).filter p := by
  ext e
  rw [← Option.mem_def, AList.mem_lookup_iff, Option.filter_eq_some_iff, ← Option.mem_def, AList.mem_lookup_iff]
  exact List.mem_filter

namespace Budgets

variable {b b' : Budgets} {uid u : UInt32} {now t t' spent limit : Nat}

-- The window of all users together.
def meter (b : Budgets) : Option (Nat × Nat) :=
  b.global.1.map (·, b.global.2)

-- The bounds stay.
structure Same (b b' : Budgets) : Prop where
  window          : b'.window = b.window
  allowance       : b'.allowance = b.allowance
  globalAllowance : b'.globalAllowance = b.globalAllowance

theorem Same.trans {b'' : Budgets} (h : b.Same b') (h' : b'.Same b'') : b.Same b'' :=
  ⟨h'.window.trans h.window, h'.allowance.trans h.allowance, h'.globalAllowance.trans h.globalAllowance⟩

structure Rolls (b : Budgets) (now : Nat) (b' : Budgets) : Prop extends b.Same b' where
  users : b'.users = b.users
  meter : b'.meter = some (Window.roll b.window now b.meter)

theorem rollGlobal_rolls : b.Rolls now (b.rollGlobal now) := by
  obtain ⟨w, a, g, ⟨start | start, x⟩, users⟩ := b
  case none => exact ⟨⟨rfl, rfl, rfl⟩, rfl, rfl⟩
  case some =>
    rw [rollGlobal]
    dsimp only
    split
    case isTrue h => exact ⟨⟨rfl, rfl, rfl⟩, rfl, congrArg some (if_pos h).symm⟩
    case isFalse h => exact ⟨⟨rfl, rfl, rfl⟩, rfl, congrArg some (if_neg h).symm⟩

theorem Rolls.global (r : b.Rolls now b') : b'.global.2 = (Window.roll b.window now b.meter).2 := by
  have ⟨_, _, h⟩ := Option.map_eq_some_iff.mp r.meter
  exact congrArg Prod.snd h

-- What asking leaves: the window of all users and that of this one may have started anew.
structure Asks (b : Budgets) (uid : UInt32) (t : Nat) (r : Bool × Budgets) : Prop extends b.Same r.2 where
  meter  : r.2.meter = some (Window.roll b.window t b.meter)
  users  : ∀ u, r.2.users.lookup u = b.users.lookup u ∨
    r.2.users.lookup u = some (Window.roll b.window t (b.users.lookup u))
  served : r.1 = false → (Window.roll b.window t b.meter).2 < b.globalAllowance ∧
    ∀ e ∈ r.2.users.lookup uid, e.2 < b.allowance

theorem exhausted_asks : b.Asks uid t (b.exhausted uid t) := by
  have r : b.Rolls t (b.rollGlobal t) := rollGlobal_rolls
  rw [exhausted]
  generalize b.rollGlobal t = b₁ at r
  have hk (u : UInt32) : b₁.users.lookup u = b.users.lookup u := congrArg (AList.lookup u) r.users
  split
  case isTrue => exact ⟨r.toSame, r.meter, fun u => .inl (hk u), nofun⟩
  case isFalse hc =>
    rw [r.globalAllowance, r.global] at hc
    have hc := Nat.not_le.mp hc
    split
    case h_2 hn => exact ⟨r.toSame, r.meter, fun u => .inl (hk u), fun _ => ⟨hc, by simp [hn]⟩⟩
    case h_1 start spent he =>
      rw [r.window, r.allowance]
      split
      case isTrue hx =>
        refine ⟨⟨rfl, rfl, r.globalAllowance⟩, r.meter, fun u => ?_, fun h => ⟨hc, ?_⟩⟩
        · by_cases hu : u = uid
          case neg => exact .inl ((AList.lookup_insert_ne hu).trans (hk u))
          case pos =>
            rw [hu, AList.lookup_insert, ← hk, he, Window.roll, if_neg (Nat.not_lt.mpr hx)]
            exact .inr rfl
        · rw [AList.lookup_insert]
          rintro e ⟨⟩
          exact Nat.not_le.mp (of_decide_eq_false h)
      case isFalse =>
        refine ⟨r.toSame, r.meter, fun u => .inl (hk u), fun h => ⟨hc, ?_⟩⟩
        rw [he]
        rintro e ⟨⟩
        exact Nat.not_le.mp (of_decide_eq_false h)

-- What a charge leaves: it is added to the two windows, and windows that have ended may be forgotten.
structure Charges (b : Budgets) (uid : UInt32) (spent now : Nat) (b' : Budgets) : Prop extends b.Same b' where
  meter : b'.meter = some ((Window.roll b.window now b.meter).1, (Window.roll b.window now b.meter).2 + spent)
  user  : 0 < b.window → b'.users.lookup uid = some ((Window.roll b.window now (b.users.lookup uid)).1,
    (Window.roll b.window now (b.users.lookup uid)).2 + spent)
  users : ∀ u ≠ uid, b'.users.lookup u = b.users.lookup u ∨
    b'.users.lookup u = none ∧ ∀ e ∈ b.users.lookup u, b.window ≤ now - e.1

theorem roll_eq {w : Nat} {m : Option (Nat × Nat)} :
    (if w ≤ now - (m.getD (now, 0)).1 then (now, 0) else m.getD (now, 0)) = Window.roll w now m := by
  match m with
  | none        => exact ite_self _
  | some (s, x) =>
    rw [Window.roll, Option.getD_some]
    split
    case isTrue h => rw [if_neg (Nat.not_lt.mpr h)]
    case isFalse h => rw [if_pos (Nat.not_le.mp h)]

theorem roll_lt {w : Nat} {m : Option (Nat × Nat)} (hw : 0 < w) : now - (Window.roll w now m).1 < w := by
  rw [← roll_eq]
  split
  case isTrue => exact Nat.sub_self now ▸ hw
  case isFalse h => exact Nat.not_le.mp h

theorem charge_charges : b.Charges uid spent now (b.charge uid spent now) := by
  have r : b.Rolls now (b.rollGlobal now) := rollGlobal_rolls
  rw [charge]
  generalize b.rollGlobal now = b₁ at r
  dsimp only
  rw [r.users, r.window, roll_eq]
  have hm : b₁.global.1.map (·, b₁.global.2 + spent) = some ((Window.roll b.window now b.meter).1,
      (Window.roll b.window now b.meter).2 + spent) := by
    have ⟨s, hs, h⟩ := Option.map_eq_some_iff.mp r.meter
    rw [hs, ← h]
    rfl
  refine ⟨⟨rfl, r.allowance, r.globalAllowance⟩, hm, fun hw => ?_, fun u hu => ?_⟩
  · dsimp only
    split
    case isFalse => rw [AList.lookup_insert]
    case isTrue => rw [Users.lookup_retain, AList.lookup_insert, Option.filter_some, if_pos (decide_eq_true (roll_lt hw))]
  · dsimp only
    split
    case isFalse => exact .inl (AList.lookup_insert_ne hu)
    case isTrue =>
      rw [Users.lookup_retain, AList.lookup_insert_ne hu]
      match b.users.lookup u with
      | none   => exact .inl rfl
      | some e =>
        rw [Option.filter_some]
        split
        case isTrue => exact .inl rfl
        case isFalse h => exact .inr ⟨rfl, fun e' he => Option.some.inj he ▸ Nat.not_lt.mp (by simpa using h)⟩

-- The windows account for what was charged.
structure Sound (limit : Nat) (b : Budgets) (now : Nat) (charges : List Charge) : Prop where
  global : Window.Tracks b.window (b.globalAllowance + limit) (all charges) now b.meter
  users  : ∀ uid, Window.Tracks b.window (b.allowance + limit) (of uid charges) now (b.users.lookup uid)

variable {charges : List Charge}

theorem Sound.ask {r : Bool × Budgets} (s : Sound limit b now charges) (hn : now ≤ t) (a : b.Asks uid t r) :
    Sound limit r.2 t charges where
  global := by
    rw [a.window, a.globalAllowance, a.meter]
    exact s.global.roll hn
  users u := by
    rw [a.window, a.allowance]
    cases a.users u
    case inl h => exact h ▸ (s.users u).mono hn
    case inr h => exact h ▸ (s.users u).roll hn

theorem Sound.charge (s : Sound limit b now charges) (hw : 0 < b.window) (hn : now ≤ t) (hl : spent ≤ limit)
    (hg : ∀ e ∈ b.meter, e.2 < b.globalAllowance) (hu : ∀ e ∈ b.users.lookup uid, e.2 < b.allowance)
    (c : b.Charges uid spent t b') : Sound limit b' t (charges ++ [⟨uid, t, spent⟩]) := by
  -- A window that has just started has nothing charged to it yet, and the current one was looked at before.
  have hr {m : Option (Nat × Nat)} {a : Nat} (h : ∀ e ∈ m, e.2 < a) : (Window.roll b.window t m).2 + spent ≤ a + limit := by
    rw [← roll_eq]
    split
    case isTrue => exact Nat.add_le_add (Nat.zero_le a) hl
    case isFalse =>
      match m with
      | none   => exact Nat.add_le_add (Nat.zero_le a) hl
      | some e => exact Nat.add_le_add (Nat.le_of_lt (h e rfl)) hl
  constructor
  case global =>
    rw [c.window, c.globalAllowance, c.meter, all, List.map_append]
    exact s.global.charge hn hw (hr hg)
  case users =>
    intro u
    rw [c.window, c.allowance, of, List.filter_append]
    by_cases he : u = uid
    case pos =>
      subst he
      rw [c.user hw, List.filter_cons_of_pos (by simp), all, List.map_append]
      exact (s.users u).charge hn hw (hr hu)
    case neg =>
      rw [List.filter_cons_of_neg (by simpa using Ne.symm he), List.filter_nil, List.append_nil]
      have ht := (s.users u).mono hn
      cases c.users u he
      case inl h => exact h ▸ ht
      case inr h =>
        rw [h.left]
        match hm : b.users.lookup u with
        | none        => exact hm ▸ ht
        | some (s, x) => exact Window.Tracks.forget (hm ▸ ht) (h.right _ hm)

theorem Runs.same {b₀ : Budgets} (h : Runs limit b₀ b now charges) : b₀.Same b := by
  induction h
  case start => exact ⟨rfl, rfl, rfl⟩
  case ask ih => exact ih.trans exhausted_asks.toSame
  case serve hx _ _ ih => exact ih.trans ((hx ▸ exhausted_asks.toSame).trans charge_charges.toSame)

theorem Runs.sound {allowance globalAllowance window : Nat} (hw : 0 < window)
    (h : Runs limit (.new allowance globalAllowance window) b now charges) : Sound limit b now charges := by
  induction h
  case start => exact ⟨.nil, fun _ => .nil⟩
  case ask hn ih => exact ih.ask hn exhausted_asks
  case serve b _ _ t uid b' _ _ h hn hx ht hl ih =>
    have a : b.Asks uid t (false, b') := hx ▸ exhausted_asks
    have ⟨hg, hu⟩ := a.served rfl
    rw [← a.allowance] at hu
    rw [← a.globalAllowance] at hg
    have hm : ∀ e ∈ b'.meter, e.2 < b'.globalAllowance := a.meter ▸ fun e he => Option.some.inj he ▸ hg
    refine (ih.ask hn a).charge ?_ ht hl hm hu charge_charges
    rw [(h.same.trans a.toSame).window]
    exact hw

-- Within any interval that lasts for a window, the users together and each of them alone spend at most twice what they
-- are allowed and what one execution can cost.
theorem slow_path_bounded (allowance globalAllowance window limit : Nat) (b : Budgets) (now : Nat) (charges : List Charge)
    (h : Runs limit (.new allowance globalAllowance window) b now charges) (start : Nat) :
    Window.total (Window.during window start) (all charges) ≤ 2 * (globalAllowance + limit) ∧
    ∀ uid, Window.total (Window.during window start) (of uid charges) ≤ 2 * (allowance + limit) := by
  match window with
  | 0          =>
    have hz (cs : List (Nat × Nat)) (n : Nat) : Window.total (Window.during 0 start) cs ≤ n := by
      rw [Window.total_eq_zero fun _ _ => decide_eq_false fun h => absurd h.right.right (Nat.lt_irrefl 0)]
      exact Nat.zero_le n
    exact ⟨hz _ _, fun uid => hz _ _⟩
  | window + 1 =>
    have s := h.sound window.succ_pos
    have hs := h.same
    have hg := s.global.bound start
    rw [hs.window, hs.globalAllowance] at hg
    refine ⟨hg, fun uid => ?_⟩
    have hu := (s.users uid).bound start
    rwa [hs.window, hs.allowance] at hu

-- A user is measured for six seconds, then for five, and refused the third time.
theorem slow_path_bounded_twice : ∃ b, Runs 6 (.new 10 30 60) b 1 [⟨1000, 0, 6⟩, ⟨1000, 1, 5⟩] ∧
    (b.exhausted 1000 2).1 = true ∧
    Window.total (Window.during 60 0) (all [⟨1000, 0, 6⟩, ⟨1000, 1, 5⟩]) ≤ 2 * (30 + 6) := by
  have h₀ : Runs 6 (.new 10 30 60) _ 0 [] := .start
  have h₁ : Runs 6 (.new 10 30 60) _ 0 [⟨1000, 0, 6⟩] := h₀.serve (Nat.le_refl 0) rfl (Nat.le_refl 0) (by decide)
  have h₂ : Runs 6 (.new 10 30 60) _ 1 [⟨1000, 0, 6⟩, ⟨1000, 1, 5⟩] :=
    h₁.serve (Nat.zero_le 1) rfl (Nat.le_refl 1) (by decide)
  exact ⟨_, h₂, by decide, (slow_path_bounded 10 30 60 6 _ 1 _ h₂ 0).left⟩

end Budgets

end Gate
