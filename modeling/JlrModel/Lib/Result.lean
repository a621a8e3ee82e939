import Mathlib.Logic.Basic

-- Inversion of successful runs: a computation that may fail succeeds with a result exactly if each
-- of its parts does.

namespace Except

variable {ε α β : Type _} {x : Except ε α} {f : α → Except ε β} {b : β}

theorem bind_eq_ok : (x >>= f) = .ok b ↔ ∃ a, x = .ok a ∧ f a = .ok b := by
  cases x <;> simp [bind, Except.bind]

theorem mapError_eq_ok {g : ε → ε'} {a : α} : x.mapError g = .ok a ↔ x = .ok a := by
  constructor
  case mp =>
    intro h
    cases x <;> cases h
    rfl
  case mpr =>
    intro h
    rw [h]
    rfl

@[simp]
theorem pure_eq_ok {a a' : α} : (pure a : Except ε α) = .ok a' ↔ a = a' := by
  simp [pure, Except.pure]

@[simp]
theorem throw_ne_ok {e : ε} {a : α} : (throw e : Except ε α) = .ok a ↔ False := by
  simp [throw, throwThe, MonadExceptOf.throw]

theorem toOption_eq_some {a : α} : x.toOption = some a ↔ x = .ok a := by
  cases x <;> simp [Except.toOption]

theorem map_eq_ok {f : α → β} : (f <$> x) = .ok b ↔ ∃ a, x = .ok a ∧ f a = b := by
  cases x <;> simp [Functor.map, Except.map]

-- The result of the option, or the error if there is none, `Option::ok_or`.
def okOr (e : ε) : Option α → Except ε α
  | none   => .error e
  | some a => .ok a

@[simp]
theorem okOr_eq_ok {e : ε} {o : Option α} {a : α} : okOr e o = .ok a ↔ o = some a := by
  cases o <;> simp [okOr]

-- Goes on if the condition holds and fails otherwise.
def ensure (c : Prop) [Decidable c] (e : ε) : Except ε Unit :=
  if c then .ok () else .error e

@[simp]
theorem ensure_eq_ok {c : Prop} [Decidable c] {e : ε} {u : Unit} : ensure c e = .ok u ↔ c := by
  by_cases h : c <;> simp [ensure, h]

theorem forM_eq_ok {as : List α} {f : α → Except ε PUnit} :
    as.forM f = .ok ⟨⟩ ↔ ∀ a ∈ as, f a = .ok ⟨⟩ := by
  induction as
  case nil => simp [List.forM]
  case cons a as ih =>
    change (f a >>= fun _ => as.forM f) = _ ↔ _
    simp only [bind_eq_ok, List.mem_cons, forall_eq_or_imp, ih]
    exact ⟨fun ⟨_, h⟩ => h, fun h => ⟨⟨⟩, h⟩⟩

theorem mapM_map_eq_ok {as : List α} {f : β → Except ε α} {g : α → β} (h : ∀ a ∈ as, f (g a) = .ok a) :
    (as.map g).mapM f = .ok as := by
  induction as
  case nil => rfl
  case cons a as ih =>
    simp only [List.mem_cons, forall_eq_or_imp] at h
    simp [h.left, ih h.right, bind, Except.bind, pure, Except.pure]

end Except

namespace StateT

variable {ε σ α β : Type _} {x : StateT σ (Except ε) α} {f : α → StateT σ (Except ε) β} {s s' : σ}

theorem bind_eq_ok {b : β} :
    (x >>= f) s = .ok (b, s') ↔ ∃ a s₁, x s = .ok (a, s₁) ∧ f a s₁ = .ok (b, s') := by
  change (x s >>= fun (a, s₁) => f a s₁) = _ ↔ _
  simp [Except.bind_eq_ok]

theorem pure_eq_ok {a b : α} :
    (pure a : StateT σ (Except ε) α) s = .ok (b, s') ↔ a = b ∧ s = s' := by
  change Except.ok (a, s) = _ ↔ _
  simp

theorem throw_ne_ok {e : ε} {r : α × σ} : (throw e : StateT σ (Except ε) α) s = .ok r ↔ False := by
  simp [throw, throwThe, MonadExceptOf.throw, StateT.lift, bind, Except.bind]

theorem get_eq_ok {s₁ : σ} :
    (get : StateT σ (Except ε) σ) s = .ok (s₁, s') ↔ s = s₁ ∧ s = s' := by
  change Except.ok (s, s) = _ ↔ _
  simp

theorem liftM_eq_ok {y : Except ε α} {a : α} :
    (liftM y : StateT σ (Except ε) α) s = .ok (a, s') ↔ y = .ok a ∧ s = s' := by
  change (y >>= fun a => Except.ok (a, s)) = _ ↔ _
  cases y <;> simp [Except.bind_eq_ok]

end StateT
