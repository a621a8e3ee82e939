import Mathlib.Logic.Relation

-- Programs that change a state and may halt, in which case the state is left as it was by then.

def Program (σ ε α : Type) : Type :=
  σ → Except ε α × σ

namespace Program

variable {σ τ ε δ α β : Type}

instance : Monad (Program σ ε) where
  pure a s   := (.ok a, s)
  bind x f s :=
    match x s with
    | (.ok a, s')    => f a s'
    | (.error e, s') => (.error e, s')

def halt (e : ε) : Program σ ε α :=
  fun s => (.error e, s)

def view (f : σ → α) : Program σ ε α :=
  fun s => (.ok (f s), s)

def update (f : σ → σ) : Program σ ε Unit :=
  fun s => (.ok (), f s)

-- A result that may be an error.
def ofExcept : Except ε α → Program σ ε α
  | .ok a    => pure a
  | .error e => halt e

def onlyIf (c : Prop) [Decidable c] (x : Program σ ε Unit) : Program σ ε Unit :=
  if c then x else pure ()

-- Goes on after those halts that `caught` turns into an error.
def attempt (caught : ε → Option δ) (x : Program σ ε α) : Program σ ε (Except δ α) :=
  fun s =>
    match x s with
    | (.ok a, s')    => (.ok (.ok a), s')
    | (.error e, s') =>
      match caught e with
      | some d => (.ok (.error d), s')
      | none   => (.error e, s')

def fold (f : β → α → Program σ ε β) : β → List α → Program σ ε β
  | b, []      => pure b
  | b, a :: as => do fold f (← f b a) as

-- Runs a program on a part of the state.
def zoom (get : τ → σ) (set : σ → τ → τ) (x : Program σ ε α) : Program τ ε α :=
  fun t => ((x (get t)).1, set (x (get t)).2 t)

variable {x : Program σ ε α} {f : α → Program σ ε β} {s s' : σ}

@[simp]
theorem pure_apply {a : α} : (pure a : Program σ ε α) s = (.ok a, s) :=
  rfl

@[simp]
theorem halt_apply {e : ε} : (halt e : Program σ ε α) s = (.error e, s) :=
  rfl

@[simp]
theorem view_apply {g : σ → α} : (view g : Program σ ε α) s = (.ok (g s), s) :=
  rfl

@[simp]
theorem update_apply {g : σ → σ} : (update g : Program σ ε Unit) s = (.ok (), g s) :=
  rfl

theorem bind_apply : (x >>= f) s =
    match x s with
    | (.ok a, s')    => f a s'
    | (.error e, s') => (.error e, s') :=
  rfl

theorem bind_ok {a : α} (h : x s = (.ok a, s')) : (x >>= f) s = f a s' := by
  rw [bind_apply, h]

theorem bind_error {e : ε} (h : x s = (.error e, s')) : (x >>= f) s = (.error e, s') := by
  rw [bind_apply, h]

-- A program that comes to its end has gone through all of its parts.
theorem bind_eq_ok {b : β} :
    (x >>= f) s = (.ok b, s') ↔ ∃ a s₁, x s = (.ok a, s₁) ∧ f a s₁ = (.ok b, s') := by
  rw [bind_apply]
  match x s with
  | (.ok a, s₁)   => exact ⟨fun h => ⟨a, s₁, rfl, h⟩, fun ⟨_, _, rfl, h⟩ => h⟩
  | (.error e, _) => simp

theorem bind_eq_error {e : ε} :
    (x >>= f) s = (.error e, s') ↔
    x s = (.error e, s') ∨ ∃ a s₁, x s = (.ok a, s₁) ∧ f a s₁ = (.error e, s') := by
  rw [bind_apply]
  match x s with
  | (.ok a, s₁)   => exact ⟨fun h => .inr ⟨a, s₁, rfl, h⟩, fun | .inr ⟨_, _, rfl, h⟩ => h⟩
  | (.error e, _) => simp

@[simp]
theorem pure_eq_ok {a b : α} : (pure a : Program σ ε α) s = (.ok b, s') ↔ a = b ∧ s = s' := by
  simp

@[simp]
theorem halt_ne_ok {e : ε} {b : α} : (halt e : Program σ ε α) s = (.ok b, s') ↔ False := by
  simp

theorem eq_ok_of_isSome {r : Except ε α × σ} (h : r.1.toOption.isSome) : ∃ a, r = (.ok a, r.2) := by
  match r, h with
  | (.ok a, _), _ => exact ⟨a, rfl⟩

theorem ofExcept_eq_ok {r : Except ε α} {a : α} :
    (ofExcept r : Program σ ε α) s = (.ok a, s') ↔ r = .ok a ∧ s = s' := by
  cases r <;> simp [ofExcept]

theorem view_bind {g : σ → α} : (view g >>= f) s = f (g s) s :=
  rfl

theorem update_bind {g : σ → σ} {f : Unit → Program σ ε β} : (update g >>= f) s = f () (g s) :=
  rfl

theorem ofExcept_bind_eq_ok {r : Except ε α} {b : β} :
    (ofExcept r >>= f) s = (.ok b, s') ↔ ∃ a, r = .ok a ∧ f a s = (.ok b, s') := by
  cases r
  case ok a => exact ⟨fun h => ⟨a, rfl, h⟩, fun ⟨_, ha, h⟩ => Except.ok.inj ha ▸ h⟩
  case error => simp [bind_apply, ofExcept]

theorem ofExcept_bind_cases {P : Except ε β × σ → Prop} {r : Except ε α} (he : ∀ e, P (.error e, s))
    (ha : ∀ a, r = .ok a → P (f a s)) : P ((ofExcept r >>= f) s) := by
  cases r
  case ok a => exact ha a rfl
  case error e => exact he e

section

variable {caught : ε → Option δ}

theorem attempt_ok {a : α} (h : x s = (.ok a, s')) : attempt caught x s = (.ok (.ok a), s') := by
  rw [attempt, h]

theorem attempt_snd : (attempt caught x s).2 = (x s).2 := by
  unfold attempt
  split
  case h_1 hx => rw [hx]
  case h_2 hx => rw [hx]; split <;> rfl

theorem attempt_caught {e : ε} {d : δ} (h : x s = (.error e, s')) (hc : caught e = some d) :
    attempt caught x s = (.ok (.error d), s') := by
  simp only [attempt, h, hc]

theorem attempt_not_caught {e : ε} (h : x s = (.error e, s')) (hc : caught e = none) :
    attempt caught x s = (.error e, s') := by
  simp only [attempt, h, hc]

end

theorem attempt_eq_ok {caught : ε → Option δ} {a : α} :
    attempt caught x s = (.ok (.ok a), s') ↔ x s = (.ok a, s') := by
  unfold attempt
  match x s with
  | (.ok b, s₁)    => simp
  | (.error e, s₁) => cases hc : caught e <;> simp [hc]

-- What every part gives on from the one before, the whole gives.
theorem fold_gives {P : β → Prop} {g : β → α → Program σ ε β} {as : List α} {b b' : β}
    (hg : ∀ b, ∀ a ∈ as, ∀ s s' b', P b → g b a s = (.ok b', s') → P b') (hb : P b)
    (h : fold g b as s = (.ok b', s')) : P b' := by
  induction as generalizing b s
  case nil =>
    cases h
    exact hb
  case cons a as ih =>
    have ⟨b₁, s₁, ha, h⟩ := bind_eq_ok.mp h
    exact ih (fun b a ha => hg b a (List.mem_cons_of_mem _ ha)) (hg b a List.mem_cons_self _ _ _ hb ha) h

theorem fold_singleton {g : β → α → Program σ ε β} {a : α} {b b' : β} (h : g b a s = (.ok b', s')) :
    fold g b [a] s = (.ok b', s') :=
  bind_ok h

theorem zoom_eq_ok {get : τ → σ} {set : σ → τ → τ} {a : α} {t t' : τ} :
    zoom get set x t = (.ok a, t') ↔ ∃ s', x (get t) = (.ok a, s') ∧ t' = set s' t := by
  unfold zoom
  constructor
  case mp =>
    intro h
    have ⟨hr, ht⟩ := Prod.mk.inj h
    exact ⟨_, Prod.ext hr rfl, ht.symm⟩
  case mpr =>
    intro ⟨s', hx, ht⟩
    rw [hx, ht]

-- What a program does, as a sequence of steps that each make one change.
section

open Relation

variable {Act Act' : σ → σ → Prop}

def Does (Act : σ → σ → Prop) (x : Program σ ε α) : Prop :=
  ∀ s, ReflTransGen Act s (x s).2

namespace Does

protected theorem pure {a : α} : Does Act (pure a : Program σ ε α) :=
  fun _ => .refl

protected theorem halt {e : ε} : Does Act (halt e : Program σ ε α) :=
  fun _ => .refl

protected theorem view {g : σ → α} : Does Act (view g : Program σ ε α) :=
  fun _ => .refl

protected theorem update {g : σ → σ} (h : ∀ s, Act s (g s)) : Does Act (update g : Program σ ε Unit) :=
  fun s => .single (h s)

protected theorem ofExcept {r : Except ε α} : Does Act (ofExcept r : Program σ ε α) := by
  cases r
  case ok => exact .pure
  case error => exact .halt

-- The second part starts where the first one has ended.
theorem bind_at (h : ReflTransGen Act s (x s).2)
    (hf : ∀ a s', x s = (.ok a, s') → ReflTransGen Act s' (f a s').2) :
    ReflTransGen Act s ((x >>= f) s).2 := by
  match hx : x s with
  | (.ok a, s')    =>
    rw [hx] at h
    rw [bind_ok hx]
    exact h.trans (hf a s' hx)
  | (.error e, s') =>
    rw [hx] at h
    rwa [bind_error hx]

theorem view_at {g : σ → α} (hf : ∀ a, g s = a → ReflTransGen Act s (f a s).2) :
    ReflTransGen Act s ((view g >>= f) s).2 :=
  hf (g s) rfl

theorem ofExcept_at {r : Except ε α} (hf : ∀ a, r = .ok a → ReflTransGen Act s (f a s).2) :
    ReflTransGen Act s ((ofExcept r >>= f) s).2 := by
  cases r
  case ok a => exact hf a rfl
  case error => exact .refl

protected theorem bind (h : Does Act x) (hf : ∀ a, Does Act (f a)) : Does Act (x >>= f) :=
  fun s => bind_at (h s) fun a s' _ => hf a s'

protected theorem onlyIf {c : Prop} [Decidable c] {x : Program σ ε Unit} (h : c → Does Act x) :
    Does Act (onlyIf c x) := by
  unfold onlyIf
  split
  case isTrue hc => exact h hc
  case isFalse => exact .pure

protected theorem ite {c : Prop} [Decidable c] {x y : Program σ ε α} (h : c → Does Act x) (h' : ¬ c → Does Act y) :
    Does Act (if c then x else y) := by
  split
  case isTrue hc => exact h hc
  case isFalse hc => exact h' hc

protected theorem attempt {caught : ε → Option δ} (h : Does Act x) : Does Act (attempt caught x) := by
  intro s
  rw [attempt_snd]
  exact h s

protected theorem fold {g : β → α → Program σ ε β} {as : List α} (h : ∀ b, ∀ a ∈ as, Does Act (g b a)) :
    ∀ b, Does Act (fold g b as) := by
  induction as
  case nil => exact fun _ => .pure
  case cons a as ih =>
    exact fun b => .bind (h b a List.mem_cons_self) (ih fun b a ha => h b a (List.mem_cons_of_mem _ ha))

protected theorem zoom {get : τ → σ} {set : σ → τ → τ} {Act' : τ → τ → Prop} (h : Does Act x)
    (hg : ∀ t, set (get t) t = t) (hs : ∀ t s s', Act s s' → Act' (set s t) (set s' t)) :
    Does Act' (zoom get set x) := by
  intro t
  have hl : ReflTransGen Act' (set (get t) t) (set (x (get t)).2 t) := (h (get t)).lift (set · t) (hs t)
  rwa [hg] at hl

theorem mono (h : Does Act x) (ha : ∀ s s', Act s s' → Act' s s') : Does Act' x :=
  fun s => (h s).lift id ha

theorem mono_at (h : ReflTransGen Act s s') (ha : ∀ s s', Act s s' → Act' s s') : ReflTransGen Act' s s' :=
  h.lift id ha

theorem of_ok {a : α} (h : Does Act x) (hx : x s = (.ok a, s')) : ReflTransGen Act s s' := by
  have h := h s
  rwa [hx] at h

-- A fold that ends has met every element on its way.
theorem fold_mem {g : β → α → Program σ ε β} {as : List α} {a : α} {b b' : β}
    (hd : ∀ b, ∀ a ∈ as, Does Act (g b a)) (ha : a ∈ as) (h : fold g b as s = (.ok b', s')) :
    ∃ b₁ s₁ b₂ s₂, ReflTransGen Act s s₁ ∧ g b₁ a s₁ = (.ok b₂, s₂) ∧ ReflTransGen Act s₂ s' := by
  induction as generalizing b s
  case nil => cases ha
  case cons c as ih =>
    have ⟨b₁, s₁, hc, ht⟩ := bind_eq_ok.mp h
    have hd' : ∀ b, ∀ a ∈ as, Does Act (g b a) := fun b a ha => hd b a (.tail _ ha)
    cases ha
    case head => exact ⟨b, s, b₁, s₁, .refl, hc, (Does.fold hd' b₁).of_ok ht⟩
    case tail ha =>
      have ⟨b₂, s₂, b₃, s₃, h₁, h₂, h₃⟩ := ih hd' ha ht
      exact ⟨b₂, s₂, b₃, s₃, ((hd b c List.mem_cons_self).of_ok hc).trans h₁, h₂, h₃⟩

-- What every step keeps, a sequence of them keeps.
theorem kept {P : σ → Prop} (h : ReflTransGen Act s s') (hp : ∀ s s', Act s s' → P s → P s') (hs : P s) : P s' := by
  induction h
  case refl => exact hs
  case tail ha ih => exact hp _ _ ha ih

-- Steps that are only made while something holds, and that keep it.
section

variable {I : σ → Prop}

def Keeping (I : σ → Prop) (Act : σ → σ → Prop) (s s' : σ) : Prop :=
  I s → Act s s' ∧ I s'

theorem keeping (hI : ∀ s s', Act s s' → I s → I s') (h : ∀ s, I s → ReflTransGen Act s (x s).2) :
    Does (Keeping I Act) x := by
  intro s
  by_cases hs : I s
  case pos => exact mono_at (h s hs) fun s s' ha hs => ⟨ha, hI s s' ha hs⟩
  case neg => exact .single fun hs' => absurd hs' hs

theorem of_keeping (h : Does (Keeping I Act) x) (hs : I s) : ReflTransGen Act s (x s).2 := by
  have h := h s
  generalize (x s).2 = s' at h
  suffices ReflTransGen Act s s' ∧ I s' from this.left
  induction h
  case refl => exact ⟨.refl, hs⟩
  case tail ha ih => exact ⟨ih.left.tail (ha ih.right).left, (ha ih.right).right⟩

end

end Does

end

-- The ways in which a program can halt.
section

variable {P : ε → Prop}

def Raises (P : ε → Prop) (x : Program σ ε α) : Prop :=
  ∀ s e s', x s = (.error e, s') → P e

namespace Raises

protected theorem pure {a : α} : Raises P (pure a : Program σ ε α) := by
  intro s e s' h
  cases h

protected theorem view {g : σ → α} : Raises P (view g : Program σ ε α) := by
  intro s e s' h
  cases h

protected theorem update {g : σ → σ} : Raises P (update g : Program σ ε Unit) := by
  intro s e s' h
  cases h

protected theorem halt {e : ε} (he : P e) : Raises P (halt e : Program σ ε α) := by
  intro s e s' h
  cases h
  exact he

protected theorem bind (hx : Raises P x) (hf : ∀ a, Raises P (f a)) : Raises P (x >>= f) := by
  intro s e s' h
  cases bind_eq_error.mp h
  case inl h => exact hx s e s' h
  case inr h =>
    have ⟨a, s₁, _, h⟩ := h
    exact hf a s₁ e s' h

protected theorem onlyIf {c : Prop} [Decidable c] {x : Program σ ε Unit} (h : Raises P x) : Raises P (onlyIf c x) := by
  unfold onlyIf
  split
  case isTrue => exact h
  case isFalse => exact .pure

protected theorem zoom {get : τ → σ} {set : σ → τ → τ} (h : Raises P x) : Raises P (zoom get set x) := by
  intro t e t' hz
  have ⟨hr, _⟩ := Prod.mk.inj hz
  exact h (get t) e _ (Prod.ext hr rfl)

end Raises

end

-- What holds after a program that comes to its end, and after one that halts.
section

variable {P P' : σ → Prop} {Q Q' : α → σ → Prop} {E E' : ε → σ → Prop}

def Triple (P : σ → Prop) (x : Program σ ε α) (Q : α → σ → Prop) (E : ε → σ → Prop) : Prop :=
  ∀ s, P s → match x s with
    | (.ok a, s')    => Q a s'
    | (.error e, s') => E e s'

namespace Triple

theorem of_ok {a : α} (h : Triple P x Q E) (hp : P s) (hx : x s = (.ok a, s')) : Q a s' := by
  have h := h s hp
  rwa [hx] at h

theorem of_error {e : ε} (h : Triple P x Q E) (hp : P s) (hx : x s = (.error e, s')) : E e s' := by
  have h := h s hp
  rwa [hx] at h

theorem isSome (h : Triple P x Q fun _ _ => False) (hp : P s) : (x s).1.toOption.isSome := by
  have h := h s hp
  split at h
  case h_1 hx => rw [hx]; rfl
  case h_2 => exact h.elim

theorem mono (h : Triple P' x Q' E') (hp : ∀ s, P s → P' s) (hq : ∀ a s, Q' a s → Q a s)
    (he : ∀ e s, E' e s → E e s) : Triple P x Q E := by
  intro s hs
  have h := h s (hp s hs)
  split
  case h_1 a s' hx =>
    rw [hx] at h
    exact hq a s' h
  case h_2 e s' hx =>
    rw [hx] at h
    exact he e s' h

-- A program only goes where its steps lead.
theorem of_does {R : σ → σ → Prop} [IsTrans σ R] {s₀ : σ} (h : Does R x) :
    Triple (R s₀) x (fun _ => R s₀) (fun _ => R s₀) := by
  intro s hs
  have h : R s₀ (x s).2 := Does.kept (P := R s₀) (h s) (fun _ _ hr hs => IsTrans.trans _ _ _ hs hr) hs
  split
  case h_1 hx => rwa [hx] at h
  case h_2 hx => rwa [hx] at h

protected theorem pure {a : α} (h : ∀ s, P s → Q a s) : Triple P (pure a) Q E :=
  h

protected theorem halt {e : ε} (h : ∀ s, P s → E e s) : Triple P (halt e) Q E :=
  h

protected theorem view {g : σ → α} (h : ∀ s, P s → Q (g s) s) : Triple P (view g) Q E :=
  h

protected theorem update {g : σ → σ} {Q : Unit → σ → Prop} (h : ∀ s, P s → Q () (g s)) : Triple P (update g) Q E :=
  h

protected theorem bind {R : β → σ → Prop} (hx : Triple P x Q E) (hf : ∀ a, Triple (Q a) (f a) R E) :
    Triple P (x >>= f) R E := by
  intro s hs
  have h := hx s hs
  match hx : x s with
  | (.ok a, s')    =>
    rw [hx] at h
    rw [bind_ok hx]
    exact hf a s' h
  | (.error e, s') =>
    rw [hx] at h
    rw [bind_error hx]
    exact h

theorem seq {Q : σ → Prop} {R : β → σ → Prop} {y : Program σ ε β} (hx : Triple P x (fun _ => Q) E)
    (hy : Triple Q y R E) : Triple P (x >>= fun _ => y) R E :=
  hx.bind fun _ => hy

protected theorem ite {c : Prop} [Decidable c] {x y : Program σ ε α} (h : c → Triple P x Q E)
    (h' : ¬ c → Triple P y Q E) : Triple P (if c then x else y) Q E := by
  split
  case isTrue hc => exact h hc
  case isFalse hc => exact h' hc

protected theorem attempt {caught : ε → Option δ} {R : Except δ α → σ → Prop} (h : Triple P x Q E')
    (ha : ∀ a s, Q a s → R (.ok a) s) (hd : ∀ e d s, caught e = some d → E' e s → R (.error d) s)
    (he : ∀ e s, caught e = none → E' e s → E e s) : Triple P (attempt caught x) R E := by
  intro s hs
  have h := h s hs
  match hx : x s with
  | (.ok a, s')    =>
    rw [hx] at h
    rw [attempt_ok hx]
    exact ha a s' h
  | (.error e, s') =>
    rw [hx] at h
    match hc : caught e with
    | some d =>
      rw [attempt_caught hx hc]
      exact hd e d s' hc h
    | none   =>
      rw [attempt_not_caught hx hc]
      exact he e s' hc h

end Triple

end

end Program
