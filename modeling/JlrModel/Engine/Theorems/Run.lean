import JlrModel.Engine.Theorems.Authority
import JlrModel.Engine.Theorems.Open
import JlrModel.Engine.Theorems.Setup

open Program Relation

variable [Crypto] {w : Setting} {s s' : System}

namespace System

-- What holds of the directory of an installation, whose ledger accepts events or not, and of its engine if it is open.
structure Holds (D : StateDir → Bool → Prop) (O : StateDir → Engine → Bool → Prop) (s : System) : Prop where
  closed : s.engine = none → D s.dir true
  opened : ∀ e l, s.engine = some (e, l) → O s.dir e l.poisoned

section

variable {D : StateDir → Bool → Prop} {O : StateDir → Engine → Bool → Prop} {d : StateDir}

theorem Holds.of_closed (h : D d true) : Holds D O ⟨d, none⟩ where
  closed _     := h
  opened _ _ h := (Option.some_ne_none _ h.symm).elim

theorem Holds.of_open {e : Engine} {l : LedgerHandle} (h : O d e l.poisoned) : Holds D O ⟨d, some (e, l)⟩ where
  closed h      := (Option.some_ne_none _ h).elim
  opened _ _ he := by
    have ⟨he, hl⟩ := Prod.mk.inj (Option.some.inj he)
    exact he ▸ hl ▸ h

end

-- What no step of an installation changes.
structure Stable (w : Setting) (D : StateDir → Bool → Prop) (O : StateDir → Engine → Bool → Prop) : Prop where
  tamper     : ∀ d d', w.tamper d d' → D d true → D d' true
  tamperOpen : ∀ d d' e p, w.tamper d d' → O d e p → O d' e p
  note       : ∀ h h', Host.Act h h' → D h.dir h.ledger.poisoned → D h'.dir h'.ledger.poisoned
  repair     : ∀ d, D d true → D { d with log := d.log.repaired } false
  start      : ∀ d e, Engine.Opens d e → D d true → O { d with log := d.log.repaired } e false
  act        : ∀ m m', Machine.Act w m m' → O m.dir m.engine m.host.ledger.poisoned →
    O m'.dir m'.engine m'.host.ledger.poisoned
  weaken     : ∀ d p, D d p → D d true
  close      : ∀ d e p, O d e p → D d true

namespace Stable

variable {D : StateDir → Bool → Prop} {O : StateDir → Engine → Bool → Prop}

theorem acts (i : Stable w D O) {m m' : Machine} (h : ReflTransGen (Machine.Act w) m m')
    (ho : O m.dir m.engine m.host.ledger.poisoned) : O m'.dir m'.engine m'.host.ledger.poisoned :=
  Does.kept (P := fun m => O m.dir m.engine m.host.ledger.poisoned) h i.act ho

theorem opens (i : Stable w D O) {d : StateDir} {o : Oracle} {e : Engine} {h : Host} (hc : D d true)
    (hx : Engine.open (host d .new o) = (.ok e, h)) : O h.dir e h.ledger.poisoned := by
  have ⟨ho, _, ha⟩ := Engine.open_ok rfl hx
  have ha : ReflTransGen (Machine.Act w) (Machine.mk _ e) (Machine.mk h e) :=
    ha.lift (Machine.mk · e) fun h₁ _ a => Machine.Act.host (m := ⟨h₁, e⟩) a
  have hs := i.start d e ho hc
  exact i.acts ha hs

-- Changes that no reader can see do not need a ledger that accepts events.
theorem quiet (i : Stable w D O) {h h' : Host} (q : h.Quiet h') (hd : D h.dir true) : D h'.dir true := by
  let poison (h : Host) := h.setLedger fun l => { l with poisoned := true }
  have hq : (poison h).Quiet (poison h') := ⟨q.dir, q.events, q.left, nofun⟩
  exact i.note _ _ (.quiet hq) hd

theorem refuses (i : Stable w D O) {d : StateDir} {o : Oracle} {h : Host} (hc : D d true)
    (hx : Engine.open (host d .new o) = (r, h)) : D h.dir true := by
  have ha := Engine.open_acts (h := host d .new o) rfl
  rw [hx] at ha
  cases ha
  case inl q => exact i.quiet q hc
  case inr ha =>
    have hr := i.repair d hc
    exact i.weaken _ _ (Does.kept (P := fun h => D h.dir h.ledger.poisoned) ha i.note hr)

theorem calls (i : Stable w D O) {c : Call} {d : StateDir} {e : Engine} {l : LedgerHandle} {o : Oracle} {m : Machine}
    (hc : c.Within w (machine d e l o)) (hx : c.run (machine d e l o) = (r, m)) (ho : O d e l.poisoned) :
    O m.dir m.engine m.host.ledger.poisoned := by
  have ha := Call.run_does hc
  rw [hx] at ha
  exact i.acts ha ho

theorem step (i : Stable w D O) (h : Step w s s') (hs : s.Holds D O) : s'.Holds D O := by
  cases h with
  | tamper ht =>
    exact ⟨fun he => i.tamper _ _ ht (hs.closed he), fun e l he => i.tamperOpen _ _ _ _ ht (hs.opened e l he)⟩
  | «open» hx => exact .of_open (i.opens (hs.closed rfl) hx)
  | refuse _ hx => exact .of_closed (i.refuses (hs.closed rfl) hx)
  | call hc hx => exact .of_open (i.calls hc hx (hs.opened _ _ rfl))
  | failed _ hc hx => exact .of_open (i.calls hc hx (hs.opened _ _ rfl))
  | stopped _ hc hx => exact .of_closed (i.close _ _ _ (i.calls hc hx (hs.opened _ _ rfl)))
  | @close d e =>
    match e with
    | none        => exact .of_closed (hs.closed rfl)
    | some (e, l) => exact .of_closed (i.close _ _ _ (hs.opened e l rfl))

theorem reaches (i : Stable w D O) (h : Reaches w s s') (hs : s.Holds D O) : s'.Holds D O := by
  induction h
  case refl => exact hs
  case tail h ih => exact i.step h ih

theorem reachable (i : Stable w D O) (hc : ∀ d : StateDir, d.Fresh → D d true) (h : Reachable w s) : s.Holds D O := by
  have ⟨s₀, hi, hr⟩ := h
  have hf := hc _ hi.fresh
  obtain ⟨_, _, _, _, _, _, _, _, rfl⟩ := hi
  exact i.reaches hr (.of_closed hf)

end Stable

end System
