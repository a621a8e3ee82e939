import JlrModel.Engine.Theorems.Host

open Program Relation

variable [Crypto]

-- A directory in which only the setup has left something.
structure StateDir.Fresh (d : StateDir) : Prop where
  notes   : ∀ e ∈ d.log.replayed, e.Note ∧ e.kind ≠ .discover
  grants  : ∀ kind, d.grants kind = []
  objects : ∀ kind name, d.objects kind name = none
  index   : d.index = none

theorem StateDir.fresh_empty {root : String} : (StateDir.empty root).Fresh where
  notes _ he  := absurd he List.not_mem_nil
  grants _    := rfl
  objects _ _ := rfl
  index       := rfl

namespace Host

variable {h h' : Host} {d : EventDraft}

-- The steps of the setup.
def Freshly (h h' : Host) : Prop :=
  h.dir.Fresh → h'.dir.Fresh

theorem Freshly.of_steps (hs : ReflTransGen Freshly h h') : Freshly h h' := by
  induction hs
  case refl => exact id
  case tail hl ih => exact hl ∘ ih

theorem Freshly.quiet (q : Quiet h h') : Freshly h h' := by
  intro hf
  exact {
    notes   := q.replayed ▸ hf.notes
    grants  := q.grants ▸ hf.grants
    objects := q.dir.same (f := StateDir.objects) (fun _ _ => rfl) ▸ hf.objects
    index   := (q.dir.same (f := StateDir.index) fun _ _ => rfl).trans hf.index
  }

-- An event that is added, whether its append succeeds or not.
theorem Freshly.event (hd : d.Note ∧ d.kind ≠ .discover)
    (hr : h'.dir.log.replayed ⊆ d :: h.dir.log.replayed) (hl : LogOnly h h') : Freshly h h' := by
  intro hf
  exact {
    notes   := by
      intro e he
      cases List.mem_cons.mp (hr he)
      case inl he => exact he ▸ hd
      case inr he => exact hf.notes e he
    grants  := hl.same (f := StateDir.grants) (fun _ _ => rfl) ▸ hf.grants
    objects := hl.same (f := StateDir.objects) (fun _ _ => rfl) ▸ hf.objects
    index   := (hl.same (f := StateDir.index) fun _ _ => rfl).trans hf.index
  }

theorem append_freshly (hd : d.Note ∧ d.kind ≠ .discover) : Does Freshly (append d) := by
  intro h
  have ha : Appends d h (append d h) := append_appends
  refine .single (.event hd ?_ ha.logOnly)
  generalize append d h = r at ha
  cases ha with
  | done q _ =>
    rw [replayed_logged, q.events, q.left, EventLog.replayed]
    grind
  | failed q =>
    rw [q.replayed]
    exact List.subset_cons_self _ _
  | lost q _ =>
    rw [replayed_lost, q.events, EventLog.replayed]
    grind

theorem operate_freshly {error : IoError → EngineError} {change : StateDir → StateDir}
    (hc : ∀ d, d.Fresh → (change d).Fresh) : Does Freshly (operate error change) :=
  operate_does (fun _ => .quiet .advance) fun h => hc h.dir

theorem writeAtomic_freshly {data : Bytes} {change : File → StateDir → StateDir}
    (hc : ∀ f d, d.Fresh → (change f d).Fresh) : Does Freshly (writeAtomic data change) :=
  writeAtomic_does (fun _ => .quiet .advance) fun h f _ => hc f h.dir

theorem createLedger_freshly {node : String} : Does Freshly (createLedger node) := by
  refine .bind .view fun _ => .bind .view fun _ => .ite (fun _ => .halt) fun _ => .ite (fun _ => .halt) fun _ => ?_
  refine .bind (.update fun _ => id) fun _ => ?_
  exact append_freshly ⟨⟨rfl, nofun, nofun⟩, nofun⟩

end Host

namespace Engine

variable {kind : PolicyKind} {time : UInt64} {seeds : Seeds}

theorem init_freshly : Does Host.Freshly (init kind time seeds) := by
  refine .bind .view fun dir => .ite (fun _ => .halt) fun _ => ?_
  refine .bind (Host.operate_freshly fun _ ⟨a, b, c, d⟩ => ⟨a, b, c, d⟩) fun _ => ?_
  refine .bind (Host.operate_freshly fun _ ⟨a, b, c, d⟩ => ⟨a, b, c, d⟩) fun _ => ?_
  refine .bind (Host.operate_freshly fun _ ⟨a, b, c, d⟩ => ⟨a, b, c, d⟩) fun _ => .bind .ofExcept fun _ => ?_
  refine .bind (Host.writeAtomic_freshly fun _ _ ⟨a, b, c, d⟩ => ⟨a, b, c, d⟩) fun _ => ?_
  refine .bind (Host.writeAtomic_freshly fun _ _ ⟨a, b, c, d⟩ => ⟨a, b, c, d⟩) fun _ => ?_
  refine .bind Host.createLedger_freshly fun _ => ?_
  refine .bind (.fold (fun _ _ _ => Host.append_freshly ⟨⟨rfl, by nofun, by nofun⟩, by nofun⟩) _) fun _ => ?_
  refine .bind (Host.append_freshly ⟨⟨rfl, nofun, nofun⟩, nofun⟩) fun _ => ?_
  refine .bind (fun _ => .single (.quiet Host.checkpoint_quiet)) fun _ => ?_
  exact .bind (Host.writeAtomic_freshly fun _ _ ⟨a, b, c, d⟩ => ⟨a, b, c, d⟩) fun _ => .pure

end Engine

-- A new installation has no history.
theorem System.Initial.fresh {s : System} (h : s.Initial) : s.dir.Fresh := by
  have ⟨root, kind, time, seeds, o, node, h, hi, hs⟩ := h
  have hf := Host.Freshly.of_steps (Engine.init_freshly.of_ok hi)
  rw [hs]
  exact hf StateDir.fresh_empty
