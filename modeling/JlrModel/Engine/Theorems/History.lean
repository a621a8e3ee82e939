import JlrModel.Engine.Act
import JlrModel.Model.Theorems.Epn

-- What an event adds to the states and to the grants that a list of events comes to.

variable {d : EventDraft} {es es' : List EventDraft}

namespace EventLog

theorem replayed_of_none {log : EventLog} (h : log.left = none) : log.replayed = log.events := by
  rw [replayed, h]
  exact List.append_nil _

theorem replayed_of_some {log : EventLog} {d : EventDraft} (h : log.left = some d) :
    log.replayed = log.events ++ [d] := by
  rw [replayed, h]
  rfl

theorem replayed_repaired {log : EventLog} : log.repaired.replayed = log.replayed :=
  List.append_nil _

end EventLog

namespace History

theorem states_append : states (es ++ es') = es'.foldl addState (states es) :=
  List.foldl_append

theorem states_concat : states (es ++ [d]) = addState (states es) d := by
  rw [states_append]
  rfl

theorem addState_of_none {s : States} (h : d.newState = none) : addState s d = s := by
  have hm : move d = none := by
    simp [move, h]
  rw [addState, hm]

theorem addState_of_move {s : States} {id : EpnId} {a : AdmissionState} (hs : d.subject = some id.display)
    (hn : d.newState = some a) : addState s d = s.insert id a := by
  have hm : move d = some (id, a) := by
    simp [move, hs, hn, EpnId.parse_display]
  rw [addState, hm]

theorem current_concat : current (es ++ [d]) =
    match grant d with
    | some (s, e) => (current es).insert s e
    | none        => current es := by
  rw [current, List.foldl_append]
  rfl

theorem current_concat_of_other (h : d.kind ≠ .override) : current (es ++ [d]) = current es := by
  have hg : grant d = none := if_pos h
  rw [current_concat, hg]

section

variable [Crypto]

-- Events that are only notes change neither.
omit [Crypto] in
theorem states_notes (hd : ∀ d ∈ es', d.Note) : states (es ++ es') = states es := by
  induction es' generalizing es
  case nil => rw [List.append_nil]
  case cons d es' ih =>
    rw [List.append_cons, ih fun d h => hd d (List.mem_cons_of_mem _ h), states_concat,
      addState_of_none (hd d List.mem_cons_self).state]

omit [Crypto] in
theorem current_notes (hd : ∀ d ∈ es', d.Note) : current (es ++ es') = current es := by
  induction es' generalizing es
  case nil => rw [List.append_nil]
  case cons d es' ih =>
    rw [List.append_cons, ih fun d h => hd d (List.mem_cons_of_mem _ h),
      current_concat_of_other (hd d List.mem_cons_self).override]

end

section

variable [Crypto] {g : Grantee} {bytes : Bytes}

theorem current_concat_of_grants (h : g.Grants bytes d) :
    current (es ++ [d]) = (current es).insert g.subject (Digest.of bytes) := by
  have hg : grant d = some (g.subject, Digest.of bytes) := by
    simp [grant, h.kind, h.subject, h.evidence]
  rw [current_concat, hg]

end

end History

namespace Machine

variable [Crypto] {w : Setting} {m m' : Machine}

-- Every change leaves the log and the states as they were, or adds one event to the log.
theorem Act.log_cases (a : Act w m m') :
    Same m m' ∨ m.host.ledger.poisoned = false ∧ ∃ d, Writes w m d ∧ (Logs d m m' ∨ Loses d m m') := by
  cases a
  case host a =>
    cases a
    case quiet q => exact .inl ⟨q.events, q.left, rfl, q.open'⟩
    case event hp hd =>
      exact .inr ⟨hp, _, .note hd, .inl ⟨rfl, rfl, (History.addState_of_none hd.state).symm⟩⟩
    case lost hp hd => exact .inr ⟨hp, _, .note hd, .inr ⟨rfl, rfl, rfl, rfl⟩⟩
    case object => exact .inl ⟨rfl, rfl, rfl, id⟩
    case index => exact .inl ⟨rfl, rfl, rfl, id⟩
  case move hp hd => exact .inr ⟨hp, _, .move hd, .inl ⟨rfl, rfl, (History.addState_of_move hd.subject hd.new).symm⟩⟩
  case loseMove hp hd => exact .inr ⟨hp, _, .move hd, .inr ⟨rfl, rfl, rfl, rfl⟩⟩
  case grant g hp he hf hd => exact .inr ⟨hp, _, .grant he hf hd, .inl ⟨rfl, rfl, (History.addState_of_none hd.new).symm⟩⟩
  case loseGrant g hp he hf hd => exact .inr ⟨hp, _, .grant he hf hd, .inr ⟨rfl, rfl, rfl, rfl⟩⟩
  case rules r _ => exact .inl ⟨rfl, rfl, r.states, id⟩
  all_goals exact .inl ⟨rfl, rfl, rfl, id⟩

end Machine
