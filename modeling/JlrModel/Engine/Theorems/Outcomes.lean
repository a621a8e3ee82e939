import JlrModel.Engine.Setup
import JlrModel.Engine.Theorems.Host

-- How the operations of a process on its ledger may go, as far as they have to do with the log and with its handle.

open Program

variable [Crypto] {node : String} {handle handle' handle'' : LedgerHandle} {log log' log'' : EventLog}

namespace Host

-- The host after operations that only have to do with the ledger.
def put (n : Nat) (handle : LedgerHandle) (log : EventLog) (h : Host) : Host :=
  { h with tick := h.tick + n, ledger := handle, dir := { h.dir with log } }

-- There is a way for the operations of a program to go that leads from one log to another, with nothing else changed.
def Runs (x : HostM α) (handle : LedgerHandle) (log : EventLog) (r : Except Halt α) (handle' : LedgerHandle)
    (log' : EventLog) : Prop :=
  ∃ n, ∃ fates : Nat → Fate, ∀ h : Host, h.locked = false → h.ledger = handle → h.dir.log = log →
    (∀ i < n, h.oracle.fate (h.tick + i) = fates i) → x h = (r, h.put n handle' log')

namespace Runs

variable {x : HostM α} {f : α → HostM β} {r : Except Halt β} {a : α} {e : EngineError} {why : Halt}

protected theorem bind (hx : Runs x handle log (.ok a) handle' log') (hf : Runs (f a) handle' log' r handle'' log'') :
    Runs (x >>= f) handle log r handle'' log'' := by
  have ⟨n, fates, hx⟩ := hx
  have ⟨n', fates', hf⟩ := hf
  refine ⟨n + n', fun i => if i < n then fates i else fates' (i - n), fun h hu hl hg hfate => ?_⟩
  have hx := hx h hu hl hg fun i hi => (hfate i (by omega)).trans (if_pos hi)
  have hf := hf (h.put n handle' log') hu rfl rfl fun i hi => by
    have hi := hfate (n + i) (by omega)
    simp only [Nat.not_lt.mpr (Nat.le_add_right n i), if_false, Nat.add_sub_cancel_left, ← Nat.add_assoc] at hi
    exact hi
  rw [bind_ok hx, hf]
  simp only [put, Nat.add_assoc]

theorem bind_error (hx : Runs x handle log (.error why) handle' log') :
    Runs (x >>= f) handle log (.error why) handle' log' := by
  have ⟨n, fates, hx⟩ := hx
  exact ⟨n, fates, fun h hu hl hg hfate => Program.bind_error (hx h hu hl hg hfate)⟩

protected theorem pure : Runs (pure a) handle log (.ok a) handle log := by
  refine ⟨0, fun _ => .done, fun h _ hl hg _ => ?_⟩
  rw [put, ← hl, ← hg]
  rfl

-- An error that is caught.
theorem attempt_error (hx : Runs x handle log (.error (.error e)) handle' log') :
    Runs (attempt Halt.error? x) handle log (.ok (.error e)) handle' log' := by
  have ⟨n, fates, hx⟩ := hx
  exact ⟨n, fates, fun h hu hl hg hfate => attempt_caught (hx h hu hl hg hfate) rfl⟩

theorem attempt_ok (hx : Runs x handle log (.ok a) handle' log') :
    Runs (attempt Halt.error? x) handle log (.ok (.ok a)) handle' log' := by
  have ⟨n, fates, hx⟩ := hx
  exact ⟨n, fates, fun h hu hl hg hfate => Program.attempt_ok (hx h hu hl hg hfate)⟩

end Runs

-- How an operation goes that is interrupted, with what it leaves behind, and what its program ends with.
inductive Interrupts : (Left → Fate) → Halt → Prop
  | broken  : Interrupts (.broken e) (.error (.ledger (.io e)))
  | stopped : Interrupts .stopped .stopped

section

variable {write : EventLog → EventLog} {leave : Left → EventLog → EventLog} {fate : Left → Fate} {why : Halt}

theorem setLedger_runs : Runs (update (setLedger fun _ => handle')) handle log (.ok ()) handle' log := by
  refine ⟨0, fun _ => .done, fun h _ hl hg _ => ?_⟩
  rw [put, ← hg]
  rfl

theorem setSync_runs {sync : Bool} : Runs (setSync sync) handle log (.ok ()) { handle with sync } log := by
  refine ⟨0, fun _ => .done, fun h _ hl hg _ => ?_⟩
  rw [put, ← hl, ← hg]
  rfl

theorem operate_runs {error : IoError → EngineError} :
    Runs (operate error fun dir => { dir with log := write dir.log }) handle log (.ok ()) handle (write log) := by
  refine ⟨1, fun _ => .done, fun h _ hl hg hf => ?_⟩
  rw [operate_done (hf 0 Nat.one_pos), put, ← hl, ← hg]
  rfl

-- The change was not made, or it was.
theorem operate_runs_interrupted (hi : Interrupts fate why) (write : EventLog → EventLog) (handle : LedgerHandle)
    (log : EventLog) :
    Runs (operate (fun e => .ledger (.io e)) fun dir => { dir with log := write dir.log }) handle log (.error why)
      handle log ∧
    Runs (operate (fun e => .ledger (.io e)) fun dir => { dir with log := write dir.log }) handle log (.error why)
      handle (write log) := by
  refine ⟨⟨1, fun _ => fate .nothing, fun h _ hl hg hf => ?_⟩, ⟨1, fun _ => fate .whole, fun h _ hl hg hf => ?_⟩⟩
  all_goals
    rw [operate, bind_ok nextFate_apply, ← Nat.add_zero h.tick, hf 0 Nat.one_pos, put, ← hl, ← hg]
    cases hi <;> rfl

theorem record_runs (hp : handle.poisoned = false) :
    Runs (record write leave) handle log (.ok ()) handle (write log) := by
  refine ⟨1, fun _ => .done, fun h _ hl hg hf => ?_⟩
  rw [record_done (hl ▸ hp) (hf 0 Nat.one_pos), put, ← hl, ← hg]
  rfl

theorem record_runs_failed (hp : handle.poisoned = false) :
    Runs (record write leave) handle log (.error (.error (.ledger (.io e)))) handle log := by
  refine ⟨1, fun _ => .failed e, fun h _ hl hg hf => ?_⟩
  rw [record, view_bind, hl, hp, if_neg Bool.false_ne_true, bind_ok nextFate_apply, ← Nat.add_zero h.tick,
    hf 0 Nat.one_pos, put, ← hl, ← hg]
  rfl

theorem record_runs_interrupted (hp : handle.poisoned = false) (hi : Interrupts fate why) (left : Left) :
    Runs (record write leave) handle log (.error why) { handle with poisoned := true } (leave left log) := by
  refine ⟨1, fun _ => fate left, fun h _ hl hg hf => ?_⟩
  rw [record, view_bind, hl, hp, if_neg Bool.false_ne_true, bind_ok nextFate_apply, ← Nat.add_zero h.tick,
    hf 0 Nat.one_pos, put, ← hl, ← hg]
  cases hi <;> rfl

theorem record_runs_refused (hp : handle.poisoned = true) :
    Runs (record write leave) handle log (.error (.error (.ledger Ledger.refused))) handle log := by
  refine ⟨0, fun _ => .done, fun h _ hl hg _ => ?_⟩
  rw [record, view_bind, hl, hp, if_pos rfl, put, ← hl, ← hg]
  rfl

end

-- The ledger is opened, if it has an event.
theorem openLedger_runs_empty (he : log.replayed = []) :
    Runs openLedger handle log (.error (.error (.ledger .empty))) handle log := by
  refine ⟨0, fun _ => .done, fun h hu hl hg _ => ?_⟩
  rw [openLedger, view_bind, view_bind, hu, if_neg Bool.false_ne_true, hg, if_pos he, put, ← hl, ← hg]
  rfl

theorem openLedger_runs_of {r : Except Halt EventLog} (hne : log.replayed ≠ [])
    (hx : Runs (do
      operate (fun e => .ledger (.io e)) fun dir => { dir with log := dir.log.trimmed }
      operate (fun e => .ledger (.io e)) fun dir => { dir with log := dir.log.repaired }
      update (setLedger fun _ => .new)
      return log) handle log r handle' log') : Runs openLedger handle log r handle' log' := by
  have ⟨n, fates, hx⟩ := hx
  refine ⟨n, fates, fun h hu hl hg hfate => ?_⟩
  rw [openLedger, view_bind, view_bind, hu, if_neg Bool.false_ne_true, hg, if_neg hne]
  exact hx h hu hl hg hfate

theorem openLedger_runs (hne : log.replayed ≠ []) : Runs openLedger handle log (.ok log) .new log.repaired :=
  openLedger_runs_of hne (.bind operate_runs (.bind operate_runs (.bind setLedger_runs .pure)))

theorem openLedger_runs_interrupted (handle : LedgerHandle) (hne : log.replayed ≠ []) (hi : Interrupts fate why) :
    Runs openLedger handle log (.error why) handle log ∧
    Runs openLedger handle log (.error why) handle log.trimmed ∧
    Runs openLedger handle log (.error why) handle log.repaired := by
  have ⟨ha, hb⟩ := operate_runs_interrupted hi EventLog.trimmed handle log
  have ⟨_, hc⟩ := operate_runs_interrupted hi EventLog.repaired handle log.trimmed
  exact ⟨openLedger_runs_of hne ha.bind_error, openLedger_runs_of hne hb.bind_error,
    openLedger_runs_of hne (.bind operate_runs hc.bind_error)⟩

theorem createLedger_runs_exists (he : ¬ (log.replayed = [] ∧ log.torn = 0)) :
    Runs (createLedger node) handle log (.error (.error (.ledger (.corrupt 0 "ledger already exists")))) handle log := by
  refine ⟨0, fun _ => .done, fun h hu hl hg _ => ?_⟩
  rw [createLedger, view_bind, view_bind, hu, if_neg Bool.false_ne_true, hg, if_pos (not_and_or.mp he), put, ← hl,
    ← hg]
  rfl

theorem createLedger_runs {r : Except Halt Unit} (he : log.replayed = [] ∧ log.torn = 0)
    (hx : Runs (append (Ledger.genesis node)) .new log r handle' log') :
    Runs (createLedger node) handle log r handle' log' := by
  have ⟨n, fates, hx⟩ := hx
  refine ⟨n, fates, fun h hu hl hg hfate => ?_⟩
  rw [createLedger, view_bind, view_bind, hu, if_neg Bool.false_ne_true, hg,
    if_neg (not_and_or.not.mp (not_not.mpr he)), update_bind]
  exact hx (h.setLedger fun _ => .new) hu rfl hg hfate

end Host
