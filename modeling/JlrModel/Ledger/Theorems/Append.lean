import JlrModel.Ledger.Journal
import JlrModel.Ledger.Theorems.Replay

-- The two outcomes of a write that fails: nothing has happened, or the ledger is poisoned.

inductive AppendOutcome (f : File) (bytes : Bytes) : Except AppendError Unit × File → Prop
  | written  : f'.data = f.data ++ bytes → AppendOutcome f bytes (.ok (), f')
  | restored : AppendOutcome f bytes (.error (.failed e), f)
  | leftover : t <+: bytes → f'.data = f.data ++ t →
      AppendOutcome f bytes (.error (.rollbackFailed write rollback), f')

theorem File.extend_data {f f' : File} {bytes : Bytes} (h : f.extend bytes = some f') :
    f'.data = f.data ++ bytes := by
  unfold extend at h
  split at h
  case isTrue => cases h; rfl
  case isFalse => contradiction

theorem File.truncate_length {f f' : File} {t : Bytes} (h : f'.data = f.data ++ t) :
    f'.truncate f.data.length = f := by
  apply File.ext
  change f'.data.take f.data.length = f.data
  rw [h, List.take_left]

-- A write that fails leaves a beginning of the bytes behind.
theorem File.append_cases (io : Io) (bytes : Bytes) (f : File) :
    ∃ t, t <+: bytes ∧ (f.append io bytes).2.data = f.data ++ t ∧
      ((f.append io bytes).1 = .ok () → t = bytes) := by
  unfold File.append
  split
  case h_1 =>
    split
    case h_1 f' h => exact ⟨bytes, List.prefix_rfl, extend_data h, fun _ => rfl⟩
    case h_2 => exact ⟨[], List.nil_prefix, by simp, fun h => nomatch h⟩
  case h_2 n e _ =>
    cases h : f.extend (bytes.take n)
    case none => exact ⟨[], List.nil_prefix, by simp, fun h => nomatch h⟩
    case some f' => exact ⟨bytes.take n, List.take_prefix n bytes, extend_data h, fun h => nomatch h⟩

theorem appendFrame_outcome (io : Io) (f : File) (bytes : Bytes) (sync : Bool) :
    AppendOutcome f bytes (appendFrame io f bytes sync) := by
  have ⟨t, ht, hd, hw⟩ := f.append_cases io bytes
  unfold appendFrame
  split
  case h_1 => exact .restored
  case h_2 =>
    cases ha : f.append io bytes
    case mk result f' =>
    simp only [ha] at hd hw ⊢
    split
    case h_1 hr =>
      have ⟨_, hr, _⟩ := Except.bind_eq_ok.mp hr
      exact .written (hw hr ▸ hd)
    case h_2 =>
      split
      case h_1 =>
        rw [File.truncate_length hd]
        exact .restored
      case h_2 => exact .leftover ht hd

namespace Ledger

inductive Outcome (l : Ledger) (log : Log) (bytes : Bytes) : Except LedgerError Unit × Ledger → Prop
  | written  : l.poisoned = false → f.data = (l.logs log).data ++ bytes →
      Outcome l log bytes (.ok (), l.setLog log f)
  | restored : Outcome l log bytes (.error (.io e), l)
  | poisoned : l.poisoned = false → t <+: bytes → f.data = (l.logs log).data ++ t →
      Outcome l log bytes (.error (.io e), { l.setLog log f with poisoned := true })

theorem setLog_self {l : Ledger} {log : Log} : l.setLog log (l.logs log) = l := by
  rw [setLog, Function.update_eq_self]

theorem readAll_setLog_self {l : Ledger} {log : Log} {f : File} : (l.setLog log f).dir.readAll log = f.data := by
  simp [Dir.readAll, dir, setLog]

theorem readAll_setLog_of_ne {l : Ledger} {log log' : Log} (h : log' ≠ log) (f : File) :
    (l.setLog log f).dir.readAll log' = (l.logs log').data := by
  simp [Dir.readAll, dir, setLog, h]

theorem appendChecked_outcome (l : Ledger) (io : Io) (log : Log) (bytes : Bytes) :
    Outcome l log bytes (l.appendChecked io log bytes) := by
  unfold appendChecked
  split
  case isTrue => exact .restored
  case isFalse hp =>
    have hp := Bool.not_eq_true _ ▸ hp
    have ha := appendFrame_outcome io (l.logs log) bytes l.sync
    generalize appendFrame io (l.logs log) bytes l.sync = r at ha
    cases ha
    case written hd => exact .written hp hd
    case restored e =>
      simp only [setLog_self]
      exact .restored
    case leftover ht hd => exact .poisoned hp ht hd

theorem appendChecked_poisoned {l : Ledger} (h : l.poisoned = true) (io : Io) (log : Log) (bytes : Bytes) :
    l.appendChecked io log bytes = (.error refused, l) :=
  if_pos h

theorem uint64_ofNat_succ (n : Nat) : UInt64.ofNat (n + 1) = UInt64.ofNat n + 1 := by
  simp [UInt64.ofNat_add]

variable [Crypto]

-- The ledger after an event was written to its file, and after a checkpoint was.
def grown (l : Ledger) (f : File) (env : Bytes) : Ledger :=
  { l.setLog .events f with tree := l.tree.push (leafHash env), lastEnv := Digest.of env, nextSeq := l.nextSeq + 1 }

def committed (l : Ledger) (f : File) (cp : Checkpoint) : Ledger :=
  { l.setLog .checkpoints f with counter := cp.counter, lastCheckpointSize := cp.size }

-- What appending an event comes to.
inductive Appends (l : Ledger) (clock : Clock) (d : EventDraft) : Except LedgerError (UInt64 × Digest) × Ledger → Prop
  | written  : l.poisoned = false → f.data = (l.logs .events).data ++ frame (l.eventEnvelope clock d) →
      Appends l clock d (.ok (l.nextSeq, Digest.of (l.eventEnvelope clock d)), l.grown f (l.eventEnvelope clock d))
  | restored : Appends l clock d (.error (.io e), l)
  | poisoned : l.poisoned = false → t <+: frame (l.eventEnvelope clock d) → f.data = (l.logs .events).data ++ t →
      Appends l clock d (.error (.io e), { l.setLog .events f with poisoned := true })

theorem append_outcome (l : Ledger) (io : Io) (clock : Clock) (d : EventDraft) :
    Appends l clock d (l.append io clock d) := by
  have o := l.appendChecked_outcome io .events (frame (l.eventEnvelope clock d))
  simp only [append]
  generalize l.appendChecked io .events (frame (l.eventEnvelope clock d)) = r at o ⊢
  cases o
  case written hp hf => exact .written hp hf
  case restored => exact .restored
  case poisoned hp ht hf => exact .poisoned hp ht hf

-- What writing a checkpoint comes to.
inductive Checkpoints (l : Ledger) (now : UInt64) : Except LedgerError Bytes × Ledger → Prop
  | written  : l.poisoned = false → f.data = (l.logs .checkpoints).data ++ frame (l.checkpointEnvelope now) →
      Checkpoints l now (.ok (l.checkpointEnvelope now), l.committed f (l.nextCheckpoint now))
  | restored : Checkpoints l now (.error (.io e), l)
  | poisoned : l.poisoned = false → t <+: frame (l.checkpointEnvelope now) → f.data = (l.logs .checkpoints).data ++ t →
      Checkpoints l now (.error (.io e), { l.setLog .checkpoints f with poisoned := true })

theorem checkpoint_outcome (l : Ledger) (io : Io) (now : UInt64) : Checkpoints l now (l.checkpoint io now) := by
  have o := l.appendChecked_outcome io .checkpoints (frame (l.checkpointEnvelope now))
  simp only [checkpoint]
  generalize l.appendChecked io .checkpoints (frame (l.checkpointEnvelope now)) = r at o ⊢
  cases o
  case written hp hf => exact .written hp hf
  case restored => exact .restored
  case poisoned hp ht hf => exact .poisoned hp ht hf

-- A poisoned ledger refuses every write and stays as it is.
theorem exec_poisoned {l : Ledger} (h : l.poisoned = true) (c : Call) : l.exec c = (some refused, l) := by
  cases c
  case append io clock d => rw [exec, append, appendChecked_poisoned h]
  case checkpoint io now => rw [exec, checkpoint, appendChecked_poisoned h]

-- The ledger is what it was before, with the frames of a history added and nothing else.
structure Extends (l₀ : Ledger) (j : Journal) (l : Ledger) : Prop where
  files              : ∀ log, (l.logs log).data = (l₀.logs log).data ++ framed (j.envelopes log)
  tree               : l.tree = ((j.envelopes .events).map leafHash).foldl .push l₀.tree
  lastEnv            : l.lastEnv = lastDigest l₀.lastEnv (j.envelopes .events)
  nextSeq            : l.nextSeq = l₀.nextSeq + .ofNat j.events.length
  counter            : l.counter = l₀.counter + .ofNat j.checkpoints.length
  lastCheckpointSize : l.lastCheckpointSize =
    (j.lastCheckpoint.map Checkpoint.size).getD l₀.lastCheckpointSize

theorem Extends.refl {l : Ledger} : Extends l .new l where
  files _            := by simp
  tree               := rfl
  lastEnv            := rfl
  nextSeq            := (UInt64.add_zero _).symm
  counter            := (UInt64.add_zero _).symm
  lastCheckpointSize := rfl

variable {l₀ l : Ledger} {j : Journal} {f : File}

theorem Extends.append (h : Extends l₀ j l) {ev : Event} {env : Bytes}
    (hf : f.data = (l.logs .events).data ++ frame env) :
    Extends l₀ (j.append ev env) (l.grown f env) where
  files log := by
    cases log
    case events => simp [grown, setLog, hf, h.files]
    case checkpoints => simpa [grown, setLog] using h.files .checkpoints
  tree := by simp [grown, h.tree]
  lastEnv := by simp [grown, lastDigest]
  nextSeq := by simp [grown, Journal.append, h.nextSeq, uint64_ofNat_succ, UInt64.add_assoc]
  counter := h.counter
  lastCheckpointSize := h.lastCheckpointSize

theorem Extends.commit (h : Extends l₀ j l) {cp : Checkpoint} {env : Bytes}
    (hf : f.data = (l.logs .checkpoints).data ++ frame env) (hc : cp.counter = l.counter + 1) :
    Extends l₀ (j.commit cp env) (l.committed f cp) where
  files log := by
    cases log
    case events => simpa [committed, setLog] using h.files .events
    case checkpoints => simp [committed, setLog, hf, h.files]
  tree := h.tree
  lastEnv := h.lastEnv
  nextSeq := h.nextSeq
  counter := by simp [committed, Journal.commit, hc, h.counter, uint64_ofNat_succ, UInt64.add_assoc]
  lastCheckpointSize := by simp [committed]

-- What one call does: it adds its frame, it changes nothing, or it poisons the ledger.
theorem step_extends (h : l.poisoned = false → Extends l₀ j l) (c : Call) :
    (step (l, j) c).1.poisoned = false → Extends l₀ (step (l, j) c).2 (step (l, j) c).1 := by
  cases c
  case append io clock d =>
    have o := l.append_outcome io clock d
    simp only [step, exec, record]
    generalize l.append io clock d = r at o ⊢
    cases o
    case written hp hf => exact fun _ => (h hp).append hf
    case restored => exact h
    case poisoned => exact fun hp => nomatch hp
  case checkpoint io now =>
    have o := l.checkpoint_outcome io now
    simp only [step, exec, record]
    generalize l.checkpoint io now = r at o ⊢
    cases o
    case written hp hf => exact fun _ => (h hp).commit hf rfl
    case restored => exact h
    case poisoned => exact fun hp => nomatch hp

theorem foldl_step_extends (h : l.poisoned = false → Extends l₀ j l) (calls : List Call) :
    (calls.foldl step (l, j)).1.poisoned = false →
    Extends l₀ (calls.foldl step (l, j)).2 (calls.foldl step (l, j)).1 := by
  induction calls generalizing l j
  case nil => exact h
  case cons c calls ih => exact ih (step_extends h c)

theorem foldl_step_poisoned (h : l.poisoned = true) (calls : List Call) :
    calls.foldl step (l, j) = (l, j) := by
  induction calls
  case nil => rfl
  case cons c calls ih =>
    rw [List.foldl_cons, step, exec_poisoned h]
    exact ih

-- However the operations on the files turn out, a ledger that is not poisoned has written and describes
-- exactly the records of the calls that did not fail, and a poisoned one never changes again.
theorem append_atomic (l₀ : Ledger) (calls : List Call) :
    ((l₀.run calls).1.poisoned = false → Extends l₀ (l₀.run calls).2 (l₀.run calls).1) ∧
    ((l₀.run calls).1.poisoned = true →
      (∀ c, ∃ e, (l₀.run calls).1.exec c = (some e, (l₀.run calls).1)) ∧
      ∀ later, l₀.run (calls ++ later) = l₀.run calls) := by
  refine ⟨foldl_step_extends (fun _ => .refl) calls, fun h => ⟨fun c => ⟨_, exec_poisoned h c⟩, fun later => ?_⟩⟩
  rw [run, List.foldl_append]
  exact foldl_step_poisoned h later

end Ledger
