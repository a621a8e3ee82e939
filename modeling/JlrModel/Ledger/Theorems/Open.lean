import JlrModel.Ledger.Theorems.Replay
import JlrModel.Ledger.Open

namespace Ledger

-- What belongs to each of the two logs.
def Log.pick (events checkpoints : α) : Log → α
  | .events      => events
  | .checkpoints => checkpoints

theorem data_getD {dir : Dir} {log : Log} : ((dir.logs log).getD .empty).data = dir.readAll log := by
  unfold Dir.readAll
  cases dir.logs log <;> rfl

-- Without torn bytes, opening a ledger only opens its logs.
theorem repairs_untorn {dir : Dir} {r : Replayed} (ht : r.torn = 0) (hc : r.cpTorn = 0) :
    repairs dir r = ([.openAppend .events, .openAppend .checkpoints], .ok ()) := by
  simp [repairs, repair, ht, hc]

theorem repair_error {dir : Dir} {log : Log} {torn validLen : UInt64}
    (h : repair dir log torn validLen = (ops, .error e)) : ∃ why, e = .io why := by
  unfold repair quarantineTail at h
  split at h
  case isTrue => cases h
  case isFalse =>
    split at h
    case h_1 => cases h
    case h_2 hq =>
      split at hq
      case h_1 => cases hq
      case h_2 =>
        cases hq
        cases h
        exact ⟨_, rfl⟩

-- A repair fails only for want of a name.
theorem repairs_error {dir : Dir} {r : Replayed} (h : repairs dir r = (ops, .error e)) : ∃ why, e = .io why := by
  unfold repairs at h
  split at h
  case h_1 hr =>
    cases h
    exact repair_error hr
  case h_2 =>
    split at h
    case h_1 hr =>
      cases h
      exact repair_error hr

theorem dir_openAppend (l : Ledger) (log : Log) : l.dir.apply (.openAppend log) = l.dir := by
  simp [Dir.apply, Ledger.dir]

variable [Crypto] {node : String} {anchors : TrustAnchors} {dir : Dir} {key : SigningKeypair}
variable {bootId : Bytes.Fixed 16} {r : Replayed} {ops : List DirOp}

theorem openWithEvents_eq
    (h : replay node anchors false (dir.readAll .checkpoints) (dir.readAll .events) = .ok r)
    (hn : r.events ≠ 0) (hr : repairs dir r = (ops, .ok ())) :
    openWithEvents dir node key anchors bootId =
    (ops, .ok (opened (dir.applyAll ops) r node key bootId, openReport r, r.eventsParsed)) := by
  rw [openWithEvents, h]
  simp only [if_neg hn, hr]

theorem openWithEvents_error
    (h : replay node anchors false (dir.readAll .checkpoints) (dir.readAll .events) = .ok r)
    (hn : r.events ≠ 0) (hr : repairs dir r = (ops, .error e)) :
    openWithEvents dir node key anchors bootId = (ops, .error e) := by
  rw [openWithEvents, h]
  simp only [if_neg hn, hr]

theorem openWithEvents_fst
    (h : replay node anchors false (dir.readAll .checkpoints) (dir.readAll .events) = .ok r) (hn : r.events ≠ 0) :
    (openWithEvents dir node key anchors bootId).1 = (repairs dir r).1 := by
  cases hr : repairs dir r
  case mk ops res =>
    cases res
    case error => rw [openWithEvents_error h hn hr]
    case ok => rw [openWithEvents_eq h hn hr]

theorem openWithEvents_ok {l : Ledger} {report : OpenReport} {evs : List Event}
    (h : (openWithEvents dir node key anchors bootId).2 = .ok (l, report, evs)) :
    ∃ r ops, replay node anchors false (dir.readAll .checkpoints) (dir.readAll .events) = .ok r ∧
      r.events ≠ 0 ∧ repairs dir r = (ops, .ok ()) ∧
      l = opened (dir.applyAll ops) r node key bootId ∧ report = openReport r ∧ evs = r.eventsParsed := by
  unfold openWithEvents at h
  split at h
  case h_1 => contradiction
  case h_2 r hr =>
    split_ifs at h with hn
    split at h
    case h_1 => contradiction
    case h_2 ops ho =>
      cases h
      exact ⟨r, ops, hr, hn, ho, rfl, rfl, rfl⟩

end Ledger
