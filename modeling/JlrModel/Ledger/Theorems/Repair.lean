import JlrModel.Ledger.Theorems.Open

theorem firstFree_eq_some {taken : Nat → Bool} (h : firstFree taken left n = some k) :
    taken k = false ∧ n ≤ k := by
  induction left generalizing n
  case zero => contradiction
  case succ left ih =>
    unfold firstFree at h
    split at h
    case isTrue =>
      have ⟨hk, hn⟩ := ih h
      exact ⟨hk, by omega⟩
    case isFalse ht =>
      cases h
      exact ⟨Bool.not_eq_true _ ▸ ht, le_rfl⟩

theorem firstFree_isSome {taken : Nat → Bool} (hk : taken k = false) (hn : n ≤ k) (hl : k < n + left) :
    (firstFree taken left n).isSome := by
  induction left generalizing n
  case zero => omega
  case succ left ih =>
    unfold firstFree
    split
    case isTrue ht =>
      apply ih
      · have hne : n ≠ k := by
          intro he
          simp [he, hk] at ht
        omega
      · omega
    case isFalse => rfl

theorem firstFree_eq_none {taken : Nat → Bool} (h : ∀ k, taken k) : firstFree taken left n = none := by
  induction left generalizing n
  case zero => rfl
  case succ left ih => rw [firstFree, if_pos (h n), ih]

namespace Dir

variable {dir dir' : Dir} {log : Log} {n : Nat} {t : Bytes}

theorem readAll_of_logs (h : dir.logs log = dir'.logs log) : dir.readAll log = dir'.readAll log := by
  rw [readAll, readAll, h]

theorem readAll_length_lt : (dir.readAll log).length < 2 ^ 63 := by
  unfold readAll
  split
  case h_1 f _ => exact f.size_lt
  case h_2 => decide

theorem applyAll_append {ops ops' : List DirOp} :
    dir.applyAll (ops ++ ops') = (dir.applyAll ops).applyAll ops' :=
  List.foldl_append

-- The torn tail `n` of the log is the only difference.
structure Quarantined (dir : Dir) (log : Log) (n : Nat) (t : Bytes) (dir' : Dir) : Prop where
  logs : dir'.logs = dir.logs
  file : ∃ f, dir'.torn log n = some f ∧ f.data = t
  rest : ∀ log' m, log' ≠ log ∨ m ≠ n → dir'.torn log' m = dir.torn log' m

theorem update_torn_of_ne {torn : Log → Nat → Option File} {f : Option File} {log' : Log} {m : Nat}
    (h : log' ≠ log ∨ m ≠ n) :
    Function.update torn log (Function.update (torn log) n f) log' m = torn log' m := by
  by_cases hl : log' = log
  · subst hl
    have hm := h.resolve_left (not_not.mpr rfl)
    rw [Function.update_self, Function.update_of_ne hm]
  · rw [Function.update_of_ne hl]

theorem quarantined_create : Quarantined dir log n [] (dir.apply (.createTorn log n)) where
  logs := rfl
  file := ⟨.empty, by simp [apply], rfl⟩
  rest _ _ h := update_torn_of_ne h

theorem Quarantined.write (q : Quarantined dir log n t dir') (b : UInt8) (h : t.length + 1 < 2 ^ 63) :
    Quarantined dir log n (t ++ [b]) (dir'.apply (.writeTorn log n b)) where
  logs := q.logs
  file := by
    have ⟨f, hf, hd⟩ := q.file
    have hs : (f.data ++ [b]).length < 2 ^ 63 := by simpa [hd] using h
    have he : f.extend [b] = some ⟨f.data ++ [b], hs⟩ := dif_pos hs
    refine ⟨⟨f.data ++ [b], hs⟩, ?_, congrArg (· ++ [b]) hd⟩
    simp only [apply, Function.update_self, hf, Option.map_some, he, Option.getD_some]
  rest log' m h := by
    rw [← q.rest log' m h]
    exact update_torn_of_ne h

theorem Quarantined.writes (q : Quarantined dir log n t dir') (bs : Bytes) (h : (t ++ bs).length < 2 ^ 63) :
    Quarantined dir log n (t ++ bs) (dir'.applyAll (bs.map (.writeTorn log n))) := by
  induction bs generalizing t dir'
  case nil => simpa [applyAll] using q
  case cons b bs ih =>
    have hb : t.length + 1 < 2 ^ 63 := by
      rw [List.length_append, List.length_cons] at h
      omega
    have := ih (q.write b hb) (by simpa using h)
    simpa [applyAll] using this

end Dir

namespace Ledger

-- A log of whole frames and a torn tail is as it was, or its tail is in a new file.
def Recoverable (dir : Dir) (log : Log) (valid tail : Bytes) (dir' : Dir) : Prop :=
  (dir'.torn log = dir.torn log ∧ dir'.readAll log = valid ++ tail) ∨
  ∃ n, dir.torn log n = none ∧ (∀ m ≠ n, dir'.torn log m = dir.torn log m) ∧
    (dir'.readAll log = valid ++ tail ∨
      dir'.readAll log = valid ∧ ∃ f, dir'.torn log n = some f ∧ f.data = tail)

-- The bytes are in a torn file that was not there before.
def Kept (dir : Dir) (log : Log) (bytes : Bytes) (dir' : Dir) : Prop :=
  ∃ n f, dir.torn log n = none ∧ dir'.torn log n = some f ∧ f.data = bytes

-- A state in the middle of the repair of a log. The files of the other log are as they were.
structure Repairing (dir : Dir) (log : Log) (valid tail : Bytes) (dir' : Dir) : Prop where
  logs  : ∀ log' ≠ log, dir'.logs log' = dir.logs log'
  torn  : ∀ log' ≠ log, dir'.torn log' = dir.torn log'
  state : Recoverable dir log valid tail dir'

variable {dir dir' : Dir} {log : Log} {valid tail : Bytes}

theorem Repairing.refl (h : dir.readAll log = valid ++ tail) : Repairing dir log valid tail dir where
  logs _ _ := rfl
  torn _ _ := rfl
  state    := .inl ⟨rfl, h⟩

theorem readAll_openAppend {log' : Log} :
    (dir.apply (.openAppend log)).readAll log' = dir.readAll log' := by
  by_cases h : log' = log
  · subst h
    simp only [Dir.readAll, Dir.apply, Function.update_self]
    cases dir.logs log' <;> rfl
  · apply Dir.readAll_of_logs
    exact Function.update_of_ne h _ _

theorem Repairing.openAppend (h : dir.readAll log = valid ++ tail) :
    Repairing dir log valid tail (dir.apply (.openAppend log)) where
  logs _ h := Function.update_of_ne h _ _
  torn _ _ := rfl
  state    := .inl ⟨rfl, readAll_openAppend.trans h⟩

-- The tail is being copied.
theorem Repairing.copying {dir' : Dir} {t : Bytes} (h : dir.readAll log = valid ++ tail)
    (hn : dir.torn log n = none) (q : Dir.Quarantined (dir.apply (.openAppend log)) log n t dir') :
    Repairing dir log valid tail dir' where
  logs log' h   := by
    rw [q.logs]
    exact Function.update_of_ne h _ _
  torn log' hne := funext fun m => q.rest log' m (.inl hne)
  state         := by
    refine .inr ⟨n, hn, fun m hm => q.rest log m (.inr hm), .inl ?_⟩
    rw [Dir.readAll_of_logs (congrFun q.logs log), readAll_openAppend, h]

theorem readAll_setLen {dir : Dir} (h : dir.readAll log = valid ++ tail) :
    (dir.apply (.setLen log valid.length)).readAll log = valid := by
  unfold Dir.readAll at h ⊢
  simp only [Dir.apply, Function.update_self]
  cases hl : dir.logs log
  case none =>
    simp only [hl] at h
    exact (List.append_eq_nil_iff.mp h.symm).left.symm
  case some f =>
    simp only [hl] at h
    change f.data.take valid.length = valid
    rw [h, List.take_left]

theorem Repairing.copied {dir' : Dir} (h : dir.readAll log = valid ++ tail)
    (hn : dir.torn log n = none) (q : Dir.Quarantined (dir.apply (.openAppend log)) log n tail dir') :
    Repairing dir log valid tail (dir'.apply (.setLen log valid.length)) where
  logs log' h   := by
    simp only [Dir.apply, Function.update_of_ne h]
    rw [q.logs]
    exact Function.update_of_ne h _ _
  torn log' hne := funext fun m => q.rest log' m (.inl hne)
  state         := by
    have hr : dir'.readAll log = valid ++ tail := by
      rw [Dir.readAll_of_logs (congrFun q.logs log), readAll_openAppend, h]
    exact .inr ⟨n, hn, fun m hm => q.rest log m (.inr hm), .inr ⟨readAll_setLen hr, q.file⟩⟩

theorem toNat_ofNat_lt (h : n < 2 ^ 63) : (UInt64.ofNat n).toNat = n :=
  UInt64.toNat_ofNat_of_lt' (h.trans (by decide))

theorem lengths_lt (h : dir.readAll log = valid ++ tail) : valid.length < 2 ^ 63 ∧ tail.length < 2 ^ 63 := by
  have hl := @Dir.readAll_length_lt dir log
  rw [h, List.length_append] at hl
  omega

theorem torn_ne_zero (h : dir.readAll log = valid ++ tail) (ht : tail ≠ []) :
    UInt64.ofNat tail.length ≠ 0 := by
  intro he
  have hl := congrArg UInt64.toNat he
  rw [toNat_ofNat_lt (lengths_lt h).right] at hl
  exact ht (List.eq_nil_of_length_eq_zero hl)

-- What a repair does, if there is a name for the torn tail.
theorem repair_torn (h : dir.readAll log = valid ++ tail) (ht : tail ≠ [])
    (hn : firstFree (fun n => (dir.torn log n).isSome) TORN_NAMES 0 = some n) :
    repair dir log (.ofNat tail.length) (.ofNat valid.length) =
    (.openAppend log :: .createTorn log n :: (tail.map (.writeTorn log n) ++ [.setLen log valid.length]),
      .ok ()) := by
  rw [repair, if_neg (torn_ne_zero h ht), quarantineTail, readAll_openAppend, h,
    toNat_ofNat_lt (lengths_lt h).left, List.drop_left]
  simp only [Dir.apply, hn]
  rfl

theorem repair_full (h : dir.readAll log = valid ++ tail) (ht : tail ≠ [])
    (hn : firstFree (fun n => (dir.torn log n).isSome) TORN_NAMES 0 = none) :
    repair dir log (.ofNat tail.length) (.ofNat valid.length) =
    ([.openAppend log], .error (.io "too many torn-tail files")) := by
  rw [repair, if_neg (torn_ne_zero h ht), quarantineTail]
  simp only [Dir.apply, hn]

theorem quarantined_copy (h : dir.readAll log = valid ++ tail) {t : Bytes} (ht : t <+: tail) :
    Dir.Quarantined (dir.apply (.openAppend log)) log n t
      (dir.applyAll (.openAppend log :: .createTorn log n :: t.map (.writeTorn log n))) := by
  have hl := ht.length_le.trans_lt (lengths_lt h).right
  exact Dir.quarantined_create.writes t hl

-- A repair that stops anywhere leaves nothing behind that a later one could not go on with.
theorem repairing_of_isPrefix (h : dir.readAll log = valid ++ tail) {pre : List DirOp}
    (hp : pre <+: (repair dir log (.ofNat tail.length) (.ofNat valid.length)).1) :
    Repairing dir log valid tail (dir.applyAll pre) := by
  have hopen (hp : pre <+: [.openAppend log]) : Repairing dir log valid tail (dir.applyAll pre) := by
    cases List.prefix_cons_iff.mp hp
    case inl he => exact he ▸ .refl h
    case inr he =>
      obtain ⟨_, he, ht⟩ := he
      rw [he, List.prefix_nil.mp ht]
      exact .openAppend h
  by_cases ht : tail = []
  · subst ht
    exact hopen (by simpa [repair] using hp)
  cases hn : firstFree (fun n => (dir.torn log n).isSome) TORN_NAMES 0
  case none =>
    rw [repair_full h ht hn] at hp
    exact hopen hp
  case some n =>
    have hfree : dir.torn log n = none := by simpa using (firstFree_eq_some hn).left
    rw [repair_torn h ht hn] at hp
    cases List.prefix_cons_iff.mp hp
    case inl he => exact he ▸ .refl h
    case inr hp =>
      obtain ⟨p₁, he₁, hp₁⟩ := hp
      cases List.prefix_cons_iff.mp hp₁
      case inl he => exact he₁ ▸ he ▸ .openAppend h
      case inr hp =>
        obtain ⟨p₂, he₂, hp₂⟩ := hp
        rw [he₁, he₂]
        cases List.prefix_concat_iff.mp hp₂
        case inl he =>
          have hc := Repairing.copied h hfree (quarantined_copy h List.prefix_rfl)
          rw [he]
          simpa [Dir.applyAll] using hc
        case inr hp =>
          have hk := List.prefix_iff_eq_take.mp hp
          rw [← List.map_take] at hk
          rw [hk]
          exact .copying h hfree (quarantined_copy h (List.take_prefix _ _))

-- A repair that is completed has moved the tail to a new file.
theorem repair_ok (h : dir.readAll log = valid ++ tail)
    (hr : (repair dir log (.ofNat tail.length) (.ofNat valid.length)).2 = .ok ()) :
    (dir.applyAll (repair dir log (.ofNat tail.length) (.ofNat valid.length)).1).readAll log = valid ∧
    (tail ≠ [] →
      Kept dir log tail (dir.applyAll (repair dir log (.ofNat tail.length) (.ofNat valid.length)).1)) := by
  by_cases ht : tail = []
  · subst ht
    refine ⟨?_, fun h => absurd rfl h⟩
    rw [List.append_nil] at h
    exact readAll_openAppend.trans h
  cases hn : firstFree (fun n => (dir.torn log n).isSome) TORN_NAMES 0
  case none =>
    rw [repair_full h ht hn] at hr
    simp only [reduceCtorEq] at hr
  case some n =>
    have hfree : dir.torn log n = none := by simpa using (firstFree_eq_some hn).left
    have q := quarantined_copy (n := n) h List.prefix_rfl
    have ⟨f, hf, hd⟩ := q.file
    have hl : Dir.readAll _ log = valid ++ tail :=
      (Dir.readAll_of_logs (congrFun q.logs log)).trans (readAll_openAppend.trans h)
    rw [repair_torn h ht hn, ← List.cons_append, ← List.cons_append, Dir.applyAll_append]
    exact ⟨readAll_setLen hl, fun _ => ⟨n, f, hfree, hf, hd⟩⟩

theorem repair_ok_of_free (h : dir.readAll log = valid ++ tail)
    (hf : tail ≠ [] → ∃ k < TORN_NAMES, dir.torn log k = none) :
    (repair dir log (.ofNat tail.length) (.ofNat valid.length)).2 = .ok () := by
  by_cases ht : tail = []
  · subst ht
    rfl
  have ⟨k, hl, hk⟩ := hf ht
  have hs : (firstFree (fun n => (dir.torn log n).isSome) TORN_NAMES 0).isSome :=
    firstFree_isSome (by simp [hk]) (Nat.zero_le k) (by rwa [Nat.zero_add])
  have ⟨n, hn⟩ := Option.isSome_iff_exists.mp hs
  rw [repair_torn h ht hn]

theorem Recoverable.congr {dir₁ dir' dir₁' : Dir} (h : Recoverable dir log valid tail dir')
    (ht : dir.torn log = dir₁.torn log) (ht' : dir'.torn log = dir₁'.torn log)
    (hl : dir'.logs log = dir₁'.logs log) : Recoverable dir₁ log valid tail dir₁' := by
  unfold Recoverable at h ⊢
  rwa [ht, ht', Dir.readAll_of_logs hl] at h

-- Both logs of a directory, as the whole frames and the torn tail that a replay finds in them.
structure Split (dir : Dir) (valid tail : Log → Bytes) (r : Replayed) : Prop where
  content    : ∀ log, dir.readAll log = valid log ++ tail log
  torn       : r.torn = .ofNat (tail .events).length
  validLen   : r.validLen = .ofNat (valid .events).length
  cpTorn     : r.cpTorn = .ofNat (tail .checkpoints).length
  cpValidLen : r.cpValidLen = .ofNat (valid .checkpoints).length

namespace Split

abbrev repairLog (dir : Dir) (valid tail : Log → Bytes) (log : Log) : List DirOp × Except LedgerError Unit :=
  repair dir log (.ofNat (tail log).length) (.ofNat (valid log).length)

variable {valid tail : Log → Bytes} {r : Replayed} {pre : List DirOp}

theorem repairs_error (s : Split dir valid tail r) (h : (repairLog dir valid tail .events).2 = .error e) :
    repairs dir r = ((repairLog dir valid tail .events).1, .error e) := by
  rw [repairs, s.torn, s.validLen]
  split
  case h_1 he =>
    cases h.symm.trans (congrArg Prod.snd he)
    exact congrArg (·, _) (congrArg Prod.fst he).symm
  case h_2 he => cases h.symm.trans (congrArg Prod.snd he)

theorem repairs_ok (s : Split dir valid tail r) (h : (repairLog dir valid tail .events).2 = .ok ()) :
    let dir₁ := dir.applyAll (repairLog dir valid tail .events).1
    repairs dir r = ((repairLog dir valid tail .events).1 ++ (repairLog dir₁ valid tail .checkpoints).1,
      (repairLog dir₁ valid tail .checkpoints).2) := by
  intro
  rw [repairs, s.torn, s.validLen]
  split
  case h_1 he => cases h.symm.trans (congrArg Prod.snd he)
  case h_2 ops he =>
    have ho : ops = (repairLog dir valid tail .events).1 := (congrArg Prod.fst he).symm
    rw [s.cpTorn, s.cpValidLen, ho]

-- The repair of the events does not touch the checkpoints.
theorem checkpoints_content (s : Split dir valid tail r)
    (hr : Repairing dir .events (valid .events) (tail .events) dir') :
    dir'.readAll .checkpoints = valid .checkpoints ++ tail .checkpoints := by
  rw [← s.content .checkpoints]
  exact Dir.readAll_of_logs (hr.logs .checkpoints (by decide))

theorem recoverable_events (s : Split dir valid tail r)
    (hr : Repairing dir .events (valid .events) (tail .events) dir') (log : Log) :
    Recoverable dir log (valid log) (tail log) dir' := by
  cases log
  case events => exact hr.state
  case checkpoints => exact .inl ⟨hr.torn .checkpoints (by decide), s.checkpoints_content hr⟩

theorem recoverable_checkpoints {dir₁ : Dir} (hr : Repairing dir .events (valid .events) (tail .events) dir₁)
    (hr' : Repairing dir₁ .checkpoints (valid .checkpoints) (tail .checkpoints) dir') (log : Log) :
    Recoverable dir log (valid log) (tail log) dir' := by
  cases log
  case events =>
    have hne : Log.events ≠ .checkpoints := by decide
    exact hr.state.congr rfl (hr'.torn _ hne).symm (hr'.logs _ hne).symm
  case checkpoints => exact hr'.state.congr (hr.torn .checkpoints (by decide)) rfl rfl

-- The repair stops while it is at the events, or after it has come to the checkpoints.
theorem prefix_cases (s : Split dir valid tail r) (hp : pre <+: (repairs dir r).1) :
    pre <+: (repairLog dir valid tail .events).1 ∨
    (repairLog dir valid tail .events).2 = .ok () ∧
      ∃ dir₁ pre', dir₁ = dir.applyAll (repairLog dir valid tail .events).1 ∧
        dir.applyAll pre = dir₁.applyAll pre' ∧ pre' <+: (repairLog dir₁ valid tail .checkpoints).1 := by
  cases he : (repairLog dir valid tail .events).2
  case error =>
    rw [s.repairs_error he] at hp
    exact .inl hp
  case ok =>
    have ⟨t, hp⟩ := hp
    rw [s.repairs_ok he] at hp
    cases List.append_eq_append_iff.mp hp
    case inl h =>
      have ⟨rest, h, _⟩ := h
      exact .inl ⟨rest, h.symm⟩
    case inr h =>
      have ⟨pre', h, h'⟩ := h
      exact .inr ⟨rfl, _, pre', rfl, h ▸ Dir.applyAll_append, t, h'.symm⟩

-- Wherever the repair of both logs stops, either of them can be recovered.
theorem recoverable (s : Split dir valid tail r) (hp : pre <+: (repairs dir r).1) (log : Log) :
    Recoverable dir log (valid log) (tail log) (dir.applyAll pre) := by
  cases s.prefix_cases hp
  case inl hp => exact s.recoverable_events (repairing_of_isPrefix (s.content .events) hp) log
  case inr h =>
    obtain ⟨_, _, pre', rfl, h, hp⟩ := h
    have hr := repairing_of_isPrefix (s.content .events) (List.prefix_refl (repairLog dir valid tail .events).1)
    rw [h]
    exact recoverable_checkpoints hr (repairing_of_isPrefix (s.checkpoints_content hr) hp) log

-- There is a name for every tail, so that the repair of both logs is completed.
theorem completed (s : Split dir valid tail r)
    (hf : ∀ log, tail log ≠ [] → ∃ k < TORN_NAMES, dir.torn log k = none) :
    (repairs dir r).2 = .ok () := by
  have he : (repairLog dir valid tail .events).2 = .ok () :=
    repair_ok_of_free (s.content .events) (hf .events)
  have hr := repairing_of_isPrefix (s.content .events) (List.prefix_refl (repairLog dir valid tail .events).1)
  rw [s.repairs_ok he]
  apply repair_ok_of_free (s.checkpoints_content hr)
  rw [hr.torn .checkpoints (by decide)]
  exact hf .checkpoints

-- After the repair each log consists of its whole frames, and its tail is in a new file.
theorem repaired (s : Split dir valid tail r) (hk : (repairs dir r).2 = .ok ()) (log : Log) :
    (dir.applyAll (repairs dir r).1).readAll log = valid log ∧
    (tail log ≠ [] → Kept dir log (tail log) (dir.applyAll (repairs dir r).1)) := by
  cases he : (repairLog dir valid tail .events).2
  case error e =>
    rw [s.repairs_error he] at hk
    simp only [reduceCtorEq] at hk
  case ok =>
    have hr := repairing_of_isPrefix (s.content .events) (List.prefix_refl (repairLog dir valid tail .events).1)
    have hc := s.checkpoints_content hr
    have hr' := repairing_of_isPrefix hc List.prefix_rfl
    rw [s.repairs_ok he] at hk ⊢
    rw [Dir.applyAll_append]
    cases log
    case events =>
      have hne : Log.events ≠ .checkpoints := by decide
      rw [Dir.readAll_of_logs (hr'.logs _ hne), Kept, hr'.torn _ hne]
      exact repair_ok (s.content .events) he
    case checkpoints =>
      rw [Kept, ← hr.torn .checkpoints (by decide)]
      exact repair_ok hc hk

end Split

end Ledger
