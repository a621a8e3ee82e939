import JlrModel.Gate.Theorems.Cache

namespace Gate

variable {args : Args} {start s s' : System} {l : Label} {ls : List Label} {file key : String} {files : List String}

namespace Tallies

variable {ts ts' : Tallies} {e : String × Tally} {f : Tally → Tally}

-- What is counted for a file.
def count (file : String) (ts : Tallies) : Nat :=
  (ts.map fun e => if e.1 = file then e.2.total else 0).sum

def keys (ts : Tallies) : List String :=
  ts.map Prod.fst

theorem count_cons : count file (e :: ts) = (if e.1 = file then e.2.total else 0) + count file ts := by
  simp [count]

theorem keys_cons : keys (e :: ts) = e.1 :: ts.keys :=
  rfl

theorem count_eq_zero (h : file ∉ ts.keys) : count file ts = 0 := by
  induction ts
  case nil => rfl
  case cons e ts ih =>
    rw [keys_cons, List.mem_cons, not_or] at h
    rw [count_cons, if_neg (Ne.symm h.left), ih h.right]

-- A file has one tally.
theorem count_of_mem (hn : ts.keys.Nodup) (he : e ∈ ts) : count e.1 ts = e.2.total := by
  induction ts
  case nil => exact absurd he List.not_mem_nil
  case cons e' ts ih =>
    rw [keys_cons, List.nodup_cons] at hn
    have ⟨hk, hn⟩ := hn
    rw [count_cons]
    cases List.mem_cons.mp he
    case inl he =>
      subst he
      rw [if_pos rfl, count_eq_zero hk, Nat.add_zero]
    case inr he =>
      have hne : e'.1 ≠ e.1 := fun h => hk (h ▸ List.mem_map_of_mem he)
      rw [if_neg hne, Nat.zero_add, ih hn he]

theorem count_reset : count file (reset ts) = 0 := by
  induction ts
  case nil => rfl
  case cons e ts ih =>
    have hz : e.2.reset.total = 0 := rfl
    rw [reset, List.map_cons, count_cons]
    simp only [hz, ite_self, Nat.zero_add]
    exact ih

theorem keys_reset : keys (reset ts) = ts.keys := by
  simp [keys, reset]

theorem count_upsert (n : Nat) (hf : ∀ t, (f t).total = t.total + n) :
    count file (upsert key f ts) = count file ts + if key = file then n else 0 := by
  induction ts
  case nil =>
    have hz : Tally.new.total = 0 := rfl
    simp [upsert, count, hf, hz]
  case cons e ts ih =>
    have ⟨k, t⟩ := e
    rw [upsert]
    split
    case isTrue hk =>
      subst hk
      rw [count_cons, count_cons]
      dsimp only
      rw [hf]
      split <;> omega
    case isFalse =>
      rw [count_cons, count_cons, ih]
      omega

theorem keys_upsert : keys (upsert key f ts) = if key ∈ ts.keys then ts.keys else ts.keys ++ [key] := by
  induction ts
  case nil => rfl
  case cons e ts ih =>
    have ⟨k, t⟩ := e
    rw [upsert]
    split
    case isTrue hk =>
      subst hk
      rw [keys_cons, keys_cons, if_pos List.mem_cons_self]
    case isFalse hk =>
      rw [keys_cons, keys_cons, ih]
      have hk : key ∈ k :: keys ts ↔ key ∈ keys ts := by simp [Ne.symm hk]
      simp only [hk]
      split <;> rfl

-- A tally per file, and no more of them than there are files.
structure Proper (files : List String) (ts : Tallies) : Prop where
  nodup  : ts.keys.Nodup
  subset : ts.keys ⊆ files

theorem Proper.length_le (h : Proper files ts) : ts.length ≤ files.length := by
  have hl := (List.subperm_of_subset h.nodup h.subset).length_le
  rwa [keys, List.length_map] at hl

theorem Proper.upsert (h : Proper files ts) (hk : key ∈ files) : Proper files (upsert key f ts) := by
  constructor
  case nodup =>
    rw [keys_upsert]
    split
    case isTrue => exact h.nodup
    case isFalse hm =>
      rw [← List.concat_eq_append]
      exact (List.nodup_concat _ _).mpr ⟨hm, h.nodup⟩
  case subset =>
    rw [keys_upsert]
    split
    case isTrue => exact h.subset
    case isFalse => exact List.append_subset.mpr ⟨h.subset, by simpa using hk⟩

theorem Proper.reset (h : Proper files ts) : Proper files (reset ts) where
  nodup  := by
    rw [keys_reset]
    exact h.nodup
  subset := by
    rw [keys_reset]
    exact h.subset

theorem mem_repeated : e ∈ ts.repeated ↔ e ∈ ts ∧ 0 < e.2.total := by
  rw [repeated, List.mem_insertionSort, List.mem_filter, decide_eq_true_iff]

theorem mem_of_mem_single (h : e ∈ ts.single) : e ∈ ts :=
  (mem_repeated.mp (List.mem_of_mem_take h)).left

theorem nodup_single (h : ts.keys.Nodup) : ts.single.keys.Nodup := by
  have hfilter : (ts.filter (0 < ·.2.total)).map Prod.fst |>.Nodup := h.sublist (List.filter_sublist.map _)
  have hsort : ts.repeated.keys.Nodup := ((List.perm_insertionSort _ _).map Prod.fst).nodup_iff.mpr hfilter
  exact hsort.sublist ((List.take_sublist _ _).map _)

-- The line of a file says all that was counted for it.
theorem count_single (h : ts.keys.Nodup) (hf : count file ts = 0 ∨ file ∈ ts.single.keys) :
    count file ts.single = count file ts := by
  by_cases hs : file ∈ ts.single.keys
  case pos =>
    have ⟨e, he, hk⟩ := List.mem_map.mp hs
    rw [← hk, count_of_mem (nodup_single h) he, count_of_mem h (mem_of_mem_single he)]
  case neg => rw [count_eq_zero hs, hf.resolve_right hs]

end Tallies

theorem Tally.total_note (shown : String) (allowed allow : Bool) (t : Tally) :
    (t.note shown allowed allow).total = t.total + if allowed then 0 else 1 := by
  cases allowed <;> cases allow <;> simp [Tally.note, Tally.total] <;> omega

-- The counts for a file that were recorded.
def Label.recorded (file : String) : Label → Nat
  | .summary .recorded tally _ => tally.single.count file
  | _                          => 0

-- Whether an execution of a file was answered because of a verdict that does not allow it.
def Label.refuses (file : String) : Label → Bool
  | .answered _ (.verdict v f) _ _ => f = file ∧ ¬ v.allowed
  | .answered _ (.hit c) _ _       => c.origin.file = file ∧ ¬ c.origin.verdict.allowed
  | _                              => false

-- Every file is one of these. Every summary is recorded, and has a line for the file if anything was counted for it.
-- The verdict that is remembered for the file allows it.
def Label.Accounts (files : List String) (file : String) : Label → Prop
  | .answered _ (.verdict _ f) _ _ => f ∈ files
  | .answered _ (.hit c) _ _       => c.origin.file = file → c.origin.verdict.allowed
  | .summary outcome tally _       => outcome = .recorded ∧ (tally.count file = 0 ∨ file ∈ tally.single.keys)
  | _                              => True

-- What one step adds to the counts, it adds to the executions.
theorem Step.conserves (h : Step args s l s') (hl : l.Accounts files file) (hf : files.length ≤ TALLY_LIMIT)
    (ht : s.locals.tally.Proper files) :
    s'.locals.tally.Proper files ∧ l.recorded file + s'.locals.tally.count file =
      s.locals.tally.count file + if l.refuses file then 1 else 0 := by
  cases h
  case decide v _ _ _ =>
    have hlen : ¬ TALLY_LIMIT < s.locals.tally.length := Nat.not_lt.mpr (ht.length_le.trans hf)
    refine ⟨?_, ?_⟩
    · show Tallies.Proper files (Tallies.note _ _ _ _)
      rw [Tallies.note, if_neg hlen]
      exact ht.upsert hl
    · show 0 + Tallies.count file (Tallies.note _ _ _ _) = _
      rw [Tallies.note, if_neg hlen, Tallies.count_upsert _ (Tally.total_note _ _ _), Label.refuses, Nat.zero_add]
      cases v.allowed <;> simp
  case flush outcome _ _ _ =>
    have ⟨ho, hs⟩ := hl
    subst ho
    refine ⟨ht.reset, ?_⟩
    show Tallies.count file s.locals.tally.single + Tallies.count file (Tallies.reset _) = _
    rw [Tallies.count_reset, Tallies.count_single ht.nodup hs]
    rfl
  case stop outcome _ =>
    have ⟨ho, hs⟩ := hl
    subst ho
    refine ⟨⟨List.nodup_nil, List.nil_subset _⟩, ?_⟩
    show Tallies.count file s.locals.tally.single + 0 = _
    rw [Tallies.count_single ht.nodup hs]
    rfl
  case hit =>
    refine ⟨ht, ?_⟩
    split
    case isTrue h =>
      have ⟨hfile, hallowed⟩ := of_decide_eq_true h
      exact absurd (hl hfile) hallowed
    case isFalse => exact Nat.zero_add _
  all_goals exact ⟨ht, by simp [Label.recorded, Label.refuses, System.to]⟩

-- What was recorded for a file and what is still held add up to its executions.
theorem counts_conserved (args : Args) (clock : Clock) (enforceHint : Bool) (ls : List Label) (s : System)
    (h : Runs args (.start clock enforceHint) ls s) (files : List String) (hf : files.length ≤ TALLY_LIMIT)
    (file : String) (hl : ∀ l ∈ ls, l.Accounts files file) :
    (ls.map (Label.recorded file)).sum + s.locals.tally.count file = ls.countP (Label.refuses file) := by
  suffices hs : s.locals.tally.Proper files ∧
      (ls.map (Label.recorded file)).sum + s.locals.tally.count file = ls.countP (Label.refuses file) from hs.right
  induction h
  case start => exact ⟨⟨List.nodup_nil, List.nil_subset _⟩, rfl⟩
  case step ls s l s' _ hstep ih =>
    have ⟨ht, hc⟩ := ih fun l hm => hl l (List.mem_append_left _ hm)
    have ⟨ht', hc'⟩ := hstep.conserves (hl l (List.mem_append_right _ List.mem_cons_self)) hf ht
    refine ⟨ht', ?_⟩
    rw [List.map_append, List.sum_append, List.countP_append, List.countP_singleton]
    simp only [List.map_cons, List.map_nil, List.sum_cons, List.sum_nil]
    omega

end Gate

-- Programs that can not be measured, and are denied.
namespace Gate.Denied

def args : Args where
  forceAudit := false
  failClosed := false

def decision : Decision where
  state        := .quarantined
  cell         := .cell0
  network      := .none
  capabilities := []
  reasons      := [.evidenceMissing]
  basis        := .none
  needsUser    := none
  policy       := ⟨Bytes.fixed 32 0⟩

def verdict : ExecVerdict where
  id           := none
  unmeasurable := some "file is larger than the measurement limit"
  decision     := decision
  allowed      := false
  enforce      := true
  maxAgeSecs   := 60

def info (i : Nat) : FileMeta where
  dev       := 1
  ino       := .ofNat i
  len       := 8192
  mtime     := 1700000000
  mtimeNsec := 0
  ctime     := 1700000000
  ctimeNsec := 0

def program (i : Nat) : Execution where
  self   := false
  cloned := true
  info   := some (info i)
  path   := some ("/opt/" ++ String.singleton (Char.ofNat (97 + i)))
  uid    := 1000

def file (i : Nat) : String :=
  Tally.key verdict (program i).shown

theorem before_lt : 1800000000 * 10 ^ 9 < 2 ^ 63 * 10 ^ 9 := by
  decide

def before : Clock where
  mono    := 0
  wall    := 1800000000 * 10 ^ 9
  wall_lt := before_lt

def after : Clock where
  mono    := 31 * 10 ^ 9
  wall    := 1800000031 * 10 ^ 9
  wall_lt := by decide

def tallied (is : List Nat) (ts : Tallies) : Tallies :=
  is.foldl (fun ts i => ts.note verdict (program i).shown false) ts

def labels (clock : Clock) (is : List Nat) : List Label :=
  is.flatMap fun i => [.silent, .silent, .answered (program i) (.verdict verdict (file i)) false clock]

def batch (is : List Nat) : List (Option Execution) :=
  is.map fun i => some (program i)

theorem key_ne {i j : Nat} (hi : i < 2 ^ 64) (hj : j < 2 ^ 64) (h : i ≠ j) : (info i).key ≠ (info j).key := by
  intro he
  have he : UInt64.ofNat i = UInt64.ofNat j := (Prod.mk.inj he).right
  have he := congrArg UInt64.toNat he
  rw [UInt64.toNat_ofNat_of_lt' hi, UInt64.toNat_ofNat_of_lt' hj] at he
  exact h he

theorem get_insert_ne {cache : Cache} {c : Cached} {key key' : FileKey} (h : key ≠ key')
    (hc : cache.get key = none) : (cache.insert key' c).get key = none := by
  unfold Cache.get at hc ⊢
  rw [Cache.insert, List.lookup_cons, beq_false_of_ne h]
  rw [List.lookup_eq_none_iff] at hc ⊢
  exact fun e he => hc e (List.mem_filter.mp he).left

-- One program after the other is denied.
theorem runs_batch {start s : System} {ls : List Label} (is : List Nat) (hn : is.Nodup) (hb : ∀ i ∈ is, i < 2 ^ 64)
    (h : Runs args start ls s) (hp : s.phase = .answering 1 (batch is))
    (hc : ∀ i ∈ is, s.locals.cache.get (info i).key = none) :
    ∃ s', Runs args start (ls ++ labels s.clock is) s' ∧ s'.phase = .answering 1 [] ∧ s'.clock = s.clock ∧
      s'.locals.lastFlush = s.locals.lastFlush ∧ s'.locals.tally = tallied is s.locals.tally := by
  induction is generalizing s ls
  case nil => exact ⟨s, by simpa [labels] using h, hp, rfl, rfl, rfl⟩
  case cons i is ih =>
    obtain ⟨hi, hn⟩ := List.nodup_cons.mp hn
    have hhit : s.hit 1 (info i) = none := by
      rw [System.hit, hc i List.mem_cons_self]
      rfl
    have h := (h.step (.miss hp Bool.false_ne_true rfl rfl hhit)).step (.open rfl) |>.step
      (.decide verdict rfl (Clock.Le.refl s.clock))
    obtain ⟨s', h, hp', hclock, hflush, htally⟩ := ih hn (fun j hj => hb j (List.mem_cons_of_mem _ hj)) h rfl fun j hj =>
      get_insert_ne (key_ne (hb j (List.mem_cons_of_mem _ hj)) (hb i List.mem_cons_self) fun he => hi (he ▸ hj))
        (hc j (List.mem_cons_of_mem _ hj))
    refine ⟨s', ?_, hp', hclock, hflush, htally⟩
    have hd : decided args verdict = false := rfl
    simpa [labels, file, hd] using h

-- What is seen when all of them are denied in one batch, and a summary is written half a minute later.
def seen (is : List Nat) (lines : List String) : List Label :=
  [.silent, .silent, .silent, .fetched (batch is)] ++ labels before is ++
    [.silent, .silent, .summary .recorded (tallied is []) lines]

theorem mem_seen {is : List Nat} {lines : List String} {l : Label} (h : l ∈ seen is lines) :
    l = .silent ∨ l = .fetched (batch is) ∨
      (∃ i ∈ is, l = .answered (program i) (.verdict verdict (file i)) false before) ∨
      l = .summary .recorded (tallied is []) lines := by
  simp only [seen, labels, List.mem_append, List.mem_flatMap, List.mem_cons, List.not_mem_nil, or_false] at h
  grind

theorem recorded_seen {is : List Nat} {lines : List String} {f : String} :
    ((seen is lines).map (Label.recorded f)).sum = (tallied is []).single.count f := by
  have hl : ((labels before is).map (Label.recorded f)).sum = 0 := by
    induction is
    case nil => rfl
    case cons i is ih =>
      rw [labels, List.flatMap_cons, List.map_append, List.sum_append]
      exact (Nat.zero_add _).trans ih
  rw [seen, List.map_append, List.map_append, List.sum_append, List.sum_append, hl]
  simp [Label.recorded]

theorem runs_summary (is : List Nat) (hn : is.Nodup) (hb : ∀ i ∈ is, i < 2 ^ 64) (ht : tallied is [] ≠ []) :
    ∃ lines s, Runs args (.start before true) (seen is lines) s ∧ s.locals.tally = (tallied is []).reset := by
  have h₀ : Runs args (.start before true) [] (.start before true) := .start
  have h := h₀.step (.poll false true rfl) |>.step (.load rfl) |>.step (.keep rfl (by decide))
    |>.step (.fetch (batch is) rfl)
  have ⟨s, h, hp, hclock, hflush, htally⟩ := runs_batch is hn hb h rfl fun _ _ => rfl
  have h : Runs args (.start before true) ([.silent, .silent, .silent, .fetched (batch is)] ++ labels before is) s := h
  have htally : s.locals.tally = tallied is [] := htally
  have hflush : s.locals.lastFlush = 0 := hflush
  have hclock : s.clock = before := hclock
  have hle : s.clock ≤ after := by
    rw [hclock]
    exact ⟨Nat.zero_le _, by decide⟩
  have hdue : s.locals.lastFlush + 30 * 10 ^ 9 < after.mono := by
    rw [hflush]
    decide
  have h := (h.step (.answered hp)).step (.tick after hle) |>.step (.flush .recorded rfl hdue (.inl (htally ▸ ht)))
  have hseen : [.silent, .silent, .silent, .fetched (batch is)] ++ labels before is ++ [.silent] ++ [.silent] ++
      [.summary .recorded s.locals.tally s.locals.summary] = seen is s.locals.summary := by
    rw [htally, List.append_assoc, List.append_assoc]
    rfl
  exact ⟨s.locals.summary, _, hseen ▸ h, congrArg Tallies.reset htally⟩

-- One program is denied, and its summary says so.
theorem counts_conserved_denied : ∃ lines s, Runs args (.start before true) (seen [0] lines) s ∧
    ((seen [0] lines).map (Label.recorded (file 0))).sum + s.locals.tally.count (file 0) = 1 := by
  have ⟨lines, s, h, _⟩ := runs_summary [0] (by decide) (by decide) (by decide +kernel)
  refine ⟨lines, s, h, ?_⟩
  have hsingle : file 0 ∈ (tallied [0] []).single.keys := by decide +kernel
  have hl : ∀ l ∈ seen [0] lines, l.Accounts [file 0] (file 0) := by
    intro l hm
    rcases mem_seen hm with rfl | rfl | ⟨i, hi, rfl⟩ | rfl
    · trivial
    · trivial
    · exact List.mem_singleton.mp hi ▸ List.mem_cons_self
    · exact ⟨rfl, .inr hsingle⟩
  have hone : (seen [0] lines).countP (Label.refuses (file 0)) = 1 := by
    simp [seen, labels, Label.refuses, verdict]
  exact (counts_conserved args before true _ s h [file 0] (by decide) (file 0) hl).trans hone

-- One program too many is denied: there is no line for the last of them.
theorem summary_folded : ((List.range 21).map file).length ≤ TALLY_LIMIT ∧ ∃ lines s,
    Runs args (.start before true) (seen (List.range 21) lines) s ∧
    (∀ l ∈ seen (List.range 21) lines, l = .silent ∨ l = .fetched (batch (List.range 21)) ∨
      (∃ i ∈ List.range 21, l = .answered (program i) (.verdict verdict (file i)) false before) ∨
      l = .summary .recorded (tallied (List.range 21) []) lines) ∧
    ((seen (List.range 21) lines).map (Label.recorded (file 20))).sum + s.locals.tally.count (file 20) ≠
      (seen (List.range 21) lines).countP (Label.refuses (file 20)) := by
  have ⟨lines, s, h, htally⟩ := runs_summary (List.range 21) (by decide) (by decide) (by decide +kernel)
  refine ⟨by decide, lines, s, h, fun l => mem_seen, ?_⟩
  have hrecorded : (tallied (List.range 21) []).single.count (file 20) = 0 := by decide +kernel
  have hmem : .answered (program 20) (.verdict verdict (file 20)) false before ∈ seen (List.range 21) lines := by
    refine List.mem_append_left _ (List.mem_append_right _ (List.mem_flatMap.mpr ⟨20, by decide, ?_⟩))
    simp
  have hone : 0 < (seen (List.range 21) lines).countP (Label.refuses (file 20)) :=
    List.countP_pos_iff.mpr ⟨_, hmem, by simp [Label.refuses, verdict]⟩
  rw [recorded_seen, hrecorded, htally, Tallies.count_reset]
  exact Nat.ne_of_lt hone

end Gate.Denied
