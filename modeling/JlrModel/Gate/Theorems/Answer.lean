import JlrModel.Gate.Theorems.Tally

namespace Gate

-- Two executions of one file, which has not changed in between as far as its stamp tells.
def Execution.SameFile (x x' : Execution) : Prop :=
  ∃ info info', x.info = some info ∧ x'.info = some info' ∧ info'.key = info.key ∧ info'.stamp = info.stamp

-- The answer that a ground gives. Without a verdict it depends on the mode of the policy.
def Ground.answer (args : Args) (enforcing : Bool) : Ground → Bool
  | .own                => true
  | .unreadable         => ! args.failClosed
  | .hit c              => decided args c.origin.verdict
  | .throttled (some c) => decided args c.origin.verdict
  | .throttled none     => ! enforcing
  | .verdict v _        => decided args v
  | .failed             => ! args.failClosed

-- What is seen of the verdict that an entry was made for.
def Answered (ls : List Label) (e : FileKey × Cached) : Prop :=
  ∃ x info t, x.info = some info ∧ info.key = e.1 ∧ info.stamp = e.2.entry.stamp ∧
    .answered x (.verdict e.2.origin.verdict e.2.origin.file) e.2.entry.allow t ∈ ls

-- The file that is measured is the one that is executed.
def Phase.Asks : Phase → Prop
  | .deciding _ x info _ => x.info = some info
  | .opened _ x info _ _ => x.info = some info
  | _                    => True

structure Grounded (args : Args) (ls : List Label) (s : System) : Prop where
  hint     : s.locals.enforceHint → args.forceAudit = false
  asks     : s.phase.Asks
  decided  : ∀ e ∈ s.locals.cache, e.2.entry.allow = decided args e.2.origin.verdict
  answered : ∀ e ∈ s.locals.cache, Answered ls e

-- The executions that the loop has taken and has not answered yet, in their order.
def Phase.held : Phase → List Execution
  | .answering _ batch    => batch.filterMap id
  | .deciding _ x _ batch => x :: batch.filterMap id
  | .opened _ x _ batch _ => x :: batch.filterMap id
  | _                     => []

def Label.takes : Label → List Execution
  | .fetched batch => batch.filterMap id
  | _              => []

def Label.answers : Label → List Execution
  | .answered x _ _ _ => [x]
  | _                 => []

def Phase.fetches : Phase → Bool
  | .fetching _ => true
  | _           => false

-- What the loop keeps. While a batch is worked on, there is still room for an entry for each of its executions.
structure Bounded (limit : Nat) (s : System) : Prop where
  cache     : s.locals.cache.length + s.phase.held.length ≤ CACHE_LIMIT + limit
  fetching  : s.phase.fetches → s.locals.cache.length ≤ CACHE_LIMIT
  tally     : s.locals.tally.length ≤ TALLY_LIMIT + 1
  throttled : s.locals.throttled.length ≤ 4096
  pending   : s.locals.pending.length ≤ 256

variable {args : Args} {start s s' : System} {l : Label} {ls : List Label} {c : Cached} {e : FileKey × Cached}
  {x : Execution} {ground : Ground} {allow : Bool} {now : Clock}

theorem Step.audits (h : Step args s l s') (hs : s.locals.enforceHint → args.forceAudit = false) :
    s'.locals.enforceHint → args.forceAudit = false := by
  cases h
  case hint => exact fun hh => Bool.not_eq_true' _ ▸ (Bool.and_eq_true_iff.mp hh).right
  case decide => exact fun hh => Bool.not_eq_true' _ ▸ (Bool.and_eq_true_iff.mp hh).right
  case flush outcome _ _ _ => cases outcome <;> exact hs
  all_goals exact hs

theorem Step.asks (h : Step args s l s') (hs : s.phase.Asks) : s'.phase.Asks := by
  cases h
  case tick | place | notify | rescan => exact hs
  case miss hi _ _ => exact hi
  case «open» hp =>
    rw [hp] at hs
    exact hs
  case poll changed _ _ => cases changed <;> trivial
  case clear ready _ _ => cases ready <;> trivial
  case keep ready _ _ => cases ready <;> trivial
  all_goals trivial

-- An entry is made along with the answer of its verdict.
theorem Step.mem_cache_answered (h : Step args s l s') (hs : s.phase.Asks) (he : e ∈ s'.locals.cache) :
    e ∈ s.locals.cache ∨ e.2.entry.allow = Gate.decided args e.2.origin.verdict ∧ Answered [l] e := by
  obtain he | ⟨_, x, info, _, _, clock, v, hp, _, _, rfl, rfl⟩ := h.mem_cache he
  · exact .inl he
  · rw [hp] at hs
    exact .inr ⟨rfl, x, info, clock, hs, rfl, rfl, List.mem_singleton_self _⟩

theorem Answered.append (h : Answered ls e) : Answered (ls ++ [l]) e := by
  obtain ⟨x, info, t, hi, hk, hs, hm⟩ := h
  exact ⟨x, info, t, hi, hk, hs, List.mem_append_left _ hm⟩

theorem Step.grounded (h : Step args s l s') (hs : Grounded args ls s) : Grounded args (ls ++ [l]) s' where
  hint         := h.audits hs.hint
  asks         := h.asks hs.asks
  decided e he := by
    obtain he | ⟨hd, _⟩ := h.mem_cache_answered hs.asks he
    · exact hs.decided e he
    · exact hd
  answered e he := by
    obtain he | ⟨_, x, info, t, hi, hk, hst, hm⟩ := h.mem_cache_answered hs.asks he
    · exact (hs.answered e he).append
    · exact ⟨x, info, t, hi, hk, hst, List.mem_append_right _ hm⟩

theorem Runs.grounded {clock : Clock} {enforceHint : Bool} (hs : enforceHint → args.forceAudit = false)
    (h : Runs args (.start clock enforceHint) ls s) : Grounded args ls s := by
  induction h
  case start => exact ⟨hs, trivial, fun _ he => absurd he List.not_mem_nil, fun _ he => absurd he List.not_mem_nil⟩
  case step hstep ih => exact hstep.grounded ih

theorem Step.answer (h : Step args s (.answered x ground allow now) s') (hs : Grounded args ls s) :
    allow = ground.answer args s.locals.enforceHint := by
  cases h
  case own => rfl
  case unreadable => rfl
  case hit hh _ _ _ _ => exact hs.decided _ (Cache.mem_of_get (Option.filter_eq_some_iff.mp hh).left)
  case throttle info g _ _ _ _ _ _ _ =>
    cases hk : s.known g info
    case none =>
      have hnone : ((s.locals.cache.get info.key).map Cached.entry).any
          (·.knownGood info.stamp g s.clock.wallSecs) = false := by
        rw [System.known, Option.filter_eq_none_iff] at hk
        cases hg : s.locals.cache.get info.key
        case none => rfl
        case some c => exact Bool.eq_false_iff.mpr (hk c hg)
      rw [throttledAnswer, hnone]
      rfl
    case some c =>
      obtain ⟨hg, hgood⟩ := Option.filter_eq_some_iff.mp hk
      obtain ⟨_, _, hallow, _⟩ := of_decide_eq_true hgood
      rw [throttledAnswer, hg, Option.map_some, Option.any_some, hgood, Bool.true_or, Ground.answer,
        ← hs.decided _ (Cache.mem_of_get hg)]
      exact hallow.symm
  case decide => rfl
  case fail => rfl

-- An answer from the cache was given before, with a verdict on the same file.
theorem Step.repeats (h : Step args s (.answered x ground allow now) s') (hs : Grounded args ls s)
    (hc : ground.Serves c) :
    ∃ x' t, x.SameFile x' ∧ .answered x' (.verdict c.origin.verdict c.origin.file) allow t ∈ ls := by
  obtain ⟨_, _, info, _, hi, _, hm, hst, _⟩ := h.serves hc
  obtain ⟨x', info', t, hi', hk, hst', hl⟩ := hs.answered _ hm
  have hanswer : allow = c.entry.allow := by
    rw [h.answer hs, hs.decided _ hm]
    cases ground <;> cases hc <;> rfl
  rw [hanswer]
  exact ⟨x', t, ⟨info, info', hi, hi', hk, hst'.trans hst⟩, hl⟩

-- What a strict gate lets through.
theorem Step.cleared (h : Step args s (.answered x ground true now) s') (hs : Grounded args ls s)
    (hf : args.failClosed) (he : s.locals.enforceHint) (hx : ¬ x.self) :
    ∃ x' v file t, x.SameFile x' ∧ decided args v ∧
      .answered x' (.verdict v file) true t ∈ ls ++ [.answered x ground true now] := by
  have ha := h.answer hs
  have served {c : Cached} (hc : ground.Serves c) (hd : true = decided args c.origin.verdict) :
      ∃ x' v file t, x.SameFile x' ∧ decided args v ∧
        .answered x' (.verdict v file) true t ∈ ls ++ [.answered x ground true now] := by
    obtain ⟨x', t, hsame, hm⟩ := h.repeats hs hc
    exact ⟨x', _, _, t, hsame, hd.symm, List.mem_append_left _ hm⟩
  cases ground
  case own =>
    cases h
    case own hself _ => exact absurd hself hx
  case unreadable => rw [Ground.answer, hf] at ha; cases ha
  case failed => rw [Ground.answer, hf] at ha; cases ha
  case hit c => exact served rfl ha
  case throttled c =>
    cases c
    case none => rw [Ground.answer, he] at ha; cases ha
    case some c => exact served rfl ha
  case verdict v file =>
    have hi : ∃ info, x.info = some info := by
      have hasks := hs.asks
      generalize hallow : true = a at h
      cases h
      case decide hp _ =>
        rw [hp] at hasks
        exact ⟨_, hasks⟩
    obtain ⟨info, hi⟩ := hi
    exact ⟨x, v, file, now, ⟨info, info, hi, hi, rfl, rfl⟩, ha.symm, List.mem_append_right _ (List.mem_singleton_self _)⟩

-- Every answer is the one that its ground gives in the mode of that moment, and what is answered from the cache was
-- answered alike before, for a verdict on the very file. So a gate that must only audit, and is not to fail closed,
-- stops nothing; and one that enforces and fails closed lets nothing else run than what a verdict has allowed.
theorem answers_grounded (args : Args) (clock : Clock) (enforceHint : Bool) (ls : List Label) (s s' : System)
    (x : Execution) (ground : Ground) (allow : Bool) (now : Clock) (hs : enforceHint → args.forceAudit = false)
    (h : Runs args (.start clock enforceHint) ls s) (ha : Step args s (.answered x ground allow now) s') :
    allow = ground.answer args s.locals.enforceHint ∧
    (∀ c, ground.Serves c →
      ∃ x' t, x.SameFile x' ∧ .answered x' (.verdict c.origin.verdict c.origin.file) allow t ∈ ls) ∧
    (args.forceAudit → args.failClosed = false → allow = true) ∧
    (args.failClosed → s.locals.enforceHint → allow → ¬ x.self → ∃ x' v file t, x.SameFile x' ∧ decided args v ∧
      .answered x' (.verdict v file) true t ∈ ls ++ [.answered x ground allow now]) := by
  have hg := h.grounded hs
  refine ⟨ha.answer hg, fun c => ha.repeats hg, fun hf hfc => ?_, fun hfc he hallow hx => ?_⟩
  · have henforcing : s.locals.enforceHint = false :=
      Bool.eq_false_iff.mpr fun ht => absurd hf (Bool.eq_false_iff.mp (hg.hint ht))
    have hdecided (v : ExecVerdict) : decided args v = true := by simp [decided, hf]
    rw [ha.answer hg, henforcing]
    unfold Ground.answer
    split <;> simp [hfc, hdecided]
  · subst hallow
    exact ha.cleared hg hfc he hx

theorem held_of_phase {phase : Phase} (hp : s.phase = phase)
    (he : phase.held ++ l.takes = l.answers ++ s'.phase.held) : s.phase.held ++ l.takes = l.answers ++ s'.phase.held :=
  hp ▸ he

-- An execution that was taken is answered once, and before the next ones are taken.
theorem Step.held (h : Step args s l s') : s.phase.held ++ l.takes = l.answers ++ s'.phase.held := by
  cases h
  case tick | place | notify | rescan => exact List.append_nil _
  case poll changed _ _ => exact held_of_phase ‹_› (by cases changed <;> rfl)
  case clear ready _ _ => exact held_of_phase ‹_› (by cases ready <;> rfl)
  case keep ready _ _ => exact held_of_phase ‹_› (by cases ready <;> rfl)
  case fetch => exact held_of_phase ‹_› rfl
  all_goals exact held_of_phase ‹_› (List.append_nil _)

theorem Tallies.length_upsert {key : String} {f : Tally → Tally} {ts : Tallies} :
    (Tallies.upsert key f ts).length ≤ ts.length + 1 := by
  induction ts
  case nil => exact le_rfl
  case cons e ts ih =>
    rw [Tallies.upsert]
    split
    case isTrue => exact Nat.le_succ _
    case isFalse => exact Nat.succ_le_succ ih

theorem Tallies.length_note {v : ExecVerdict} {shown : String} {ts : Tallies} :
    (ts.note v shown allow).length ≤ TALLY_LIMIT + 1 := by
  refine length_upsert.trans (Nat.succ_le_succ ?_)
  split
  case isTrue => exact Nat.zero_le _
  case isFalse hn => exact not_lt.mp hn

theorem Throttled.length_note {t : Throttled} {uid : UInt32} (h : t.length ≤ 4096) : (t.note uid).length ≤ 4096 := by
  unfold Throttled.note
  split_ifs with hu hl
  · rwa [List.length_map]
  · rw [List.length_append]
    exact hl
  · exact h

theorem Cache.length_insert {key : FileKey} {cache : Cache} : (cache.insert key c).length ≤ cache.length + 1 :=
  Nat.succ_le_succ (List.length_filter_le _ _)

theorem Step.cache_length (h : Step args s l s') :
    s'.locals.cache.length ≤ s.locals.cache.length + l.answers.length := by
  cases h
  case clear => exact Nat.zero_le _
  case stop => exact Nat.zero_le _
  case decide => exact Cache.length_insert
  case flush outcome _ _ _ => cases outcome <;> exact Nat.le_add_right _ _
  all_goals exact Nat.le_add_right _ _

-- Before a batch is taken there is always room.
theorem Step.fetching (h : Step args s l s') (hf : s'.phase.fetches) :
    s'.locals.cache.length ≤ CACHE_LIMIT ∨ s.phase.fetches ∧ s'.locals = s.locals := by
  cases h
  case tick => exact .inr ⟨hf, rfl⟩
  case place => exact .inr ⟨hf, rfl⟩
  case notify => exact .inr ⟨hf, rfl⟩
  case rescan => exact .inr ⟨hf, rfl⟩
  case clear => exact .inl (Nat.zero_le _)
  case keep hk => exact .inl (not_lt.mp (not_or.mp hk).right)
  case poll changed _ _ => cases changed <;> cases hf
  all_goals cases hf

theorem Step.tally_length (h : Step args s l s') (hs : s.locals.tally.length ≤ TALLY_LIMIT + 1) :
    s'.locals.tally.length ≤ TALLY_LIMIT + 1 := by
  cases h
  case decide => exact Tallies.length_note
  case flush outcome _ _ _ =>
    have hr : s.locals.tally.reset.length ≤ TALLY_LIMIT + 1 := (List.length_map _).trans_le hs
    cases outcome <;> exact hr
  case stop => exact Nat.zero_le _
  all_goals exact hs

theorem Step.throttled_length (h : Step args s l s') (hs : s.locals.throttled.length ≤ 4096) :
    s'.locals.throttled.length ≤ 4096 := by
  cases h
  case throttle => exact Throttled.length_note hs
  case flush outcome _ _ _ =>
    cases outcome
    case unopened => exact hs
    case unrecorded => exact Nat.zero_le _
    case recorded => exact Nat.zero_le _
  case stop => exact Nat.zero_le _
  all_goals exact hs

theorem Step.pending_length (h : Step args s l s') (hs : s.locals.pending.length ≤ 256) :
    s'.locals.pending.length ≤ 256 := by
  cases h
  case fail =>
    dsimp only
    split
    case isTrue => exact hs
    case isFalse hn =>
      rw [List.length_append]
      exact Nat.succ_le_of_lt (not_le.mp (not_or.mp hn).right)
  case flush outcome _ _ _ =>
    cases outcome
    case unopened => exact hs
    case unrecorded => exact Nat.zero_le _
    case recorded => exact Nat.zero_le _
  case stop => exact Nat.zero_le _
  all_goals exact hs

-- Executions are only taken between two batches.
theorem Step.takes (h : Step args s l s') : l.takes = [] ∨ s.phase.fetches ∧ s.phase.held = [] := by
  cases h
  case fetch hp =>
    rw [hp]
    exact .inr ⟨rfl, rfl⟩
  all_goals exact .inl rfl

theorem Step.bounded {limit : Nat} (h : Step args s l s') (ht : l.takes.length ≤ limit) (hb : Bounded limit s) :
    Bounded limit s' where
  cache     := by
    have hheld := congrArg List.length h.held
    rw [List.length_append, List.length_append] at hheld
    have hcache := h.cache_length
    have hroom := hb.cache
    obtain hnone | ⟨hf, hnone⟩ := h.takes
    · rw [hnone, List.length_nil] at hheld
      omega
    · have hfetching := hb.fetching hf
      rw [hnone, List.length_nil] at hheld
      omega
  fetching hf := by
    obtain hc | ⟨hf, hl⟩ := h.fetching hf
    · exact hc
    · exact hl ▸ hb.fetching hf
  tally     := h.tally_length hb.tally
  throttled := h.throttled_length hb.throttled
  pending   := h.pending_length hb.pending

section

variable {limit : Nat} {clock : Clock} {enforceHint : Bool}

theorem Runs.bounded (h : Runs args (.start clock enforceHint) ls s) (hl : ∀ l ∈ ls, l.takes.length ≤ limit) :
    Bounded limit s := by
  induction h
  case start => exact ⟨Nat.zero_le _, nofun, Nat.zero_le _, Nat.zero_le _, Nat.zero_le _⟩
  case step st ih =>
    exact st.bounded (hl _ (List.mem_append_right _ (List.mem_singleton_self _)))
      (ih fun l hm => hl l (List.mem_append_left _ hm))

theorem Runs.held (h : Runs args (.start clock enforceHint) ls s) :
    ls.flatMap Label.takes = ls.flatMap Label.answers ++ s.phase.held := by
  induction h
  case start => rfl
  case step st ih =>
    rw [List.flatMap_append, List.flatMap_append, List.flatMap_singleton, List.flatMap_singleton, ih, List.append_assoc,
      st.held, List.append_assoc]

-- The executions that the loop has taken are those that it has answered, each once and in their order, and after them
-- those of the batch in hand. And what the loop remembers is bounded, whatever is executed.
theorem gate_accounts (h : Runs args (.start clock enforceHint) ls s) (hl : ∀ l ∈ ls, l.takes.length ≤ limit) :
    ls.flatMap Label.takes = ls.flatMap Label.answers ++ s.phase.held ∧
    s.locals.cache.length ≤ CACHE_LIMIT + limit ∧ s.locals.tally.length ≤ TALLY_LIMIT + 1 ∧
    s.locals.throttled.length ≤ 4096 ∧ s.locals.pending.length ≤ 256 := by
  have hb := h.bounded hl
  exact ⟨h.held, (Nat.le_add_right _ _).trans hb.cache, hb.tally, hb.throttled, hb.pending⟩

end

end Gate

namespace Gate.Twice

theorem answers_grounded_twice : ∃ s s', Runs args (.start awake true) (first ++ [.silent]) s ∧
    Step args s (.answered program (.hit (cached 0 1)) true soon) s' ∧ ∃ x t, program.SameFile x ∧
      .answered x (.verdict verdict (Tally.key verdict program.shown)) true t ∈ first ++ [.silent] := by
  have ⟨s, s', h, hhit⟩ := runs_second soon ⟨by decide, by decide⟩ (by decide)
  have k := answers_grounded args awake true _ s s' _ _ _ _ (fun _ => rfl) h hhit
  exact ⟨s, s', h, hhit, k.right.left (cached 0 1) rfl⟩

theorem gate_accounts_twice : ∃ s, Runs args (.start awake true) first s ∧ s.phase = .answering 1 [some program] ∧
    first.flatMap Label.takes = first.flatMap Label.answers ++ s.phase.held := by
  have ⟨s, h, hp, _⟩ := runs_first
  have hl : ∀ l ∈ first, l.takes.length ≤ 2 := by simp [first, Label.takes]
  exact ⟨s, h, hp, (gate_accounts h hl).left⟩

end Gate.Twice
