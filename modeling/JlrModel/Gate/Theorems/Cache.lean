import JlrModel.Gate.Run

namespace Gate

variable {args : Args} {start s s' : System} {l : Label} {ls : List Label} {c : Cached} {e : FileKey × Cached}
  {x : Execution}

namespace Clock

theorem Le.refl (c : Clock) : c ≤ c :=
  ⟨Nat.le_refl _, Nat.le_refl _⟩

theorem toNat_wallSecs (c : Clock) : c.wallSecs.toNat = c.wall / 10 ^ 9 := by
  have h := c.wall_lt
  rw [wallSecs, UInt64.toNat_ofNat_of_lt']
  show c.wall / 10 ^ 9 < 2 ^ 64
  omega

theorem toNat_wallSecs_lt (c : Clock) : c.wallSecs.toNat < 2 ^ 63 := by
  have h := c.wall_lt
  rw [toNat_wallSecs]
  omega

end Clock

-- The entries that an execution is answered from.
def Ground.Serves (c : Cached) : Ground → Prop
  | .hit c'       => c' = c
  | .throttled c' => c' = some c
  | _             => False

theorem Cache.mem_of_get {key : FileKey} {cache : Cache} (h : cache.get key = some c) : (key, c) ∈ cache := by
  unfold get at h
  induction cache
  case nil => cases h
  case cons e cache ih =>
    rw [List.lookup_cons] at h
    split at h
    case h_1 hk =>
      cases h
      exact (beq_iff_eq.mp hk) ▸ List.mem_cons_self
    case h_2 => exact List.mem_cons_of_mem _ (ih h)

theorem Cache.mem_insert {key : FileKey} {cache : Cache} (h : e ∈ cache.insert key c) : e = (key, c) ∨ e ∈ cache := by
  cases List.mem_cons.mp h
  case inl h => exact .inl h
  case inr h => exact .inr (List.mem_filter.mp h).left

-- What a step does to the cache: it gets another entry only by a verdict.
theorem Step.mem_cache (h : Step args s l s') (he : e ∈ s'.locals.cache) :
    e ∈ s.locals.cache ∨ ∃ g x info batch placed clock v,
      s.phase = .opened g x info batch placed ∧ s.clock ≤ clock ∧ s'.clock = clock ∧
      l = .answered x (.verdict v (Tally.key v x.shown)) (decided args v) clock ∧
      e = (info.key, ⟨entryOf args g info v s.clock clock, placed, ⟨s.clock.mono, clock.wall, clock.wall_lt⟩, v,
        Tally.key v x.shown⟩) := by
  cases h
  case clear => exact absurd he List.not_mem_nil
  case stop => exact absurd he List.not_mem_nil
  case decide hp hc =>
    cases Cache.mem_insert he
    case inl he => exact .inr ⟨_, _, _, _, _, _, _, hp, hc, rfl, rfl, he⟩
    case inr he => exact .inl he
  case flush outcome _ _ _ =>
    refine .inl ?_
    unfold Locals.flushed at he
    cases outcome <;> exact he
  all_goals exact .inl he

theorem Step.clock_le (h : Step args s l s') : s.clock ≤ s'.clock := by
  cases h
  case tick h => exact h
  case decide h => exact h
  all_goals exact .refl _

-- An answer from the cache is the one of an entry in it.
theorem Step.serves {ground : Ground} {allow : Bool} {now : Clock} (h : Step args s (.answered x ground allow now) s')
    (hc : ground.Serves c) : ∃ g batch info, s.phase = .answering g (some x :: batch) ∧ x.info = some info ∧
      now = s.clock ∧ (info.key, c) ∈ s.locals.cache ∧ c.entry.stamp = info.stamp ∧ c.entry.generation = g ∧
      (ground = .hit c ∧ now.mono < c.entry.expires ∨ now.wallSecs < c.entry.validUntil) := by
  cases h
  case hit hh _ _ hi hp =>
    cases hc
    have ⟨hm, ha⟩ := Option.filter_eq_some_iff.mp hh
    have ⟨hs, hg, hx⟩ := of_decide_eq_true ha
    exact ⟨_, _, _, hp, hi, rfl, Cache.mem_of_get hm, hs, hg, .inl ⟨rfl, hx⟩⟩
  case throttle hi _ hp =>
    have ⟨hm, ha⟩ := Option.filter_eq_some_iff.mp hc
    have ⟨hs, hg, _, hx⟩ := of_decide_eq_true ha
    exact ⟨_, _, _, hp, hi, rfl, Cache.mem_of_get hm, hs, hg, .inr hx⟩
  all_goals exact absurd hc id

-- What is true of every entry.
structure Recorded (now : Clock) (c : Cached) : Prop where
  expires    : c.entry.expires = c.origin.clock.mono + (min c.origin.verdict.maxAgeSecs 3600).toNat * 10 ^ 9
  validUntil : c.entry.validUntil = c.origin.clock.wallSecs.saturatingAdd c.origin.verdict.maxAgeSecs
  past       : c.origin.clock.mono ≤ now.mono

theorem Step.recorded (h : Step args s l s') (hs : ∀ e ∈ s.locals.cache, Recorded s.clock e.2) :
    ∀ e ∈ s'.locals.cache, Recorded s'.clock e.2 := by
  intro e he
  cases h.mem_cache he
  case inl he =>
    have hr := hs e he
    exact { hr with past := hr.past.trans h.clock_le.mono }
  case inr hn =>
    have ⟨g, x, info, batch, placed, clock, v, _, hc, hc', _, he⟩ := hn
    rw [he, hc']
    exact ⟨rfl, rfl, hc.mono⟩

theorem Runs.recorded (h : Runs args start ls s) (hs : start.locals.cache = []) :
    ∀ e ∈ s.locals.cache, Recorded s.clock e.2 := by
  induction h
  case start => simp [hs]
  case step hstep ih => exact hstep.recorded ih

-- When an entry answers, the clock on the wall has advanced by no more than the whole seconds of the monotonic clock
-- since the entry was made, and by what is left of its validity after it has expired.
def Paced (ground : Ground) (now : Clock) : Prop :=
  ∀ c, ground = .hit c → now.wallSecs.toNat ≤ c.origin.clock.wallSecs.toNat +
    (now.mono - c.origin.clock.mono) / 10 ^ 9 +
    (c.origin.verdict.maxAgeSecs.toNat - (min c.origin.verdict.maxAgeSecs 3600).toNat)

theorem Recorded.in_time {now : Clock} (h : Recorded now c) (hx : now.mono < c.entry.expires)
    (hp : Paced (.hit c) now) : now.wallSecs < c.entry.validUntil := by
  have hp := hp c rfl
  have hm := h.past
  have hw := now.toNat_wallSecs_lt
  have hle := UInt64.le_iff_toNat_le.mp (UInt64.min_le_left c.origin.verdict.maxAgeSecs 3600)
  rw [h.expires] at hx
  rw [h.validUntil, UInt64.lt_iff_toNat_lt, UInt64.toNat_saturatingAdd]
  omega

-- What is answered from an entry is answered within its validity, in every run in which the clocks keep pace whenever an
-- entry is hit.
theorem cached_in_time (args : Args) (clock : Clock) (enforceHint : Bool) (ls : List Label) (s : System)
    (h : Runs args (.start clock enforceHint) ls s)
    (hp : ∀ x ground allow now, .answered x ground allow now ∈ ls → Paced ground now) :
    ∀ x ground allow now c, .answered x ground allow now ∈ ls → ground.Serves c → c.entry.allow →
      now.wallSecs < c.entry.validUntil := by
  induction h
  case start => simp
  case step ls s l s' hr hstep ih =>
    have hp' x ground allow now (ha : .answered x ground allow now ∈ ls) : Paced ground now :=
      hp x ground allow now (List.mem_append_left _ ha)
    intro x ground allow now c ha hc ht
    cases List.mem_append.mp ha
    case inl ha => exact ih hp' x ground allow now c ha hc ht
    case inr ha =>
      cases List.mem_singleton.mp ha
      have ⟨g, batch, info, _, _, hnow, hm, _, _, hv⟩ := hstep.serves hc
      have hrec := hr.recorded rfl _ hm
      rw [← hnow] at hrec
      cases hv
      case inr hv => exact hv
      case inl hv =>
        have hpaced := hp x ground allow now (List.mem_append_right _ List.mem_cons_self)
        exact hrec.in_time hv.right (hv.left ▸ hpaced)

-- The changes of the signed state whose notifications have been read.
def Noticed (ls : List Label) (i : Nat) : Prop :=
  ∃ is, .noticed is ∈ ls ∧ i ∈ is

-- What the loop knows in a phase: entries of the generation `floor` or a later one were made after every change that
-- was noticed.
def Phase.Fits (noticed : Nat → Prop) (floor generation : Nat) : Phase → Prop
  | .bumping _                 => floor ≤ generation + 1
  | .clearing _ g              => floor ≤ g ∧ g ≤ generation
  | .fetching g                => floor ≤ g ∧ g ≤ generation
  | .answering g _             => floor ≤ g ∧ g ≤ generation
  | .deciding g _ _ _          => floor ≤ g ∧ g ≤ generation
  | .opened g _ _ _ placed     => floor ≤ g ∧ g ≤ generation ∧ ∀ i, noticed i → i ≤ placed
  | _                          => floor ≤ generation

structure Fresh (noticed : Nat → Prop) (floor : Nat) (s : System) : Prop where
  queued  : ∀ i ∈ s.queue, i ≤ s.placed
  placed  : ∀ i, noticed i → i ≤ s.placed
  entries : ∀ e ∈ s.locals.cache, e.2.entry.generation ≤ s.generation
  fresh   : ∀ e ∈ s.locals.cache, floor ≤ e.2.entry.generation → ∀ i, noticed i → i ≤ e.2.origin.opened
  fits    : s.phase.Fits noticed floor s.generation

section

variable {noticed : Nat → Prop} {floor : Nat}

theorem Phase.Fits.mono {phase : Phase} {g g' : Nat} (h : phase.Fits noticed floor g) (hg : g ≤ g') :
    phase.Fits noticed floor g' := by
  cases phase
  case bumping => exact h.trans (Nat.succ_le_succ hg)
  case opened => exact ⟨h.left, h.right.left.trans hg, h.right.right⟩
  case clearing | fetching | answering | deciding => exact ⟨h.left, h.right.trans hg⟩
  all_goals exact h.trans hg

-- The loop goes on, with the entries it had.
theorem Fresh.goes (h : Fresh noticed floor s) {phase : Phase} (hp : phase.Fits noticed floor s.generation)
    {locals : Locals} (hl : locals.cache ⊆ s.locals.cache) : Fresh noticed floor { s.to phase with locals } where
  queued    := h.queued
  placed    := h.placed
  entries e := fun he => h.entries e (hl he)
  fresh e   := fun he => h.fresh e (hl he)
  fits      := hp

theorem Step.fresh (h : Step args s l s') (hl : ∀ is, l ≠ .noticed is) (hf : Fresh noticed floor s) :
    Fresh noticed floor s' := by
  have hfits := hf.fits
  cases h
  case tick => exact { hf with }
  case place =>
    exact { hf with
      queued := fun i hi => (hf.queued i hi).trans (Nat.le_succ _)
      placed := fun i hi => (hf.placed i hi).trans (Nat.le_succ _) }
  case notify hi =>
    refine { hf with queued := fun j hj => ?_ }
    cases List.mem_append.mp hj
    case inl hj => exact hf.queued j hj
    case inr hj => exact List.mem_singleton.mp hj ▸ hi
  case rescan =>
    exact { hf with
      entries := fun e he => (hf.entries e he).trans (Nat.le_succ _)
      fits := hfits.mono (Nat.le_succ _) }
  case poll changed ready hp =>
    rw [hp] at hfits
    refine hf.goes ?_ (List.Subset.refl _)
    cases changed <;> exact hfits
  case read => exact absurd rfl (hl _)
  case bump hp =>
    rw [hp] at hfits
    exact { hf with
      entries := fun e he => (hf.entries e he).trans (Nat.le_succ _)
      fits := hfits }
  case hint hp =>
    rw [hp] at hfits
    refine hf.goes ?_ (List.Subset.refl _)
    exact hfits
  case load hp =>
    rw [hp] at hfits
    refine hf.goes ?_ (List.Subset.refl _)
    exact ⟨hfits, Nat.le_refl _⟩
  case clear ready hp _ =>
    rw [hp] at hfits
    refine hf.goes ?_ (List.nil_subset _)
    cases ready
    case true => exact hfits
    case false => exact hfits.left.trans hfits.right
  case keep ready hp _ =>
    rw [hp] at hfits
    refine hf.goes ?_ (List.Subset.refl _)
    cases ready
    case true => exact hfits
    case false => exact hfits.left.trans hfits.right
  case none hp | broken hp | answered hp =>
    rw [hp] at hfits
    refine hf.goes ?_ (List.Subset.refl _)
    exact hfits.left.trans hfits.right
  case fetch hp | skip hp | own hp | unreadable hp | hit hp _ | throttle hp _ | miss hp _ =>
    rw [hp] at hfits
    refine hf.goes ?_ (List.Subset.refl _)
    exact hfits
  case «open» hp =>
    rw [hp] at hfits
    refine hf.goes ?_ (List.Subset.refl _)
    exact ⟨hfits.left, hfits.right, hf.placed⟩
  case decide hp _ =>
    rw [hp] at hfits
    have ⟨hfloor, hg, hopened⟩ := hfits
    refine { hf with entries := fun e he => ?_, fresh := fun e he => ?_, fits := ⟨hfloor, hg⟩ }
    · cases Cache.mem_insert he
      case inl he => exact he ▸ hg
      case inr he => exact hf.entries e he
    · cases Cache.mem_insert he
      case inl he => exact he ▸ fun _ => hopened
      case inr he => exact hf.fresh e he
  case fail hp =>
    rw [hp] at hfits
    refine hf.goes ?_ (List.Subset.refl _)
    exact ⟨hfits.left, hfits.right.left⟩
  case flush outcome hp _ _ =>
    rw [hp] at hfits
    refine hf.goes ?_ ?_
    · exact hfits
    · cases outcome <;> exact List.Subset.refl _
  case wait hp _ =>
    rw [hp] at hfits
    refine hf.goes ?_ (List.Subset.refl _)
    exact hfits
  case stop hp =>
    rw [hp] at hfits
    refine hf.goes ?_ (List.nil_subset _)
    exact hfits

-- Reading notifications makes all entries old.
theorem Step.fresh_read (h : Step args s (.noticed is) s') (hf : Fresh noticed floor s) :
    Fresh (fun i => noticed i ∨ i ∈ is) (s.generation + 1) s' := by
  cases h
  case read hp hq =>
    have hqueue {i : Nat} (hi : i ∈ is) : i ≤ s.placed := hf.queued i (hq ▸ List.mem_append_left _ hi)
    exact {
      queued  := fun i hi => hf.queued i (hq ▸ List.mem_append_right _ hi)
      placed  := fun i hi => hi.elim (hf.placed i) hqueue
      entries := hf.entries
      fresh   := fun e he hg => absurd (hf.entries e he) (Nat.not_le.mpr hg)
      fits    := Nat.le_refl _
    }

end

theorem noticed_append {i : Nat} : Noticed (ls ++ [l]) i ↔ Noticed ls i ∨ ∃ is, l = .noticed is ∧ i ∈ is := by
  simp only [Noticed, List.mem_append, List.mem_singleton, or_and_right, exists_or]
  exact or_congr_right ⟨fun ⟨is, h, hi⟩ => ⟨is, h.symm, hi⟩, fun ⟨is, h, hi⟩ => ⟨is, h.symm, hi⟩⟩

theorem Runs.fresh (h : Runs args (.start clock enforceHint) ls s) : ∃ floor, Fresh (Noticed ls) floor s := by
  induction h
  case start =>
    refine ⟨0, by simp [System.start], fun i hi => ?_, by simp [System.start], by simp [System.start], Nat.zero_le _⟩
    have ⟨_, h, _⟩ := hi
    exact absurd h List.not_mem_nil
  case step ls s l s' _ hstep ih =>
    have ⟨floor, hf⟩ := ih
    by_cases hl : ∃ is, l = .noticed is
    case pos =>
      have ⟨is, hl⟩ := hl
      subst hl
      refine ⟨s.generation + 1, ?_⟩
      have he : Noticed (ls ++ [.noticed is]) = fun i => Noticed ls i ∨ i ∈ is := by
        funext i
        simp [noticed_append]
      rw [he]
      exact hstep.fresh_read hf
    case neg =>
      refine ⟨floor, ?_⟩
      have he : Noticed (ls ++ [l]) = Noticed ls := by
        funext i
        refine propext (noticed_append.trans (or_iff_left ?_))
        exact fun ⟨is, h, _⟩ => hl ⟨is, h⟩
      rw [he]
      exact hstep.fresh (fun is h => hl ⟨is, h⟩) hf

-- What is answered from the cache after a change was noticed was decided by an engine that was opened after the change
-- was in place.
theorem cache_never_stale (args : Args) (clock : Clock) (enforceHint : Bool) (ls : List Label) (s s' : System)
    (x : Execution) (ground : Ground) (allow : Bool) (now : Clock) (h : Runs args (.start clock enforceHint) ls s)
    (ha : Step args s (.answered x ground allow now) s') :
    ∀ c, ground.Serves c → ∀ is, .noticed is ∈ ls → ∀ i ∈ is, i ≤ c.origin.opened := by
  intro c hc is his i hi
  have ⟨floor, hf⟩ := h.fresh
  have ⟨g, batch, info, hp, _, _, hm, _, hg, _⟩ := ha.serves hc
  have hfits := hf.fits
  rw [hp] at hfits
  exact hf.fresh _ hm (hg ▸ hfits.left) i ⟨is, his, hi⟩

end Gate

-- A program that is executed twice.
namespace Gate.Twice

def args : Args where
  forceAudit := false
  failClosed := false

def decision : Decision where
  state        := .admitted
  cell         := .cell2
  network      := .none
  capabilities := []
  reasons      := [.operatorAuthorized]
  basis        := .manualOverride
  needsUser    := none
  policy       := ⟨Bytes.fixed 32 0⟩

def verdict : ExecVerdict where
  id           := some ⟨.exe, ⟨Bytes.fixed 32 1⟩⟩
  unmeasurable := none
  decision     := decision
  allowed      := true
  enforce      := true
  maxAgeSecs   := 3600

def info : FileMeta where
  dev       := 1
  ino       := 12
  len       := 8192
  mtime     := 1700000000
  mtimeNsec := 0
  ctime     := 1700000000
  ctimeNsec := 0

def program : Execution where
  self   := false
  cloned := true
  info   := some info
  path   := some "/usr/bin/ls"
  uid    := 1000

-- The machine sleeps for two hours, which the monotonic clock does not count.
def awake : Clock where
  mono    := 10 ^ 9
  wall    := 1800000000 * 10 ^ 9
  wall_lt := by decide

def later : Clock where
  mono    := 2 * 10 ^ 9
  wall    := 1800007200 * 10 ^ 9
  wall_lt := by decide

def cached (opened generation : Nat) : Cached where
  entry  := entryOf args generation info verdict awake awake
  origin := {
    opened  := opened
    clock   := awake
    verdict := verdict
    file    := Tally.key verdict program.shown
  }

-- What is seen of the first execution, up to the point where the second one has to be answered.
def first : List Label :=
  [.silent, .silent, .silent, .fetched [some program, some program], .silent, .silent,
    .answered program (.verdict verdict (Tally.key verdict program.shown)) true awake]

theorem runs_first : ∃ s, Runs args (.start awake true) first s ∧
    s.phase = .answering 1 [some program] ∧ s.clock = awake ∧ s.locals.cache = [(info.key, cached 0 1)] := by
  have h₀ : Runs args (.start awake true) [] (.start awake true) := .start
  have h := h₀.step (.poll false true rfl) |>.step (.load rfl) |>.step (.keep rfl (by decide))
    |>.step (.fetch [some program, some program] rfl) |>.step (.miss rfl (by decide) rfl rfl rfl)
    |>.step (.open rfl) |>.step (.decide verdict rfl (Clock.Le.refl awake))
  exact ⟨_, h, rfl, rfl, rfl⟩

-- The second execution is answered by what was found out for the first one.
theorem hit_second {s : System} {opened g : Nat} (hp : s.phase = .answering g [some program])
    (hc : s.locals.cache = [(info.key, cached opened g)]) (hx : s.clock.mono < 3601 * 10 ^ 9) :
    Step args s (.answered program (.hit (cached opened g)) true s.clock) (s.to (.answering g [])) := by
  have hget : s.locals.cache.get info.key = some (cached opened g) := by
    rw [hc]
    rfl
  have hhit : s.hit g info = some (cached opened g) := by
    rw [System.hit, hget]
    refine Option.filter_eq_some_iff.mpr ⟨rfl, decide_eq_true ⟨rfl, rfl, ?_⟩⟩
    show s.clock.mono < 10 ^ 9 + (min (3600 : UInt64) 3600).toNat * 10 ^ 9
    rw [UInt64.min_eq, if_pos (UInt64.le_refl _)]
    exact hx
  exact .hit hp (by decide) rfl rfl hhit

-- The second execution comes at some time within the hour.
theorem runs_second (clock : Clock) (hle : awake ≤ clock) (hx : clock.mono < 3601 * 10 ^ 9) : ∃ s s',
    Runs args (.start awake true) (first ++ [.silent]) s ∧
    Step args s (.answered program (.hit (cached 0 1)) true clock) s' := by
  have ⟨s, h, hp, hclock, hc⟩ := runs_first
  exact ⟨_, _, h.step (.tick clock (hclock ▸ hle)), hit_second (s := { s with clock }) hp hc hx⟩

-- Half an hour later, by both clocks.
def soon : Clock where
  mono    := 1801 * 10 ^ 9
  wall    := 1800001800 * 10 ^ 9
  wall_lt := by decide

theorem cached_in_time_twice : ∃ ls s, Runs args (.start awake true) ls s ∧
    .answered program (.hit (cached 0 1)) true soon ∈ ls ∧ soon.wallSecs < (cached 0 1).entry.validUntil := by
  have ⟨s, _, h, hhit⟩ := runs_second soon ⟨by decide, by decide⟩ (by decide)
  have hmem : .answered program (.hit (cached 0 1)) true soon ∈
      first ++ [.silent] ++ [.answered program (.hit (cached 0 1)) true soon] :=
    List.mem_append_right _ List.mem_cons_self
  refine ⟨_, _, h.step hhit, hmem, ?_⟩
  refine cached_in_time args awake true _ _ (h.step hhit) (fun x ground allow now ha c hg => ?_) _ _ _ _ _ hmem rfl rfl
  subst hg
  obtain ⟨_, rfl, _, rfl⟩ : x = program ∧ c = cached 0 1 ∧ allow = true ∧ now = soon := by simpa [first] using ha
  decide +kernel

-- After the sleep the answer is still in use, an hour after the end of its validity.
theorem hit_after_sleep : ∃ ls s, Runs args (.start awake true) ls s ∧
    .answered program (.hit (cached 0 1)) true later ∈ ls ∧ (cached 0 1).entry.allow ∧
    ¬ later.wallSecs < (cached 0 1).entry.validUntil := by
  have ⟨_, _, h, hhit⟩ := runs_second later ⟨by decide, by decide⟩ (by decide)
  refine ⟨_, _, h.step hhit, List.mem_append_right _ List.mem_cons_self, rfl, ?_⟩
  decide +kernel

-- A change is noticed before the two executions.
theorem runs_noticed : ∃ ls s, Runs args (.start awake true) ls s ∧ .noticed [1] ∈ ls ∧
    s.phase = .answering 2 [some program] ∧ s.clock = awake ∧ s.locals.cache = [(info.key, cached 1 2)] := by
  have h₀ : Runs args (.start awake true) [] (.start awake true) := .start
  have h := h₀.step .place |>.step (.notify 1 (by decide) (by decide)) |>.step (.poll true true rfl)
    |>.step (.read [1] [] rfl rfl) |>.step (.bump rfl) |>.step (.hint none rfl) |>.step (.load rfl)
    |>.step (.clear rfl (by decide)) |>.step (.fetch [some program, some program] rfl)
    |>.step (.miss rfl (by decide) rfl rfl rfl) |>.step (.open rfl)
    |>.step (.decide verdict rfl (Clock.Le.refl awake))
  exact ⟨_, _, h, by simp, rfl, rfl, rfl⟩

theorem cache_never_stale_twice : ∃ ls s s', Runs args (.start awake true) ls s ∧ .noticed [1] ∈ ls ∧
    Step args s (.answered program (.hit (cached 1 2)) true awake) s' ∧ 1 ≤ (cached 1 2).origin.opened := by
  have ⟨ls, s, h, hn, hp, hclock, hc⟩ := runs_noticed
  have hhit := hit_second hp hc (hclock ▸ by decide)
  rw [hclock] at hhit
  exact ⟨ls, s, _, h, hn, hhit,
    cache_never_stale args awake true ls s _ _ _ _ _ h hhit _ rfl [1] hn 1 List.mem_cons_self⟩

end Gate.Twice
