import JlrModel.Lib.Result
import JlrModel.Lib.Sorted
import JlrModel.Measure.Walk
import Mathlib.Data.List.Sort

namespace Walk

-- A directory is on the way down from the root, by real directories that are not excluded, and on the device of the root
-- if that is asked for. None of them is a symbolic link.
inductive Reached (fs : FileTree) (opts : WalkOptions) (dev : UInt64) (root : PathBuf) : PathBuf → Nat → Prop
  | root : Reached fs opts dev root root 0
  | sub : Reached fs opts dev root dir depth → opts.excludes dir = false → fs.readDir dir = some names → name ∈ names →
    fs.lstat (dir ++ [name]) = .ok m → m.type = .dir → depth < opts.maxDepth → (opts.oneFileSystem → m.dev = dev) →
    Reached fs opts dev root (dir ++ [name]) (depth + 1)

-- A regular file is in such a directory, and governed if that is asked for.
inductive Listed (fs : FileTree) (opts : WalkOptions) (dev : UInt64) (root : PathBuf) : PathBuf → Prop
  | file : Reached fs opts dev root dir depth → opts.excludes dir = false → fs.readDir dir = some names → name ∈ names →
    fs.lstat (dir ++ [name]) = .ok m → m.type = .file →
    (opts.governedOnly → isGoverned (classify ((fs.head (dir ++ [name])).take HEAD_LEN) (some (.of name)) m.mode)) →
    Listed fs opts dev root (dir ++ [name])

variable {fs : FileTree} {opts : WalkOptions} {dev : UInt64} {root dir path : PathBuf} {depth n : Nat} {name : Bytes}
  {d e : PathBuf × Nat}

theorem mem_entries : name ∈ entries fs opts dir ↔
    opts.excludes dir = false ∧ ∃ names, fs.readDir dir = some names ∧ name ∈ names := by
  unfold entries
  cases opts.excludes dir <;> cases fs.readDir dir <;> simp

-- What one turn puts on the stack, and what it lists.
theorem mem_turn_fst : e ∈ ((search fs opts dev).turn d).1 ↔ ∃ name ∈ entries fs opts d.1, ∃ m,
    fs.lstat (d.1 ++ [name]) = .ok m ∧ m.type = .dir ∧ enters opts dev d.2 m ∧ e = (d.1 ++ [name], d.2 + 1) := by
  change e ∈ (turn fs opts dev d).1 ↔ _
  rw [turn_eq, List.mem_filterMap]
  simp only [subdir?_eq_some]

theorem mem_turn_snd : path ∈ ((search fs opts dev).turn d).2 ↔ ∃ name ∈ entries fs opts d.1, ∃ m,
    fs.lstat (d.1 ++ [name]) = .ok m ∧ m.type = .file ∧ lists fs opts path name m ∧ path = d.1 ++ [name] := by
  change path ∈ (turn fs opts dev d).2 ↔ _
  rw [turn_eq, List.mem_filterMap]
  simp only [file?_eq_some]

theorem finds_of_reached (h : Reached fs opts dev root dir depth) :
    (search fs opts dev).Finds (root, 0) depth (dir, depth) := by
  induction h
  case root => exact .here
  case sub hx hr hm hs ht hd hf ih =>
    exact .next ih (mem_turn_fst.mpr ⟨_, mem_entries.mpr ⟨hx, _, hr, hm⟩, _, hs, ht, decide_eq_true ⟨hd, hf⟩, rfl⟩)

theorem reached_of_finds (h : (search fs opts dev).Finds (root, 0) n d) : Reached fs opts dev root d.1 d.2 := by
  induction h
  case here => exact .root
  case next he ih =>
    obtain ⟨name, hn, m, hs, ht, hent, rfl⟩ := mem_turn_fst.mp he
    obtain ⟨hx, names, hr, hm⟩ := mem_entries.mp hn
    obtain ⟨hd, hf⟩ := of_decide_eq_true hent
    exact .sub ih hx hr hm hs ht hd hf

theorem mem_below_iff_listed : path ∈ (search fs opts dev).below (root, 0) ↔ Listed fs opts dev root path := by
  rw [Search.mem_below_iff]
  constructor
  case mp =>
    rintro ⟨n, d, hf, hp⟩
    obtain ⟨name, hn, m, hs, ht, hl, rfl⟩ := mem_turn_snd.mp hp
    obtain ⟨hx, names, hr, hm⟩ := mem_entries.mp hn
    exact .file (reached_of_finds hf) hx hr hm hs ht (of_decide_eq_true hl)
  case mpr =>
    rintro ⟨hreach, hx, hr, hm, hs, ht, hl⟩
    exact ⟨_, _, finds_of_reached hreach,
      mem_turn_snd.mpr ⟨_, mem_entries.mpr ⟨hx, _, hr, hm⟩, _, hs, ht, decide_eq_true hl, rfl⟩⟩

-- What is found is below where the search began.
theorem isPrefix_of_finds (h : (search fs opts dev).Finds d n e) : d.1 <+: e.1 := by
  induction h
  case here => exact List.prefix_rfl
  case next he ih =>
    obtain ⟨name, _, m, _, _, _, rfl⟩ := mem_turn_fst.mp he
    exact ih.trans (List.prefix_append _ _)

theorem below_isPrefix (h : path ∈ (search fs opts dev).below d) : d.1 <+: path ∧ d.1.length < path.length := by
  obtain ⟨n, e, hf, hp⟩ := Search.mem_below_iff.mp h
  obtain ⟨name, _, m, _, _, _, rfl⟩ := mem_turn_snd.mp hp
  have he := isPrefix_of_finds hf
  refine ⟨he.trans (List.prefix_append _ _), ?_⟩
  have := he.length_le
  rw [List.length_append, List.length_singleton]
  omega

variable (hn : ∀ d names, fs.readDir d = some names → names.Nodup)

include hn

theorem nodup_entries (dir : PathBuf) : (entries fs opts dir).Nodup := by
  unfold entries
  split
  case isTrue => exact List.nodup_nil
  case isFalse =>
    rw [(List.mergeSort_perm _ _).nodup_iff]
    cases hr : fs.readDir dir
    case none => exact List.nodup_nil
    case some names => exact hn dir names hr

theorem nodup_turn (d : PathBuf × Nat) :
    ((search fs opts dev).turn d).1.Nodup ∧ ((search fs opts dev).turn d).2.Nodup := by
  have hs : (search fs opts dev).turn d = turn fs opts dev d := rfl
  rw [hs, turn_eq]
  constructor
  · refine (nodup_entries hn d.1).filterMap fun a a' b ha ha' => ?_
    obtain ⟨_, _, _, _, hb⟩ := subdir?_eq_some.mp ha
    obtain ⟨_, _, _, _, hb'⟩ := subdir?_eq_some.mp ha'
    simpa using (Prod.mk.inj (hb.symm.trans hb')).left
  · refine (nodup_entries hn d.1).filterMap fun a a' b ha ha' => ?_
    obtain ⟨_, _, _, _, hb⟩ := file?_eq_some.mp ha
    obtain ⟨_, _, _, _, hb'⟩ := file?_eq_some.mp ha'
    simpa using hb.symm.trans hb'

-- No path is listed twice: the files of a directory have one component more than it, what is found in a directory
-- below has more than that, and two such directories have nothing in common.
theorem nodup_below (d : PathBuf × Nat) : ((search fs opts dev).below d).Nodup := by
  fun_induction Search.below
  case case1 d ih =>
    obtain ⟨hdirs, hfiles⟩ := @nodup_turn fs opts dev hn d
    have hlen : ∀ c ∈ ((search fs opts dev).turn d).1, c.1.length = d.1.length + 1 ∧ c.2 = d.2 + 1 := by
      intro c hc
      obtain ⟨name, _, m, _, _, _, rfl⟩ := mem_turn_fst.mp hc
      simp
    rw [List.nodup_append]
    refine ⟨hfiles, List.nodup_flatMap.mpr ⟨fun c hc => ih c (List.mem_reverse.mp hc), ?_⟩, ?_⟩
    · refine (List.nodup_reverse.mpr hdirs).imp_of_mem fun {c c'} hc hc' hne p hp hp' => hne ?_
      obtain ⟨hl, hd⟩ := hlen c (List.mem_reverse.mp hc)
      obtain ⟨hl', hd'⟩ := hlen c' (List.mem_reverse.mp hc')
      have hpre := List.prefix_of_prefix_length_le (below_isPrefix hp).left (below_isPrefix hp').left (by omega)
      exact Prod.ext (hpre.eq_of_length (by omega)) (by omega)
    · rintro p hp q hq rfl
      obtain ⟨c, hc, hq⟩ := List.mem_flatMap.mp hq
      obtain ⟨name, _, m, _, _, _, rfl⟩ := mem_turn_snd.mp hp
      have hlt := (below_isPrefix hq).right
      have hl := (hlen c (List.mem_reverse.mp hc)).left
      rw [List.length_append, List.length_singleton] at hlt
      omega

end Walk

variable {fs : FileTree} {opts : WalkOptions} {root : PathBuf} {roots : List PathBuf} {out : List PathBuf}

theorem walk_eq_ok_iff : walk fs root opts = .ok out ↔
    ∃ m, fs.lstat root = .ok m ∧ ((Walk.search fs opts m.dev).below (root, 0)).mergeSort (· ≤ ·) = out := by
  unfold walk
  simp only [Search.loop_eq, List.nil_append, List.flatMap_cons, List.flatMap_nil, List.append_nil]
  cases fs.lstat root
  case error => simp
  case ok m => simp

theorem walk_eq_error_iff {e : IoError} : walk fs root opts = .error e ↔ fs.lstat root = .error e := by
  unfold walk
  cases fs.lstat root
  case error => simp
  case ok => exact iff_of_false nofun nofun

-- The order of paths is a total order.
theorem PathBuf.order : Sorted.Order fun p q : PathBuf => p ≤ q :=
  .of_key Function.injective_id

theorem PathBuf.sorted_of_nodup {l : List PathBuf} (h : l.Nodup) : (l.mergeSort (· ≤ ·)).Pairwise (· < ·) := by
  have hle := List.pairwise_mergeSort PathBuf.order.trans PathBuf.order.total l
  have hne := (List.mergeSort_perm l (· ≤ ·)).nodup_iff.mpr h
  exact (hle.and hne).imp fun hab => lt_of_le_of_ne (of_decide_eq_true hab.left) hab.right

-- A traversal fails only if its root can not be looked at. Otherwise it gives every file once that it should, in the
-- order of the paths, and nothing else.
theorem walk_exact (hn : ∀ d names, fs.readDir d = some names → names.Nodup) : walk fs root opts = .ok out ↔
    ∃ m, fs.lstat root = .ok m ∧ out.Pairwise (· < ·) ∧ ∀ p, p ∈ out ↔ Walk.Listed fs opts m.dev root p := by
  rw [walk_eq_ok_iff]
  refine exists_congr fun m => and_congr_right fun _ => ?_
  have hnd := @Walk.nodup_below fs opts m.dev hn (root, 0)
  have hsorted := PathBuf.sorted_of_nodup hnd
  have hmem : ∀ p, p ∈ ((Walk.search fs opts m.dev).below (root, 0)).mergeSort (· ≤ ·) ↔
      Walk.Listed fs opts m.dev root p := fun p => List.mem_mergeSort.trans Walk.mem_below_iff_listed
  constructor
  case mp =>
    rintro rfl
    exact ⟨hsorted, hmem⟩
  case mpr =>
    rintro ⟨hout, hl⟩
    have hperm := (List.perm_ext_iff_of_nodup (hsorted.imp ne_of_lt) (hout.imp ne_of_lt)).mpr fun p =>
      (hmem p).trans (hl p).symm
    exact hperm.eq_of_pairwise' hsorted hout

theorem foldlM_append_eq_ok {f : α → Except ε (List β)} {as : List α} {acc all : List β} :
    as.foldlM (fun all a => do return all ++ (← f a)) acc = .ok all ↔
      ∃ outs, all = acc ++ outs.flatten ∧ List.Forall₂ (fun a out => f a = .ok out) as outs := by
  induction as generalizing acc
  case nil =>
    rw [List.foldlM_nil, Except.pure_eq_ok]
    constructor
    case mp =>
      rintro rfl
      exact ⟨[], (List.append_nil _).symm, .nil⟩
    case mpr =>
      rintro ⟨_, rfl, hf⟩
      cases hf
      exact (List.append_nil _).symm
  case cons a as ih =>
    rw [List.foldlM_cons, Except.bind_eq_ok]
    simp only [Except.bind_eq_ok, Except.pure_eq_ok, ih]
    constructor
    case mp =>
      rintro ⟨_, ⟨out, ho, rfl⟩, outs, rfl, hf⟩
      exact ⟨out :: outs, by rw [List.flatten_cons, List.append_assoc], .cons ho hf⟩
    case mpr =>
      rintro ⟨outs, rfl, hf⟩
      cases hf
      case cons out outs ho hf => exact ⟨_, ⟨out, ho, rfl⟩, outs, by rw [List.flatten_cons, List.append_assoc], hf⟩

theorem foldlM_append_eq_error {f : α → Except ε (List β)} {as : List α} {acc : List β} {e : ε} :
    as.foldlM (fun all a => do return all ++ (← f a)) acc = .error e ↔
      ∃ before a after, as = before ++ a :: after ∧ (∀ b ∈ before, ∃ out, f b = .ok out) ∧ f a = .error e := by
  induction as generalizing acc
  case nil => exact iff_of_false nofun fun ⟨before, _, _, h, _⟩ => by cases before <;> cases h
  case cons a as ih =>
    rw [List.foldlM_cons]
    cases ha : f a
    case error e' =>
      constructor
      case mp =>
        rintro ⟨⟩
        exact ⟨[], a, as, rfl, nofun, ha⟩
      case mpr =>
        rintro ⟨_ | ⟨b, before⟩, a', after, h, hb, he⟩
        · cases h
          rw [← ha, he]
          rfl
        · cases h
          have ⟨_, hb⟩ := hb a List.mem_cons_self
          cases ha.symm.trans hb
    case ok out =>
      refine ih.trans ?_
      constructor
      case mp =>
        rintro ⟨before, a', after, rfl, hb, he⟩
        exact ⟨a :: before, a', after, rfl, List.forall_mem_cons.mpr ⟨⟨out, ha⟩, hb⟩, he⟩
      case mpr =>
        rintro ⟨_ | ⟨b, before⟩, a', after, h, hb, he⟩
        · cases h
          cases ha.symm.trans he
        · cases h
          exact ⟨before, a', after, rfl, (List.forall_mem_cons.mp hb).right, he⟩

-- The listing of some directories is what is listed below the one after what is listed below the other. There is none
-- exactly if one of them can not be looked at, and then the error is that of the first of these.
theorem listArtifacts_exact {one : Bool} {exclude : List PathBuf}
    (hn : ∀ d names, fs.readDir d = some names → names.Nodup) :
    (∀ all, listArtifacts fs roots one exclude = .ok all ↔ ∃ outs, all = outs.flatten ∧
      List.Forall₂ (fun root out => ∃ m, fs.lstat root = .ok m ∧ out.Pairwise (· < ·) ∧
        ∀ p, p ∈ out ↔ Walk.Listed fs (.scanning one exclude) m.dev root p) roots outs) ∧
    ∀ e, listArtifacts fs roots one exclude = .error e ↔ ∃ before root after, roots = before ++ root :: after ∧
      (∀ r ∈ before, ∃ m, fs.lstat r = .ok m) ∧ fs.lstat root = .error e := by
  have hok (root : PathBuf) : (∃ out, walk fs root (.scanning one exclude) = .ok out) ↔ ∃ m, fs.lstat root = .ok m := by
    simp only [walk_eq_ok_iff]
    exact ⟨fun ⟨_, m, h, _⟩ => ⟨m, h⟩, fun ⟨m, h⟩ => ⟨_, m, h, rfl⟩⟩
  unfold listArtifacts
  simp only [foldlM_append_eq_ok, foldlM_append_eq_error, List.nil_append, walk_exact hn, walk_eq_error_iff, ← hok,
    implies_true, and_self]

namespace Walk

-- A directory with a program in it and a symbolic link.
def linked : FileTree where
  lstat p   := .ok ⟨if p = [[0x62]] then .file else .symlink, 1, 0o755⟩
  readDir p := if p = [] then some [[0x6c], [0x62]] else none
  head _    := [0x7f, 0x45, 0x4c, 0x46]

theorem linked_reached (h : Reached linked (.scanning true []) 1 [] dir depth) : dir = [] := by
  rcases h with _ | ⟨_, _, _, _, hs, ht, _, _⟩
  · rfl
  · rw [← Except.ok.inj hs] at ht
    dsimp only at ht
    split at ht <;> cases ht

theorem listArtifacts_exact_linked : listArtifacts linked [[]] true [] = .ok [[[0x62]]] := by
  have hn : ∀ d names, linked.readDir d = some names → names.Nodup := by
    intro d names h
    have hs := Option.ite_none_right_eq_some.mp h
    rw [← Option.some.inj hs.right]
    decide
  refine ((listArtifacts_exact hn).left _).mpr ⟨[[[[0x62]]]], rfl, .cons ⟨_, rfl, List.pairwise_singleton _ _, fun p => ?_⟩ .nil⟩
  rw [List.mem_singleton]
  constructor
  case mp =>
    rintro rfl
    exact .file .root (by decide) rfl (List.mem_cons_of_mem _ (List.mem_singleton_self _)) rfl rfl (by decide)
  case mpr =>
    rintro ⟨hreach, _, hr, hm, hs, ht, _⟩
    rw [linked_reached hreach] at hs ⊢
    rw [← Except.ok.inj hs] at ht
    by_contra hne
    rw [if_neg hne] at ht
    cases ht

end Walk
