import JlrModel.Cbor.Theorems.Exact
import JlrModel.Lib.Sorted
import JlrModel.Measure.Dpkg

-- What is found in an index that was built from the lists of the packages.

namespace Dpkg

open Cbor (utf8)

namespace Db

variable {db : Db} {i : Nat} {p : String}

theorem path_eq_ok {bs : Bytes} : db.path i = .ok bs ↔ ∃ start stop, db.offsets[i]? = some start ∧
    db.offsets[i + 1]? = some stop ∧ (start.toNat ≤ stop.toNat ∧ stop.toNat ≤ db.blob.length) ∧
    (db.blob.drop start.toNat).take (stop.toNat - start.toNat) = bs := by
  simp only [path, Except.bind_eq_ok, Except.okOr_eq_ok, Except.ensure_eq_ok, Except.pure_eq_ok]
  constructor
  · rintro ⟨start, hs, stop, he, _, hb, hp⟩
    exact ⟨start, stop, hs, he, hb, hp⟩
  · rintro ⟨start, stop, hs, he, hb, hp⟩
    exact ⟨start, hs, stop, he, (), hb, hp⟩

theorem probe_eq_ok {bs : Bytes} (h : db.path i = .ok bs) : db.probe p i = .ok (compareOfLessAndEq bs (utf8 p)) := by
  rw [probe, h]
  rfl

theorem find_eq_none (h : BinarySearch.search (db.probe p) 0 db.owners.length = .ok none) : db.find p = .ok none := by
  rw [find, h]
  rfl

theorem find_eq_some (h : BinarySearch.search (db.probe p) 0 db.owners.length = .ok (some i)) (ho : db.owners[i]? = some o) :
    db.find p = .ok (some o) := by
  rw [find, h]
  change some <$> Except.okOr _ db.owners[i]? = _
  rw [ho]
  rfl

-- The one path of an index is found if it is the one that is looked for.
theorem find_single {bs : Bytes} (ho : db.owners = [o]) (hp : db.path 0 = .ok bs) :
    db.find p = .ok (if bs = utf8 p then some o else none) := by
  have hc := probe_eq_ok (p := p) hp
  have hs : BinarySearch.search (db.probe p) 0 db.owners.length = .ok (if bs = utf8 p then some 0 else none) := by
    rw [ho, List.length_singleton, BinarySearch.search, if_pos Nat.zero_lt_one, Nat.zero_add, Nat.div_eq_of_lt (by decide)]
    simp only [hc]
    cases he : compareOfLessAndEq bs (utf8 p)
    case lt =>
      have hn : bs ≠ utf8 p := (compareOfLessAndEq_eq_lt.mp he).ne
      rw [if_neg hn]
      exact BinarySearch.search_empty
    case eq =>
      rw [if_pos ((compareOfLessAndEq_eq_eq le_refl not_le).mp he)]
    case gt =>
      have hn : bs ≠ utf8 p := ((compareOfLessAndEq_eq_gt le_antisymm le_total not_le _ _).mp he).ne'
      rw [if_neg hn]
      exact BinarySearch.search_empty
  split
  case isTrue h => exact find_eq_some (i := 0) (by rw [hs, if_pos h]) (by rw [ho]; rfl)
  case isFalse h => exact find_eq_none (by rw [hs, if_neg h])

variable {files : Files} {cand path : String} {rest : List String} {package : String × String} {idx : UInt32}

theorem ownershipOf_none (h : db.find cand = .ok none) :
    db.ownershipOf files path (cand :: rest) = db.ownershipOf files path rest := by
  rw [ownershipOf, h]
  rfl

-- What a manifest has of a path that was found under one of its names.
def listed (manifest : Manifest) (cand path : String) : Option String :=
  manifest.lookup cand <|> manifest.lookup path <|> manifest.lookup ("/usr" ++ cand)

theorem ownershipOf_some (h : db.find cand = .ok (some idx)) (hp : db.packages[idx.toNat]? = some package) :
    db.ownershipOf files path (cand :: rest) =
      .ok (some ⟨package.1, package.2, listed (db.manifest files package.1).1 cand path⟩,
        (db.manifest files package.1).2) := by
  rw [ownershipOf, h]
  change (Except.okOr _ db.packages[idx.toNat]? >>= _) = _
  rw [hp]
  rfl

variable {pairs : List (String × UInt32)} {packages : List (String × String)}

-- The index after the pairs were added, before the last path is closed.
theorem foldl_push (db : Db) : (pairs.foldl push db).packages = db.packages ∧ (pairs.foldl push db).md5 = db.md5 ∧
    (pairs.foldl push db).blob = db.blob ++ pairs.flatMap (fun pair => utf8 pair.1) ∧
    (pairs.foldl push db).owners = db.owners ++ pairs.map Prod.snd ∧
    (pairs.foldl push db).offsets = db.offsets ++ (List.range pairs.length).map fun i =>
      .ofNat (db.blob.length + ((pairs.take i).flatMap fun pair => utf8 pair.1).length) := by
  induction pairs generalizing db
  case nil => simp
  case cons pair pairs ih =>
    have ⟨hp, hm, hb, ho, hs⟩ := ih (db.push pair)
    refine ⟨hp, hm, ?_, ?_, ?_⟩
    · rw [List.foldl_cons, hb]
      simp [push]
    · rw [List.foldl_cons, ho]
      simp [push]
    · rw [List.foldl_cons, hs, List.length_cons, List.range_succ_eq_map]
      simp [push, Nat.add_assoc]

-- The bytes of the paths, one after the other.
def joined (pairs : List (String × UInt32)) : Bytes :=
  pairs.flatMap fun pair => utf8 pair.1

-- Each offset is the length of the paths before it.
theorem pack_eq : pack packages pairs = {
      packages := packages
      blob     := joined pairs
      offsets  := (List.range (pairs.length + 1)).map fun i => .ofNat (joined (pairs.take i)).length
      owners   := pairs.map Prod.snd
      md5      := ∅ } := by
  have ⟨hp, hm, hb, ho, hs⟩ := @foldl_push pairs { packages, blob := [], offsets := [], owners := [], md5 := ∅ }
  simp only [List.nil_append, List.length_nil, Nat.zero_add] at hb ho hs
  simp only [pack, hp, hm, hb, ho, hs, List.range_succ, List.map_append, List.map_singleton, List.take_length, joined]

theorem length_joined_take_le (i : Nat) : (joined (pairs.take i)).length ≤ (joined pairs).length := by
  conv_rhs => rw [← List.take_append_drop i pairs, joined, List.flatMap_append, List.length_append]
  exact Nat.le_add_right _ _

-- If the offsets do not wrap, each path is where they say.
theorem path_pack (hb : (joined pairs).length < 2 ^ 32) (hi : i < pairs.length) :
    (pack packages pairs).path i = .ok (utf8 pairs[i].1) := by
  have ho (j : Nat) (hj : j < pairs.length + 1) :
      (pack packages pairs).offsets[j]? = some (.ofNat (joined (pairs.take j)).length) := by
    rw [pack_eq, List.getElem?_map, List.getElem?_range hj, Option.map_some]
  have hn (j : Nat) : (UInt32.ofNat (joined (pairs.take j)).length).toNat = (joined (pairs.take j)).length :=
    UInt32.toNat_ofNat_of_lt' (lt_of_le_of_lt (length_joined_take_le j) hb)
  have hs : joined (pairs.take (i + 1)) = joined (pairs.take i) ++ utf8 pairs[i].1 := by
    rw [joined, List.take_succ_eq_append_getElem hi, List.flatMap_append, List.flatMap_singleton]
    rfl
  have hj : joined pairs = joined (pairs.take (i + 1)) ++ joined (pairs.drop (i + 1)) := by
    rw [joined, joined, joined, ← List.flatMap_append, List.take_append_drop]
  refine path_eq_ok.mpr ⟨_, _, ho i (by omega), ho (i + 1) (by omega), ?_, ?_⟩
  · rw [hn, hn, pack_eq]
    exact ⟨by rw [hs, List.length_append]; omega, length_joined_take_le _⟩
  · rw [hn, hn, pack_eq]
    dsimp only
    rw [hj, hs, List.append_assoc, List.drop_left, List.length_append, Nat.add_sub_cancel_left, List.take_left]

-- In an index with increasing paths, the owner of a path is found.
theorem find_pack (hb : (joined pairs).length < 2 ^ 32) (hs : pairs.Pairwise fun a b => utf8 a.1 < utf8 b.1)
    (p : String) : (pack packages pairs).find p = .ok ((pairs.find? (·.1 = p)).map Prod.snd) := by
  -- What the path at a position is compared to.
  let cmp (i : Nat) : Ordering := (pairs[i]?.map fun pair => compareOfLessAndEq (utf8 pair.1) (utf8 p)).getD .eq
  have hcmp {i : Nat} (hi : i < pairs.length) : cmp i = compareOfLessAndEq (utf8 pairs[i].1) (utf8 p) := by
    simp only [cmp, List.getElem?_eq_getElem hi, Option.map_some, Option.getD_some]
  have hlt {i j : Nat} (hij : i < j) (hj : j < pairs.length) : utf8 pairs[i].1 < utf8 pairs[j].1 :=
    List.pairwise_iff_getElem.mp hs i j (by omega) hj hij
  have hp (i : Nat) (_ : 0 ≤ i) (hi : i < pairs.length) : (pack packages pairs).probe p i = .ok (cmp i) := by
    rw [hcmp hi]
    exact probe_eq_ok (path_pack hb hi)
  have hl : (pack packages pairs).owners.length = pairs.length := by rw [pack_eq, List.length_map]
  have ⟨r, hr⟩ := BinarySearch.search_total fun i h₀ hi => ⟨_, hp i h₀ hi⟩
  cases r
  case none =>
    have hm := BinarySearch.search_missed hp
      (fun i j _ hij hj h => by
        rw [hcmp hj, compareOfLessAndEq_eq_lt] at h
        rw [hcmp (hij.trans hj), compareOfLessAndEq_eq_lt]
        exact (hlt hij hj).trans h)
      (fun i j _ hij hj h => by
        rw [hcmp (hij.trans hj), compareOfLessAndEq_eq_gt le_antisymm le_total not_le] at h
        rw [hcmp hj, compareOfLessAndEq_eq_gt le_antisymm le_total not_le]
        exact h.trans (hlt hij hj)) hr
    have hf : pairs.find? (·.1 = p) = none := by
      refine List.find?_eq_none.mpr fun pair hpair => ?_
      have ⟨i, hi, he⟩ := List.getElem_of_mem hpair
      have hn := hm i (Nat.zero_le _) hi
      rw [hcmp hi, he] at hn
      exact fun h => hn ((compareOfLessAndEq_eq_eq le_refl not_le).mpr (congrArg utf8 (of_decide_eq_true h)))
    rw [find_eq_none (hl ▸ hr), hf]
    rfl
  case some i =>
    have ⟨_, hi, he⟩ := BinarySearch.search_found hr
    rw [hp i (Nat.zero_le _) hi, hcmp hi, Except.ok.injEq, compareOfLessAndEq_eq_eq le_refl not_le] at he
    have hf : pairs.find? (·.1 = p) = some pairs[i] := by
      refine List.find?_eq_some_iff_getElem.mpr ⟨decide_eq_true (Cbor.utf8_inj he), i, hi, rfl, fun j hj => ?_⟩
      have hn : pairs[j].1 ≠ p := fun h => (hlt hj hi).ne (by rw [h, he])
      simpa using hn
    have ho : (pack packages pairs).owners[i]? = some pairs[i].2 := by
      rw [pack_eq, List.getElem?_map, List.getElem?_eq_getElem hi, Option.map_some]
    rw [find_eq_some (hl ▸ hr) ho, hf]
    rfl

end Db

-- Different paths have different bytes.
theorem claimed_iff (a b : String × UInt32) : a.1 ≠ b.1 ↔ utf8 a.1 ≠ utf8 b.1 :=
  ⟨mt Cbor.utf8_inj, mt (congrArg utf8)⟩

theorem find_distinct {pairs : List (String × UInt32)} {p : String} :
    (distinct pairs).find? (·.1 = p) = pairs.find? (·.1 = p) := by
  have hq (pair : String × UInt32) : decide (pair.1 = p) ↔ utf8 pair.1 = utf8 p := by
    rw [decide_eq_true_iff]
    exact ⟨congrArg utf8, Cbor.utf8_inj⟩
  rw [distinct, Sorted.find_destutter_key claimed_iff hq, Sorted.find_mergeSort_key hq]

theorem strict_distinct {pairs : List (String × UInt32)} :
    (distinct pairs).Pairwise fun a b => utf8 a.1 < utf8 b.1 :=
  Sorted.strict_key claimed_iff

variable {pairs : List (String × UInt32)} {packages : List (String × String)} {entry : Entry} {p name : String}

theorem mem_distinct : p ∈ (distinct pairs).map Prod.fst ↔ p ∈ pairs.map Prod.fst := by
  have hm (pairs : List (String × UInt32)) : p ∈ pairs.map Prod.fst ↔ pairs.find? (·.1 = p) ≠ none := by
    rw [Ne, List.find?_eq_none, List.mem_map]
    simp
  rw [hm, hm, find_distinct]

-- The paths of an index are as long together as those that were claimed, each counted once.
theorem length_joined_distinct :
    (Db.joined (distinct pairs)).length = ((pairs.map Prod.fst).dedup.map Text.len).sum := by
  have hn : ((distinct pairs).map Prod.fst).Nodup := by
    rw [List.Nodup, List.pairwise_map]
    exact strict_distinct.imp fun h he => h.ne (congrArg utf8 he)
  have hp : ((distinct pairs).map Prod.fst).Perm (pairs.map Prod.fst).dedup := by
    refine (List.perm_ext_iff_of_nodup hn (List.nodup_dedup _)).mpr fun p => ?_
    rw [mem_distinct, List.mem_dedup]
  have hu (s : String) : (utf8 s).length = Text.len s := rfl
  rw [← (hp.map Text.len).sum_nat, Db.joined, List.length_flatMap, List.map_map]
  rfl

-- The number of a package: the last one that has the name.
def installedIndex (packages : List (String × String)) (name : String) : Option Nat :=
  (List.range packages.length).reverse.find? fun i => packages[i]?.map Prod.fst = some name

theorem installedIndex_append {package : String × String} : installedIndex (packages ++ [package]) name =
    if package.1 = name then some packages.length else installedIndex packages name := by
  have hl : (packages ++ [package])[packages.length]?.map Prod.fst = some package.1 := by simp
  have hf : (List.range packages.length).reverse.find? (fun i => (packages ++ [package])[i]?.map Prod.fst = some name) =
      installedIndex packages name := by
    rw [installedIndex, ← List.head?_filter, ← List.head?_filter]
    refine congrArg List.head? (List.filter_congr fun i hi => ?_)
    rw [List.getElem?_append_left (List.mem_range.mp (List.mem_reverse.mp hi))]
  rw [installedIndex, List.length_append, List.length_singleton, List.range_succ, List.reverse_append,
    List.reverse_singleton, List.singleton_append, List.find?_cons, hf, hl]
  simp only [Option.some.injEq]
  split <;> simp_all

theorem lookup_indexOf : (indexOf packages).lookup name = (installedIndex packages name).map UInt32.ofNat := by
  induction packages using List.reverseRecOn
  case nil => rfl
  case append_singleton packages package ih =>
    have hi : indexOf (packages ++ [package]) = (indexOf packages).insert package.1 (.ofNat packages.length) := by
      rw [indexOf, List.zipIdx_append, List.foldl_append, ← indexOf]
      rw [Nat.zero_add]
      rfl
    rw [hi, installedIndex_append]
    split
    case isTrue h => rw [← h, AList.lookup_insert, Option.map_some]
    case isFalse h => rw [AList.lookup_insert_ne (Ne.symm h), ih]

-- The package of the list that a file of the directory is, if it has the path.
def Entry.owner (packages : List (String × String)) (p : String) (entry : Entry) : Option UInt32 := do
  let name ← entry.name.bind (Text.stripSuffix ".list")
  let i ← installedIndex packages name
  if p ∈ Text.lines (entry.content.toOption.getD "") then some (.ofNat i) else none

-- The package of the first list that has the path.
def firstOwner (packages : List (String × String)) (entries : List Entry) (p : String) : Option UInt32 :=
  if Text.startsWith p "/" ∧ p ≠ "/." then entries.findSome? (Entry.owner packages p) else none

theorem find_line {lines : List String} : lines.find? (· = p) = if p ∈ lines then some p else none := by
  induction lines
  case nil => rfl
  case cons line lines ih =>
    by_cases h : line = p
    case pos => simp [h]
    case neg =>
      rw [List.find?_cons_of_neg (by simpa using h), ih]
      simp [Ne.symm h]

theorem find_claims : ((entry.claims (indexOf packages)).find? (·.1 = p)).map Prod.snd =
    if isPath p then entry.owner packages p else none := by
  rw [Entry.claims, Entry.owner]
  cases entry.name.bind (Text.stripSuffix ".list")
  case none => simp
  case some name =>
    simp only [Option.bind_eq_bind, Option.bind_some, lookup_indexOf]
    cases installedIndex packages name
    case none => simp
    case some i =>
      simp only [Option.map_some, Option.bind_some, List.find?_map, Option.map_map]
      generalize Text.lines (entry.content.toOption.getD "") = lines
      have hf : (lines.filter isPath).find? ((fun pair : String × UInt32 => decide (pair.1 = p)) ∘ (·, .ofNat i)) =
          if p ∈ lines.filter isPath then some p else none := find_line
      rw [hf]
      by_cases hp : isPath p
      case pos => by_cases hm : p ∈ lines <;> simp [hp, hm]
      case neg => simp [hp]

theorem find_all_claims {entries : List Entry} :
    ((entries.flatMap (Entry.claims (indexOf packages))).find? (·.1 = p)).map Prod.snd =
      firstOwner packages entries p := by
  have hs : (Option.map Prod.snd ∘ fun entry : Entry => (entry.claims (indexOf packages)).find? (·.1 = p)) =
      fun entry => if isPath p then entry.owner packages p else none :=
    funext fun _ => find_claims
  rw [List.find?_flatMap, List.map_findSome?, hs, firstOwner]
  by_cases hp : Text.startsWith p "/" ∧ p ≠ "/."
  case pos => simp only [isPath, hp, and_self, decide_true, if_true, ne_eq, not_false_eq_true]
  case neg => simp [isPath, if_neg hp]

-- What is found is the package of the first list that has the path.
theorem lookup_is_first_list (status : String) (entries : List Entry) (md5sums : String → Except IoError String)
    (h : (((entries.flatMap (Entry.claims (indexOf (Dpkg.packages status)))).map Prod.fst).dedup.map Text.len).sum <
      2 ^ 32) :
    ∃ db, Db.build ⟨.ok status, .ok (entries.map .ok), md5sums⟩ = .ok db ∧
      ∀ p, db.find p = .ok (firstOwner (Dpkg.packages status) entries p) := by
  rw [← length_joined_distinct] at h
  refine ⟨.pack (Dpkg.packages status) (distinct (entries.flatMap (Entry.claims (indexOf (Dpkg.packages status))))), ?_,
    fun p => ?_⟩
  · have hm : (entries.map (.ok : Entry → Except IoError Entry)).mapM id = .ok entries :=
      Except.mapM_map_eq_ok fun _ _ => rfl
    simp only [Db.build, bind, Except.bind, hm]
    rfl
  · rw [Db.find_pack h strict_distinct, find_distinct, find_all_claims]

namespace Listed

def status : String :=
  "Package: a\nStatus: install ok installed\nVersion: 1\n\nPackage: b\nStatus: install ok installed\nVersion: 2\n"

-- Both packages list `/x`, and the list of the second one is read first.
def entries : List Entry :=
  [⟨some "b.list", .ok "/.\n/x\n"⟩, ⟨some "a.list", .ok "/x\n/y\n"⟩]

theorem lookup_is_first_list_twice :
    ∃ db, Db.build ⟨.ok status, .ok (entries.map .ok), fun _ => .error "not found"⟩ = .ok db ∧
      db.find "/x" = .ok (some 1) ∧ db.find "/y" = .ok (some 0) ∧ db.find "/." = .ok none := by
  have hp : Dpkg.packages status = [("a", "1"), ("b", "2")] := by decide +kernel
  have ⟨db, hb, hf⟩ := lookup_is_first_list status entries (fun _ => .error "not found") (by rw [hp]; decide)
  rw [hp] at hf
  exact ⟨db, hb, (hf "/x").trans rfl, (hf "/y").trans rfl, (hf "/.").trans rfl⟩

end Listed

end Dpkg
