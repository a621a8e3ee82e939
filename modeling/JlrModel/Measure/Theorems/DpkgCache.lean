import JlrModel.Cbor.Theorems.Length
import JlrModel.Lib.Spelling
import JlrModel.Measure.Theorems.Dpkg

-- What the cache of the package index gives back, and that whatever it gives back can be searched.

namespace Dpkg

open Cbor (utf8 fromUtf8)
open Layout

variable {data rest : Bytes} {fp : Bytes.Fixed 32} {db db' : Db} {files : Files} {n i : Nat} {p : String}

theorem exact_text : Exact (readText n) (fun s => (utf8 s).length = n) utf8 := by
  refine ⟨?_⟩
  intro data s rest
  simp only [readText, bind_eq_some, take_eq_some]
  constructor
  · rintro ⟨bs, _, ⟨rfl, rfl⟩, h⟩
    cases hs : fromUtf8 bs
    case none =>
      rw [hs] at h
      contradiction
    case some t =>
      rw [hs] at h
      obtain ⟨rfl, rfl⟩ := pure_eq_some.mp h
      rw [Cbor.fromUtf8_eq_some_iff.mp hs]
      exact ⟨rfl, rfl⟩
  · rintro ⟨rfl, rfl⟩
    refine ⟨utf8 s, rest, ⟨rfl, rfl⟩, ?_⟩
    rw [Cbor.fromUtf8_eq_some_iff.mpr rfl]
    rfl

-- A package whose lengths are written whole.
def PackageFits (package : String × String) : Prop :=
  (utf8 package.1).length < 256 ^ 2 ∧ (utf8 package.2).length < 256 ^ 2

theorem exact_package : Exact readPackage PackageFits packageBytes := by
  refine ⟨?_⟩
  intro data package rest
  simp only [readPackage, bind_eq_some, exact_number.iff, exact_text.iff, pure_eq_some]
  constructor
  · rintro ⟨_, _, ⟨hn, rfl⟩, _, _, ⟨hv, rfl⟩, n, _, ⟨rfl, rfl⟩, v, _, ⟨rfl, rfl⟩, rfl, rfl⟩
    exact ⟨⟨hn, hv⟩, by simp only [packageBytes, List.append_assoc]⟩
  · rintro ⟨⟨hn, hv⟩, rfl⟩
    exact ⟨_, _, ⟨hn, by simp only [packageBytes, List.append_assoc]⟩, _, _, ⟨hv, rfl⟩, package.1, _, ⟨rfl, rfl⟩,
      package.2, _, ⟨rfl, rfl⟩, rfl, rfl⟩

theorem exact_u32 : Exact readU32 (fun _ => True) u32Bytes := by
  refine ⟨?_⟩
  intro data o rest
  simp only [readU32, bind_eq_some, exact_number.iff, pure_eq_some, true_and]
  constructor
  · rintro ⟨n, _, ⟨hn, rfl⟩, rfl, rfl⟩
    rw [u32Bytes, UInt32.toNat_ofNat_of_lt' hn]
  · rintro rfl
    exact ⟨o.toNat, rest, ⟨o.toNat_lt, rfl⟩, UInt32.ofNat_toNat, rfl⟩

theorem exact_owner : Exact (readOwner n) (·.toNat < n) u32Bytes := by
  refine ⟨?_⟩
  intro data o rest
  simp only [readOwner, bind_eq_some, exact_u32.iff, check_eq_some, pure_eq_some, true_and]
  constructor
  · rintro ⟨_, _, rfl, _, _, ⟨h, rfl⟩, rfl, rfl⟩
    exact ⟨h, rfl⟩
  · rintro ⟨h, rfl⟩
    exact ⟨o, rest, rfl, (), rest, ⟨h, rfl⟩, rfl, rfl⟩

namespace Db

-- The counts and lengths of an index are below the bounds of the fields they are written to.
structure Fits (db : Db) : Prop where
  count    : db.packages.length < 256 ^ 4
  packages : ∀ package ∈ db.packages, PackageFits package
  paths    : db.owners.length < 256 ^ 4

-- What is checked of an index that is read.
structure Valid (db : Db) : Prop where
  length  : db.offsets.length = db.owners.length + 1
  owners  : ∀ o ∈ db.owners, o.toNat < db.packages.length
  first   : db.offsets.head? = some 0
  last    : db.offsets.getLast?.map UInt32.toNat = some db.blob.length
  ordered : db.offsets.IsChain (· ≤ ·)

end Db

theorem get_eq_some {bs : Bytes} : (get : Read Bytes) data = some (bs, rest) ↔ data = bs ∧ data = rest := by
  change some (data, data) = some (bs, rest) ↔ _
  rw [Option.some_inj, Prod.mk.injEq]

-- A cache is accepted exactly if it was written for an index that fits.
theorem readCache_eq_some_iff :
    readCache fp data = some db ↔ db.Fits ∧ db.Valid ∧ db.md5 = ∅ ∧ data = db.writeCache fp := by
  rw [readCache, Option.map_eq_some_iff, Prod.exists]
  simp only [readFields, bind_eq_some, take_eq_some, check_eq_some, exact_number.iff, (exact_times exact_package).iff,
    (exact_times exact_u32).iff, (exact_times exact_owner).iff, get_eq_some, pure_eq_some]
  constructor
  · rintro ⟨_, _, ⟨_, _, ⟨_, d₁⟩, _, _, ⟨hm, e₁⟩, _, _, ⟨_, d₂⟩, _, _, ⟨hs, e₂⟩, h⟩, e⟩
    obtain ⟨_, _, ⟨hc, d₃⟩, packages, _, ⟨⟨rfl, hp⟩, d₄⟩, _, _, ⟨hn, d₅⟩, h⟩ := h
    obtain ⟨offsets, _, ⟨⟨hl, _⟩, d₆⟩, owners, _, ⟨⟨rfl, ho⟩, d₇⟩, blob, _, ⟨d₈, e₃⟩, h⟩ := h
    obtain ⟨_, _, ⟨hf, _⟩, _, _, ⟨hb, _⟩, _, _, ⟨hi, _⟩, hd, _⟩ := h
    rw [← e, ← hd]
    refine ⟨⟨hc, hp, hn⟩, ⟨hl, ho, hf, hb, hi⟩, rfl, ?_⟩
    simp only [Db.writeCache, List.append_assoc, d₁, hm, e₁, d₂, hs, e₂, d₃, d₄, d₅, d₆, d₇, d₈]
  · rintro ⟨hf, hv, hm, rfl⟩
    simp only [Db.writeCache, List.append_assoc]
    exact ⟨db, db.blob, ⟨CACHE_MAGIC, _, ⟨rfl, rfl⟩, (), _, ⟨rfl, rfl⟩, fp.val, _, ⟨fp.property, rfl⟩, (), _, ⟨rfl, rfl⟩,
      _, _, ⟨hf.count, rfl⟩, db.packages, _, ⟨⟨rfl, hf.packages⟩, rfl⟩, _, _, ⟨hf.paths, rfl⟩, db.offsets, _,
      ⟨⟨hv.length, fun _ _ => trivial⟩, rfl⟩, db.owners, _, ⟨⟨rfl, hv.owners⟩, rfl⟩, db.blob, _, ⟨rfl, rfl⟩, (), _,
      ⟨hv.first, rfl⟩, (), _, ⟨hv.last, rfl⟩, (), _, ⟨hv.ordered, rfl⟩, hm ▸ rfl, rfl⟩, rfl⟩

namespace Db

namespace Valid

-- Each path of a valid index is inside the blob.
theorem bounds (h : db.Valid) (hi : i < db.owners.length) : ∃ start stop, db.offsets[i]? = some start ∧
    db.offsets[i + 1]? = some stop ∧ start.toNat ≤ stop.toNat ∧ stop.toNat ≤ db.blob.length := by
  have hl := h.length
  have ho : db.offsets.Pairwise (· ≤ ·) := List.isChain_iff_pairwise.mp h.ordered
  have mono {j k : Nat} (hj : j ≤ k) (hk : k < db.offsets.length) : db.offsets[j].toNat ≤ db.offsets[k].toNat := by
    obtain rfl | hj := hj.eq_or_lt
    · exact Nat.le_refl _
    · exact List.pairwise_iff_getElem.mp ho _ _ _ hk hj
  have he : db.offsets[db.owners.length].toNat = db.blob.length := by
    have hb := h.last
    rw [List.getLast?_eq_getElem?, hl, Nat.add_sub_cancel, List.getElem?_eq_getElem (by omega), Option.map_some] at hb
    exact Option.some.inj hb
  exact ⟨_, _, List.getElem?_eq_getElem (by omega), List.getElem?_eq_getElem (by omega), mono (by omega) (by omega),
    he ▸ mono hi (by omega)⟩

theorem path_ok (h : db.Valid) (hi : i < db.owners.length) : ∃ path, db.path i = .ok path := by
  have ⟨start, stop, hs, he, hb⟩ := h.bounds hi
  exact ⟨_, path_eq_ok.mpr ⟨start, stop, hs, he, hb, rfl⟩⟩

-- A lookup ends, and what it finds is the number of a package.
theorem find_ok (h : db.Valid) (p : String) : ∃ r, db.find p = .ok r ∧ ∀ idx ∈ r, idx.toNat < db.packages.length := by
  have ht (i : Nat) (_ : 0 ≤ i) (hi : i < db.owners.length) : ∃ o, db.probe p i = .ok o := by
    have ⟨path, hp⟩ := h.path_ok hi
    exact ⟨_, probe_eq_ok hp⟩
  have ⟨r, hr⟩ := BinarySearch.search_total ht
  cases r
  case none => exact ⟨none, find_eq_none hr, nofun⟩
  case some i =>
    have hi := (BinarySearch.search_found hr).right.left
    refine ⟨some db.owners[i], find_eq_some hr (List.getElem?_eq_getElem hi), ?_⟩
    rintro _ ⟨⟩
    exact h.owners _ (List.getElem_mem hi)

-- Only the manifests that were read are kept.
theorem manifest (h : db.Valid) : (db.manifest files p).2.Valid := by
  rw [Db.manifest]
  split
  case h_1 => exact h
  case h_2 => exact ⟨h.length, h.owners, h.first, h.last, h.ordered⟩

end Valid

-- What the packages are for the measurement of a file.
def view (files : Files) (db : Db) : DpkgDb where
  find cand             := (db.find cand).toOption.join.bind fun idx => db.packages[idx.toNat]?
  manifest package path := (db.manifest files package).1.lookup path

theorem manifest_fst : (db.manifest files p).1 = (db.md5.lookup p).getD (readManifest files p) := by
  rw [manifest]
  cases db.md5.lookup p <;> rfl

-- A manifest that was read once is what it would be if it was read again.
theorem manifest_manifest (files : Files) (db : Db) (p q : String) :
    ((db.manifest files p).2.manifest files q).1 = (db.manifest files q).1 := by
  rw [manifest_fst, manifest_fst, manifest]
  cases hp : db.md5.lookup p
  case some => rfl
  case none =>
    by_cases h : q = p
    case pos =>
      subst h
      simp [hp]
    case neg => simp [AList.lookup_insert_ne h]

theorem view_manifest : (db.manifest files p).2.view files = db.view files := by
  have hf : (db.manifest files p).2.find = db.find ∧ (db.manifest files p).2.packages = db.packages := by
    rw [manifest]
    split
    · exact ⟨rfl, rfl⟩
    · exact ⟨rfl, rfl⟩
  simp only [view, hf, manifest_manifest]

namespace Valid

theorem ownershipOf_refines (h : db.Valid) (files : Files) (p : String) (cands : List String) :
    ∃ db', db'.Valid ∧ db'.view files = db.view files ∧
      db.ownershipOf files p cands = .ok (cands.findSome? fun cand => ((db.view files).find cand).map
        fun package => ⟨package.1, package.2, listed (db.manifest files package.1).1 cand p⟩, db') := by
  induction cands
  case nil => exact ⟨db, h, rfl, rfl⟩
  case cons cand rest ih =>
    obtain ⟨r, hr, hi⟩ := h.find_ok cand
    cases r
    case none =>
      have hv : (db.view files).find cand = none := by simp [view, hr, Except.toOption]
      rw [ownershipOf_none hr, List.findSome?_cons, hv]
      exact ih
    case some idx =>
      obtain ⟨package, hp⟩ : ∃ package, db.packages[idx.toNat]? = some package :=
        ⟨_, List.getElem?_eq_getElem (hi idx rfl)⟩
      have hv : (db.view files).find cand = some package := by simp [view, hr, hp, Except.toOption]
      rw [ownershipOf_some hr hp, List.findSome?_cons, hv]
      exact ⟨_, h.manifest, view_manifest, rfl⟩

-- Each lookup gives the owner of the path, however many manifests were read before.
theorem ownership_refines (h : db.Valid) (files : Files) (p : String) :
    ∃ db', db'.Valid ∧ db'.view files = db.view files ∧
      db.ownership files p = .ok ((db.view files).ownership p, db') :=
  h.ownershipOf_refines files p _

end Valid

end Db

-- Whatever bytes are accepted as a cache, no lookup in it is out of range.
theorem lookups_in_range (fp : Bytes.Fixed 32) (data : Bytes) (db : Db) (h : readCache fp data = some db) :
    (∀ i < db.owners.length, ∃ start stop, db.offsets[i]? = some start ∧ db.offsets[i + 1]? = some stop ∧
      start.toNat ≤ stop.toNat ∧ stop.toNat ≤ db.blob.length) ∧
    (∀ p, ∃ r, db.find p = .ok r) ∧
    ∀ files p, ∃ r, db.ownership files p = .ok r := by
  have ⟨_, hv, _⟩ := readCache_eq_some_iff.mp h
  refine ⟨fun i hi => hv.bounds hi, fun p => ?_, fun files p => ?_⟩
  · have ⟨r, hr, _⟩ := hv.find_ok p
    exact ⟨r, hr⟩
  · have ⟨_, _, _, hr⟩ := hv.ownership_refines files p
    exact ⟨_, hr⟩

namespace Cached

def zeros : Bytes.Fixed 32 :=
  Bytes.fixed 32 0

-- The package `a` has the path `/x`.
def small : Db where
  packages := [("a", "1")]
  blob     := [0x2f, 0x78]
  offsets  := [0, 2]
  owners   := [0]
  md5      := ∅

theorem fits_small : small.Fits where
  count    := by decide
  packages := List.forall_mem_singleton.mpr ⟨by decide, by decide⟩
  paths    := by decide

theorem valid_small : small.Valid where
  length  := rfl
  owners  := List.forall_mem_singleton.mpr (by decide)
  first   := rfl
  last    := rfl
  ordered := by decide

theorem lookups_in_range_small :
    readCache zeros (small.writeCache zeros) = some small ∧ ∃ r, small.find "/x" = .ok r :=
  have h := readCache_eq_some_iff.mpr ⟨fits_small, valid_small, rfl, rfl⟩
  ⟨h, (lookups_in_range zeros (small.writeCache zeros) small h).right.left "/x"⟩

end Cached

namespace Db

-- The fields are read back one after the other.
theorem Fits.eq_of_writeCache (h : db.Fits) (h' : db'.Fits) (hl : db.offsets.length = db.owners.length + 1)
    (hl' : db'.offsets.length = db'.owners.length + 1) (hm : db.md5 = db'.md5)
    (he : db.writeCache fp = db'.writeCache fp) : db = db' := by
  simp only [writeCache, List.append_assoc, List.append_cancel_left_eq] at he
  have ⟨hc, he⟩ := exact_number.unique h.count h'.count he
  have ⟨hp, he⟩ := (exact_times exact_package).unique ⟨rfl, h.packages⟩ ⟨hc.symm, h'.packages⟩ he
  have ⟨hn, he⟩ := exact_number.unique h.paths h'.paths he
  have ⟨hs, he⟩ := (exact_times exact_u32).unique ⟨hl, fun _ _ => trivial⟩ ⟨hn ▸ hl', fun _ _ => trivial⟩ he
  have ⟨ho, hb⟩ := (exact_times exact_u32).unique ⟨rfl, fun _ _ => trivial⟩ ⟨hn.symm, fun _ _ => trivial⟩ he
  cases db
  cases db'
  simp_all

end Db

theorem build_ok (h : Db.build files = .ok db) : ∃ packages pairs, db = Db.pack packages pairs := by
  simp only [Db.build, Except.bind_eq_ok, Except.pure_eq_ok] at h
  have ⟨status, _, _, _, entries, _, hd⟩ := h
  exact ⟨_, _, hd.symm⟩

-- What is read from the cache that was written for an index whose counts and lengths fit is this index, or nothing, and
-- so the index is the same through the cache.
theorem cache_faithful (files : Files) (db : Db) (h : Db.build files = .ok db) (hf : db.Fits) (fp : Bytes.Fixed 32) :
    (readCache fp (db.writeCache fp) = none ∨ readCache fp (db.writeCache fp) = some db) ∧
    Prod.fst <$> loadCached files (.ok fp) (.ok (db.writeCache fp)) = .ok db := by
  have hc : readCache fp (db.writeCache fp) = none ∨ readCache fp (db.writeCache fp) = some db := by
    cases hr : readCache fp (db.writeCache fp)
    case none => exact .inl rfl
    case some db' =>
      have ⟨hf', hv, hm, hw⟩ := readCache_eq_some_iff.mp hr
      have ⟨packages, pairs, hd⟩ := build_ok h
      have hl : db.offsets.length = db.owners.length + 1 := by simp [hd, Db.pack_eq]
      have hm' : db.md5 = ∅ := by rw [hd, Db.pack_eq]
      exact .inr (congrArg some (hf'.eq_of_writeCache hf hv.length hl (hm.trans hm'.symm) hw.symm))
  refine ⟨hc, ?_⟩
  obtain hr | hr := hc
  · simp only [loadCached, Except.toOption, Option.bind_some, hr, h, bind, Except.bind]
    rfl
  · simp only [loadCached, Except.toOption, Option.bind_some, hr, bind, Except.bind]
    rfl

theorem stanzas_append {l rest : List Char} (h : '\n' ∉ l) :
    stanzas (l ++ rest) = (stanzas rest).modifyHead (l ++ ·) := by
  induction l
  case nil => exact (congrFun List.modifyHead_id (stanzas rest)).symm
  case cons c l ih =>
    have ⟨hc, hl⟩ := not_or.mp (List.mem_cons.not.mp h)
    rw [List.cons_append, stanzas, ih hl, List.modifyHead_modifyHead]
    · rfl
    · exact fun _ he => absurd he.symm hc

theorem read_version (v : String) : Stanza.read {} ("Version: " ++ v) = { version := some (Text.trim v) } := by
  have hn {s : String} {c : Char} {l : List Char} (hs : s.toList = c :: l) (hc : c ≠ 'V') :
      Text.stripPrefix s ("Version: " ++ v) = none := by
    refine if_neg fun h => hc ?_
    rw [hs, String.toList_append] at h
    exact (List.cons_prefix_cons.mp h).left
  rw [Stanza.read, hn rfl (by decide), hn rfl (by decide), Text.stripPrefix_append]

-- The packages of a stanza that starts with a version.
theorem packages_version {v rest : List Char} {lines : List String} (hn : '\n' ∉ v)
    (hh : ∀ c ∈ v.head?, Text.isWhitespace c = false) (hl : ∀ c ∈ v.getLast?, Text.isWhitespace c = false)
    (hv : v ≠ []) (hs : stanzas ('\n' :: rest) = ['\n' :: rest]) (hp : Text.lines (.ofList rest) = lines) :
    packages (.ofList ("Version: ".toList ++ v ++ '\n' :: rest)) =
      (lines.foldl Stanza.read { version := some (.ofList v) }).package.toList := by
  have hn : '\n' ∉ "Version: ".toList ++ v := fun h => (List.mem_append.mp h).elim (by decide) hn
  have hr : ("Version: ".toList ++ v).getLast? ≠ some '\r' := by
    rw [List.getLast?_append_of_ne_nil _ hv]
    exact fun h => nomatch (hl _ h)
  have ht : Text.trim (.ofList ([] ++ v ++ [])) = .ofList v := Text.trim_append nofun nofun hh hl hv
  rw [List.nil_append, List.append_nil] at ht
  rw [packages, String.toList_ofList, stanzas_append hn, hs]
  simp only [List.modifyHead_cons, List.filterMap_cons, List.filterMap_nil]
  rw [Text.lines_append hn hr, hp, List.foldl_cons, String.ofList_append, String.ofList_toList, read_version, ht]
  cases (lines.foldl Stanza.read { version := some (.ofList v) }).package <;> rfl

namespace Cached

-- One package, of any version, with one path.
def host (v : List Char) : Files where
  status    := .ok (.ofList ("Version: ".toList ++ v ++ '\n' :: "Package: a\nStatus: install ok installed".toList))
  info      := .ok [.ok ⟨some "a.list", .ok "/x\n"⟩]
  md5sums _ := .error "not found"

theorem build_host {v : List Char} (hn : '\n' ∉ v) (hh : ∀ c ∈ v.head?, Text.isWhitespace c = false)
    (hl : ∀ c ∈ v.getLast?, Text.isWhitespace c = false) (hv : v ≠ []) :
    Db.build (host v) = .ok { small with packages := [("a", .ofList v)] } := by
  have hs : Text.lines (.ofList "Package: a\nStatus: install ok installed".toList) =
      ["Package: a", "Status: install ok installed"] := by decide
  have hp := packages_version hn hh hl hv (by decide) hs
  have hb (status : String) : Db.build { host v with status := .ok status } = .ok (.pack (packages status)
      (distinct (Entry.claims (indexOf (packages status)) ⟨some "a.list", .ok "/x\n"⟩ ++ []))) := rfl
  have hc : Entry.claims (indexOf [("a", .ofList v)]) ⟨some "a.list", .ok "/x\n"⟩ = [("/x", 0)] := rfl
  have hd : distinct [("/x", 0)] = [("/x", 0)] := by rw [distinct, List.mergeSort_singleton, List.destutter_singleton]
  refine (hb _).trans ?_
  rw [hp]
  change Except.ok (Db.pack [("a", .ofList v)] (distinct (Entry.claims (indexOf [("a", .ofList v)]) _ ++ []))) = _
  rw [hc, List.append_nil, hd, Db.pack_eq]
  rfl

theorem cache_faithful_small : Db.build (host ['1']) = .ok small ∧
    ∀ fp, readCache fp (small.writeCache fp) = none ∨ readCache fp (small.writeCache fp) = some small :=
  have h : Db.build (host ['1']) = .ok small :=
    build_host (by decide) (by rintro _ ⟨⟩; decide) (by rintro _ ⟨⟩; decide) (List.cons_ne_nil _ _)
  ⟨h, fun fp => (cache_faithful (host ['1']) small h fits_small fp).left⟩

end Cached

namespace Forged

-- A count of one path, its two offsets and its owner, as characters.
def fields : List Char :=
  ['\x01', '\x00', '\x00', '\x00', '\x00', '\x00', '\x00', '\x00', '\x02', '\x00', '\x01', '\x00',
    '\x00', '\x00', '\x00', '\x00']

def padding : List Char :=
  List.replicate 65520 'x'

-- A version of 65537 bytes, of which the length of the cache says that it is one.
def version : String :=
  .ofList ('1' :: fields ++ padding)

def built : Db :=
  { Cached.small with packages := [("a", version)] }

def pad : Bytes :=
  List.replicate 65520 0x78

-- The index itself, which is taken for the end of its only path.
def tail : Bytes :=
  Layout.le 4 1 ++ Layout.le 4 0 ++ Layout.le 4 2 ++ Layout.le 4 0 ++ [0x2f, 0x78]

-- What is read instead. The fields behind the first byte of the version are taken for those of the index.
def misread : Db where
  packages := [("a", "1")]
  blob     := pad ++ tail
  offsets  := [0, 65538]
  owners   := [0]
  md5      := ∅

theorem utf8_replicate {n : Nat} : utf8 (.ofList (List.replicate n 'x')) = List.replicate n 0x78 := by
  induction n
  case zero => rfl
  case succ n ih =>
    rw [List.replicate_succ, String.ofList_cons, Cbor.utf8_append, ih]
    rfl

theorem utf8_version : utf8 version = [0x31] ++ Layout.le 4 1 ++ Layout.le 4 0 ++ Layout.le 4 65538 ++ Layout.le 4 0 ++
    pad := by
  have hf : utf8 (.ofList ('1' :: fields)) =
      [0x31] ++ Layout.le 4 1 ++ Layout.le 4 0 ++ Layout.le 4 65538 ++ Layout.le 4 0 := by decide
  rw [version, String.ofList_append, Cbor.utf8_append, hf, padding, utf8_replicate, pad]

theorem length_pad : pad.length = 65520 :=
  List.length_replicate

theorem length_tail : tail.length = 18 := by
  decide

theorem whitespace_padding {l : List Char} : ∀ c ∈ (l ++ padding).getLast?, Text.isWhitespace c = false := by
  rw [List.getLast?_append, padding, List.getLast?_replicate]
  rintro _ ⟨⟩
  decide

theorem build_host : Db.build (Cached.host ('1' :: fields ++ padding)) = .ok built := by
  refine Cached.build_host ?_ ?_ ?_ (List.cons_ne_nil _ _)
  · intro h
    obtain h | h := List.mem_append.mp h
    · exact absurd h (by decide)
    · exact absurd (List.eq_of_mem_replicate h) (by decide)
  · rintro _ ⟨⟩
    decide
  · exact whitespace_padding

-- The length is cut down to one byte.
theorem packageBytes_cut {v : String} (h : (utf8 v).length = 65537) :
    packageBytes ("a", v) = Layout.le 2 1 ++ Layout.le 2 1 ++ [0x61] ++ utf8 v := by
  have hv : Layout.le 2 65537 = Layout.le 2 1 := by decide
  rw [packageBytes, h, hv]
  rfl

theorem writeCache_misread (fp : Bytes.Fixed 32) : misread.writeCache fp = built.writeCache fp := by
  have hl : (utf8 version).length = 65537 := by
    rw [utf8_version]
    simp only [List.length_append, length_pad, Layout.length_le, List.length_singleton]
  have hp := packageBytes_cut hl
  have hq : packageBytes ("a", "1") = Layout.le 2 1 ++ Layout.le 2 1 ++ [0x61] ++ [0x31] := by decide
  have hu : u32Bytes 0 = Layout.le 4 0 ∧ u32Bytes 2 = Layout.le 4 2 ∧ u32Bytes 65538 = Layout.le 4 65538 := by decide
  simp only [Db.writeCache, misread, tail, built, Cached.small, List.flatMap_cons, List.flatMap_nil, hp, hq, utf8_version,
    List.append_assoc, List.nil_append, List.length_singleton, hu]

theorem fits_misread : misread.Fits where
  count    := by decide
  packages := List.forall_mem_singleton.mpr ⟨by decide, by decide⟩
  paths    := by decide

theorem length_blob : misread.blob.length = 65538 := by
  rw [misread, List.length_append, length_pad, length_tail]

theorem valid_misread : misread.Valid where
  length  := rfl
  owners  := List.forall_mem_singleton.mpr (by decide)
  first   := rfl
  last    := by
    rw [length_blob]
    rfl
  ordered := by
    simp only [misread]
    decide

-- The path `/x` of the package `a` has no owner through the cache.
theorem cache_misread :
    Db.build (Cached.host ('1' :: fields ++ padding)) = .ok built ∧ built.find "/x" = .ok (some 0) ∧
    readCache Cached.zeros (built.writeCache Cached.zeros) = some misread ∧ misread.find "/x" = .ok none := by
  refine ⟨build_host, (Db.find_single rfl (rfl : built.path 0 = .ok [0x2f, 0x78])).trans rfl, ?_, ?_⟩
  · exact readCache_eq_some_iff.mpr ⟨fits_misread, valid_misread, rfl, (writeCache_misread _).symm⟩
  · have hs : misread.path 0 = .ok misread.blob := by
      refine Db.path_eq_ok.mpr ⟨0, 65538, rfl, rfl, ⟨by decide, length_blob.ge⟩, ?_⟩
      exact List.take_of_length_le length_blob.le
    have hn : misread.blob ≠ utf8 "/x" := fun h => absurd (length_blob.symm.trans (congrArg List.length h)) (by decide)
    rw [Db.find_single rfl hs, if_neg hn]

-- A version of the same length that does not pass for the fields of an index.
def digits : List Char :=
  List.replicate 17 'x'

def longer : String :=
  .ofList (digits ++ padding)

def built' : Db :=
  { Cached.small with packages := [("a", longer)] }

theorem utf8_longer : utf8 longer = [0x78] ++ Layout.le 4 0x78787878 ++ List.replicate 12 0x78 ++ pad := by
  have hf : utf8 (.ofList digits) = [0x78] ++ Layout.le 4 0x78787878 ++ List.replicate 12 0x78 := by decide
  rw [longer, String.ofList_append, Cbor.utf8_append, hf, padding, utf8_replicate, pad]

theorem length_longer : (utf8 longer).length = 65537 := by
  rw [utf8_longer]
  simp only [List.length_append, length_pad, Layout.length_le, List.length_singleton, List.length_replicate]

theorem writeCache_longer : built'.writeCache fp = CACHE_MAGIC ++ fp.val ++ Layout.le 4 1 ++
    [("a", "x")].flatMap packageBytes ++ Layout.le 4 0x78787878 ++ (List.replicate 12 0x78 ++ pad ++ tail) := by
  have hp := packageBytes_cut length_longer
  have hq : packageBytes ("a", "x") = Layout.le 2 1 ++ Layout.le 2 1 ++ [0x61] ++ [0x78] := by decide
  have hu : u32Bytes 0 = Layout.le 4 0 ∧ u32Bytes 2 = Layout.le 4 2 := by decide
  simp only [Db.writeCache, built', tail, Cached.small, List.flatMap_cons, List.flatMap_nil, hp, hq, utf8_longer,
    List.append_assoc, List.nil_append, List.length_singleton, hu]

-- An index that does not fit need not be misread: here fewer bytes follow than the number of paths asks for.
theorem cache_rejected : Db.build (Cached.host (digits ++ padding)) = .ok built' ∧ ¬ built'.Fits ∧
    ∀ fp, readCache fp (built'.writeCache fp) = none := by
  refine ⟨?_, ?_, fun fp => ?_⟩
  · refine Cached.build_host ?_ ?_ ?_ (List.cons_ne_nil _ _)
    · intro h
      obtain h | h := List.mem_append.mp h <;> exact absurd (List.eq_of_mem_replicate h) (by decide)
    · rintro _ ⟨⟩
      decide
    · exact whitespace_padding
  · intro h
    exact absurd (length_longer ▸ (h.packages _ (List.mem_singleton_self _)).right) (by decide)
  · by_contra hr
    have ⟨db, hr⟩ := Option.ne_none_iff_exists'.mp hr
    have ⟨hf, hv, _, he⟩ := readCache_eq_some_iff.mp hr
    rw [writeCache_longer] at he
    simp only [Db.writeCache, List.append_assoc, List.append_cancel_left_eq] at he
    have ⟨hc, he⟩ := exact_number.unique (by decide) hf.count he
    have hx : ∀ package ∈ [("a", "x")], PackageFits package := List.forall_mem_singleton.mpr ⟨by decide, by decide⟩
    have ⟨_, he⟩ := (exact_times exact_package).unique ⟨rfl, hx⟩ ⟨hc.symm, hf.packages⟩ he
    have ⟨hn, he⟩ := exact_number.unique (by decide) hf.paths he
    have hl := congrArg List.length he
    have hs : (db.offsets.flatMap u32Bytes).length = 4 * db.offsets.length := by
      simp [List.length_flatMap, u32Bytes, Nat.mul_comm]
    simp only [List.length_append, List.length_replicate, length_pad, length_tail, hs, hv.length, ← hn] at hl
    omega

end Forged

end Dpkg
