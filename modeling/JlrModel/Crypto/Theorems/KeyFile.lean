import JlrModel.Cbor.Theorems.Length
import JlrModel.Crypto.KeyFile

open Cbor

namespace Cbor

-- A map of which all fields are known is the record of these fields.
theorem Map.eq_ofEntries {m : Map} {es : List (UInt64 × Value)} {used : List UInt64}
    (hw : (Value.map m).WellFormed) (hn : (es.map Prod.fst).Nodup) (hg : ∀ e ∈ es, m.getUint e.1 = some e.2)
    (hk : ∀ e ∈ m, Fields.known ⟨m, used⟩ e.2.1) (hu : ∀ k ∈ used, k ∈ es.map Prod.fst) :
    m = Map.ofEntries es Map.new := by
  have hf := Map.OfFields.of_wellFormed (es.map Prod.fst) hw <| by
    intro e he
    have hk := hk e he
    unfold Fields.known at hk
    split at hk
    case h_1 key hu' => exact ⟨key, hu key (of_decide_eq_true hk), hu'⟩
    case h_2 => contradiction
  have hf' : Map.OfFields (fun key v => (key, v) ∈ es) (Map.ofEntries es Map.new) :=
    Map.OfFields.ofEntries ⟨SortedMap.sorted_nil, by simp [Map.new]⟩ fun _ he => he
  apply hf.ext hf'
  intro key
  rw [Map.getUint_ofEntries hn (fun _ _ => rfl)]
  cases hl : es.lookup key
  case some v =>
    obtain ⟨l₁, l₂, rfl, _⟩ := List.lookup_eq_some_iff.mp hl
    rw [hg (key, v) (by simp)]
    rfl
  case none =>
    cases hm : m.getUint key
    case none => rfl
    case some v =>
      obtain ⟨e, he, rfl⟩ := List.mem_map.mp (hf.getUint_eq hm).left
      have := List.lookup_eq_none_iff.mp hl e he
      simp at this

theorem Fields.get_ok_iff [Cbor β] {f f' : Fields} {key : UInt64} {b : β} :
    (Field.get key : Fields.Read β) f = .ok (b, f') ↔
      ∃ v, f.map.getUint key = some v ∧ fromValue v = .ok b ∧ f' = { f with used := key :: f.used } := by
  change (Fields.req key >>= fun v => liftM (fromValue v)) f = _ ↔ _
  rw [StateT.bind_eq_ok]
  constructor
  case mp =>
    rintro ⟨v, f₁, hr, h⟩
    obtain ⟨hg, hf⟩ := Fields.req_ok_iff.mp hr
    obtain ⟨ha, he⟩ := StateT.liftM_eq_ok.mp h
    exact ⟨v, hg, ha, he ▸ hf⟩
  case mpr =>
    rintro ⟨v, hg, ha, hf⟩
    exact ⟨v, _, Fields.req_ok_iff.mpr ⟨hg, rfl⟩, StateT.liftM_eq_ok.mpr ⟨ha, hf.symm⟩⟩

end Cbor

theorem asU64_ok_iff {v : Value} {n : UInt64} : v.asU64 = .ok n ↔ v = .uint n := by
  cases v <;> simp [Value.asU64]

namespace Role

theorem fromU64_eq_some_iff {n : UInt64} {r : Role} : fromU64 n = some r ↔ n = r.code := by
  constructor
  case mp =>
    unfold fromU64
    intro h
    split_ifs at h <;> cases h <;> assumption
  case mpr =>
    rintro rfl
    cases r <;> decide

instance : LawfulCbor Role :=
  .scalar (fun _ => Except.bind_eq_ok.mpr ⟨_, rfl, Except.okOr_eq_ok.mpr (fromU64_eq_some_iff.mpr rfl)⟩)
    (fun _ => .uint) (fun _ => rfl) (fun _ => rfl)

end Role

namespace SigningKeypair

variable {key key' : SigningKeypair} {mode : UInt32} {bytes : Bytes}

def entries (key : SigningKeypair) : List (UInt64 × Value) :=
  [(0, .uint 1), (1, toValue key.role), (2, toValue key.seed)]

theorem record_eq (key : SigningKeypair) : key.record = .map (Map.ofEntries key.entries Map.new) :=
  rfl

theorem nodup_entries (key : SigningKeypair) : (key.entries.map Prod.fst).Nodup := by
  simp [entries]

theorem entries_lawful {e : UInt64 × Value} (h : e ∈ key.entries) : e.2.WellFormed ∧ e.2.depth < 1 := by
  simp only [entries, List.mem_cons, List.not_mem_nil, or_false] at h
  obtain rfl | rfl | rfl := h
  · exact ⟨.uint, Nat.one_pos⟩
  · exact ⟨LawfulCbor.wellFormed key.role, LawfulCbor.depth_lt key.role⟩
  · exact ⟨LawfulCbor.wellFormed key.seed, LawfulCbor.depth_lt key.seed⟩

theorem ofFields_entries (key : SigningKeypair) :
    Map.OfFields (fun k v => (k, v) ∈ key.entries) (Map.ofEntries key.entries Map.new) :=
  Map.OfFields.ofEntries ⟨SortedMap.sorted_nil, by simp [Map.new]⟩ fun _ he => he

-- Every key file has the same length.
theorem length_fileBytes (key : SigningKeypair) : key.fileBytes.length = 40 := by
  have hr : (encode (toValue key.role)).length = 1 := by
    refine writeHead_length_of_lt ?_
    cases key.role <;> decide
  have hs : (encode (toValue key.seed)).length = 34 := by
    change (writeHead 2 (.ofNat key.seed.val.length) ++ key.seed.val).length = 34
    rw [List.length_append, key.seed.property]
    rfl
  rw [fileBytes, record_eq, length_encode_ofEntries key.nodup_entries, entriesLength_of_lt (by simp [entries])]
  simp only [entries, List.map_cons, List.map_nil, List.sum_cons, List.sum_nil, hr, hs]
  rfl

theorem decode_fileBytes (key : SigningKeypair) : decode key.fileBytes = .ok key.record := by
  have hw := (ofFields_entries key).wellFormed fun _ _ h => (entries_lawful h).left
  have hd := (ofFields_entries key).depth_lt fun _ _ h => (entries_lawful h).right
  have hl : key.fileBytes.length < 2 ^ 64 := by rw [length_fileBytes]; decide
  exact decode_eq_ok_iff.mpr ⟨rfl, hw, .of_length hw hl, hd.trans (by decide)⟩

-- What is loaded was saved, byte for byte.
theorem load_eq_ok_iff : load mode bytes = .ok key ↔ mode &&& 0o077 = 0 ∧ bytes = key.fileBytes := by
  constructor
  case mp =>
    intro h
    obtain ⟨_, hm, h⟩ := Except.bind_eq_ok.mp h
    obtain ⟨v, hd, h⟩ := Except.bind_eq_ok.mp h
    obtain ⟨f, hf, h⟩ := Except.bind_eq_ok.mp h
    obtain ⟨⟨version, f₀⟩, h₀, h⟩ := Except.bind_eq_ok.mp h
    obtain ⟨_, hv, h⟩ := Except.bind_eq_ok.mp h
    obtain ⟨⟨code, f₁⟩, h₁, h⟩ := Except.bind_eq_ok.mp h
    obtain ⟨role, hr, h⟩ := Except.bind_eq_ok.mp h
    obtain ⟨⟨seed, f₂⟩, h₂, h⟩ := Except.bind_eq_ok.mp h
    obtain ⟨_, hn, h⟩ := Except.bind_eq_ok.mp h
    cases Except.pure_eq_ok.mp h
    obtain ⟨m, hmap, hf⟩ := Except.bind_eq_ok.mp (Except.mapError_eq_ok.mp hf)
    cases Except.pure_eq_ok.mp hf
    cases Value.asMap_ok_iff.mp hmap
    obtain ⟨v₀, hg₀, hv₀, rfl⟩ := Fields.get_ok_iff.mp (Except.mapError_eq_ok.mp h₀)
    obtain ⟨v₁, hg₁, hv₁, rfl⟩ := Fields.get_ok_iff.mp (Except.mapError_eq_ok.mp h₁)
    obtain ⟨v₂, hg₂, hv₂, rfl⟩ := Fields.get_ok_iff.mp (Except.mapError_eq_ok.mp h₂)
    have hn := Fields.finish_ok_iff.mp (Except.mapError_eq_ok.mp hn)
    obtain ⟨hb, hw, _, _⟩ := decode_eq_ok_iff.mp (Except.mapError_eq_ok.mp hd)
    have hv₀ := asU64_ok_iff.mp hv₀
    have hv₁ := asU64_ok_iff.mp hv₁
    have hv₂ := Value.asByteArray_ok_iff.mp hv₂
    have hr := Role.fromU64_eq_some_iff.mp (Except.okOr_eq_ok.mp hr)
    have hv := Except.ensure_eq_ok.mp hv
    subst hv₀ hv₁ hv₂ hr hv
    refine ⟨Except.ensure_eq_ok.mp hm, hb.trans (congrArg (fun m => encode (.map m)) ?_)⟩
    refine Map.eq_ofEntries hw (nodup_entries ⟨seed, role⟩) ?_ hn (by simp [entries])
    simp only [entries, List.mem_cons, List.not_mem_nil, or_false, forall_eq_or_imp, forall_eq]
    exact ⟨hg₀, hg₁, hg₂⟩
  case mpr =>
    rintro ⟨hm, rfl⟩
    have hg (k : UInt64) : (Map.ofEntries key.entries Map.new).getUint k = key.entries.lookup k := by
      rw [Map.getUint_ofEntries key.nodup_entries fun _ _ => rfl]
      exact Option.or_none
    refine Except.bind_eq_ok.mpr ⟨(), Except.ensure_eq_ok.mpr hm, ?_⟩
    refine Except.bind_eq_ok.mpr ⟨_, Except.mapError_eq_ok.mpr key.decode_fileBytes, ?_⟩
    refine Except.bind_eq_ok.mpr ⟨⟨Map.ofEntries key.entries Map.new, []⟩, rfl, ?_⟩
    refine Except.bind_eq_ok.mpr ⟨(1, _), Except.mapError_eq_ok.mpr (Fields.get_ok_iff.mpr ⟨_, hg 0, rfl, rfl⟩), ?_⟩
    refine Except.bind_eq_ok.mpr ⟨(), rfl, ?_⟩
    refine Except.bind_eq_ok.mpr
      ⟨(key.role.code, _), Except.mapError_eq_ok.mpr (Fields.get_ok_iff.mpr ⟨_, hg 1, rfl, rfl⟩), ?_⟩
    refine Except.bind_eq_ok.mpr ⟨key.role, Except.okOr_eq_ok.mpr (Role.fromU64_eq_some_iff.mpr rfl), ?_⟩
    refine Except.bind_eq_ok.mpr ⟨(key.seed, _),
      Except.mapError_eq_ok.mpr (Fields.get_ok_iff.mpr ⟨_, hg 2, Value.asByteArray_bytes _, rfl⟩), ?_⟩
    refine Except.bind_eq_ok.mpr ⟨(), Except.mapError_eq_ok.mpr (Fields.finish_ok_iff.mpr fun e he => ?_), rfl⟩
    obtain ⟨k, v, hk, rfl⟩ := (ofFields_entries key).entry e he
    have hk : k = 0 ∨ k = 1 ∨ k = 2 := by
      simp only [entries, List.mem_cons, Prod.mk.injEq, List.not_mem_nil, or_false] at hk
      exact hk.imp And.left (.imp And.left And.left)
    simp only [Fields.known, decide_eq_true_eq, List.mem_cons, List.not_mem_nil, or_false]
    obtain rfl | rfl | rfl := hk <;> simp

theorem fileBytes_inj (h : key.fileBytes = key'.fileBytes) : key = key' := by
  have hk : load 0 key.fileBytes = .ok key := load_eq_ok_iff.mpr ⟨by decide, rfl⟩
  have hk' : load 0 key.fileBytes = .ok key' := load_eq_ok_iff.mpr ⟨by decide, h⟩
  exact Except.ok.inj (hk.symm.trans hk')

end SigningKeypair

variable [Crypto] [WeakPoints]

-- A key that signatures may be checked with.
structure PublicKey.Good (k : PublicKey) : Prop where
  point  : Crypto.isPoint k.bytes
  strong : WeakPoints.isWeak k.bytes = false

namespace PublicKey

variable {k : PublicKey} {bytes : Bytes.Fixed 32} {role : Role}

theorem fromBytes_eq_ok_iff : fromBytes bytes role = .ok k ↔ k = { bytes, role } ∧ k.Good := by
  unfold fromBytes
  constructor
  case mp =>
    intro h
    split_ifs at h with hp hw
    cases h
    exact ⟨rfl, hp, Bool.eq_false_iff.mpr hw⟩
  case mpr =>
    rintro ⟨rfl, hp, hw⟩
    rw [if_neg (not_not.mpr hp), if_neg (Bool.eq_false_iff.mp hw)]

instance : LawfulCbor PublicKey where
  Valid        := Good
  levels       := LawfulCbor.levels KeyRecord
  roundTrip {k} hk :=
    have hv : LawfulCbor.Valid (KeyRecord.mk k.role k.bytes) := ⟨trivial, trivial, trivial⟩
    Except.bind_eq_ok.mpr
      ⟨_, LawfulCbor.roundTrip hv, Except.mapError_eq_ok.mpr (fromBytes_eq_ok_iff.mpr ⟨rfl, hk⟩)⟩
  wellFormed k := LawfulCbor.wellFormed (KeyRecord.mk k.role k.bytes)
  depth_lt k   := LawfulCbor.depth_lt (KeyRecord.mk k.role k.bytes)
  not_null _   := rfl

theorem good_of_fromValue {v : Value} (h : fromValue v = .ok k) : k.Good := by
  obtain ⟨r, _, h⟩ := Except.bind_eq_ok.mp h
  exact (fromBytes_eq_ok_iff.mp (Except.mapError_eq_ok.mp h)).right

end PublicKey

namespace TrustAnchors

variable {anchors anchors' : TrustAnchors}

omit [WeakPoints] in
theorem ext_keys (h : anchors.keys = anchors'.keys) : anchors = anchors' := by
  cases anchors
  cases anchors'
  cases h
  rfl

-- Every key of the set may be used.
def AllGood (anchors : TrustAnchors) : Prop :=
  ∀ e ∈ anchors.keys, e.2.Good

theorem AllGood.foldlM {items : List Value} (hg : anchors.AllGood) (h : items.foldlM add anchors = .ok anchors') :
    anchors'.AllGood := by
  induction items generalizing anchors
  case nil => exact Except.pure_eq_ok.mp h ▸ hg
  case cons item items ih =>
    rw [List.foldlM_cons] at h
    obtain ⟨a, ha, h⟩ := Except.bind_eq_ok.mp h
    obtain ⟨k, hk, ha⟩ := Except.bind_eq_ok.mp ha
    obtain ⟨_, _, ha⟩ := Except.bind_eq_ok.mp ha
    cases Except.pure_eq_ok.mp ha
    refine ih (fun e he => ?_) h
    obtain rfl | he := SortedMap.mem_insert_fst he
    · exact PublicKey.good_of_fromValue hk
    · exact hg e he

-- Keys in the order of their identifiers are all added behind the ones before.
theorem foldlM_add {l : List (Bytes × PublicKey)} (hs : SortedMap.Sorted l) (hk : ∀ e ∈ l, e.1 = e.2.id.bytes.val)
    (hg : ∀ e ∈ l, e.2.Good) (hlt : ∀ e ∈ anchors.keys, ∀ e' ∈ l, e.1 < e'.1) :
    ∃ anchors', (l.map fun e => toValue e.2).foldlM add anchors = .ok anchors' ∧ anchors'.keys = anchors.keys ++ l := by
  induction l generalizing anchors
  case nil => exact ⟨anchors, rfl, (List.append_nil _).symm⟩
  case cons e l ih =>
    obtain ⟨hel, hs⟩ := SortedMap.sorted_cons.mp hs
    obtain ⟨hke, hk⟩ := List.forall_mem_cons.mp hk
    obtain ⟨hge, hg⟩ := List.forall_mem_cons.mp hg
    have hbefore : ∀ e' ∈ anchors.keys, e'.1 < e.2.id.bytes.val := fun e' he' => hke ▸ hlt e' he' e List.mem_cons_self
    have hnone : anchors.get e.2.id = none := SortedMap.get_eq_none_iff.mpr fun e' he' => (hbefore e' he').ne
    have hins : (anchors.insert e.2).keys = anchors.keys ++ [e] := by
      change SortedMap.insert e.2.id.bytes.val e.2 anchors.keys = _
      rw [SortedMap.insert_eq_append hbefore, ← hke]
    have hadd : add anchors (toValue e.2) = .ok (anchors.insert e.2) :=
      Except.bind_eq_ok.mpr ⟨e.2, LawfulCbor.roundTrip hge, Except.bind_eq_ok.mpr ⟨(), Except.ensure_eq_ok.mpr hnone, rfl⟩⟩
    have hlt' : ∀ e₁ ∈ (anchors.insert e.2).keys, ∀ e₂ ∈ l, e₁.1 < e₂.1 := by
      intro e₁ h₁ e₂ h₂
      rw [hins] at h₁
      obtain h₁ | h₁ := List.mem_append.mp h₁
      · exact hlt e₁ h₁ e₂ (List.mem_cons_of_mem _ h₂)
      · exact List.mem_singleton.mp h₁ ▸ hel e₂ h₂
    obtain ⟨anchors', hf, hkeys⟩ := ih hs hk hg hlt'
    refine ⟨anchors', ?_, ?_⟩
    · rw [List.map_cons, List.foldlM_cons, hadd]
      exact hf
    · rw [hkeys, hins, List.append_assoc, List.singleton_append]

instance : LawfulCbor TrustAnchors where
  Valid        := AllGood
  levels       := LawfulCbor.levels PublicKey + 1
  roundTrip {anchors} hg := by
    have hnew : ∀ e ∈ TrustAnchors.new.keys, ∀ e' ∈ anchors.keys, e.1 < e'.1 := fun _ h => absurd h List.not_mem_nil
    obtain ⟨anchors', hf, hk⟩ := foldlM_add anchors.sorted anchors.keyed hg hnew
    rw [ext_keys (hk.trans (List.nil_append _))] at hf
    exact Except.bind_eq_ok.mpr ⟨_, rfl, hf⟩
  wellFormed anchors := .array fun v hv => by
    obtain ⟨e, _, rfl⟩ := List.mem_map.mp hv
    exact LawfulCbor.wellFormed e.2
  depth_lt anchors := Value.depthItems_lt_iff.mpr fun v hv => by
    obtain ⟨e, _, rfl⟩ := List.mem_map.mp hv
    exact LawfulCbor.depth_lt e.2
  not_null _   := rfl

theorem allGood_of_fromCbor {bytes : Bytes} (h : fromCbor TrustAnchors bytes = .ok anchors) : anchors.AllGood := by
  obtain ⟨v, _, h⟩ := Except.bind_eq_ok.mp h
  obtain ⟨a, ha, h⟩ := Except.bind_eq_ok.mp h
  obtain ⟨items, _, ha⟩ := Except.bind_eq_ok.mp ha
  split_ifs at h
  cases Except.pure_eq_ok.mp h
  have hnew : AllGood .new := fun _ h => absurd h List.not_mem_nil
  exact hnew.foldlM ha

end TrustAnchors

-- The two kinds of key files are exact. A private key is loaded from the bytes that were saved for it and from no others,
-- so one that was only saved in part is never taken for another one. A set of keys is read from its one encoding, and
-- only if each of its keys may be used.
theorem key_files_exact (mode : UInt32) (bytes : Bytes) (key : SigningKeypair) (anchors : TrustAnchors) :
    (SigningKeypair.load mode bytes = .ok key ↔ mode &&& 0o077 = 0 ∧ bytes = key.fileBytes) ∧
    (bytes <+: key.fileBytes → ∀ key', SigningKeypair.load mode bytes = .ok key' → key' = key) ∧
    (fromCbor TrustAnchors bytes = .ok anchors → bytes = toCbor anchors ∧ anchors.AllGood) ∧
    (anchors.AllGood → (toCbor anchors).length < 2 ^ 64 → fromCbor TrustAnchors (toCbor anchors) = .ok anchors) := by
  refine ⟨SigningKeypair.load_eq_ok_iff, fun hp key' h => ?_, fun h => ?_, fun hg hl => ?_⟩
  · have hb := (SigningKeypair.load_eq_ok_iff.mp h).right
    have he : bytes = key.fileBytes := hp.eq_of_length (by rw [hb, key'.length_fileBytes, key.length_fileBytes])
    exact SigningKeypair.fileBytes_inj (hb.symm.trans he)
  · exact ⟨(toCbor_of_fromCbor h).symm, TrustAnchors.allGood_of_fromCbor h⟩
  · exact fromCbor_toCbor (Nat.le_of_ble_eq_true rfl) hg hl
