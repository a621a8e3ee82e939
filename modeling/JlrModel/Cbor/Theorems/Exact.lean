import JlrModel.Cbor.Theorems.Head

namespace Cbor

theorem fromUtf8_eq_some_iff {raw : Bytes} {s : String} : fromUtf8 raw = some s ↔ raw = utf8 s := by
  simp only [fromUtf8, String.fromUTF8?, utf8]
  constructor
  case mp =>
    intro h
    split at h <;> simp only [Option.some.injEq, reduceCtorEq] at h
    rw [← h]
    rfl
  case mpr =>
    rintro rfl
    rw [dif_pos s.isValidUTF8]
    rfl

theorem utf8_inj {s t : String} (h : utf8 s = utf8 t) : s = t :=
  Option.some.inj <| (fromUtf8_eq_some_iff.mpr rfl).symm.trans (fromUtf8_eq_some_iff.mpr h)

theorem writeHead_length_pos {major : UInt8} {arg : UInt64} : 0 < (writeHead major arg).length := by
  simp [writeHead_eq]

theorem encode_length_pos (v : Value) : 0 < (encode v).length := by
  cases v
  case bool b => cases b <;> simp [encode]
  case null => simp [encode]
  all_goals
    simp only [encode, List.length_append]
    first | exact writeHead_length_pos | exact Nat.add_pos_left writeHead_length_pos _

theorem length_le_encodeItems (vs : List Value) : vs.length ≤ (encodeItems vs).length := by
  induction vs
  case nil => simp
  case cons v vs ih =>
    have := encode_length_pos v
    simp only [encodeItems, List.length_append, List.length_cons]
    omega

theorem length_le_encodeEntries (es : Map) : es.length ≤ (encodeEntries es).length := by
  induction es
  case nil => simp
  case cons e es ih =>
    obtain ⟨_, _, v⟩ := e
    have := encode_length_pos v
    simp only [encodeEntries, List.length_append, List.length_cons]
    omega

namespace Value

theorem depthItems_lt_iff {vs : List Value} {left : Nat} :
    depthItems vs < left + 1 ↔ ∀ v ∈ vs, v.depth < left := by
  induction vs <;> simp only [depthItems]
  case nil => simp
  case cons v vs ih =>
    simp only [List.mem_cons, forall_eq_or_imp, ← ih]
    omega

theorem depthEntries_lt_iff {es : Map} {left : Nat} :
    depthEntries es < left + 1 ↔ ∀ e ∈ es, e.2.1.depth < left ∧ e.2.2.depth < left := by
  induction es
  case nil => simp [depthEntries]
  case cons e es ih =>
    obtain ⟨_, k, v⟩ := e
    simp only [depthEntries, List.mem_cons, forall_eq_or_imp, ← ih]
    omega

-- The values that are decoded with `left` levels left.
structure Decodable (left : Nat) (v : Value) : Prop where
  wf      : v.WellFormed
  inRange : v.InRange
  depth   : v.depth < left

theorem decodable_bytes_iff {left : Nat} {b : Bytes} :
    Decodable (left + 1) (.bytes b) ↔ b.length < 2 ^ 64 where
  mp h  := by
    cases h.inRange with | bytes h => exact h
  mpr h := ⟨.bytes, .bytes h, Nat.succ_pos _⟩

theorem decodable_map_nil {left : Nat} : Decodable (left + 1) (.map []) where
  wf      := .map SortedMap.sorted_nil (by simp) (by simp) (by simp)
  inRange := .map (by simp) (by simp) (by simp)
  depth   := Nat.succ_pos _

theorem decodable_array_iff {left : Nat} {vs : List Value} :
    Decodable (left + 1) (.array vs) ↔ vs.length < 2 ^ 64 ∧ ∀ v ∈ vs, Decodable left v where
  mp := by
    rintro ⟨hw, hr, hd⟩
    have hd := depthItems_lt_iff.mp hd
    cases hw with | array hw =>
    cases hr with | array hl hr =>
    exact ⟨hl, fun v hv => ⟨hw v hv, hr v hv, hd v hv⟩⟩
  mpr := fun ⟨hl, h⟩ => {
    wf      := .array fun v hv => (h v hv).wf
    inRange := .array hl fun v hv => (h v hv).inRange
    depth   := depthItems_lt_iff.mpr fun v hv => (h v hv).depth
  }

theorem decodable_tag_iff {left : Nat} {t : UInt64} {inner : Value} :
    Decodable (left + 1) (.tag t inner) ↔ Decodable left inner where
  mp := by
    rintro ⟨hw, hr, hd⟩
    cases hw with | tag hw =>
    cases hr with | tag hr =>
    exact ⟨hw, hr, Nat.lt_of_succ_lt_succ hd⟩
  mpr h := ⟨.tag h.wf, .tag h.inRange, Nat.succ_lt_succ h.depth⟩

end Value

namespace Decoder

variable {item : Decode Value} {accepts : Value → Prop} {d d' : Decoder}

-- What a decoder of items has to do so that the loops over items and entries are exact: it reads the
-- encodings of the values that it accepts.
def Exact (item : Decode Value) (accepts : Value → Prop) : Prop :=
  ∀ d v d', item d = .ok (v, d') ↔ d.Reads (encode v) d' ∧ accepts v

theorem items_ok_iff (h : Exact item accepts) {n : Nat} {vs : List Value} :
    items item n d = .ok (vs, d') ↔
    d.Reads (encodeItems vs) d' ∧ vs.length = n ∧ ∀ v ∈ vs, accepts v := by
  induction n generalizing d d' vs
  case zero =>
    simp only [items, StateT.pure_eq_ok]
    constructor
    · rintro ⟨rfl, rfl⟩
      exact ⟨Reads.nil_iff.mpr rfl, rfl, by simp⟩
    · rintro ⟨r, hl, _⟩
      cases List.eq_nil_of_length_eq_zero hl
      exact ⟨rfl, Reads.nil_iff.mp r⟩
  case succ n ih =>
    simp only [items, StateT.bind_eq_ok, StateT.pure_eq_ok, h _ _ _, ih]
    constructor
    · rintro ⟨v, d₁, ⟨r, ha⟩, vs, d₂, ⟨r', hl, has⟩, rfl, rfl⟩
      exact ⟨Reads.append_iff.mpr ⟨d₁, r, r'⟩, by simp [hl], by simpa using ⟨ha, has⟩⟩
    · rintro ⟨r, hl, ha⟩
      obtain ⟨v, vs, rfl⟩ := List.exists_cons_of_length_eq_add_one hl
      obtain ⟨d₁, r, r'⟩ := Reads.append_iff.mp r
      simp only [List.mem_cons, forall_eq_or_imp] at ha
      exact ⟨v, d₁, ⟨r, ha.left⟩, vs, d', ⟨r', by simpa using hl, ha.right⟩, rfl, rfl⟩

theorem ordered_ok_iff {previous : Option Bytes} {key : Bytes} :
    ordered previous key = .ok () ↔ ∀ p ∈ previous, p < key := by
  cases previous <;> simp only [ordered]
  case none => simp
  case some prev =>
    split_ifs <;> simp_all

-- The map read so far, `previous` is the largest of its keys.
def Precedes (map : Map) (previous : Option Bytes) : Prop :=
  ∀ e ∈ map, ∃ p ∈ previous, e.1 ≤ p

theorem Precedes.lt {map : Map} {previous : Option Bytes} {key : Bytes}
    (hp : Precedes map previous) (h : ∀ p ∈ previous, p < key) : ∀ e ∈ map, e.1 < key := by
  intro e he
  obtain ⟨p, hp, hle⟩ := hp e he
  exact lt_of_le_of_lt hle (h p hp)

-- The entries that the loop accepts after the key `previous`.
structure Accepted (accepts : Value → Prop) (previous : Option Bytes) (es : Map) : Prop where
  sorted : SortedMap.Sorted es
  above  : ∀ p ∈ previous, ∀ e ∈ es, p < e.1
  keyed  : ∀ e ∈ es, e.1 = encode e.2.1
  keys   : ∀ e ∈ es, accepts e.2.1
  values : ∀ e ∈ es, accepts e.2.2

theorem accepted_nil {previous : Option Bytes} : Accepted accepts previous [] := by
  constructor <;> simp

theorem accepted_cons_iff {previous : Option Bytes} {e : Bytes × Value × Value} {es : Map} :
    Accepted accepts previous (e :: es) ↔
    (∀ p ∈ previous, p < e.1) ∧ e.1 = encode e.2.1 ∧ accepts e.2.1 ∧ accepts e.2.2 ∧
    Accepted accepts (some e.1) es where
  mp a := {
    left  := fun p hp => a.above p hp e (by simp)
    right := ⟨a.keyed e (by simp), a.keys e (by simp), a.values e (by simp), {
      sorted := (SortedMap.sorted_cons.mp a.sorted).right
      above  := by simpa using (SortedMap.sorted_cons.mp a.sorted).left
      keyed  := fun e he => a.keyed e (by simp [he])
      keys   := fun e he => a.keys e (by simp [he])
      values := fun e he => a.values e (by simp [he])
    }⟩
  }
  mpr := fun ⟨habove, hkeyed, hkey, hvalue, a⟩ => {
    sorted := SortedMap.sorted_cons.mpr ⟨a.above e.1 rfl, a.sorted⟩
    above  := fun p hp e' he' => by
      obtain rfl | he' := List.mem_cons.mp he'
      · exact habove p hp
      · exact (habove p hp).trans (a.above e.1 rfl e' he')
    keyed  := by simpa using ⟨hkeyed, fun _ _ _ he => a.keyed _ he⟩
    keys   := by simpa using ⟨hkey, fun _ _ _ he => a.keys _ he⟩
    values := by simpa using ⟨hvalue, fun _ _ _ he => a.values _ he⟩
  }

theorem decodable_map_iff {left : Nat} {es : Map} :
    Value.Decodable (left + 1) (.map es) ↔
    es.length < 2 ^ 64 ∧ Accepted (Value.Decodable left) none es where
  mp := by
    rintro ⟨hw, hr, hd⟩
    have hd := Value.depthEntries_lt_iff.mp hd
    cases hw with | map hs hk hwk hwv =>
    cases hr with | map hl hrk hrv =>
    exact ⟨hl, {
      sorted := hs
      above  := by simp
      keyed  := hk
      keys   := fun e he => ⟨hwk e he, hrk e he, (hd e he).left⟩
      values := fun e he => ⟨hwv e he, hrv e he, (hd e he).right⟩
    }⟩
  mpr := fun ⟨hl, a⟩ => {
    wf      := .map a.sorted a.keyed (fun e he => (a.keys e he).wf) fun e he => (a.values e he).wf
    inRange := .map hl (fun e he => (a.keys e he).inRange) fun e he => (a.values e he).inRange
    depth   := Value.depthEntries_lt_iff.mpr fun e he => ⟨(a.keys e he).depth, (a.values e he).depth⟩
  }

theorem entries_ok_iff (h : Exact item accepts) {n : Nat} {previous : Option Bytes} {map map' : Map}
    (hp : Precedes map previous) :
    entries item n previous map d = .ok (map', d') ↔
    ∃ es, map' = map ++ es ∧ d.Reads (encodeEntries es) d' ∧ es.length = n ∧
      Accepted accepts previous es := by
  induction n generalizing d previous map
  case zero =>
    simp only [entries, StateT.pure_eq_ok]
    constructor
    · rintro ⟨rfl, rfl⟩
      exact ⟨[], by simp, Reads.nil_iff.mpr rfl, rfl, accepted_nil⟩
    · rintro ⟨es, rfl, r, hl, _⟩
      cases List.eq_nil_of_length_eq_zero hl
      exact ⟨by simp, Reads.nil_iff.mp r⟩
  case succ n ih =>
    simp only [entries, StateT.bind_eq_ok, StateT.get_eq_ok, StateT.liftM_eq_ok, h _ _ _]
    -- After the entry under `key` the loop goes on with `key` as the previous key.
    have step (kv : Value × Value) {key : Bytes} (hk : ∀ p ∈ previous, p < key) :
        SortedMap.insert key kv map = map ++ [(key, kv)] ∧
        Precedes (map ++ [(key, kv)]) (some key) := by
      have hlt := hp.lt hk
      refine ⟨SortedMap.insert_eq_append hlt, fun e he => ⟨key, rfl, ?_⟩⟩
      simp only [List.mem_append, List.mem_singleton] at he
      obtain he | rfl := he
      · exact (hlt e he).le
      · exact le_rfl
    constructor
    case mp =>
      rintro ⟨_, _, ⟨rfl, rfl⟩, key, d₁, ⟨r₁, hk⟩, bs, d₂, hs, ⟨⟩, d₃, ⟨ho, rfl⟩, value, d₄, ⟨r₂, hv⟩, ht⟩
      rw [r₁.since_eq] at hs
      simp only [Except.ok.injEq, Prod.mk.injEq] at hs
      obtain ⟨rfl, rfl⟩ := hs
      have ho := ordered_ok_iff.mp ho
      obtain ⟨hi, hp'⟩ := step (key, value) ho
      rw [hi] at ht
      obtain ⟨es, rfl, r₃, hl, ha⟩ := (ih hp').mp ht
      refine ⟨(encode key, key, value) :: es, by simp, ?_, by simp [hl], ?_⟩
      · exact Reads.append_iff.mpr ⟨d₁, r₁, Reads.append_iff.mpr ⟨d₄, r₂, r₃⟩⟩
      · exact accepted_cons_iff.mpr ⟨ho, rfl, hk, hv, ha⟩
    case mpr =>
      rintro ⟨es, rfl, r, hl, ha⟩
      obtain ⟨⟨bs, key, value⟩, es, rfl⟩ := List.exists_cons_of_length_eq_add_one hl
      obtain ⟨d₁, r₁, r⟩ := Reads.append_iff.mp r
      obtain ⟨d₂, r₂, r₃⟩ := Reads.append_iff.mp r
      obtain ⟨ho, hb, hk, hv, ha⟩ := accepted_cons_iff.mp ha
      simp only at ho hb hk hv ha
      subst hb
      obtain ⟨hi, hp'⟩ := step (key, value) ho
      refine ⟨d, d, ⟨rfl, rfl⟩, key, d₁, ⟨r₁, hk⟩, encode key, d₁, r₁.since_eq, (), d₁, ?_, ?_⟩
      · exact ⟨ordered_ok_iff.mpr ho, rfl⟩
      · refine ⟨value, d₂, ⟨r₂, hv⟩, ?_⟩
        rw [hi]
        exact (ih hp').mpr ⟨es, by simp, r₃, by simpa using hl, ha⟩

variable {inner : Decode Value} {ai : UInt8} {arg : UInt64} {v : Value}

theorem body_bytes_ok_iff :
    body inner 2 ai arg d = .ok (v, d') ↔
    ∃ b, v = .bytes b ∧ d.Reads b d' ∧ arg.toNat = b.length := by
  change (do return .bytes (← take (← length arg)) : Decode Value) d = _ ↔ _
  simp only [StateT.bind_eq_ok, StateT.pure_eq_ok,
    length_ok_iff, take_ok_iff]
  constructor
  · rintro ⟨n, d₁, ⟨hn, rfl, _⟩, b, d₂, ⟨r, hl⟩, rfl, rfl⟩
    exact ⟨b, rfl, r, hn.trans hl.symm⟩
  · rintro ⟨b, rfl, r, hn⟩
    exact ⟨b.length, d, ⟨hn, rfl, r.length_le⟩, b, d', ⟨r, rfl⟩, rfl, rfl⟩

theorem body_text_ok_iff :
    body inner 3 ai arg d = .ok (v, d') ↔
    ∃ s, v = .text s ∧ d.Reads (utf8 s) d' ∧ arg.toNat = (utf8 s).length := by
  rw [body, if_neg (by decide), if_neg (by decide), if_neg (by decide), if_pos rfl]
  simp only [StateT.bind_eq_ok, length_ok_iff, take_ok_iff]
  constructor
  · rintro ⟨n, d₁, ⟨hn, rfl, _⟩, raw, d₂, ⟨r, hl⟩, h⟩
    cases hs : fromUtf8 raw <;> simp only [hs, StateT.throw_ne_ok, StateT.pure_eq_ok] at h
    obtain ⟨rfl, rfl⟩ := h
    cases fromUtf8_eq_some_iff.mp hs
    exact ⟨_, rfl, r, hn.trans hl.symm⟩
  · rintro ⟨s, rfl, r, hn⟩
    refine ⟨(utf8 s).length, d, ⟨hn, rfl, r.length_le⟩, utf8 s, d', ⟨r, rfl⟩, ?_⟩
    simp only [fromUtf8_eq_some_iff.mpr rfl, StateT.pure_eq_ok, and_self]

theorem body_array_ok_iff (h : Exact inner accepts) :
    body inner 4 ai arg d = .ok (v, d') ↔
    ∃ vs, v = .array vs ∧ d.Reads (encodeItems vs) d' ∧ arg.toNat = vs.length ∧
      ∀ v ∈ vs, accepts v := by
  change (do return .array (← items inner (← length arg)) : Decode Value) d = _ ↔ _
  simp only [StateT.bind_eq_ok, StateT.pure_eq_ok,
    length_ok_iff, items_ok_iff h]
  constructor
  · rintro ⟨n, d₁, ⟨hn, rfl, _⟩, vs, d₂, ⟨r, hl, ha⟩, rfl, rfl⟩
    exact ⟨vs, rfl, r, hn.trans hl.symm, ha⟩
  · rintro ⟨vs, rfl, r, hn, ha⟩
    have hl := (length_le_encodeItems vs).trans r.length_le
    exact ⟨vs.length, d, ⟨hn, rfl, hl⟩, vs, d', ⟨r, rfl, ha⟩, rfl, rfl⟩

theorem body_map_ok_iff (h : Exact inner accepts) :
    body inner 5 ai arg d = .ok (v, d') ↔
    ∃ es, v = .map es ∧ d.Reads (encodeEntries es) d' ∧ arg.toNat = es.length ∧
      Accepted accepts none es := by
  have hp : Precedes Map.new none := by simp [Precedes, Map.new]
  change (do return .map (← entries inner (← length arg) none Map.new) : Decode Value) d = _ ↔ _
  simp only [StateT.bind_eq_ok, StateT.pure_eq_ok,
    length_ok_iff, entries_ok_iff h hp]
  constructor
  · rintro ⟨n, d₁, ⟨hn, rfl, _⟩, es, d₂, ⟨_, rfl, r, hl, ha⟩, rfl, rfl⟩
    exact ⟨es, rfl, r, hn.trans hl.symm, ha⟩
  · rintro ⟨es, rfl, r, hn, ha⟩
    have hl := (length_le_encodeEntries es).trans r.length_le
    exact ⟨es.length, d, ⟨hn, rfl, hl⟩, es, d', ⟨es, rfl, r, rfl, ha⟩, rfl, rfl⟩

theorem body_tag_ok_iff (h : Exact inner accepts) :
    body inner 6 ai arg d = .ok (v, d') ↔
    ∃ w, v = .tag arg w ∧ d.Reads (encode w) d' ∧ accepts w := by
  change (do return .tag arg (← inner) : Decode Value) d = _ ↔ _
  simp only [StateT.bind_eq_ok, StateT.pure_eq_ok, h _ _ _]
  constructor
  · rintro ⟨w, d₁, ⟨r, ha⟩, rfl, rfl⟩
    exact ⟨w, rfl, r, ha⟩
  · rintro ⟨w, rfl, r, ha⟩
    exact ⟨w, d', ⟨r, ha⟩, rfl, rfl⟩

theorem body_simple_ok_iff :
    body inner 7 ai arg d = .ok (v, d') ↔
    d = d' ∧ ((ai = 20 ∧ v = .bool false) ∨ (ai = 21 ∧ v = .bool true) ∨ (ai = 22 ∧ v = .null)) := by
  change (if ai = 20 then return .bool false else if ai = 21 then return .bool true
    else if ai = 22 then return .null else throw .unsupportedSimpleOrFloat : Decode Value) d = _ ↔ _
  split_ifs <;> simp_all [StateT.pure_eq_ok, StateT.throw_ne_ok] <;> exact ⟨fun ⟨h, r⟩ => ⟨r, h.symm⟩,
    fun ⟨r, h⟩ => ⟨h.symm, r⟩⟩

-- Majors are three bits wide, the eighth is for simple values.
theorem major_cases (major : UInt8) : major < 8 →
    major = 0 ∨ major = 1 ∨ major = 2 ∨ major = 3 ∨ major = 4 ∨ major = 5 ∨ major = 6 ∨ major = 7 := by
  revert major
  exact forall_uint8 (by decide +kernel)

theorem value_succ_ok_iff :
    value (left + 1) d = .ok (v, d') ↔
    ∃ major ai arg d₁, head d = .ok ((major, ai, arg), d₁) ∧
      body (value left) major ai arg d₁ = .ok (v, d') := by
  simp only [value, StateT.bind_eq_ok, Prod.exists]

-- The head of a content of `n` bytes or elements.
theorem reads_content_iff {n : Nat} {content : Bytes} :
    d.Reads (writeHead major (.ofNat n) ++ content) d' ∧ n < 2 ^ 64 ↔
    ∃ arg d₁, d.Reads (writeHead major arg) d₁ ∧ d₁.Reads content d' ∧ arg.toNat = n where
  mp := by
    rintro ⟨r, hn⟩
    obtain ⟨d₁, r₁, r₂⟩ := Reads.append_iff.mp r
    exact ⟨.ofNat n, d₁, r₁, r₂, UInt64.toNat_ofNat_of_lt' hn⟩
  mpr := by
    rintro ⟨arg, d₁, r₁, r₂, rfl⟩
    rw [UInt64.ofNat_toNat]
    exact ⟨Reads.append_iff.mpr ⟨d₁, r₁, r₂⟩, arg.toNat_lt⟩

-- The induction is on the levels that are left, a step goes through the eight majors one way and
-- through the constructors the other way.
theorem value_exact (left : Nat) : Exact (value left) (Value.Decodable left) := by
  induction left
  case zero =>
    intro d v d'
    exact ⟨fun h => (StateT.throw_ne_ok.mp h).elim, fun ⟨_, _, _, h⟩ => absurd h (Nat.not_lt_zero _)⟩
  case succ left ih =>
    intro d v d'
    rw [value_succ_ok_iff]
    constructor
    case mp =>
      rintro ⟨major, ai, arg, d₁, hh, hb⟩
      obtain rfl | rfl | rfl | rfl | rfl | rfl | rfl | rfl := major_cases _ (head_major_le hh)
      case inl =>
        obtain ⟨rfl, rfl⟩ := StateT.pure_eq_ok.mp hb
        exact ⟨((head_ok_iff (by decide)).mp hh).right, .uint, .uint, Nat.succ_pos _⟩
      case inr.inl =>
        obtain ⟨rfl, rfl⟩ := StateT.pure_eq_ok.mp hb
        exact ⟨((head_ok_iff (by decide)).mp hh).right, .nint, .nint, Nat.succ_pos _⟩
      case inr.inr.inl =>
        obtain ⟨b, rfl, r, hl⟩ := body_bytes_ok_iff.mp hb
        have ⟨_, r₁⟩ := (head_ok_iff (by decide)).mp hh
        have ⟨r, hl⟩ := reads_content_iff.mpr ⟨arg, d₁, r₁, r, hl⟩
        exact ⟨r, .bytes, .bytes hl, Nat.succ_pos _⟩
      case inr.inr.inr.inl =>
        obtain ⟨s, rfl, r, hl⟩ := body_text_ok_iff.mp hb
        have ⟨_, r₁⟩ := (head_ok_iff (by decide)).mp hh
        have ⟨r, hl⟩ := reads_content_iff.mpr ⟨arg, d₁, r₁, r, hl⟩
        exact ⟨r, .text, .text hl, Nat.succ_pos _⟩
      case inr.inr.inr.inr.inl =>
        obtain ⟨vs, rfl, r, hl, ha⟩ := (body_array_ok_iff ih).mp hb
        have ⟨_, r₁⟩ := (head_ok_iff (by decide)).mp hh
        have ⟨r, hl⟩ := reads_content_iff.mpr ⟨arg, d₁, r₁, r, hl⟩
        exact ⟨r, Value.decodable_array_iff.mpr ⟨hl, ha⟩⟩
      case inr.inr.inr.inr.inr.inl =>
        obtain ⟨es, rfl, r, hl, ha⟩ := (body_map_ok_iff ih).mp hb
        have ⟨_, r₁⟩ := (head_ok_iff (by decide)).mp hh
        have ⟨r, hl⟩ := reads_content_iff.mpr ⟨arg, d₁, r₁, r, hl⟩
        exact ⟨r, decodable_map_iff.mpr ⟨hl, ha⟩⟩
      case inr.inr.inr.inr.inr.inr.inl =>
        obtain ⟨w, rfl, r, ha⟩ := (body_tag_ok_iff ih).mp hb
        have ⟨_, r₁⟩ := (head_ok_iff (by decide)).mp hh
        exact ⟨Reads.append_iff.mpr ⟨d₁, r₁, r⟩, Value.decodable_tag_iff.mpr ha⟩
      case inr.inr.inr.inr.inr.inr.inr =>
        obtain ⟨rfl, ⟨rfl, rfl⟩ | ⟨rfl, rfl⟩ | ⟨rfl, rfl⟩⟩ := body_simple_ok_iff.mp hb
        · exact ⟨((head_simple_ok_iff (by decide)).mp hh).right, .bool, .bool, Nat.succ_pos _⟩
        · exact ⟨((head_simple_ok_iff (by decide)).mp hh).right, .bool, .bool, Nat.succ_pos _⟩
        · exact ⟨((head_simple_ok_iff (by decide)).mp hh).right, .null, .null, Nat.succ_pos _⟩
    case mpr =>
      rintro ⟨r, hd⟩
      cases v
      case uint n => exact ⟨0, _, n, d', (head_ok_iff (by decide)).mpr ⟨rfl, r⟩, rfl⟩
      case nint n => exact ⟨1, _, n, d', (head_ok_iff (by decide)).mpr ⟨rfl, r⟩, rfl⟩
      case bytes b =>
        cases hd.inRange with | bytes hl =>
        obtain ⟨arg, d₁, r₁, r, hl⟩ := reads_content_iff.mp ⟨r, hl⟩
        refine ⟨2, _, arg, d₁, (head_ok_iff (by decide)).mpr ⟨rfl, r₁⟩, ?_⟩
        exact body_bytes_ok_iff.mpr ⟨b, rfl, r, hl⟩
      case text s =>
        cases hd.inRange with | text hl =>
        obtain ⟨arg, d₁, r₁, r, hl⟩ := reads_content_iff.mp ⟨r, hl⟩
        refine ⟨3, _, arg, d₁, (head_ok_iff (by decide)).mpr ⟨rfl, r₁⟩, ?_⟩
        exact body_text_ok_iff.mpr ⟨s, rfl, r, hl⟩
      case array vs =>
        obtain ⟨hl, ha⟩ := Value.decodable_array_iff.mp hd
        obtain ⟨arg, d₁, r₁, r, hl⟩ := reads_content_iff.mp ⟨r, hl⟩
        refine ⟨4, _, arg, d₁, (head_ok_iff (by decide)).mpr ⟨rfl, r₁⟩, ?_⟩
        exact (body_array_ok_iff ih).mpr ⟨vs, rfl, r, hl, ha⟩
      case map es =>
        obtain ⟨hl, ha⟩ := decodable_map_iff.mp hd
        obtain ⟨arg, d₁, r₁, r, hl⟩ := reads_content_iff.mp ⟨r, hl⟩
        refine ⟨5, _, arg, d₁, (head_ok_iff (by decide)).mpr ⟨rfl, r₁⟩, ?_⟩
        exact (body_map_ok_iff ih).mpr ⟨es, rfl, r, hl, ha⟩
      case tag t w =>
        obtain ⟨d₁, r₁, r⟩ := Reads.append_iff.mp r
        refine ⟨6, _, t, d₁, (head_ok_iff (by decide)).mpr ⟨rfl, r₁⟩, ?_⟩
        exact (body_tag_ok_iff ih).mpr ⟨w, rfl, r, Value.decodable_tag_iff.mp hd⟩
      case bool b =>
        cases b
        case false => exact ⟨7, 20, _, d', (head_simple_ok_iff (by decide)).mpr ⟨rfl, r⟩, rfl⟩
        case true => exact ⟨7, 21, _, d', (head_simple_ok_iff (by decide)).mpr ⟨rfl, r⟩, rfl⟩
      case null => exact ⟨7, 22, _, d', (head_simple_ok_iff (by decide)).mpr ⟨rfl, r⟩, rfl⟩

end Decoder

-- `decode` accepts exactly the encodings of the values that it returns.
theorem decode_eq_ok_iff {b : Bytes} {v : Value} :
    decode b = .ok v ↔ b = encode v ∧ v.Decodable (MAX_DEPTH + 1) := by
  simp only [decode, Except.bind_eq_ok, Prod.exists, Decoder.value_exact _ _ _ _]
  constructor
  case mp =>
    rintro ⟨v', d, ⟨r, hv⟩, h⟩
    split_ifs at h with hp
    cases h
    have hr := r.rest
    simp only [Decoder.rest, List.drop_zero, r.input, not_not.mp hp, List.drop_length,
      List.append_nil] at hr
    exact ⟨hr, hv⟩
  case mpr =>
    rintro ⟨rfl, hv⟩
    refine ⟨v, ⟨encode v, (encode v).length⟩, ⟨⟨rfl, ?_, ?_⟩, hv⟩, by simp⟩
    · simp
    · simp [Decoder.rest]

theorem reads_start (v : Value) (t : Bytes) :
    (Decoder.mk (encode v ++ t) 0).Reads (encode v) ⟨encode v ++ t, (encode v).length⟩ where
  input := rfl
  pos   := by simp
  rest  := by simp [Decoder.rest]

-- No encoding is the beginning of another one.
theorem encode_append_inj {v w : Value} {t t' : Bytes} (hv : v.Decodable left)
    (hw : w.Decodable left) (h : encode v ++ t = encode w ++ t') : v = w ∧ t = t' := by
  have h₁ := (Decoder.value_exact left _ _ _).mpr ⟨reads_start v t, hv⟩
  have h₂ := (Decoder.value_exact left _ _ _).mpr ⟨reads_start w t', hw⟩
  rw [h] at h₁
  cases (Except.ok.inj (h₁.symm.trans h₂))
  exact ⟨rfl, List.append_cancel_left h⟩

-- The codec is exact: a byte string is decoded to a value iff it is the encoding of that value and
-- the value is well formed and not nested too deeply. No two inputs decode to the same value, and no
-- input that decodes can be followed by further bytes.
theorem decode_exact (b : Bytes) (v : Value) :
    (decode b = .ok v ↔ v.WellFormed ∧ v.InRange ∧ v.depth ≤ MAX_DEPTH ∧ b = encode v) ∧
    (∀ b', decode b = .ok v → decode b' = .ok v → b = b') ∧
    (∀ t w, decode b = .ok v → decode (b ++ t) = .ok w → t = []) := by
  refine ⟨?_, ?_, ?_⟩
  · rw [decode_eq_ok_iff]
    constructor
    · rintro ⟨rfl, hw, hr, hd⟩
      exact ⟨hw, hr, Nat.le_of_lt_succ hd, rfl⟩
    · rintro ⟨hw, hr, hd, rfl⟩
      exact ⟨rfl, hw, hr, Nat.lt_succ_of_le hd⟩
  · intro b' h h'
    rw [(decode_eq_ok_iff.mp h).left, (decode_eq_ok_iff.mp h').left]
  · intro t w h h'
    obtain ⟨rfl, hv⟩ := decode_eq_ok_iff.mp h
    obtain ⟨he, hw⟩ := decode_eq_ok_iff.mp h'
    exact (encode_append_inj hv hw (by simpa using he)).right

end Cbor
