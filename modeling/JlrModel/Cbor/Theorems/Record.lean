import JlrModel.Cbor.Theorems.Accessor
import JlrModel.Cbor.Theorems.Exact

namespace Cbor

namespace Value

-- An argument is truncated if it exceeds 64 bits, but then the content that follows is long enough
-- for the whole encoding not to fit into memory.
mutual
theorem InRange.of_length : {v : Value} → v.WellFormed → (encode v).length < 2 ^ 64 → v.InRange
  | .uint _, _, _ => .uint
  | .nint _, _, _ => .nint
  | .bytes b, _, h => .bytes <| by
    simp only [encode, List.length_append] at h
    omega
  | .text s, _, h => .text <| by
    simp only [encode, List.length_append] at h
    omega
  | .array vs, .array hw, h => by
    simp only [encode, List.length_append] at h
    have := length_le_encodeItems vs
    exact .array (by omega) (ofItems hw (by omega))
  | .map es, .map _ hk hwk hwv, h => by
    simp only [encode, List.length_append] at h
    have := length_le_encodeEntries es
    have h := ofEntries hk hwk hwv (by omega)
    exact .map (by omega) (fun e he => (h e he).left) (fun e he => (h e he).right)
  | .tag t v, .tag hw, h => .tag <| of_length hw <| by
    simp only [encode, List.length_append] at h
    omega
  | .bool _, _, _ => .bool
  | .null, _, _ => .null

theorem InRange.ofItems : {vs : List Value} → (∀ v ∈ vs, v.WellFormed) →
    (encodeItems vs).length < 2 ^ 64 → ∀ v ∈ vs, v.InRange
  | [], _, _ => by simp
  | v :: vs, hw, h => by
    simp only [encodeItems, List.length_append] at h
    simp only [List.mem_cons, forall_eq_or_imp] at hw ⊢
    exact ⟨of_length hw.left (by omega), ofItems hw.right (by omega)⟩

theorem InRange.ofEntries : {es : List (Bytes × Value × Value)} → (∀ e ∈ es, e.1 = encode e.2.1) →
    (∀ e ∈ es, e.2.1.WellFormed) → (∀ e ∈ es, e.2.2.WellFormed) →
    (encodeEntries es).length < 2 ^ 64 → ∀ e ∈ es, e.2.1.InRange ∧ e.2.2.InRange
  | [], _, _, _, _ => by simp
  | (bs, k, v) :: es, hk, hwk, hwv, h => by
    simp only [encodeEntries, List.length_append] at h
    simp only [List.mem_cons, forall_eq_or_imp] at hk hwk hwv ⊢
    have hb : bs.length = (encode k).length := by rw [hk.left]
    exact ⟨⟨of_length hwk.left (by omega), of_length hwv.left (by omega)⟩,
      ofEntries hk.right hwk.right hwv.right (by omega)⟩
end

theorem decodable_uint {n : UInt64} : Decodable 1 (.uint n) :=
  ⟨.uint, .uint, Nat.one_pos⟩

end Value

-- Two values whose encodings fit into memory are equal if these are.
theorem encode_inj {v w : Value} (hv : v.WellFormed) (hw : w.WellFormed)
    (hl : (encode v).length < 2 ^ 64) (h : encode v = encode w) : v = w := by
  have hl' : (encode w).length < 2 ^ 64 := h ▸ hl
  have hd : v.Decodable (max v.depth w.depth + 1) :=
    ⟨hv, .of_length hv hl, Nat.lt_succ_of_le (le_max_left _ _)⟩
  have hd' : w.Decodable (max v.depth w.depth + 1) :=
    ⟨hw, .of_length hw hl', Nat.lt_succ_of_le (le_max_right _ _)⟩
  have ha : encode v ++ [] = encode w ++ [] := by rw [h]
  exact (encode_append_inj hd hd' ha).left

theorem encode_uint_inj {n k : UInt64} (h : encode (.uint n) = encode (.uint k)) : n = k := by
  have h : encode (.uint n) ++ [] = encode (.uint k) ++ [] := by rw [h]
  exact Value.uint.inj (encode_append_inj Value.decodable_uint Value.decodable_uint h).left

namespace Map

variable {m : Map} {key k : UInt64} {v : Value} {es : List (UInt64 × Value)}

theorem getUint_eq_none_iff : m.getUint key = none ↔ SortedMap.get (encode (.uint key)) m = none := by
  simp [getUint, Map.get]

theorem put_new (h : m.getUint key = none) :
    m.put key v = SortedMap.insert (encode (.uint key)) (.uint key, v) m := by
  simp [put, Map.insert, getUint_eq_none_iff.mp h]

theorem getUint_put (h : m.getUint key = none) :
    (m.put key v).getUint k = if k = key then some v else m.getUint k := by
  rw [put_new h]
  split_ifs with hk
  · simp [getUint, Map.get, hk, SortedMap.get_insert_self]
  · rw [getUint, Map.get, SortedMap.get_insert_of_ne (fun he => hk (encode_uint_inj he))]
    rfl

-- The map of the entries, as `Field::put` writes them one after the other.
def ofEntries : List (UInt64 × Value) → Map → Map
  | [], m            => m
  | (key, v) :: es, m => ofEntries es (m.put key v)

theorem getUint_ofEntries (hn : (es.map Prod.fst).Nodup) (hm : ∀ e ∈ es, m.getUint e.1 = none) :
    (ofEntries es m).getUint k = (es.lookup k).or (m.getUint k) := by
  induction es generalizing m
  case nil => simp [ofEntries]
  case cons e es ih =>
    obtain ⟨key, v⟩ := e
    simp only [List.map_cons, List.nodup_cons] at hn
    simp only [List.mem_cons, forall_eq_or_imp] at hm
    have hm' : ∀ e ∈ es, (m.put key v).getUint e.1 = none := by
      intro e he
      have hne : e.1 ≠ key := fun h => hn.left (h ▸ List.mem_map_of_mem he)
      rw [getUint_put hm.left, if_neg hne, hm.right e he]
    have hi := ih hn.right hm'
    rw [getUint_put hm.left] at hi
    change (ofEntries es (m.put key v)).getUint k = _
    rw [hi, List.lookup_cons]
    by_cases hk : k = key
    · subst hk
      have hl : es.lookup k = none := List.lookup_eq_none_iff.mpr fun e he => by
        have hne : k ≠ e.1 := fun h => hn.left (h ▸ List.mem_map_of_mem he)
        simpa using hne
      simp [hl]
    · simp [hk, beq_eq_false_iff_ne.mpr hk]

-- The entries of a record map are held under the encodings of their integer keys.
structure OfFields (P : UInt64 → Value → Prop) (m : Map) : Prop where
  sorted : SortedMap.Sorted m
  entry  : ∀ e ∈ m, ∃ key v, P key v ∧ e = (encode (.uint key), .uint key, v)

theorem OfFields.ofEntries {P : UInt64 → Value → Prop} (h : OfFields P m) (hs : ∀ e ∈ es, P e.1 e.2) :
    OfFields P (ofEntries es m) := by
  induction es generalizing m
  case nil => exact h
  case cons e es ih =>
    obtain ⟨key, v⟩ := e
    simp only [List.mem_cons, forall_eq_or_imp] at hs
    refine ih ?_ hs.right
    cases hm : m.getUint key
    case some w =>
      obtain ⟨_, hw, _⟩ := Option.map_eq_some_iff.mp hm
      simpa [put, Map.insert, hw] using h
    case none =>
      rw [put_new hm]
      refine ⟨h.sorted.insert, fun e' he' => ?_⟩
      obtain rfl | he' := SortedMap.mem_insert_fst he'
      · exact ⟨key, v, hs.left, rfl⟩
      · exact h.entry e' he'

theorem OfFields.of_wellFormed (keys : List UInt64) (h : (Value.map m).WellFormed)
    (hk : ∀ e ∈ m, ∃ key ∈ keys, e.2.1 = .uint key) : OfFields (fun key _ => key ∈ keys) m := by
  cases h with | map hs he _ _ =>
  refine ⟨hs, fun e hm => ?_⟩
  have ⟨key, hkey, hu⟩ := hk e hm
  have hb := he e hm
  obtain ⟨bs, k, v⟩ := e
  simp only at hu hb
  exact ⟨key, v, hkey, by rw [hb, hu]⟩

theorem OfFields.get_eq {P : UInt64 → Value → Prop} {bs : Bytes} {kv : Value × Value}
    (h : OfFields P m) (hg : SortedMap.get bs m = some kv) :
    ∃ key, P key kv.2 ∧ bs = encode (.uint key) ∧ kv.1 = .uint key ∧ m.getUint key = some kv.2 := by
  have ⟨key, v, hp, he⟩ := h.entry _ (SortedMap.mem_of_get hg)
  simp only [Prod.mk.injEq] at he
  refine ⟨key, ?_, he.left, ?_, ?_⟩
  · rw [he.right]
    exact hp
  · rw [he.right]
  · rw [getUint, Map.get, ← he.left, hg]
    rfl

theorem OfFields.getUint_eq {P : UInt64 → Value → Prop} (h : OfFields P m)
    (hg : m.getUint key = some v) :
    P key v ∧ SortedMap.get (encode (.uint key)) m = some (.uint key, v) := by
  have ⟨kv, hs, hv⟩ := Option.map_eq_some_iff.mp hg
  have ⟨key', hp, hk, hu, _⟩ := h.get_eq hs
  cases encode_uint_inj hk
  rw [← hv, hs, ← hu]
  exact ⟨hp, rfl⟩

-- A record map is determined by what it holds under each integer key.
theorem OfFields.ext {P P' : UInt64 → Value → Prop} {m' : Map} (h : OfFields P m) (h' : OfFields P' m')
    (hg : ∀ key, m.getUint key = m'.getUint key) : m = m' := by
  apply h.sorted.ext h'.sorted
  have half {P P' : UInt64 → Value → Prop} {m m' : Map} (h : OfFields P m) (h' : OfFields P' m')
      (hg : ∀ key, m.getUint key = m'.getUint key) {bs : Bytes} {kv : Value × Value}
      (hs : SortedMap.get bs m = some kv) : SortedMap.get bs m' = some kv := by
    have ⟨key, _, hb, hu, hk⟩ := h.get_eq hs
    rw [hb, (h'.getUint_eq ((hg key).symm.trans hk)).right, ← hu]
  intro bs
  cases hs : SortedMap.get bs m
  case some kv => exact (half h h' hg hs).symm
  case none =>
    cases hs' : SortedMap.get bs m'
    case none => rfl
    case some kv => exact absurd (half h' h (fun key => (hg key).symm) hs') (by simp [hs])

theorem OfFields.wellFormed {P : UInt64 → Value → Prop} (h : OfFields P m)
    (hp : ∀ key v, P key v → v.WellFormed) : (Value.map m).WellFormed := by
  refine .map h.sorted (fun e he => ?_) (fun e he => ?_) (fun e he => ?_)
  all_goals obtain ⟨key, v, hv, rfl⟩ := h.entry e he
  · rfl
  · exact .uint
  · exact hp key v hv

theorem OfFields.depth_lt {P : UInt64 → Value → Prop} {levels : Nat} (h : OfFields P m)
    (hp : ∀ key v, P key v → v.depth < levels) : (Value.map m).depth < levels + 1 := by
  refine Value.depthEntries_lt_iff.mpr fun e he => ?_
  obtain ⟨key, v, hv, rfl⟩ := h.entry e he
  exact ⟨(hp key v hv).trans_le' (Nat.zero_le _), hp key v hv⟩

end Map

-- What a type guarantees so that its valid values survive the round trip through the data model.
class LawfulCbor (α : Type) [Cbor α] where
  Valid      : α → Prop
  levels     : Nat
  roundTrip  {a : α} : Valid a → fromValue (toValue a) = .ok a
  wellFormed (a : α) : (toValue a).WellFormed
  depth_lt   (a : α) : (toValue a).depth < levels
  not_null   (a : α) : (toValue a).isNull = false

-- The same for the type of a field, which may leave its entry out.
class LawfulField (β : Type) [Field β] where
  Valid      : β → Prop
  levels     : Nat
  entry      : β → Option Value
  put_eq     (b : β) : Field.put b m key = Map.ofEntries ((entry b).toList.map (key, ·)) m
  get_ok     {b : β} : Valid b → f.map.getUint key = entry b →
    Field.get key f = .ok (b, { f with used := key :: f.used })
  wellFormed {b : β} : entry b = some v → v.WellFormed
  depth_lt   {b : β} : entry b = some v → v.depth < levels

namespace Fields

variable {f : Fields} {key : UInt64} {v : Value}

theorem req_ok_iff {f' : Fields} :
    req key f = .ok (v, f') ↔ f.map.getUint key = some v ∧ f' = { f with used := key :: f.used } := by
  have hm {g : Fields → Fields} {u : Unit} {f₁ : Fields} : (modify g : Read Unit) f = .ok (u, f₁) ↔ f₁ = g f := by
    constructor
    case mp  => intro h; cases h; rfl
    case mpr => intro h; rw [h]; rfl
  simp only [req, StateT.bind_eq_ok, StateT.get_eq_ok, hm]
  constructor
  case mp =>
    rintro ⟨_, f₁, rfl, f₂, _, ⟨rfl, rfl⟩, h⟩
    cases hg : f.map.getUint key <;> simp only [hg, StateT.throw_ne_ok, StateT.pure_eq_ok] at h
    exact ⟨congrArg some h.left, h.right.symm⟩
  case mpr =>
    rintro ⟨hg, rfl⟩
    refine ⟨(), _, rfl, _, _, ⟨rfl, rfl⟩, ?_⟩
    simp only [hg, StateT.pure_eq_ok, and_self]

theorem opt_ok :
    opt key f = .ok ((f.map.getUint key).filter (! ·.isNull), { f with used := key :: f.used }) :=
  rfl

theorem finish_ok_iff : f.finish = .ok () ↔ ∀ e ∈ f.map, f.known e.2.1 := by
  rw [finish, Except.forM_eq_ok]
  simp

end Fields

instance [Cbor β] [LawfulCbor β] : LawfulField β where
  Valid              := LawfulCbor.Valid
  levels             := LawfulCbor.levels β
  entry b            := some (toValue b)
  put_eq _           := rfl
  get_ok hv h        := StateT.bind_eq_ok.mpr
    ⟨_, _, Fields.req_ok_iff.mpr ⟨h, rfl⟩, StateT.liftM_eq_ok.mpr ⟨LawfulCbor.roundTrip hv, rfl⟩⟩
  wellFormed {_ b} h := Option.some.inj h ▸ LawfulCbor.wellFormed b
  depth_lt {_ b} h   := Option.some.inj h ▸ LawfulCbor.depth_lt b

instance [Cbor β] [LawfulCbor β] : LawfulField (Option β) where
  Valid o            := ∀ b ∈ o, LawfulCbor.Valid b
  levels             := LawfulCbor.levels β
  entry              := Option.map toValue
  put_eq o           := by cases o <;> rfl
  get_ok {_ _ o} hv h := by
    refine StateT.bind_eq_ok.mpr ⟨_, _, Fields.opt_ok, ?_⟩
    rw [h]
    cases o
    case none => rfl
    case some b =>
      simp only [Option.map_some, Option.filter_some, LawfulCbor.not_null, Bool.not_false, if_true]
      refine StateT.bind_eq_ok.mpr ⟨b, _, StateT.liftM_eq_ok.mpr ⟨?_, rfl⟩, rfl⟩
      exact LawfulCbor.roundTrip (hv b rfl)
  wellFormed {_ o} h := by
    obtain ⟨b, _, rfl⟩ := Option.map_eq_some_iff.mp h
    exact LawfulCbor.wellFormed b
  depth_lt {_ o} h := by
    obtain ⟨b, _, rfl⟩ := Option.map_eq_some_iff.mp h
    exact LawfulCbor.depth_lt b

theorem Map.ofEntries_append : ofEntries (es ++ es') m = ofEntries es' (ofEntries es m) := by
  induction es generalizing m
  case nil => rfl
  case cons e es ih => exact ih

-- The laws of a list of fields: what is written for them can be read back.
class Schema.Lawful (s : Schema ρ κ) where
  Valid      : ρ → Prop
  levels     : Nat
  entries    : ρ → List (UInt64 × Value)
  put_eq     (r m) : s.put r m = Map.ofEntries (entries r) m
  keys       (r) : ((entries r).map Prod.fst).Sublist s.keys
  get_ok     : s.keys.Nodup → Valid r → (∀ k ∈ s.keys, f.map.getUint k = (entries r).lookup k) →
    s.get mk f = .ok (s.rebuild r mk, { f with used := s.keys.reverse ++ f.used })
  wellFormed : e ∈ entries r → e.2.WellFormed
  depth_lt   : e ∈ entries r → e.2.depth < levels

instance : Schema.Lawful (.done : Schema ρ ρ) where
  Valid _      := True
  levels       := 0
  entries _    := []
  put_eq _ _   := rfl
  keys _       := .slnil
  get_ok _ _ _ := rfl
  wellFormed h := absurd h List.not_mem_nil
  depth_lt h   := absurd h List.not_mem_nil

open Schema in
instance [Field β] [LawfulField β] {proj : ρ → β} {rest : Schema ρ κ} [l : rest.Lawful] :
    Schema.Lawful (.field key proj rest) where
  Valid r    := LawfulField.Valid (proj r) ∧ l.Valid r
  levels     := max (LawfulField.levels β) l.levels
  entries r  := (LawfulField.entry (proj r)).toList.map (key, ·) ++ l.entries r
  put_eq r m := by
    rw [Map.ofEntries_append, ← LawfulField.put_eq, ← l.put_eq]
    rfl
  keys r     := by
    cases LawfulField.entry (proj r)
    case none => exact (l.keys r).cons _
    case some => exact (l.keys r).cons_cons _
  get_ok     := by
    intro r mk f hn hv h
    obtain ⟨hk, hn⟩ := List.nodup_cons.mp hn
    have hl : (l.entries r).lookup key = none := List.lookup_eq_none_iff.mpr fun e he => by
      have hne : key ≠ e.1 := fun he' => hk (he' ▸ (l.keys r).subset (List.mem_map_of_mem he))
      simpa using hne
    have hb : f.map.getUint key = LawfulField.entry (proj r) := by
      rw [h key (by simp [Schema.keys])]
      cases LawfulField.entry (proj r) <;> simp [hl]
    have hr : ∀ k ∈ rest.keys, f.map.getUint k = (l.entries r).lookup k := by
      intro k hm
      have hne : k ≠ key := fun he => hk (he ▸ hm)
      rw [h k (by simp [Schema.keys, hm])]
      cases LawfulField.entry (proj r) <;> simp [List.lookup_cons, beq_eq_false_iff_ne.mpr hne]
    refine StateT.bind_eq_ok.mpr ⟨_, _, LawfulField.get_ok hv.left hb, ?_⟩
    have hg : rest.get (mk (proj r)) { f with used := key :: f.used } = _ := l.get_ok hn hv.right hr
    simpa [Schema.keys, Schema.rebuild] using hg
  wellFormed := by
    intro e r h
    obtain h | h := List.mem_append.mp h
    · obtain ⟨v, hv, rfl⟩ := List.mem_map.mp h
      exact LawfulField.wellFormed (Option.mem_toList.mp hv)
    · exact l.wellFormed h
  depth_lt   := by
    intro e r h
    obtain h | h := List.mem_append.mp h
    · obtain ⟨v, hv, rfl⟩ := List.mem_map.mp h
      exact lt_max_of_lt_left (LawfulField.depth_lt (Option.mem_toList.mp hv))
    · exact lt_max_of_lt_right (l.depth_lt h)

theorem Schema.Lawful.ofFields (s : Schema ρ κ) [l : s.Lawful] (r : ρ) :
    Map.OfFields (fun key v => (key, v) ∈ l.entries r) (s.put r Map.new) := by
  rw [l.put_eq]
  exact Map.OfFields.ofEntries ⟨SortedMap.sorted_nil, by simp [Map.new]⟩ (fun _ he => he)

theorem Schema.Lawful.getUint_put (s : Schema ρ κ) [l : s.Lawful] (hn : s.keys.Nodup) (r : ρ) :
    (s.put r Map.new).getUint key = (l.entries r).lookup key := by
  rw [l.put_eq, Map.getUint_ofEntries ((l.keys r).nodup hn) (fun _ _ => rfl)]
  exact Option.or_none

open Schema in
instance {schema : Schema ρ κ} [record : Record ρ ctor schema] [l : schema.Lawful] : LawfulCbor ρ where
  Valid  := l.Valid
  levels := l.levels + 1
  roundTrip {r} hv := by
    have hg : schema.get ctor ⟨schema.put r Map.new, []⟩ = _ :=
      l.get_ok record.nodup hv fun k _ => Lawful.getUint_put schema record.nodup r
    rw [record.eta] at hg
    have hf : Fields.finish ⟨schema.put r Map.new, schema.keys.reverse ++ []⟩ = .ok () := by
      refine Fields.finish_ok_iff.mpr fun e he => ?_
      obtain ⟨key, v, hk, rfl⟩ := (Lawful.ofFields schema r).entry e he
      simpa [Fields.known] using (l.keys r).subset (List.mem_map_of_mem hk)
    refine Except.bind_eq_ok.mpr ⟨⟨schema.put r Map.new, []⟩, rfl, ?_⟩
    exact Except.bind_eq_ok.mpr ⟨_, hg, Except.bind_eq_ok.mpr ⟨(), hf, rfl⟩⟩
  wellFormed r := (Lawful.ofFields schema r).wellFormed fun _ _ h => l.wellFormed h
  depth_lt r   := (Lawful.ofFields schema r).depth_lt fun _ _ h => l.depth_lt h
  not_null _   := rfl

-- The types whose values are valid without further ado and not nested.
@[reducible]
def LawfulCbor.scalar [Cbor α] (h : ∀ a : α, fromValue (toValue a) = .ok a)
    (hw : ∀ a : α, (toValue a).WellFormed) (hd : ∀ a : α, (toValue a).depth = 0)
    (hn : ∀ a : α, (toValue a).isNull = false) : LawfulCbor α where
  Valid _    := True
  levels     := 1
  roundTrip _ := h _
  wellFormed := hw
  depth_lt a := hd a ▸ Nat.one_pos
  not_null   := hn

instance : LawfulCbor UInt64 :=
  .scalar (fun _ => rfl) (fun _ => .uint) (fun _ => rfl) (fun _ => rfl)

instance : LawfulCbor Bool :=
  .scalar (fun _ => rfl) (fun _ => .bool) (fun _ => rfl) (fun _ => rfl)

instance : LawfulCbor String :=
  .scalar (fun _ => rfl) (fun _ => .text) (fun _ => rfl) (fun _ => rfl)

instance : LawfulCbor Bytes :=
  .scalar (fun _ => rfl) (fun _ => .bytes) (fun _ => rfl) (fun _ => rfl)

instance : LawfulCbor (Bytes.Fixed n) :=
  .scalar Value.asByteArray_bytes (fun _ => .bytes) (fun _ => rfl) (fun _ => rfl)

instance : LawfulCbor Int64 := by
  refine .scalar (fun _ => Value.asI64_ok_iff.mpr rfl) (fun n => ?_) (fun n => ?_) (fun n => ?_)
  all_goals
    simp only [toValue, Value.ofI64]
    split_ifs
  all_goals constructor

instance : LawfulCbor UInt16 :=
  .scalar Value.asU16_uint (fun _ => .uint) (fun _ => rfl) (fun _ => rfl)

instance : LawfulCbor UInt32 :=
  .scalar Value.asU32_uint (fun _ => .uint) (fun _ => rfl) (fun _ => rfl)

instance [Cbor α] [LawfulCbor α] : LawfulCbor (List α) where
  Valid as        := ∀ a ∈ as, LawfulCbor.Valid a
  levels          := LawfulCbor.levels α + 1
  roundTrip hv    := Except.mapM_map_eq_ok fun a ha => LawfulCbor.roundTrip (hv a ha)
  wellFormed as   := .array <| by simpa using fun a _ => LawfulCbor.wellFormed a
  depth_lt as     := Value.depthItems_lt_iff.mpr <| by simpa using fun a _ => LawfulCbor.depth_lt a
  not_null _      := rfl

-- The strict decoder of a type: the bytes of a valid value are read back, and no other bytes are read
-- as that value.
theorem fromCbor_toCbor [Cbor α] [LawfulCbor α] {a : α} (hl : LawfulCbor.levels α ≤ MAX_DEPTH + 1)
    (hv : LawfulCbor.Valid a) (hs : (toCbor a).length < 2 ^ 64) : fromCbor α (toCbor a) = .ok a := by
  have hw := LawfulCbor.wellFormed a
  have hd : decode (toCbor a) = .ok (toValue a) :=
    decode_eq_ok_iff.mpr ⟨rfl, hw, .of_length hw hs, (LawfulCbor.depth_lt a).trans_le hl⟩
  simp [fromCbor, hd, LawfulCbor.roundTrip hv, bind, Except.bind, pure, Except.pure]

theorem toCbor_of_fromCbor [Cbor α] {bytes : Bytes} {a : α} (h : fromCbor α bytes = .ok a) :
    toCbor a = bytes := by
  obtain ⟨v, _, h⟩ := Except.bind_eq_ok.mp h
  obtain ⟨parsed, _, h⟩ := Except.bind_eq_ok.mp h
  split_ifs at h with he
  cases h
  exact not_not.mp he

-- A part of a record is not read as another one.
theorem fromCbor_take [Cbor α] {bytes : Bytes} {a b : α} (h : fromCbor α bytes = .ok a)
    (ht : fromCbor α (bytes.take n) = .ok b) : a = b := by
  have ⟨v, hv, _⟩ := Except.bind_eq_ok.mp h
  have ⟨w, hw, _⟩ := Except.bind_eq_ok.mp ht
  have ⟨hb, hv⟩ := decode_eq_ok_iff.mp hv
  have ⟨hb', hw⟩ := decode_eq_ok_iff.mp hw
  have he : encode w ++ bytes.drop n = encode v ++ [] := by
    rw [← hb', ← hb, List.take_append_drop, List.append_nil]
  have hn := (encode_append_inj hw hv he).right
  have hall := List.take_append_drop n bytes
  rw [hn, List.append_nil] at hall
  rw [hall, h] at ht
  exact Except.ok.inj ht

-- Records that are written alike have the same fields.
theorem entries_of_toCbor {schema : Schema ρ κ} [record : Record ρ ctor schema] [l : schema.Lawful] {r r' : ρ}
    (hl : (toCbor r).length < 2 ^ 64) (h : toCbor r = toCbor r') (key : UInt64) :
    (l.entries r).lookup key = (l.entries r').lookup key := by
  have hv : toValue r = toValue r' := encode_inj (LawfulCbor.wellFormed r) (LawfulCbor.wellFormed r') hl h
  have hm : schema.put r Map.new = schema.put r' Map.new := Value.map.inj hv
  rw [← Schema.Lawful.getUint_put schema record.nodup r, hm, Schema.Lawful.getUint_put schema record.nodup r']

end Cbor
