import JlrModel.Cbor.Theorems.Record

-- The lengths of encodings.

namespace Cbor

variable {major : UInt8} {a : UInt64}

theorem writeHead_length_le_nine : (writeHead major a).length ≤ 9 := by
  unfold writeHead
  split_ifs <;> simp

theorem writeHead_length_of_lt (h : a < 24) : (writeHead major a).length = 1 := by
  simp [writeHead, h]

theorem length_encode_uint_le : (encode (.uint a)).length ≤ 9 :=
  writeHead_length_le_nine

theorem length_encode_text_le {s : String} : (encode (.text s)).length ≤ (utf8 s).length + 9 := by
  rw [encode, List.length_append, Nat.add_comm]
  exact Nat.add_le_add_left writeHead_length_le_nine _

theorem length_encode_text_ge {s : String} : (utf8 s).length + 1 ≤ (encode (.text s)).length := by
  rw [encode, List.length_append, Nat.add_comm]
  exact Nat.add_le_add_right writeHead_length_pos _

theorem length_encode_bytes_le {b : Bytes} : (encode (.bytes b)).length ≤ b.length + 9 := by
  rw [encode, List.length_append, Nat.add_comm]
  exact Nat.add_le_add_left writeHead_length_le_nine _

theorem length_encode_bytes_ge {b : Bytes} : b.length + 1 ≤ (encode (.bytes b)).length := by
  rw [encode, List.length_append, Nat.add_comm]
  exact Nat.add_le_add_right writeHead_length_pos _

theorem utf8_append {s t : String} : utf8 (s ++ t) = utf8 s ++ utf8 t := by
  simp [utf8]

theorem SortedMap.length_encodeEntries_insert {k : Bytes} {kv : Value × Value} {m : Map}
    (h : SortedMap.get k m = none) :
    (encodeEntries (SortedMap.insert k kv m)).length =
      k.length + (encode kv.2).length + (encodeEntries m).length ∧
    (SortedMap.insert k kv m).length = m.length + 1 := by
  obtain ⟨_, _⟩ := kv
  induction m
  case nil => simp [SortedMap.insert, encodeEntries]
  case cons e m ih =>
    obtain ⟨k', key, v⟩ := e
    have hne : k' ≠ k := by
      intro he
      simp [SortedMap.get_cons, he] at h
    rw [SortedMap.get_cons, if_neg hne] at h
    obtain ⟨h₁, h₂⟩ := ih h
    unfold SortedMap.insert
    rw [if_neg hne.symm]
    split_ifs
    · simp only [encodeEntries, List.length_append, List.length_cons, and_true]
      omega
    · simp only [encodeEntries, List.length_append, List.length_cons, h₁, h₂, and_true]
      omega

-- The number of bytes that the entries of a record take.
def entriesLength (es : List (UInt64 × Value)) : Nat :=
  (es.map fun e => (encode (.uint e.1)).length + (encode e.2).length).sum

-- Small keys take one byte each.
theorem entriesLength_of_lt {es : List (UInt64 × Value)} (h : (es.map Prod.fst).all (· < 24)) :
    entriesLength es = es.length + (es.map fun e => (encode e.2).length).sum := by
  induction es
  case nil => rfl
  case cons e es ih =>
    simp only [List.map_cons, List.all_cons, Bool.and_eq_true, decide_eq_true_eq] at h
    have hk : (encode (.uint e.1)).length = 1 := writeHead_length_of_lt h.left
    have hs := ih h.right
    simp only [entriesLength, List.map_cons, List.sum_cons, List.length_cons] at hs ⊢
    omega

theorem Map.length_ofEntries {es : List (UInt64 × Value)} {m : Map} (hn : (es.map Prod.fst).Nodup)
    (hm : ∀ e ∈ es, m.getUint e.1 = none) :
    (encodeEntries (ofEntries es m)).length = entriesLength es + (encodeEntries m).length ∧
    (ofEntries es m).length = es.length + m.length := by
  induction es generalizing m
  case nil => simp [ofEntries, entriesLength]
  case cons e es ih =>
    obtain ⟨key, v⟩ := e
    simp only [List.map_cons, List.nodup_cons] at hn
    simp only [List.mem_cons, forall_eq_or_imp] at hm
    have hm' : ∀ e ∈ es, (m.put key v).getUint e.1 = none := by
      intro e he
      have hne : e.1 ≠ key := fun h => hn.left (h ▸ List.mem_map_of_mem he)
      rw [getUint_put hm.left, if_neg hne, hm.right e he]
    obtain ⟨h₁, h₂⟩ := ih hn.right hm'
    have hg : SortedMap.get (encode (.uint key)) m = none := getUint_eq_none_iff.mp hm.left
    obtain ⟨h₃, h₄⟩ := @SortedMap.length_encodeEntries_insert _ (.uint key, v) _ hg
    change (encodeEntries (ofEntries es (m.put key v))).length = _ ∧ (ofEntries es (m.put key v)).length = _
    rw [h₁, h₂, put_new hm.left, h₃, h₄]
    simp only [entriesLength, List.map_cons, List.sum_cons, List.length_cons]
    omega

theorem length_encode_ofEntries {es : List (UInt64 × Value)} (hn : (es.map Prod.fst).Nodup) :
    (encode (.map (Map.ofEntries es Map.new))).length =
    (writeHead 5 (.ofNat es.length)).length + entriesLength es := by
  have ⟨h₁, h₂⟩ := Map.length_ofEntries (m := Map.new) hn fun _ _ => rfl
  rw [encode, List.length_append, h₁, h₂]
  rfl

theorem length_toCbor {schema : Schema ρ κ} [record : Record ρ ctor schema] [l : schema.Lawful] (r : ρ) :
    (toCbor r).length = (writeHead 5 (.ofNat (l.entries r).length)).length + entriesLength (l.entries r) := by
  change (encode (.map (schema.put r Map.new))).length = _
  rw [l.put_eq, length_encode_ofEntries ((l.keys r).nodup record.nodup)]

end Cbor
