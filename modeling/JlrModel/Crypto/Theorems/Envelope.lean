import JlrModel.Cbor.Theorems.Record
import JlrModel.Crypto.Envelope

open Cbor

namespace Envelope

variable {bytes : Bytes} {parts : Parts}

-- The value that an envelope encodes.
def Parts.toValue (parts : Parts) : Value :=
  .tag COSE_SIGN1_TAG <| .array [
    .bytes parts.protect, .map Map.new, .bytes parts.payload, .bytes parts.signature.val
  ]

theorem Parts.decodable_iff :
    parts.toValue.Decodable (MAX_DEPTH + 1) ↔
    parts.protect.length < 2 ^ 64 ∧ parts.payload.length < 2 ^ 64 := by
  change Value.Decodable (31 + 1 + 1) _ ↔ _
  rw [toValue, Value.decodable_tag_iff, Value.decodable_array_iff]
  simp [Value.decodable_bytes_iff, Value.decodable_map_nil, Map.new, parts.signature.property]

theorem Parts.read_ok_iff :
    Parts.read bytes = .ok parts ↔
    bytes = parts.write ∧ parts.protect.length < 2 ^ 64 ∧ parts.payload.length < 2 ^ 64 := by
  rw [← Parts.decodable_iff]
  constructor
  case mp =>
    intro h
    have ⟨top, hd, h⟩ := Except.bind_eq_ok.mp h
    have ⟨inner, ht, h⟩ := Except.bind_eq_ok.mp h
    have ⟨items, ha, h⟩ := Except.bind_eq_ok.mp h
    have ht := Value.asTag_ok_iff.mp (Except.mapError_eq_ok.mp ht)
    have ha := Value.asArray_ok_iff.mp (Except.mapError_eq_ok.mp ha)
    split at h
    case h_2 => exact (Except.throw_ne_ok.mp h).elim
    have ⟨protect, hp, h⟩ := Except.bind_eq_ok.mp h
    split at h
    case h_2 => exact (Except.throw_ne_ok.mp h).elim
    have ⟨payload, hy, h⟩ := Except.bind_eq_ok.mp h
    have ⟨signature, hs, h⟩ := Except.bind_eq_ok.mp h
    have hp := Value.asBytes_ok_iff.mp (Except.mapError_eq_ok.mp hp)
    have hy := Value.asBytes_ok_iff.mp (Except.mapError_eq_ok.mp hy)
    have hs := Value.asByteArray_ok_iff.mp (Except.mapError_eq_ok.mp hs)
    have hv : top = parts.toValue := by
      rw [ht, ha, hp, hy, hs, ← Except.pure_eq_ok.mp h]
      rfl
    subst hv
    exact decode_eq_ok_iff.mp (Except.mapError_eq_ok.mp hd)
  case mpr =>
    intro h
    have hd := decode_eq_ok_iff.mpr h
    have hs := Value.asByteArray_bytes parts.signature
    refine Except.bind_eq_ok.mpr ⟨parts.toValue, Except.mapError_eq_ok.mpr hd, ?_⟩
    refine Except.bind_eq_ok.mpr ⟨_, rfl, Except.bind_eq_ok.mpr ⟨_, rfl, ?_⟩⟩
    refine Except.bind_eq_ok.mpr ⟨parts.protect, rfl, ?_⟩
    refine Except.bind_eq_ok.mpr ⟨parts.payload, rfl, ?_⟩
    exact Except.bind_eq_ok.mpr ⟨parts.signature, Except.mapError_eq_ok.mpr hs, rfl⟩

-- The payload is found in every envelope that is read, with or without a look at its signature.
theorem unverifiedPayload_of_read (h : Parts.read bytes = .ok parts) :
    unverifiedPayload bytes = some parts.payload := by
  have ⟨hw, hl⟩ := Parts.read_ok_iff.mp h
  have hd : decode bytes = .ok parts.toValue := decode_eq_ok_iff.mpr ⟨hw, Parts.decodable_iff.mpr hl⟩
  rw [unverifiedPayload, hd]
  rfl

theorem Parts.length_write :
    parts.protect.length + parts.payload.length ≤ parts.write.length := by
  simp only [Parts.write, encode, encodeItems, List.length_append]
  omega

namespace Header

variable {protect : Bytes} {header : Header}

def entries (header : Header) : List (UInt64 × Value) := [
  (LABEL_ALG, .ofI64 header.alg), (LABEL_KID, .bytes header.kid.bytes.val), (LABEL_TYP, .text header.typ)
]

def toMap (header : Header) : Map :=
  Map.ofEntries header.entries Map.new

theorem getUint_toMap {key : UInt64} : header.toMap.getUint key = header.entries.lookup key := by
  have hn : (header.entries.map Prod.fst).Nodup :=
    show [LABEL_ALG, LABEL_KID, LABEL_TYP].Nodup by decide
  rw [toMap, Map.getUint_ofEntries hn (fun _ _ => rfl)]
  exact Option.or_none

theorem ofFields_toMap (header : Header) : Map.OfFields (fun key v => (key, v) ∈ header.entries)
    header.toMap :=
  Map.OfFields.ofEntries ⟨SortedMap.sorted_nil, by simp [Map.new]⟩ (fun _ he => he)

theorem label_ok_iff {α : Type} {key : UInt64} {read : Value → Except Cbor.Error α} {what : String}
    {fields fields' : Fields} {a : α} :
    label key read what fields = .ok (a, fields') ↔
    ∃ v, fields.map.getUint key = some v ∧ read v = .ok a ∧
      fields' = { fields with used := key :: fields.used } := by
  rw [label, Except.mapError_eq_ok, StateT.bind_eq_ok]
  constructor
  case mp =>
    intro ⟨v, f, hr, h⟩
    have ⟨hg, hf⟩ := Fields.req_ok_iff.mp hr
    have ⟨ha, he⟩ := StateT.liftM_eq_ok.mp h
    exact ⟨v, hg, ha, he ▸ hf⟩
  case mpr =>
    intro ⟨v, hg, ha, hf⟩
    exact ⟨v, _, Fields.req_ok_iff.mpr ⟨hg, rfl⟩, StateT.liftM_eq_ok.mpr ⟨ha, hf.symm⟩⟩

theorem entries_lawful {key : UInt64} {v : Value} (h : (key, v) ∈ header.entries) :
    v.WellFormed ∧ v.depth < 1 := by
  simp only [entries, List.mem_cons, Prod.mk.injEq, List.not_mem_nil, or_false] at h
  obtain ⟨_, rfl⟩ | ⟨_, rfl⟩ | ⟨_, rfl⟩ := h
  · exact ⟨LawfulCbor.wellFormed header.alg, LawfulCbor.depth_lt header.alg⟩
  · exact ⟨.bytes, Nat.one_pos⟩
  · exact ⟨.text, Nat.one_pos⟩

theorem decode_write (hl : header.write.length < 2 ^ 64) :
    decode header.write = .ok (.map header.toMap) := by
  have hw := (ofFields_toMap header).wellFormed fun _ _ h => (entries_lawful h).left
  have hd := (ofFields_toMap header).depth_lt fun _ _ h => (entries_lawful h).right
  exact decode_eq_ok_iff.mpr ⟨rfl, hw, .of_length hw hl, hd.trans (by decide)⟩

-- The three labels and nothing else are in a header that is accepted.
theorem toMap_unique {m : Map} (hw : (Value.map m).WellFormed)
    (ha : m.getUint LABEL_ALG = some (.ofI64 header.alg))
    (hk : m.getUint LABEL_KID = some (.bytes header.kid.bytes.val))
    (ht : m.getUint LABEL_TYP = some (.text header.typ))
    (hn : ∀ e ∈ m, Fields.known ⟨m, [LABEL_TYP, LABEL_KID, LABEL_ALG]⟩ e.2.1) : m = header.toMap := by
  have hf := Map.OfFields.of_wellFormed [LABEL_TYP, LABEL_KID, LABEL_ALG] hw <| by
    intro e he
    have hn := hn e he
    unfold Fields.known at hn
    split at hn
    case h_1 key hu => exact ⟨key, by simpa using hn, hu⟩
    case h_2 => contradiction
  apply hf.ext (ofFields_toMap header)
  intro key
  rw [getUint_toMap]
  by_cases h : key ∈ [LABEL_TYP, LABEL_KID, LABEL_ALG]
  · simp only [List.mem_cons, List.not_mem_nil, or_false] at h
    obtain rfl | rfl | rfl := h
    · exact ht
    · exact hk
    · exact ha
  · have hl : header.entries.lookup key = none := by
      simp only [List.mem_cons, List.not_mem_nil, or_false, not_or] at h
      simp [entries, List.lookup_cons, beq_eq_false_iff_ne.mpr h.left,
        beq_eq_false_iff_ne.mpr h.right.left, beq_eq_false_iff_ne.mpr h.right.right]
    rw [hl]
    cases hg : m.getUint key
    case none => rfl
    case some v => exact absurd (hf.getUint_eq hg).left h

theorem read_ok_iff (hl : protect.length < 2 ^ 64) :
    Header.read protect = .ok header ↔ protect = header.write := by
  constructor
  case mp =>
    intro h
    have ⟨top, hd, h⟩ := Except.bind_eq_ok.mp h
    have ⟨fields, hf, h⟩ := Except.bind_eq_ok.mp h
    have ⟨⟨alg, f₁⟩, h₁, h⟩ := Except.bind_eq_ok.mp h
    have ⟨⟨kid, f₂⟩, h₂, h⟩ := Except.bind_eq_ok.mp h
    have ⟨⟨typ, f₃⟩, h₃, h⟩ := Except.bind_eq_ok.mp h
    have ⟨_, hn, h⟩ := Except.bind_eq_ok.mp h
    have ⟨m, hm, hf⟩ := Except.bind_eq_ok.mp (Except.mapError_eq_ok.mp hf)
    have ⟨va, ha, hva, hf₁⟩ := label_ok_iff.mp h₁
    have ⟨vk, hk, hvk, hf₂⟩ := label_ok_iff.mp h₂
    have ⟨vt, ht, hvt, hf₃⟩ := label_ok_iff.mp h₃
    have hn := Fields.finish_ok_iff.mp (Except.mapError_eq_ok.mp hn)
    cases Except.pure_eq_ok.mp h
    cases Except.pure_eq_ok.mp hf
    subst hf₁ hf₂ hf₃
    cases Value.asMap_ok_iff.mp hm
    cases Value.asI64_ok_iff.mp hva
    cases Value.asByteArray_ok_iff.mp hvk
    cases Value.asText_ok_iff.mp hvt
    have ⟨he, hd⟩ := decode_eq_ok_iff.mp (Except.mapError_eq_ok.mp hd)
    have hu : m = toMap { alg, kid := ⟨kid⟩, typ } := toMap_unique hd.wf ha hk ht hn
    rw [he, hu]
    rfl
  case mpr =>
    intro h
    subst h
    have hg := @getUint_toMap header
    refine Except.bind_eq_ok.mpr ⟨_, Except.mapError_eq_ok.mpr (decode_write hl), ?_⟩
    refine Except.bind_eq_ok.mpr ⟨⟨header.toMap, []⟩, rfl, ?_⟩
    refine Except.bind_eq_ok.mpr ⟨⟨header.alg, _⟩, label_ok_iff.mpr ⟨_, hg, ?_, rfl⟩, ?_⟩
    · exact Value.asI64_ok_iff.mpr rfl
    refine Except.bind_eq_ok.mpr ⟨⟨header.kid.bytes, _⟩, label_ok_iff.mpr ⟨_, hg, ?_, rfl⟩, ?_⟩
    · exact Value.asByteArray_ok_iff.mpr rfl
    refine Except.bind_eq_ok.mpr ⟨⟨header.typ, _⟩, label_ok_iff.mpr ⟨_, hg, ?_, rfl⟩, ?_⟩
    · exact Value.asText_ok_iff.mpr rfl
    refine Except.bind_eq_ok.mpr ⟨(), Except.mapError_eq_ok.mpr (Fields.finish_ok_iff.mpr ?_), rfl⟩
    intro e he
    have ⟨key, v, hm, hv⟩ := (ofFields_toMap header).entry e he
    have hk : key ∈ [LABEL_ALG, LABEL_KID, LABEL_TYP] := List.mem_map_of_mem (f := Prod.fst) hm
    rw [hv]
    simp only [List.mem_cons, List.not_mem_nil, or_false] at hk
    obtain rfl | rfl | rfl := hk <;> rfl

theorem write_inj {header' : Header} (hl : header.write.length < 2 ^ 64)
    (h : header.write = header'.write) : header = header' := by
  have hr := (read_ok_iff hl).mpr rfl
  have hr' := (read_ok_iff hl).mpr h
  exact Except.ok.inj (hr.symm.trans hr')

end Header

-- The protected header and the message of a signature, for a record type, a scope and a key.
def protectedHeader (recordType : String) (kid : KeyId) : Bytes :=
  Header.write { alg := ALG_ED25519, kid, typ := typString recordType }

def message (recordType scope : String) (kid : KeyId) (payload : Bytes) : Bytes :=
  sigStructure (protectedHeader recordType kid) (externalAad recordType scope) payload

variable {recordType recordType' scope scope' : String} {kid kid' : KeyId} {payload payload' : Bytes}

theorem typString_inj (h : typString recordType = typString recordType') : recordType = recordType' :=
  (String.append_right_inj _).mp ((String.append_left_inj _).mp h)

theorem externalAad_inj (h : externalAad recordType scope = externalAad recordType scope') :
    scope = scope' :=
  (String.append_right_inj _).mp (utf8_inj h)

theorem sigStructure_inj {protect protect' aad aad' : Bytes}
    (hl : (sigStructure protect aad payload).length < 2 ^ 64)
    (h : sigStructure protect aad payload = sigStructure protect' aad' payload') :
    protect = protect' ∧ aad = aad' ∧ payload = payload' := by
  have hw {p a y : Bytes} : (Value.array [.text "Signature1", .bytes p, .bytes a, .bytes y]).WellFormed := by
    apply Value.WellFormed.array
    simp [Value.WellFormed.text, Value.WellFormed.bytes]
  have hv := encode_inj hw hw hl h
  simpa using hv

theorem lengths_of_message (hl : (message recordType scope kid payload).length < 2 ^ 64) :
    (protectedHeader recordType kid).length < 2 ^ 64 ∧ payload.length < 2 ^ 64 := by
  simp only [message, sigStructure, encode, encodeItems, List.length_append] at hl
  omega

-- A message determines everything that it was made of.
theorem message_inj (hl : (message recordType scope kid payload).length < 2 ^ 64)
    (h : message recordType scope kid payload = message recordType' scope' kid' payload') :
    recordType = recordType' ∧ scope = scope' ∧ kid = kid' ∧ payload = payload' := by
  have ⟨hp, ha, hy⟩ := sigStructure_inj hl h
  have hh := Header.write_inj (lengths_of_message hl).left hp
  have ht := typString_inj (congrArg Header.typ hh)
  subst ht
  exact ⟨rfl, externalAad_inj ha, congrArg Header.kid hh, hy⟩

variable [Crypto] {anchors : TrustAnchors} {allowed : List Role} {v : Verified}

-- The conditions under which an envelope is verified.
structure Accepts (bytes : Bytes) (recordType scope : String) (anchors : TrustAnchors)
    (allowed : List Role) (v : Verified) (key : PublicKey) (signature : Bytes.Fixed 64) : Prop where
  anchored  : anchors.get v.kid = some key
  role      : key.role ∈ allowed
  signed    : verifySignature key (message recordType scope v.kid v.payload) signature = .ok ()
  canonical : bytes = Parts.write ⟨protectedHeader recordType v.kid, v.payload, signature⟩
  header    : (protectedHeader recordType v.kid).length < 2 ^ 64
  payload   : v.payload.length < 2 ^ 64
  verified  : v = ⟨v.payload, v.kid, key.role, Digest.of v.payload, Digest.of bytes⟩

theorem verify_ok_iff :
    verify bytes recordType scope anchors allowed = .ok v ↔
    ∃ key signature, Accepts bytes recordType scope anchors allowed v key signature := by
  constructor
  case mp =>
    intro h
    have ⟨⟨protect, payload, signature⟩, hp, h⟩ := Except.bind_eq_ok.mp h
    have ⟨header, hh, h⟩ := Except.bind_eq_ok.mp h
    have ⟨_, ha, h⟩ := Except.bind_eq_ok.mp h
    have ⟨_, ht, h⟩ := Except.bind_eq_ok.mp h
    have ⟨key, hk, h⟩ := Except.bind_eq_ok.mp h
    have ⟨_, hr, h⟩ := Except.bind_eq_ok.mp h
    have ⟨_, hs, h⟩ := Except.bind_eq_ok.mp h
    have ⟨hw, hl, hy⟩ := Parts.read_ok_iff.mp hp
    have hh := (Header.read_ok_iff hl).mp hh
    have he : header = { alg := ALG_ED25519, kid := header.kid, typ := typString recordType } := by
      rw [← Except.ensure_eq_ok.mp ha, ← Except.ensure_eq_ok.mp ht]
    have hq : protect = protectedHeader recordType header.kid := hh.trans (congrArg _ he)
    subst hq
    cases Except.pure_eq_ok.mp h
    refine ⟨key, signature, ?_⟩
    exact {
      anchored  := Except.okOr_eq_ok.mp hk
      role      := Except.ensure_eq_ok.mp hr
      signed    := Except.mapError_eq_ok.mp hs
      canonical := hw
      header    := hl
      payload   := hy
      verified  := rfl
    }
  case mpr =>
    intro ⟨key, signature, a⟩
    have hp := Parts.read_ok_iff.mpr ⟨a.canonical, a.header, a.payload⟩
    have hh := (Header.read_ok_iff a.header).mpr rfl
    refine Except.bind_eq_ok.mpr ⟨_, hp, Except.bind_eq_ok.mpr ⟨_, hh, ?_⟩⟩
    refine Except.bind_eq_ok.mpr ⟨(), Except.ensure_eq_ok.mpr rfl, ?_⟩
    refine Except.bind_eq_ok.mpr ⟨(), Except.ensure_eq_ok.mpr rfl, ?_⟩
    refine Except.bind_eq_ok.mpr ⟨key, Except.okOr_eq_ok.mpr a.anchored, ?_⟩
    refine Except.bind_eq_ok.mpr ⟨(), Except.ensure_eq_ok.mpr a.role, ?_⟩
    refine Except.bind_eq_ok.mpr ⟨(), Except.mapError_eq_ok.mpr a.signed, ?_⟩
    exact congrArg Except.ok a.verified.symm

theorem Accepts.read (a : Accepts bytes recordType scope anchors allowed v key signature) :
    Parts.read bytes = .ok ⟨protectedHeader recordType v.kid, v.payload, signature⟩ :=
  Parts.read_ok_iff.mpr ⟨a.canonical, a.header, a.payload⟩

theorem verify_ok_payload (h : verify bytes recordType scope anchors allowed = .ok v) :
    unverifiedPayload bytes = some v.payload ∧ v.envelopeDigest = Digest.of bytes := by
  have ⟨_, _, a⟩ := verify_ok_iff.mp h
  exact ⟨unverifiedPayload_of_read a.read, congrArg Verified.envelopeDigest a.verified⟩

theorem read_sign (hl : (sign recordType scope payload key).length < 2 ^ 64) :
    Parts.read (sign recordType scope payload key) = .ok {
      protect   := protectedHeader recordType key.pub.id
      payload   := payload
      signature := key.sign (message recordType scope key.pub.id payload)
    } := by
  have hw := (@Parts.length_write ⟨protectedHeader recordType key.pub.id, payload,
    key.sign (message recordType scope key.pub.id payload)⟩).trans_lt hl
  exact Parts.read_ok_iff.mpr ⟨rfl, (Nat.le_add_right _ _).trans_lt hw, (Nat.le_add_left _ _).trans_lt hw⟩

-- What is verified is what was signed.
theorem payload_of_verify_sign (hl : (sign recordType scope payload key).length < 2 ^ 64)
    (h : verify (sign recordType scope payload key) recordType scope anchors allowed = .ok v) : v.payload = payload := by
  have ⟨_, _, a⟩ := verify_ok_iff.mp h
  exact congrArg Parts.payload (Except.ok.inj (a.read.symm.trans (read_sign hl)))

theorem length_le_sign : payload.length ≤ (sign recordType scope payload key).length := by
  have hw := @Parts.length_write ⟨protectedHeader recordType key.pub.id, payload,
    key.sign (message recordType scope key.pub.id payload)⟩
  exact (Nat.le_add_left _ _).trans hw

theorem accepts_sign {pk : PublicKey} (hg : anchors.get key.pub.id = some pk) (hr : pk.role ∈ allowed)
    (hv : verifySignature pk (message recordType scope key.pub.id payload)
      (key.sign (message recordType scope key.pub.id payload)) = .ok ())
    (hl : (protectedHeader recordType key.pub.id).length < 2 ^ 64 ∧ payload.length < 2 ^ 64) :
    Accepts (sign recordType scope payload key) recordType scope anchors allowed
      ⟨payload, key.pub.id, pk.role, Digest.of payload, Digest.of (sign recordType scope payload key)⟩
      pk (key.sign (message recordType scope key.pub.id payload)) where
  anchored  := hg
  role      := hr
  signed    := hv
  canonical := rfl
  header    := hl.left
  payload   := hl.right
  verified  := rfl

-- What was signed with a known key is accepted.
theorem verify_sign {pk : PublicKey} (hg : anchors.get key.pub.id = some pk) (hr : pk.role ∈ allowed)
    (hv : verifySignature pk (message recordType scope key.pub.id payload)
      (key.sign (message recordType scope key.pub.id payload)) = .ok ())
    (hl : (sign recordType scope payload key).length < 2 ^ 64) :
    ∃ v, verify (sign recordType scope payload key) recordType scope anchors allowed = .ok v := by
  have ⟨_, hl⟩ := Parts.read_ok_iff.mp (read_sign hl)
  exact ⟨_, verify_ok_iff.mpr ⟨_, _, accepts_sign hg hr hv hl⟩⟩

-- A call of `sign`. What it signs fits into memory.
structure SignCall where
  recordType : String
  scope      : String
  payload    : Bytes
  key        : SigningKeypair
  message_lt : (message recordType scope key.pub.id payload).length < 2 ^ 64

namespace SignCall

def message (c : SignCall) : Bytes :=
  Envelope.message c.recordType c.scope c.key.pub.id c.payload

def envelope (c : SignCall) : Bytes :=
  sign c.recordType c.scope c.payload c.key

end SignCall

-- Ideal signatures, where `calls` are the calls of `sign` that are ever made: the signature of a call
-- is accepted, a signature is accepted under a key only for messages that were signed with that key,
-- and no signature is accepted for two messages.
structure Ideal (calls : Set SignCall) : Prop where
  complete : ∀ c ∈ calls, verifySignature c.key.pub c.message (c.key.sign c.message) = .ok ()
  sound    : Crypto.verifyStrict pk m signature → ∃ c ∈ calls, c.key.pub.bytes = pk ∧ c.message = m
  binding  : Crypto.verifyStrict pk m signature → Crypto.verifyStrict pk m' signature → m = m'

theorem verifySignature_ok_iff {key : PublicKey} {m : Bytes} {signature : Bytes.Fixed 64} :
    verifySignature key m signature = .ok () ↔
    Crypto.isPoint key.bytes ∧ Crypto.verifyStrict key.bytes m signature := by
  unfold verifySignature
  split_ifs <;> simp_all

theorem Accepts.signed_strict (a : Accepts bytes recordType scope anchors allowed v key signature) :
    Crypto.verifyStrict key.bytes (message recordType scope v.kid v.payload) signature :=
  (verifySignature_ok_iff.mp a.signed).right

-- The call that an accepted signature stems from.
theorem Accepts.call {calls : Set SignCall} (ideal : Ideal calls)
    (a : Accepts bytes recordType scope anchors allowed v key signature) :
    ∃ c ∈ calls, c.key.pub.bytes = key.bytes ∧ c.key.pub.id = v.kid ∧
      c.recordType = recordType ∧ c.scope = scope ∧ c.payload = v.payload := by
  have ⟨c, hc, hk, hm⟩ := ideal.sound a.signed_strict
  have ⟨ht, hs, hi, hp⟩ := message_inj c.message_lt hm
  exact ⟨c, hc, hk, hi, ht, hs, hp⟩

-- Bytes that are accepted are accepted for one record type and one scope only.
theorem Accepts.unique {calls : Set SignCall} {anchors' : TrustAnchors} {allowed' : List Role}
    {v' : Verified} {key key' : PublicKey} {signature signature' : Bytes.Fixed 64} (ideal : Ideal calls)
    (hash : Set.InjOn Crypto.sha256 { b | b.length = 32 })
    (a : Accepts bytes recordType scope anchors allowed v key signature)
    (a' : Accepts bytes recordType' scope' anchors' allowed' v' key' signature') :
    recordType = recordType' ∧ scope = scope' := by
  have hw := Except.ok.inj (a.read.symm.trans a'.read)
  have hh := Header.write_inj a.header (congrArg Parts.protect hw)
  have hi : key.id = key'.id := by
    rw [TrustAnchors.id_of_get a.anchored, TrustAnchors.id_of_get a'.anchored]
    exact congrArg Header.kid hh
  have hk : key.bytes = key'.bytes := by
    apply Subtype.ext
    exact hash key.bytes.property key'.bytes.property (congrArg KeyId.bytes hi)
  have hs : signature = signature' := congrArg Parts.signature hw
  have hm := ideal.binding a.signed_strict (hk ▸ hs ▸ a'.signed_strict)
  have ⟨c, _, _, hc⟩ := ideal.sound a.signed_strict
  have ⟨ht, hs, _⟩ := message_inj (hc ▸ c.message_lt) hm
  exact ⟨ht, hs⟩

-- An envelope that was signed with an anchored key is accepted.
theorem SignCall.accepts {calls : Set SignCall} {c : SignCall} {key : PublicKey} (ideal : Ideal calls)
    (hc : c ∈ calls) (hg : anchors.get c.key.pub.id = some key) (hk : key.bytes = c.key.pub.bytes)
    (hr : key.role ∈ allowed) :
    Accepts c.envelope c.recordType c.scope anchors allowed
      ⟨c.payload, c.key.pub.id, key.role, Digest.of c.payload, Digest.of c.envelope⟩
      key (c.key.sign c.message) := by
  have hv := verifySignature_ok_iff.mp (ideal.complete c hc)
  exact accepts_sign hg hr (verifySignature_ok_iff.mpr (hk ▸ hv)) (lengths_of_message c.message_lt)

theorem SignCall.verify_ok {calls : Set SignCall} {c : SignCall} {key : PublicKey} (ideal : Ideal calls)
    (hc : c ∈ calls) (hg : anchors.get c.key.pub.id = some key) (hk : key.bytes = c.key.pub.bytes)
    (hr : key.role ∈ allowed) :
    ∃ v, verify c.envelope c.recordType c.scope anchors allowed = .ok v ∧ v.payload = c.payload :=
  ⟨_, verify_ok_iff.mpr ⟨key, _, SignCall.accepts ideal hc hg hk hr⟩, rfl⟩

-- What is accepted was signed with the key, for the role, the record type and the scope that it is
-- accepted for, and is its only encoding. Nothing that was signed is refused.
theorem envelope_authentic (calls : Set SignCall) (ideal : Ideal calls)
    (hash : Set.InjOn Crypto.sha256 { b | b.length = 32 }) :
    (∀ bytes recordType scope anchors allowed v,
      verify bytes recordType scope anchors allowed = .ok v →
      (∃ c ∈ calls, ∃ key, anchors.get c.key.pub.id = some key ∧ key.bytes = c.key.pub.bytes ∧
        key.role ∈ allowed ∧ c.recordType = recordType ∧ c.scope = scope ∧ c.payload = v.payload) ∧
      (∀ recordType' scope' anchors' allowed' v',
        verify bytes recordType' scope' anchors' allowed' = .ok v' →
        recordType' = recordType ∧ scope' = scope) ∧
      (∃ protect signature, bytes = encode (.tag 18 (.array [
        .bytes protect, .map Map.new, .bytes v.payload, .bytes signature
      ])))) ∧
    (∀ c ∈ calls, ∀ anchors allowed key, anchors.get c.key.pub.id = some key →
      key.bytes = c.key.pub.bytes → key.role ∈ allowed →
      ∃ v, verify c.envelope c.recordType c.scope anchors allowed = .ok v ∧ v.payload = c.payload) := by
  constructor
  case left =>
    intro bytes recordType scope anchors allowed v h
    have ⟨key, signature, a⟩ := verify_ok_iff.mp h
    have ⟨c, hc, hk, hi, ht, hs, hp⟩ := a.call ideal
    refine ⟨⟨c, hc, key, hi ▸ a.anchored, hk.symm, a.role, ht, hs, hp⟩, ?_, ⟨_, _, a.canonical⟩⟩
    intro recordType' scope' anchors' allowed' v' h'
    have ⟨key', signature', a'⟩ := verify_ok_iff.mp h'
    exact a'.unique ideal hash a
  case right =>
    intro c hc anchors allowed key hg hk hr
    exact SignCall.verify_ok ideal hc hg hk hr

end Envelope

-- The primitives at the inputs of one recorded signature.
namespace Recorded

def seed : Bytes.Fixed 32 := Bytes.fixed 32 0x0707070707070707070707070707070707070707070707070707070707070707
def key  : Bytes.Fixed 32 := Bytes.fixed 32 0xea4a6c63e29c520abef5507b132ec5f9954776aebebe7b92421eea691446d22c
def kid  : Bytes.Fixed 32 := Bytes.fixed 32 0xfe812c12f3ab4ce6ac5db69ac352f906cb1b11ef43fb33e252ef7ff552263889

def signature : Bytes.Fixed 64 := Bytes.fixed 64
  0x2c992d3db31b8d61ec035dfa07a337ef6a58465a1436faf175249d565bf141e499091ead17712b046ad2c0a5f44695b618e8cdd02ffa7bae9fb7fade1b570c05

def message : Bytes :=
  Envelope.message "event" "n" ⟨kid⟩ [1]

-- Other data of 32 bytes is mapped to itself, so that no two such strings have the same digest.
def sha256 (data : Bytes) : Bytes.Fixed 32 :=
  if data = key.val then kid
  else if data = kid.val then key
  else if h : data.length = 32 then ⟨data, h⟩
  else Bytes.fixed 32 0

local instance : Crypto where
  sha256             := sha256
  publicKey _        := key
  isPoint _          := true
  sign _ _           := signature
  verifyStrict k m s := k = key ∧ m = message ∧ s = signature

theorem sha256_of_length {data : Bytes} (h : data.length = 32) :
    (sha256 data).val = if data = key.val then kid.val else if data = kid.val then key.val else data := by
  unfold sha256
  split_ifs <;> rfl

theorem sha256_injOn : Set.InjOn sha256 { b | b.length = 32 } := by
  intro a ha b hb h
  have hk : key.val ≠ kid.val := by decide +kernel
  have hv := congrArg Subtype.val h
  rw [sha256_of_length ha, sha256_of_length hb] at hv
  grind

def call : Envelope.SignCall where
  recordType := "event"
  scope      := "n"
  payload    := [1]
  key        := { seed, role := .device }
  message_lt := by decide +kernel

theorem call_message : call.message = message := by
  have hs : sha256 key.val = kid := if_pos rfl
  have hk : call.key.pub.id = ⟨kid⟩ := congrArg KeyId.mk hs
  rw [Envelope.SignCall.message, hk]
  rfl

theorem ideal : Envelope.Ideal { call } where
  complete c hc := by
    rw [Set.mem_singleton_iff.mp hc, call_message]
    exact Envelope.verifySignature_ok_iff.mpr ⟨rfl, decide_eq_true ⟨rfl, rfl, rfl⟩⟩
  sound h := by
    have ⟨hk, hm, _⟩ := of_decide_eq_true h
    exact ⟨call, rfl, hk.symm, call_message.trans hm.symm⟩
  binding h h' := by
    have ⟨_, hm, _⟩ := of_decide_eq_true h
    have ⟨_, hm', _⟩ := of_decide_eq_true h'
    exact hm.trans hm'.symm

def anchors : TrustAnchors :=
  TrustAnchors.new.insert call.key.pub

-- The recorded envelope is verified, and what was verified is what was signed.
theorem envelope_authentic_event :
    ∃ v, Envelope.verify call.envelope "event" "n" anchors [.device] = .ok v ∧ v.payload = [1] ∧
      ∃ c ∈ ({ call } : Set Envelope.SignCall), c.payload = v.payload := by
  have ⟨hl, hr⟩ := Envelope.envelope_authentic { call } ideal sha256_injOn
  have ⟨v, hv, hp⟩ := hr call rfl anchors [.device] call.key.pub TrustAnchors.get_insert_self rfl
    List.mem_cons_self
  have ⟨⟨c, hc, _, _, _, _, _, _, hcp⟩, _⟩ := hl _ _ _ _ _ v hv
  exact ⟨v, hv, hp, c, hc, hcp⟩

end Recorded
