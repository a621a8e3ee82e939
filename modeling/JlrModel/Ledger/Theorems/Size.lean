import JlrModel.Cbor.Theorems.Length
import JlrModel.Crypto.Theorems.Envelope
import JlrModel.Ledger.Store
import JlrModel.Theorems.Records

open Cbor

-- The envelope of a checkpoint is never longer than that of the first event of its ledger.

theorem length_encode_digest {d : Digest} : (encode (toValue d)).length = 36 := by
  change (encode (.array [.ofI64 ALG_SHA256, .bytes d.bytes.val])).length = 36
  have h : (encode (.ofI64 ALG_SHA256)).length = 1 := rfl
  simp only [encode, encodeItems, List.length_append, d.bytes.property, h]
  rfl

theorem length_encode_bootId {b : Bytes.Fixed 16} : (encode (.bytes b.val)).length = 17 := by
  simp only [encode, List.length_append, b.property]
  rfl

namespace Envelope

theorem length_protectedHeader {recordType : String} {kid : KeyId} :
    (protectedHeader recordType kid).length = 39 + (encode (.text (typString recordType))).length := by
  have hn : ((Header.entries ⟨ALG_ED25519, kid, typString recordType⟩).map Prod.fst).Nodup :=
    show [LABEL_ALG, LABEL_KID, LABEL_TYP].Nodup by decide
  have h := length_encode_ofEntries hn
  change (protectedHeader recordType kid).length = _ at h
  have hk : (encode (.bytes kid.bytes.val)).length = 34 := by
    simp only [encode, List.length_append, kid.bytes.property]
    rfl
  have h₁ : (encode (.uint LABEL_ALG)).length = 1 := rfl
  have h₂ : (encode (.uint LABEL_KID)).length = 1 := rfl
  have h₃ : (encode (.uint LABEL_TYP)).length = 1 := rfl
  have h₄ : (encode (.ofI64 ALG_ED25519)).length = 1 := rfl
  have h₅ : (writeHead 5 (.ofNat 3)).length = 1 := rfl
  simp only [Header.entries, entriesLength, List.length_cons, List.length_nil, List.map_cons,
    List.map_nil, List.sum_cons, List.sum_nil, Nat.reduceAdd, hk, h₁, h₂, h₃, h₄, h₅] at h
  omega

variable [Crypto] {scope : String} {payload : Bytes} {key : SigningKeypair}

theorem length_sign :
    (sign recordType scope payload key).length =
    69 + (encode (.bytes (protectedHeader recordType key.pub.id))).length +
      (encode (.bytes payload)).length := by
  have hs := (key.sign (message recordType scope key.pub.id payload)).property
  change (Parts.write ⟨protectedHeader recordType key.pub.id, payload,
    key.sign (message recordType scope key.pub.id payload)⟩).length = _
  simp only [Parts.write, Map.new, encode, encodeItems, encodeEntries, List.length_append, hs,
    List.length_cons, List.length_nil, Nat.reduceAdd]
  have h₁ : (writeHead 6 COSE_SIGN1_TAG).length = 1 := rfl
  have h₂ : (writeHead 4 (.ofNat 4)).length = 1 := rfl
  have h₃ : (writeHead 5 (.ofNat 0)).length = 1 := rfl
  have h₄ : (writeHead 2 (.ofNat 64)).length = 2 := rfl
  omega

theorem length_sign_le :
    (sign recordType scope payload key).length ≤
      126 + (encode (.text (typString recordType))).length + payload.length := by
  have hh := length_encode_bytes_le (b := protectedHeader recordType key.pub.id)
  have hy := length_encode_bytes_le (b := payload)
  rw [length_protectedHeader] at hh
  rw [length_sign]
  omega

theorem length_sign_event :
    147 + payload.length ≤ (sign RecordType.EVENT scope payload key).length ∧
    (sign RecordType.EVENT scope payload key).length ≤ 155 + payload.length := by
  have ht : (encode (.text (typString RecordType.EVENT))).length = 36 := by decide +kernel
  have hh : (protectedHeader RecordType.EVENT key.pub.id).length = 75 := by
    rw [length_protectedHeader, ht]
  have hp : (encode (.bytes (protectedHeader RecordType.EVENT key.pub.id))).length = 77 := by
    rw [encode, List.length_append, hh]
    rfl
  have hy := length_encode_bytes_ge (b := payload)
  have hy' := length_encode_bytes_le (b := payload)
  rw [length_sign, hp]
  omega

theorem length_sign_checkpoint :
    (sign RecordType.CHECKPOINT scope payload key).length ≤ 160 + payload.length := by
  have ht : (encode (.text (typString RecordType.CHECKPOINT))).length = 41 := by decide +kernel
  have hh : (protectedHeader RecordType.CHECKPOINT key.pub.id).length = 80 := by
    rw [length_protectedHeader, ht]
  have hp : (encode (.bytes (protectedHeader RecordType.CHECKPOINT key.pub.id))).length = 82 := by
    rw [encode, List.length_append, hh]
    rfl
  have hy := length_encode_bytes_le (b := payload)
  rw [length_sign, hp]
  omega

end Envelope

namespace Ledger

theorem length_toCbor_genesis {dir : Dir} {node : String} {key : SigningKeypair} {bootId : Bytes.Fixed 16}
    {clock : Clock} :
    (utf8 node).length + 143 ≤
      (toCbor ((fresh dir node key bootId).event clock (genesis node))).length := by
  have hd : (utf8 ("ledger created for node " ++ node)).length = (utf8 node).length + 24 := by
    rw [utf8_append, List.length_append, Nat.add_comm]
    rfl
  have h := length_toCbor ((fresh dir node key bootId).event clock (genesis node))
  change _ = 1 + entriesLength [
    (1, .uint 0), (2, .bytes bootId.val), (3, .uint clock.now), (4, .uint clock.monoNs),
    (5, .text "jlr-ledger"), (7, .uint 1), (10, toValue Digest.ZERO), (11, .array []), (12, .uint 4),
    (13, .text ("ledger created for node " ++ node)), (14, toValue Digest.ZERO)] at h
  rw [entriesLength_of_lt] at h
  swap
  · rfl
  simp only [List.map_cons, List.map_nil, List.sum_cons, List.sum_nil, List.length_cons,
    List.length_nil, length_encode_digest, length_encode_bootId] at h
  have h₁ := length_encode_text_ge (s := "ledger created for node " ++ node)
  have h₂ := encode_length_pos (.uint clock.now)
  have h₃ := encode_length_pos (.uint clock.monoNs)
  have h₄ : (encode (.text "jlr-ledger")).length = 11 := by decide +kernel
  have h₅ := encode_length_pos (.uint 0)
  have h₆ := encode_length_pos (.uint 1)
  have h₇ := encode_length_pos (.uint 4)
  have h₈ := encode_length_pos (.array [])
  omega

variable [Crypto] {l : Ledger}

-- The length of an event grows with that of its detail.
omit [Crypto] in
theorem length_toCbor_new {clock : Clock} {actor detail : String} {kind : EventKind} :
    (utf8 detail).length ≤ (toCbor (l.event clock (.new actor kind detail))).length ∧
    (toCbor (l.event clock (.new actor kind detail))).length ≤
      (utf8 actor).length + (utf8 detail).length + 200 := by
  have h := length_toCbor (l.event clock (.new actor kind detail))
  change _ = 1 + entriesLength [
    (1, .uint l.nextSeq), (2, .bytes l.bootId.val), (3, .uint clock.now), (4, .uint clock.monoNs),
    (5, .text actor), (7, toValue kind), (10, toValue Digest.ZERO), (11, .array []), (12, toValue Basis.none),
    (13, .text detail), (14, toValue l.lastEnv)] at h
  rw [entriesLength_of_lt] at h
  swap
  · rfl
  simp only [List.map_cons, List.map_nil, List.sum_cons, List.sum_nil, List.length_cons,
    List.length_nil, length_encode_digest, length_encode_bootId] at h
  have h₁ := length_encode_uint_le (a := l.nextSeq)
  have h₂ := length_encode_uint_le (a := clock.now)
  have h₃ := length_encode_uint_le (a := clock.monoNs)
  have h₄ := length_encode_text_le (s := actor)
  have h₅ : (encode (toValue kind)).length ≤ 9 := length_encode_uint_le
  have h₆ : (encode (toValue Basis.none)).length ≤ 9 := length_encode_uint_le
  have h₇ := length_encode_text_le (s := detail)
  have h₈ := length_encode_text_ge (s := detail)
  have h₉ : (encode (.array [])).length = 1 := rfl
  omega

theorem length_toCbor_nextCheckpoint : (toCbor (l.nextCheckpoint now)).length ≤ (utf8 l.node).length + 111 := by
  have ho : (utf8 (origin l.node)).length = (utf8 l.node).length + 13 := by
    rw [origin, utf8_append, utf8_append, List.length_append, List.length_append]
    have h₁ : (utf8 "jlr/").length = 4 := by decide +kernel
    have h₂ : (utf8 "/evidence").length = 9 := by decide +kernel
    omega
  have h := length_toCbor (l.nextCheckpoint now)
  change _ = 1 + entriesLength [
    (1, .text (origin l.node)), (2, .uint (.ofNat l.tree.size)), (3, toValue l.tree.root),
    (4, .bytes l.bootId.val), (5, .uint now), (6, .uint (l.counter + 1)), (7, .uint 1)] at h
  rw [entriesLength_of_lt] at h
  swap
  · rfl
  simp only [List.map_cons, List.map_nil, List.sum_cons, List.sum_nil, List.length_cons,
    List.length_nil, length_encode_digest, length_encode_bootId] at h
  have h₁ := length_encode_text_le (s := origin l.node)
  have h₂ := length_encode_uint_le (a := .ofNat l.tree.size)
  have h₃ := length_encode_uint_le (a := now)
  have h₄ := length_encode_uint_le (a := l.counter + 1)
  have h₅ : (encode (.uint 1)).length = 1 := rfl
  omega

theorem length_eventEnvelope_genesis {dir : Dir} {node : String} {key : SigningKeypair}
    {bootId : Bytes.Fixed 16} {clock : Clock} :
    (utf8 node).length + 290 ≤ ((fresh dir node key bootId).eventEnvelope clock (genesis node)).length := by
  have h := @length_toCbor_genesis dir node key bootId clock
  apply Nat.le_trans _ Envelope.length_sign_event.left
  omega

theorem length_eventEnvelope_new {clock : Clock} {actor detail : String} {kind : EventKind} :
    (utf8 detail).length + 147 ≤ (l.eventEnvelope clock (.new actor kind detail)).length ∧
    (l.eventEnvelope clock (.new actor kind detail)).length ≤
      (utf8 actor).length + (utf8 detail).length + 355 := by
  have h := @length_toCbor_new l clock actor detail kind
  have hs := @Envelope.length_sign_event _ l.node (toCbor (l.event clock (.new actor kind detail))) l.key
  change _ ≤ (Envelope.sign _ _ _ _).length ∧ (Envelope.sign _ _ _ _).length ≤ _
  omega

theorem length_checkpointEnvelope :
    (l.checkpointEnvelope now).length ≤ (utf8 l.node).length + 271 := by
  have h := @length_toCbor_nextCheckpoint _ l now
  apply Nat.le_trans Envelope.length_sign_checkpoint
  omega

end Ledger
