import JlrModel.Ledger.Frame

-- The envelopes that the reader takes as the body of a frame.
structure Framable (envelope : Bytes) : Prop where
  pos : 0 < envelope.length
  le  : envelope.length ≤ MAX_FRAME

theorem Framable.toNat_length {envelope : Bytes} (h : Framable envelope) :
    (UInt32.ofNat envelope.length).toNat = envelope.length :=
  UInt32.toNat_ofNat_of_lt' (h.le.trans_lt (by decide))

variable [Crypto]

def framed (envelopes : List Bytes) : Bytes :=
  envelopes.flatMap frame

-- The bytes that the reader takes for the beginning of a frame whose end was not written.
def Incomplete (rest : Bytes) : Prop :=
  rest.length < HEADER ∨
  ∃ len : UInt32, rest.take HEADER = frameHeader len ∧ 0 < len.toNat ∧ len.toNat ≤ MAX_FRAME ∧
    rest.length < HEADER + len.toNat

variable {envelope rest data : Bytes} {envelopes : List Bytes} {len : UInt32}

@[simp]
theorem framed_nil : framed [] = [] :=
  rfl

@[simp]
theorem framed_cons : framed (envelope :: envelopes) = frame envelope ++ framed envelopes :=
  rfl

@[simp]
theorem framed_append {envelopes' : List Bytes} :
    framed (envelopes ++ envelopes') = framed envelopes ++ framed envelopes' :=
  List.flatMap_append

@[simp]
theorem length_frameHeader : (frameHeader len).length = HEADER := by
  simp [frameHeader, HEADER, (Digest.ofParts _ _).bytes.property]

@[simp]
theorem length_frame : (frame envelope).length = HEADER + envelope.length := by
  simp [frame]

theorem length_le_framed : envelopes.length ≤ (framed envelopes).length := by
  induction envelopes
  case nil => simp
  case cons envelope envelopes ih =>
    rw [framed_cons, List.length_append, length_frame, List.length_cons, HEADER]
    omega

-- The length that stands in front of a header is its own.
theorem len_of_take (h : data.take HEADER = frameHeader len) :
    UInt32.ofNat (Bytes.toNat (data.take 4)) = len := by
  have ht : data.take 4 = Bytes.ofNat 4 len.toNat := by
    have h4 := congrArg (List.take 4) h
    rwa [List.take_take, frameHeader, List.take_left' Bytes.length_ofNat] at h4
  rw [ht, Bytes.toNat_ofNat len.toNat_lt, UInt32.ofNat_toNat]

theorem take_frame : (frame envelope ++ rest).take HEADER = frameHeader (.ofNat envelope.length) := by
  rw [frame, List.append_assoc, List.take_left' length_frameHeader]

theorem not_incomplete_of_frame : ¬ Incomplete (frame envelope ++ rest) := by
  intro hi
  rw [Incomplete, List.length_append, length_frame] at hi
  cases hi
  case inl hl => omega
  case inr hr =>
    obtain ⟨len, ht, _, _, hl⟩ := hr
    have hlen : len.toNat ≤ envelope.length := by
      rw [(len_of_take ht).symm.trans (len_of_take take_frame)]
      exact Nat.mod_le _ _
    omega

theorem takeFrames_incomplete (h : Incomplete rest) : takeFrames n rest = .ok ([], rest) := by
  unfold takeFrames
  split
  case isTrue => rfl
  case isFalse hl =>
    have ⟨len, ht, hp, hm, hl⟩ := h.resolve_left hl
    have h0 : ¬ (len = 0 ∨ MAX_FRAME < len.toNat) := by
      intro h0
      cases h0
      case inl h0 => simp [h0] at hp
      case inr h0 => omega
    simp only [len_of_take ht]
    rw [if_neg (not_not.mpr ht), if_neg h0, if_pos (by omega)]

theorem takeFrames_frame (h : Framable envelope) :
    takeFrames n (frame envelope ++ rest) =
    (takeFrames (n + 1) rest).map fun (frames, rest) => (envelope :: frames, rest) := by
  have ht : (frame envelope ++ rest).take HEADER = frameHeader (.ofNat envelope.length) := take_frame
  have hn := h.toNat_length
  have h0 : ¬ (UInt32.ofNat envelope.length = 0 ∨ MAX_FRAME < envelope.length) := by
    intro h0
    have := h.pos
    have := h.le
    cases h0
    case inl h0 => simp [h0] at hn; omega
    case inr h0 => omega
  have hd : (frame envelope ++ rest).drop (HEADER + envelope.length) = rest :=
    List.drop_left' length_frame
  have hb : ((frame envelope ++ rest).drop HEADER).take envelope.length = envelope := by
    rw [frame, List.append_assoc, List.drop_left' length_frameHeader, List.take_left]
  rw [takeFrames]
  simp only [len_of_take ht, hn, hd, hb]
  rw [if_neg (by simp; omega), if_neg (not_not.mpr ht), if_neg h0, if_neg (by simp; omega)]
  cases takeFrames (n + 1) rest <;> rfl

-- Either nothing more is taken, or one frame and then the rest.
theorem takeFrames_inv {frames : List Bytes} (h : takeFrames n data = .ok (frames, rest)) :
    (frames = [] ∧ rest = data ∧ Incomplete data) ∨
    ∃ f data' frames', Framable f ∧ data = frame f ++ data' ∧ frames = f :: frames' ∧
      takeFrames (n + 1) data' = .ok (frames', rest) := by
  unfold takeFrames at h
  split at h
  case isTrue hl =>
    cases h
    exact .inl ⟨rfl, rfl, .inl hl⟩
  case isFalse hl =>
    simp only at h
    generalize UInt32.ofNat (Bytes.toNat (data.take 4)) = len at h
    split_ifs at h with ht h0 hb
    case pos =>
      cases h
      refine .inl ⟨rfl, rfl, .inr ⟨len, not_not.mp ht, ?_⟩⟩
      rw [not_or, ← UInt32.toNat_inj] at h0
      have := h0.left
      simp at this
      omega
    case neg =>
      rw [not_or, ← UInt32.toNat_inj] at h0
      have hz := h0.left
      simp at hz
      split at h
      case h_1 => contradiction
      case h_2 frames' rest' hr =>
        cases h
        have hlen : ((data.drop HEADER).take len.toNat).length = len.toNat := by
          rw [List.length_take, List.length_drop]
          omega
        refine .inr ⟨(data.drop HEADER).take len.toNat, data.drop (HEADER + len.toNat), _, ?_, ?_, rfl, hr⟩
        · exact ⟨by omega, by omega⟩
        · rw [frame, hlen, UInt32.ofNat_toNat, ← not_not.mp ht, List.append_assoc, ← List.drop_drop,
            List.take_append_drop, List.take_append_drop]

-- The reader accepts exactly whole frames of a plausible size and the beginning of one more.
theorem takeFrames_ok_iff :
    takeFrames n data = .ok (envelopes, rest) ↔
    data = framed envelopes ++ rest ∧ (∀ e ∈ envelopes, Framable e) ∧ Incomplete rest := by
  constructor
  case mp =>
    intro h
    induction envelopes generalizing n data
    case nil =>
      cases takeFrames_inv h
      case inl h => simp [h]
      case inr h =>
        have ⟨_, _, _, _, _, hf, _⟩ := h
        contradiction
    case cons e es ih =>
      cases takeFrames_inv h
      case inl h => exact absurd h.left (List.cons_ne_nil e es)
      case inr h =>
        have ⟨f, data', frames', hf, hd, he, ht⟩ := h
        cases he
        have ⟨hd', hs, hi⟩ := ih ht
        refine ⟨?_, ?_, hi⟩
        · rw [hd, hd', framed_cons, List.append_assoc]
        · simpa [hf] using hs
  case mpr =>
    intro ⟨hd, hs, hi⟩
    subst hd
    induction envelopes generalizing n
    case nil => exact takeFrames_incomplete hi
    case cons e es ih =>
      rw [framed_cons, List.append_assoc, takeFrames_frame (hs e List.mem_cons_self),
        ih fun e he => hs e (List.mem_cons_of_mem _ he)]
      rfl

-- A log is split in one way.
theorem framed_inj {envelopes' : List Bytes} {rest' : Bytes}
    (hs : ∀ e ∈ envelopes, Framable e) (hi : Incomplete rest) (hs' : ∀ e ∈ envelopes', Framable e)
    (hi' : Incomplete rest') (h : framed envelopes ++ rest = framed envelopes' ++ rest') :
    envelopes = envelopes' ∧ rest = rest' := by
  have ht := takeFrames_ok_iff (n := 0).mpr ⟨rfl, hs, hi⟩
  have ht' := takeFrames_ok_iff (n := 0).mpr ⟨h, hs', hi'⟩
  exact Prod.mk.inj (Except.ok.inj (ht.symm.trans ht'))

theorem splitFrames_ok_iff {pos : Nat} {torn : UInt64} :
    splitFrames data = .ok (envelopes, pos, torn) ↔
    ∃ rest, data = framed envelopes ++ rest ∧ (∀ e ∈ envelopes, Framable e) ∧ Incomplete rest ∧
      pos = (framed envelopes).length ∧ torn = .ofNat rest.length := by
  constructor
  case mp =>
    intro h
    unfold splitFrames at h
    cases hr : takeFrames 0 data
    case error => simp [hr, bind, Except.bind] at h
    case ok r =>
      have ⟨frames, rest⟩ := r
      have ⟨hd, hs, hi⟩ := takeFrames_ok_iff.mp hr
      simp only [hr, bind, Except.bind, pure, Except.pure, Except.ok.injEq, Prod.mk.injEq] at h
      have ⟨he, hp, ht⟩ := h
      subst he
      have hl : data.length = (framed frames).length + rest.length := by rw [hd, List.length_append]
      refine ⟨rest, hd, hs, hi, by omega, ?_⟩
      rw [← ht]
      congr 1
      omega
  case mpr =>
    intro ⟨rest, hd, hs, hi, hp, ht⟩
    have hr := takeFrames_ok_iff (n := 0).mpr ⟨hd, hs, hi⟩
    have hl : data.length = (framed envelopes).length + rest.length := by rw [hd, List.length_append]
    have hp' : data.length - rest.length = pos := by omega
    have ht' : data.length - pos = rest.length := by omega
    simp [splitFrames, hr, bind, Except.bind, pure, Except.pure, hp', ht', ht]

theorem incomplete_nil : Incomplete [] :=
  .inl (by decide)

theorem splitFrames_framed {envs : List Bytes} (h : ∀ env ∈ envs, Framable env) :
    splitFrames (framed envs) = .ok (envs, (framed envs).length, 0) :=
  splitFrames_ok_iff.mpr ⟨[], (List.append_nil _).symm, h, incomplete_nil, rfl, rfl⟩

-- A frame that was written in part is never mistaken for corruption or for another frame.
theorem incomplete_of_isPrefix (h : Framable envelope) (hp : rest <+: frame envelope)
    (hn : rest ≠ frame envelope) : Incomplete rest := by
  by_cases hl : rest.length < HEADER
  · exact .inl hl
  · have ⟨t, ht⟩ := hp
    have hne : t ≠ [] := by
      intro h
      rw [h, List.append_nil] at ht
      contradiction
    have hlt := List.length_pos_iff.mpr hne
    have hlen := congrArg List.length ht
    rw [List.length_append, length_frame] at hlen
    refine .inr ⟨.ofNat envelope.length, ?_, ?_⟩
    · have hf := congrArg (List.take HEADER) ht
      rw [List.take_append_of_le_length (by omega), ← List.append_nil (frame envelope), take_frame] at hf
      exact hf
    · rw [h.toNat_length]
      exact ⟨h.pos, h.le, by omega⟩

-- Any beginning of a log has whole frames, and then at most a part of one.
theorem framed_prefix {data : Bytes} (hf : ∀ env ∈ envelopes, Framable env) (h : data <+: framed envelopes) :
    ∃ n rest, n ≤ envelopes.length ∧ data = framed (envelopes.take n) ++ rest ∧ Incomplete rest := by
  induction envelopes generalizing data
  case nil =>
    rw [framed_nil] at h
    exact ⟨0, [], le_rfl, List.prefix_nil.mp h, incomplete_nil⟩
  case cons envelope envelopes ih =>
    rw [framed_cons] at h
    have ⟨t, h⟩ := h
    cases List.append_eq_append_iff.mp h
    case inl h =>
      have ⟨rest, h, _⟩ := h
      by_cases hr : data = frame envelope
      · exact ⟨1, [], by simp, by simp [hr], incomplete_nil⟩
      · refine ⟨0, data, Nat.zero_le _, rfl, ?_⟩
        exact incomplete_of_isPrefix (hf envelope List.mem_cons_self) ⟨rest, h.symm⟩ hr
    case inr h =>
      have ⟨rest, h, ht⟩ := h
      have ⟨n, rest', hn, hd, hi⟩ := ih (fun env h => hf env (List.mem_cons_of_mem _ h)) ⟨t, ht.symm⟩
      refine ⟨n + 1, rest', by simpa using hn, ?_, hi⟩
      rw [h, hd, List.take_succ_cons, framed_cons, List.append_assoc]

-- Of two logs, one the beginning of the other, the longer one has more frames.
theorem le_of_framed_prefix {rest : Bytes} (hi : Incomplete rest)
    (hk : k ≤ envelopes.length) (h : framed (envelopes.take k) <+: framed (envelopes.take n) ++ rest) : k ≤ n := by
  by_contra hlt
  have hlt : n < k := by omega
  have he : envelopes.take k = envelopes.take n ++ (envelopes.take k).drop n := by
    have h := (List.take_append_drop n (envelopes.take k)).symm
    rwa [List.take_take, Nat.min_eq_left hlt.le] at h
  rw [he, framed_append, List.prefix_append_right_inj] at h
  have hne : (envelopes.take k).drop n ≠ [] := by
    intro hd
    have := congrArg List.length hd
    simp at this
    omega
  have ⟨env, envs, hd⟩ := List.exists_cons_of_ne_nil hne
  rw [hd, framed_cons] at h
  have ⟨t, ht⟩ := h
  rw [List.append_assoc] at ht
  exact not_incomplete_of_frame (ht ▸ hi)

-- The writer does not look at the length of an envelope, but the reader refuses one that is too long.
theorem takeFrames_oversize (h : MAX_FRAME < envelope.length) (hl : envelope.length < 2 ^ 32) :
    takeFrames n (frame envelope ++ rest) =
    .error (.corrupt (.ofNat n) ("implausible frame length " ++ toString (UInt32.ofNat envelope.length))) := by
  have ht : (frame envelope ++ rest).take HEADER = frameHeader (.ofNat envelope.length) := take_frame
  have hn : (UInt32.ofNat envelope.length).toNat = envelope.length := UInt32.toNat_ofNat_of_lt' hl
  rw [takeFrames]
  simp only [len_of_take ht, hn]
  rw [if_neg (by simp; omega), if_neg (not_not.mpr ht), if_pos (.inr h)]

theorem splitFrames_oversize (hs : ∀ e ∈ envelopes, Framable e) (h : MAX_FRAME < envelope.length)
    (hl : envelope.length < 2 ^ 32) :
    ∃ reason, splitFrames (framed envelopes ++ frame envelope) =
      .error (.corrupt (.ofNat envelopes.length) reason) := by
  have ht : ∀ n, ∃ reason, takeFrames n (framed envelopes ++ frame envelope) =
      .error (.corrupt (.ofNat (n + envelopes.length)) reason) := by
    induction envelopes
    case nil =>
      intro n
      have ht : takeFrames n (frame envelope ++ []) = _ := takeFrames_oversize h hl
      rw [List.append_nil] at ht
      exact ⟨_, ht⟩
    case cons e es ih =>
      intro n
      have ⟨reason, ht⟩ := ih (fun e he => hs e (List.mem_cons_of_mem _ he)) (n + 1)
      refine ⟨reason, ?_⟩
      rw [framed_cons, List.append_assoc, takeFrames_frame (hs e List.mem_cons_self), ht, List.length_cons,
        Nat.add_comm es.length 1, ← Nat.add_assoc]
      rfl
  have ⟨reason, ht⟩ := ht 0
  rw [Nat.zero_add] at ht
  exact ⟨reason, by rw [splitFrames, ht]; rfl⟩
