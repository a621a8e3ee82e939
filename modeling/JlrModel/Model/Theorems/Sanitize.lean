import JlrModel.Model.Sanitize

-- What is left of a text that was made safe.

variable {c : Char} {cs cs' : List Char} {limit len : Nat} {s t : String}

-- Text without the characters that are escaped.
def Printable (cs : List Char) : Prop :=
  ∀ c ∈ cs, isHostile c = false

theorem printable_of_all (h : cs.all (!isHostile ·) = true) : Printable cs :=
  fun _ hc => (Bool.not_eq_true' _).mp (List.all_eq_true.mp h _ hc)

theorem printable_append : Printable (cs ++ cs') ↔ Printable cs ∧ Printable cs' := by
  simp only [Printable, List.mem_append, or_imp, forall_and]

-- The characters of ASCII that are printed.
theorem not_isHostile (h : 0x20 ≤ c.toNat) (h' : c.toNat < 0x7F) : isHostile c = false := by
  simp only [isHostile, Text.isControl, hostileRanges, List.any_cons, List.any_nil, Bool.or_false, decide_eq_false_iff_not,
    Bool.or_eq_true, decide_eq_true_iff]
  omega

theorem not_isHostile_of_isDigit (h : c.isDigit) : isHostile c = false := by
  have ⟨hl, hu⟩ := Text.bounds_of_isDigit h
  exact not_isHostile (by omega) (by omega)

theorem printable_toString {n : Nat} : Printable (toString n).toList :=
  fun _ h => not_isHostile_of_isDigit (Text.isDigit_of_mem_toString h)

theorem not_isHostile_fromDigit {n : Nat} (h : n < 16) : isHostile (Text.fromDigit n) = false := by
  revert n
  decide

theorem printable_hex {bs : Bytes} : Printable (Text.hex bs).toList := by
  intro c hc
  rw [Text.hex, String.toList_ofList] at hc
  obtain ⟨n, hn, hc⟩ := Text.mem_hexDigits hc
  exact hc ▸ not_isHostile_fromDigit hn

theorem pieces_of_printable (h : Printable cs) : cs.flatMap piece = cs := by
  induction cs
  case nil => rfl
  case cons c cs ih =>
    have hp : piece c = [c] := by simp [piece, h c List.mem_cons_self]
    rw [List.flatMap_cons, hp, ih fun d hd => h d (List.mem_cons_of_mem _ hd)]
    rfl

theorem len_pieces_cons : Text.len (.ofList ((c :: cs).flatMap piece)) =
    Text.len (.ofList (piece c)) + Text.len (.ofList (cs.flatMap piece)) := by
  rw [List.flatMap_cons, String.ofList_append, Text.len_append]

-- Text that fits is written as a whole, and what comes after it is not changed by it.
theorem sanitizeFrom_append (h : len + Text.len (.ofList (cs.flatMap piece)) ≤ limit) :
    sanitizeFrom limit len (cs ++ cs') =
      cs.flatMap piece ++ sanitizeFrom limit (len + Text.len (.ofList (cs.flatMap piece))) cs' := by
  induction cs generalizing len
  case nil => rfl
  case cons c cs ih =>
    rw [len_pieces_cons] at h ⊢
    rw [List.cons_append, sanitizeFrom, if_neg (by omega), ih (by omega), List.flatMap_cons,
      List.append_assoc, Nat.add_assoc]

theorem sanitizeTo_of_fits (h : Text.len (.ofList (s.toList.flatMap piece)) ≤ limit) :
    sanitizeTo s limit = .ofList (s.toList.flatMap piece) := by
  unfold sanitizeTo
  split
  case isTrue hs =>
    have hh : Printable s.toList := by simpa [Printable] using hs.right
    rw [pieces_of_printable hh, String.ofList_toList]
  case isFalse =>
    rw [← List.append_nil s.toList, sanitizeFrom_append (by rw [Nat.zero_add]; exact h), sanitizeFrom,
      List.append_nil, List.append_nil]

-- A printable beginning stays.
theorem sanitizeTo_append (hs : Printable s.toList) (hl : Text.len s ≤ limit) :
    ∃ t', sanitizeTo (s ++ t) limit = s ++ t' := by
  unfold sanitizeTo
  split
  case isTrue => exact ⟨t, rfl⟩
  case isFalse =>
    have hp := pieces_of_printable hs
    rw [String.toList_append, sanitizeFrom_append (by rw [hp, String.ofList_toList]; omega), hp,
      String.ofList_append, String.ofList_toList]
    exact ⟨_, rfl⟩

theorem length_escape (hn : c.toNat < 16 ^ n) (h : 0 < n) : (escape c).length ≤ n + 4 := by
  have hl := (Nat.length_toDigits_le_iff (b := 16) (by decide) h).mpr hn
  simp only [escape, List.length_append, List.length_cons, List.length_nil]
  omega

theorem len_escape : Text.len (.ofList (escape c)) = (escape c).length := by
  apply Text.len_ofList_of_ascii
  intro d hd
  simp only [escape, List.mem_append, List.mem_cons, List.not_mem_nil, or_false] at hd
  obtain ((rfl | rfl | rfl) | hd) | rfl := hd
  case inl.inr => exact Text.toDigits_ascii hd
  all_goals decide

-- An escape is at most six times as long as the character.
theorem len_piece_le : Text.len (.ofList (piece c)) ≤ 6 * c.utf8Size := by
  have hpos := c.utf8Size_pos
  unfold piece
  split
  case isFalse =>
    rw [Text.len_ofList_cons]
    exact Nat.le_mul_of_pos_left c.utf8Size (by decide)
  case isTrue =>
    rw [len_escape]
    by_cases h1 : c.utf8Size = 1
    · have hc : c.toNat ≤ 127 := Char.utf8Size_eq_one_iff.mp h1
      have := length_escape (c := c) (n := 2) (by omega) (by decide)
      omega
    · have hc : c.toNat < 16 ^ 8 := c.val.toNat_lt
      have := length_escape hc (by decide)
      omega

theorem len_pieces_le : Text.len (.ofList (cs.flatMap piece)) ≤ 6 * Text.len (.ofList cs) := by
  induction cs
  case nil => exact Nat.zero_le _
  case cons c cs ih =>
    have hp := len_piece_le (c := c)
    rw [len_pieces_cons, Text.len_ofList_cons]
    omega

theorem printable_escape : Printable (escape c) := by
  intro d hd
  simp only [escape, List.mem_append, List.mem_cons, List.not_mem_nil, or_false] at hd
  obtain ((rfl | rfl | rfl) | hd) | rfl := hd
  case inl.inr =>
    obtain ⟨n, hn, hd⟩ := Text.mem_toDigits hd
    exact hd ▸ not_isHostile_fromDigit hn
  all_goals decide

theorem printable_piece : Printable (piece c) := by
  unfold piece
  split
  case isTrue => exact printable_escape
  case isFalse h =>
    intro d hd
    cases List.mem_singleton.mp hd
    exact Bool.eq_false_of_not_eq_true h

theorem printable_pieces : Printable (cs.flatMap piece) := by
  intro d hd
  have ⟨c, _, hd⟩ := List.mem_flatMap.mp hd
  exact printable_piece d hd

theorem printable_marker : Printable MARKER.toList :=
  printable_of_all (by decide)

-- What was written of a text: a beginning of it as a whole, which cannot be continued, and the marker if that is not all.
theorem sanitizeFrom_eq (h : len ≤ limit) : ∃ taken rest, cs = taken ++ rest ∧
    len + Text.len (.ofList (taken.flatMap piece)) ≤ limit ∧
    (∀ c ∈ rest.head?, limit < len + Text.len (.ofList (taken.flatMap piece)) + Text.len (.ofList (piece c))) ∧
    sanitizeFrom limit len cs = taken.flatMap piece ++ (if rest = [] then [] else MARKER.toList) := by
  induction cs generalizing len
  case nil => exact ⟨[], [], rfl, h, nofun, rfl⟩
  case cons c cs ih =>
    rw [sanitizeFrom]
    split
    case isTrue hc => exact ⟨[], c :: cs, rfl, h, fun d hd => Option.some.inj hd ▸ hc, rfl⟩
    case isFalse hc =>
      have ⟨taken, rest, hcs, hl, hr, hs⟩ := ih (Nat.not_lt.mp hc)
      refine ⟨c :: taken, rest, congrArg (c :: ·) hcs, ?_, ?_, ?_⟩
      · rwa [len_pieces_cons, ← Nat.add_assoc]
      · intro d hd
        rw [len_pieces_cons, ← Nat.add_assoc]
        exact hr d hd
      · rw [hs, List.flatMap_cons, List.append_assoc]

-- The beginning that is written is the longest one that fits.
theorem prefix_of_fits {taken rest run : List Char}
    (hr : ∀ c ∈ rest.head?, limit < Text.len (.ofList (taken.flatMap piece)) + Text.len (.ofList (piece c)))
    (hp : run <+: taken ++ rest) (hl : Text.len (.ofList (run.flatMap piece)) ≤ limit) : run <+: taken := by
  cases List.prefix_or_prefix_of_prefix hp (List.prefix_append taken rest)
  case inl h => exact h
  case inr h =>
    obtain ⟨more, rfl⟩ := h
    cases more
    case nil => exact (List.append_nil taken).symm ▸ List.prefix_refl taken
    case cons c more =>
      have hc : c ∈ rest.head? := by
        have ⟨rest', hp⟩ := hp
        rw [List.append_assoc, List.append_cancel_left_eq] at hp
        exact hp ▸ rfl
      have hlt := hr c hc
      rw [List.flatMap_append, String.ofList_append, Text.len_append, len_pieces_cons] at hl
      omega

theorem sanitizeTo_of_not (hs : ¬ (Text.len s ≤ limit + Text.len MARKER ∧ Printable s.toList)) :
    sanitizeTo s limit = .ofList (sanitizeFrom limit 0 s.toList) := by
  refine if_neg fun h => hs ⟨h.left, ?_⟩
  simpa [Printable] using h.right

theorem sanitizeTo_of_printable (hp : Printable s.toList) (hl : Text.len s ≤ limit + Text.len MARKER) :
    sanitizeTo s limit = s :=
  if_pos ⟨hl, by simpa [Printable] using hp⟩

-- What is made safe stays so, is not too long, and keeps of the text what can be kept.
theorem sanitizeTo_safe_and_stable (s : String) (limit : Nat) :
    Printable (sanitizeTo s limit).toList ∧
    Text.len (sanitizeTo s limit) ≤ limit + Text.len MARKER ∧
    sanitizeTo (sanitizeTo s limit) limit = sanitizeTo s limit ∧
    (Printable s.toList → Text.len s ≤ limit + Text.len MARKER → sanitizeTo s limit = s) ∧
    (¬ (Text.len s ≤ limit + Text.len MARKER ∧ Printable s.toList) → ∃ taken rest, s.toList = taken ++ rest ∧
      Text.len (.ofList (taken.flatMap piece)) ≤ limit ∧
      (∀ run, run <+: s.toList → Text.len (.ofList (run.flatMap piece)) ≤ limit → run <+: taken) ∧
      sanitizeTo s limit = .ofList (taken.flatMap piece ++ (if rest = [] then [] else MARKER.toList))) := by
  have ⟨taken, rest, hs, hl, hr, hf⟩ := @sanitizeFrom_eq s.toList _ _ (Nat.zero_le limit)
  rw [Nat.zero_add] at hl hr
  have ⟨hp, hb⟩ : Printable (sanitizeTo s limit).toList ∧ Text.len (sanitizeTo s limit) ≤ limit + Text.len MARKER := by
    by_cases h : Text.len s ≤ limit + Text.len MARKER ∧ Printable s.toList
    case pos => rw [sanitizeTo_of_printable h.right h.left]; exact h.symm
    case neg =>
      rw [sanitizeTo_of_not h, hf, String.toList_ofList, String.ofList_append, Text.len_append]
      split
      case isTrue => exact ⟨printable_append.mpr ⟨printable_pieces, nofun⟩, Nat.add_le_add hl (Nat.zero_le _)⟩
      case isFalse =>
        rw [String.ofList_toList]
        exact ⟨printable_append.mpr ⟨printable_pieces, printable_marker⟩, Nat.add_le_add_right hl _⟩
  refine ⟨hp, hb, sanitizeTo_of_printable hp hb, sanitizeTo_of_printable, fun h => ?_⟩
  refine ⟨taken, rest, hs, hl, fun run hrun => ?_, sanitizeTo_of_not h ▸ hf ▸ rfl⟩
  rw [hs] at hrun
  exact prefix_of_fits hr hrun
