import JlrModel.Lib.Text

-- Texts that are written in either case and with white space around them.

namespace Text

variable {c : Char} {xs : List Char} {s t u : String}

-- A property of all characters, of which those of ASCII are looked at one by one.
theorem forall_char {P : Char → Prop} (ha : ∀ n < 128, P (.ofNat n)) (h : ∀ c : Char, 128 ≤ c.toNat → P c) (c : Char) :
    P c := by
  by_cases hc : c.toNat < 128
  case neg => exact h c (Nat.not_lt.mp hc)
  case pos =>
    have h := ha c.toNat hc
    rwa [Char.ofNat_toNat] at h

theorem toLower_of_le (h : 128 ≤ c.toNat) : c.toLower = c := by
  refine dif_neg ?_
  rintro ⟨_, hu⟩
  have : c.toNat ≤ 90 := hu
  omega

theorem toUpper_of_le (h : 128 ≤ c.toNat) : c.toUpper = c := by
  refine dif_neg ?_
  rintro ⟨_, hu⟩
  have : c.toNat ≤ 122 := hu
  omega

theorem toDigit_of_le (h : 128 ≤ c.toNat) : toDigit c = none := by
  have hd : ¬ c.isDigit := fun hd => by
    have := (bounds_of_isDigit hd).right
    omega
  have hc {d : Char} (hd : d.toNat < 128) : ¬ c ≤ d := fun hc => by
    have : c.toNat ≤ d.toNat := hc
    omega
  have hf : ¬ c ≤ 'f' := hc (by decide)
  have hF : ¬ c ≤ 'F' := hc (by decide)
  simp [toDigit, hd, hf, hF]

theorem toUpper_toLower (c : Char) : c.toLower.toUpper = c.toUpper :=
  forall_char (P := fun c => c.toLower.toUpper = c.toUpper) (by decide) (fun c h => by rw [toLower_of_le h]) c

theorem toLower_toUpper (c : Char) : c.toUpper.toLower = c.toLower :=
  forall_char (P := fun c => c.toUpper.toLower = c.toLower) (by decide) (fun c h => by rw [toUpper_of_le h]) c

theorem toDigit_toLower (c : Char) : toDigit c.toLower = toDigit c :=
  forall_char (P := fun c => toDigit c.toLower = toDigit c) (by decide) (fun c h => by rw [toLower_of_le h]) c

theorem isWhitespace_toLower (c : Char) : isWhitespace c.toLower = isWhitespace c :=
  forall_char (P := fun c => isWhitespace c.toLower = isWhitespace c) (by decide) (fun c h => by rw [toLower_of_le h]) c

theorem toLower_of_toDigit (c : Char) : ∀ n ∈ toDigit c, n < 16 ∧ c.toLower = fromDigit n :=
  forall_char (P := fun c => ∀ n ∈ toDigit c, n < 16 ∧ c.toLower = fromDigit n) (by decide)
    (fun c h => by simp [toDigit_of_le h]) c

theorem isAscii_toLower (c : Char) : c.toLower.toNat < 128 → c.toNat < 128 :=
  forall_char (P := fun c => c.toLower.toNat < 128 → c.toNat < 128) (by decide) (fun c h => by rw [toLower_of_le h]; exact id) c

theorem toLower_fromDigit {n : Nat} (h : n < 16) : (fromDigit n).toLower = fromDigit n := by
  revert n
  decide

theorem fromDigit_ne_s {n : Nat} (h : n < 16) : fromDigit n ≠ 's' := by
  revert n
  decide

theorem map_toUpper_map_toLower : (xs.map Char.toLower).map Char.toUpper = xs.map Char.toUpper := by
  rw [List.map_map]
  exact List.map_congr_left fun c _ => toUpper_toLower c

theorem map_toLower_map_toUpper : (xs.map Char.toUpper).map Char.toLower = xs.map Char.toLower := by
  rw [List.map_map]
  exact List.map_congr_left fun c _ => toLower_toUpper c

theorem eqIgnoreAsciiCase_iff : eqIgnoreAsciiCase s t ↔ s.toList.map Char.toLower = t.toList.map Char.toLower :=
  beq_iff_eq

theorem map_toLower_hexDigits {bs : Bytes} : (hexDigits bs).map Char.toLower = hexDigits bs := by
  refine (List.map_congr_left fun c hc => ?_).trans (List.map_id _)
  have ⟨n, hn, hc⟩ := mem_hexDigits hc
  rw [hc, toLower_fromDigit hn, id]

theorem unhex_map_toLower : unhex (xs.map Char.toLower) = unhex xs := by
  induction xs using unhex.induct
  case case1 hi lo rest ih => simp only [List.map_cons, unhex, toDigit_toLower, ih]
  case case2 xs h =>
    rcases xs with _ | ⟨x, _ | ⟨y, rest⟩⟩
    · rfl
    · rfl
    · exact absurd rfl (h x y rest)

theorem map_toLower_of_unhex {bs : Bytes} (h : unhex xs = some bs) (hl : xs.length = 2 * bs.length) :
    xs.map Char.toLower = hexDigits bs := by
  induction xs using unhex.induct generalizing bs
  case case1 hi lo rest ih =>
    simp only [unhex, Option.bind_eq_bind, Option.bind_eq_some_iff, Option.pure_def, Option.some.injEq] at h
    obtain ⟨m, hm, n, hn, bs, hr, rfl⟩ := h
    obtain ⟨hm, hhi⟩ := toLower_of_toDigit hi m hm
    obtain ⟨hn, hlo⟩ := toLower_of_toDigit lo n hn
    have hb : (UInt8.ofNat (m * 16 + n)).toNat = m * 16 + n := UInt8.toNat_ofNat_of_lt' (show m * 16 + n < 256 by omega)
    simp only [List.length_cons] at hl
    rw [List.map_cons, List.map_cons, hhi, hlo, ih hr (by omega), hexDigits_cons, hb,
      show (m * 16 + n) / 16 = m by omega, show (m * 16 + n) % 16 = n by omega]
  case case2 xs h' =>
    rcases xs with _ | ⟨x, _ | ⟨y, rest⟩⟩
    · cases h
      rfl
    · cases h
      simp at hl
    · exact absurd rfl (h' x y rest)

theorem toList_of_stripPrefix (h : stripPrefix s t = some u) : t.toList = s.toList ++ u.toList := by
  unfold stripPrefix at h
  split at h
  case isFalse => cases h
  case isTrue hp =>
    cases h
    rw [String.toList_ofList]
    exact (List.prefix_iff_eq_append.mp hp).symm

-- White space around a text that neither starts nor ends with it is taken away.
theorem trim_append {before after body : List Char} (hb : ∀ c ∈ before, isWhitespace c)
    (ha : ∀ c ∈ after, isWhitespace c) (hh : ∀ c ∈ body.head?, isWhitespace c = false)
    (hl : ∀ c ∈ body.getLast?, isWhitespace c = false) (hn : body ≠ []) :
    trim (.ofList (before ++ body ++ after)) = .ofList body := by
  have hd (l : List Char) (h : ∀ c ∈ l.head?, isWhitespace c = false) : l.dropWhile isWhitespace = l := by
    cases l
    case nil => rfl
    case cons c l => simp [h c rfl]
  have hs : (body ++ after).dropWhile isWhitespace = body ++ after := by
    refine hd _ ?_
    rw [List.head?_append_of_ne_nil _ hn]
    exact hh
  have he : body.reverse.dropWhile isWhitespace = body.reverse := by
    refine hd _ ?_
    rw [List.head?_reverse]
    exact hl
  rw [trim, String.toList_ofList, List.append_assoc, List.dropWhile_append_of_pos hb, hs, List.reverse_append,
    List.dropWhile_append_of_pos fun c hc => ha c (List.mem_reverse.mp hc), he, List.reverse_reverse]

theorem exists_trim (s : String) : ∃ before after : List Char, s.toList = before ++ (trim s).toList ++ after ∧
    (∀ c ∈ before, isWhitespace c) ∧ ∀ c ∈ after, isWhitespace c := by
  let rest := s.toList.dropWhile isWhitespace
  refine ⟨s.toList.takeWhile isWhitespace, (rest.reverse.takeWhile isWhitespace).reverse, ?_, ?_, ?_⟩
  · rw [trim, String.toList_ofList, List.append_assoc, ← List.reverse_append, List.takeWhile_append_dropWhile,
      List.reverse_reverse, List.takeWhile_append_dropWhile]
  · exact fun c hc => (List.all_eq_true.mp List.all_takeWhile c hc)
  · exact fun c hc => List.all_eq_true.mp List.all_takeWhile c (List.mem_reverse.mp hc)

-- A text is written in any case, with white space around it.
def Spells (written meant : String) : Prop :=
  ∃ before body after : List Char, written.toList = before ++ body ++ after ∧ (∀ c ∈ before, isWhitespace c) ∧
    (∀ c ∈ after, isWhitespace c) ∧ body.map Char.toLower = meant.toList.map Char.toLower

theorem spells_iff (hn : s ≠ "") (hs : ∀ c ∈ s.toList, isWhitespace c = false) :
    Spells t s ↔ eqIgnoreAsciiCase (trim t) s := by
  rw [eqIgnoreAsciiCase_iff]
  constructor
  case mp =>
    rintro ⟨before, body, after, ht, hb, ha, hm⟩
    have hw (c : Char) (hc : c ∈ body) : isWhitespace c = false := by
      have hc : c.toLower ∈ s.toList.map Char.toLower := hm ▸ List.mem_map_of_mem hc
      have ⟨c', hc', he⟩ := List.mem_map.mp hc
      rw [← isWhitespace_toLower, ← he, isWhitespace_toLower]
      exact hs c' hc'
    have hn : body ≠ [] := by
      rintro rfl
      exact hn (String.toList_eq_nil_iff.mp (List.map_eq_nil_iff.mp hm.symm))
    have htrim : trim t = .ofList body := by
      rw [← String.ofList_toList (s := t), ht]
      exact trim_append hb ha (fun c hc => hw c (List.mem_of_head? hc)) (fun c hc => hw c (List.mem_of_getLast? hc)) hn
    rw [htrim, String.toList_ofList, hm]
  case mpr =>
    intro h
    have ⟨before, after, ht, hb, ha⟩ := exists_trim t
    exact ⟨before, _, after, ht, hb, ha, h⟩

theorem isWhitespace_fromDigit {n : Nat} (h : n < 16) : isWhitespace (fromDigit n) = false := by
  revert n
  decide

end Text
