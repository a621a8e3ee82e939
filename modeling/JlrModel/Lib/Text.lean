import JlrModel.Lib.Bytes

-- Text as it is written and read by the formats of the program. The functions are those of the
-- standard library of the source, over the characters of a string.

namespace Text

-- The parts before and after the first occurrence of a character.
def cut (c : Char) : List Char → Option (List Char × List Char)
  | [] => none
  | x :: xs => if x = c then some ([], xs) else cut c xs |>.map fun (a, b) => (x :: a, b)

-- `str::split_once`
def splitOnce (c : Char) (s : String) : Option (String × String) :=
  cut c s.toList |>.map fun (a, b) => (.ofList a, .ofList b)

-- `str::rsplit_once`, which cuts at the last occurrence.
def rsplitOnce (c : Char) (s : String) : Option (String × String) :=
  cut c s.toList.reverse |>.map fun (b, a) => (.ofList a.reverse, .ofList b.reverse)

-- What follows the given beginning, `str::strip_prefix`.
def stripPrefix (beginning s : String) : Option String :=
  if beginning.toList <+: s.toList then
    some <| .ofList (s.toList.drop beginning.toList.length)
  else
    none

-- The parts before and after the first occurrence of a pattern.
def cutAt (pat : List Char) : List Char → Option (List Char × List Char)
  | []      => if pat = [] then some ([], []) else none
  | x :: xs =>
    if pat <+: x :: xs then some ([], (x :: xs).drop pat.length)
    else cutAt pat xs |>.map fun (a, b) => (x :: a, b)

-- `str::rsplit_once` at a pattern, which cuts at its last occurrence.
def rsplitOnceAt (pat s : String) : Option (String × String) :=
  cutAt pat.toList.reverse s.toList.reverse |>.map fun (b, a) => (.ofList a.reverse, .ofList b.reverse)

-- `str::starts_with` and `str::ends_with`
def startsWith (s beginning : String) : Bool :=
  beginning.toList <+: s.toList

def endsWith (s ending : String) : Bool :=
  ending.toList <:+ s.toList

-- `str::contains`
def contains (s part : String) : Bool :=
  (cutAt part.toList s.toList).isSome

-- `char::is_whitespace`
def isWhitespace (c : Char) : Bool :=
  (0x09 ≤ c.toNat ∧ c.toNat ≤ 0x0D) ∨ (0x2000 ≤ c.toNat ∧ c.toNat ≤ 0x200A) ∨
  c.toNat ∈ [0x20, 0x85, 0xA0, 0x1680, 0x2028, 0x2029, 0x202F, 0x205F, 0x3000]

-- `char::is_control`
def isControl (c : Char) : Bool :=
  c.toNat < 0x20 ∨ (0x7F ≤ c.toNat ∧ c.toNat < 0xA0)

-- `str::trim`
def trim (s : String) : String :=
  .ofList ((s.toList.dropWhile isWhitespace).reverse.dropWhile isWhitespace).reverse

-- The first of the words between white space, `str::split_whitespace`.
def firstWord (s : String) : Option String :=
  match (s.toList.dropWhile isWhitespace).takeWhile (¬ isWhitespace ·) with
  | []   => none
  | word => some (.ofList word)

-- `str::to_ascii_uppercase`
def toAsciiUppercase (s : String) : String :=
  .ofList (s.toList.map Char.toUpper)

-- The parts between the occurrences of a character, `str::split`.
def split (c : Char) (s : String) : List String :=
  s.toList.splitOn c |>.map .ofList

-- `str::strip_suffix`
def stripSuffix (ending s : String) : Option String :=
  if ending.toList <:+ s.toList then some (.ofList (s.toList.take (s.toList.length - ending.toList.length))) else none

-- `str::split_once` at a pattern
def splitOnceAt (pat s : String) : Option (String × String) :=
  cutAt pat.toList s.toList |>.map fun (a, b) => (.ofList a, .ofList b)

-- A line feed ends a line, with the carriage return before it. The last line may lack one.
def endLines : List (List Char) → List String
  | []           => []
  | [last]       => if last = [] then [] else [.ofList last]
  | line :: rest => .ofList (if line.getLast? = some '\r' then line.dropLast else line) :: endLines rest

-- `str::lines`
def lines (s : String) : List String :=
  endLines (s.toList.splitOn '\n')

-- The number of bytes, `str::len`.
def len (s : String) : Nat :=
  s.utf8ByteSize

-- A decimal number below `bound`, `str::parse` at an unsigned type. A plus sign and leading zeros are
-- accepted.
def parseUint (bound : Nat) (s : String) : Option Nat :=
  let digits := unsigned s.toList
  if digits ≠ [] ∧ digits.all Char.isDigit ∧ Nat.ofDigitChars 10 digits 0 < bound then
    some <| Nat.ofDigitChars 10 digits 0
  else
    none
where
  unsigned : List Char → List Char
    | '+' :: ds => ds
    | ds        => ds

-- The character of a digit below 16, `char::from_digit`.
def fromDigit (n : Nat) : Char :=
  Nat.digitChar n

-- The value of a hexadecimal digit in either case, `char::to_digit`.
def toDigit (c : Char) : Option Nat :=
  if c.isDigit then some (c.toNat - '0'.toNat)
  else if 'a' ≤ c ∧ c ≤ 'f' then some (c.toNat - 'a'.toNat + 10)
  else if 'A' ≤ c ∧ c ≤ 'F' then some (c.toNat - 'A'.toNat + 10)
  else none

def hexDigits (bs : Bytes) : List Char :=
  bs.flatMap fun b => [fromDigit (b.toNat / 16), fromDigit (b.toNat % 16)]

def hex (bs : Bytes) : String :=
  .ofList <| hexDigits bs

-- The bytes that pairs of hexadecimal digits stand for.
def unhex : List Char → Option Bytes
  | hi :: lo :: rest => do
    let hi ← toDigit hi
    let lo ← toDigit lo
    return .ofNat (hi * 16 + lo) :: (← unhex rest)
  | _ => some []

def isAscii (s : String) : Bool :=
  s.toList.all (·.val < 128)

-- `str::eq_ignore_ascii_case`
def eqIgnoreAsciiCase (s t : String) : Bool :=
  s.toList.map Char.toLower == t.toList.map Char.toLower

variable {c : Char} {xs a b : List Char} {s t u : String}

theorem cut_eq_none_iff : cut c xs = none ↔ c ∉ xs := by
  induction xs
  case nil => simp [cut]
  case cons x xs ih =>
    by_cases h : x = c
    · simp [cut, h]
    · simp [cut, h, ih, Ne.symm h]

theorem cut_eq_some_iff : cut c xs = some (a, b) ↔ xs = a ++ c :: b ∧ c ∉ a := by
  induction xs generalizing a
  case nil => simp [cut]
  case cons x xs ih =>
    cases a
    case nil => by_cases h : x = c <;> simp [cut, h]
    case cons y ys =>
      by_cases h : x = c
      · simp only [cut, h, if_true, List.cons_append, List.cons.injEq, List.mem_cons, not_or]
        grind
      · simp only [cut, h, if_false, Option.map_eq_some_iff, Prod.exists, Prod.mk.injEq]
        grind

theorem splitOnce_eq_none_iff : splitOnce c s = none ↔ c ∉ s.toList := by
  rw [splitOnce, Option.map_eq_none_iff, cut_eq_none_iff]

theorem splitOnce_eq_some_iff :
    splitOnce c s = some (t, u) ↔ s.toList = t.toList ++ c :: u.toList ∧ c ∉ t.toList := by
  simp only [splitOnce, Option.map_eq_some_iff, Prod.exists, cut_eq_some_iff, Prod.mk.injEq]
  constructor
  · rintro ⟨a, b, h, rfl, rfl⟩
    simpa using h
  · intro h
    exact ⟨t.toList, u.toList, h, by simp, by simp⟩

theorem rsplitOnce_eq_some_iff :
    rsplitOnce c s = some (t, u) ↔ s.toList = t.toList ++ c :: u.toList ∧ c ∉ u.toList := by
  simp only [rsplitOnce, Option.map_eq_some_iff, Prod.exists, cut_eq_some_iff, Prod.mk.injEq,
    List.reverse_eq_iff]
  constructor
  · rintro ⟨b, a, ⟨h, hb⟩, rfl, rfl⟩
    simpa [h] using hb
  · intro ⟨h, hu⟩
    exact ⟨u.toList.reverse, t.toList.reverse, by simpa [h] using hu, by simp, by simp⟩

theorem parseUint_unsigned_of_digits (h : xs.all Char.isDigit) : parseUint.unsigned xs = xs := by
  unfold parseUint.unsigned
  split
  · exact absurd h (by simp)
  · rfl

-- The digits that a number is written with are read back.
theorem parseUint_toString {n bound : Nat} (h : n < bound) : parseUint bound (toString n) = some n := by
  have hd : (Nat.toDigits 10 n).all Char.isDigit := by
    rw [List.all_eq_true]
    exact fun c hc => Nat.isDigit_of_mem_toDigits (by decide) (by decide) hc
  rw [parseUint, Nat.toString_eq_ofList_toDigits, String.toList_ofList,
    parseUint_unsigned_of_digits hd, Nat.ofDigitChars_ten_toDigits]
  exact if_pos ⟨Nat.toDigits_ne_nil, hd, h⟩

theorem toString_ne_nil {n : Nat} : (toString n).toList ≠ [] := by
  rw [Nat.toString_eq_ofList_toDigits, String.toList_ofList]
  exact Nat.toDigits_ne_nil

theorem isDigit_of_mem_toString {n : Nat} (h : c ∈ (toString n).toList) : c.isDigit := by
  rw [Nat.toString_eq_ofList_toDigits, String.toList_ofList] at h
  exact Nat.isDigit_of_mem_toDigits (by decide) (by decide) h

theorem not_mem_toString {n : Nat} (h : c.isDigit = false) : c ∉ (toString n).toList := by
  intro hm
  simp [isDigit_of_mem_toString hm] at h

theorem stripPrefix_append : stripPrefix s (s ++ t) = some t := by
  simp [stripPrefix]

-- A pattern that ends with a character which is nowhere else before its end is found there.
theorem cutAt_append {q : List Char} (hq : c ∉ q) (ha : c ∉ a) :
    cutAt (q ++ [c]) (a ++ (q ++ [c]) ++ b) = some (a, b) := by
  induction a
  case nil =>
    match hp : q ++ [c] with
    | []      => simp at hp
    | x :: xs => simp [cutAt]
  case cons x a ih =>
    have hx : ¬ q ++ [c] <+: x :: (a ++ (q ++ [c]) ++ b) := by
      intro h
      have hl : (q ++ [c]).length ≤ (x :: a ++ q).length := by simp
      have he : x :: (a ++ (q ++ [c]) ++ b) = (x :: a ++ q) ++ ([c] ++ b) := by simp
      rw [he] at h
      have hp := List.prefix_of_prefix_length_le h (List.prefix_append _ _) hl
      have hm : c ∈ x :: a ++ q := hp.subset (List.mem_append_right _ (List.mem_singleton_self c))
      exact (List.mem_append.mp hm).elim ha hq
    rw [List.cons_append, List.cons_append, cutAt, if_neg hx, ih fun h => ha (List.mem_cons_of_mem _ h)]
    rfl

-- So the last occurrence of a pattern is known from where its first character is.
theorem rsplitOnceAt_append {pat : String} {q : List Char} (hp : pat.toList = c :: q) (hq : c ∉ q)
    (hu : c ∉ u.toList) : rsplitOnceAt pat (t ++ pat ++ u) = some (t, u) := by
  have hs : (t ++ pat ++ u).toList.reverse =
      u.toList.reverse ++ (q.reverse ++ [c]) ++ t.toList.reverse := by simp [hp]
  rw [rsplitOnceAt, hs, hp, List.reverse_cons, cutAt_append (by simpa using hq) (by simpa using hu)]
  simp

theorem bounds_of_isDigit (h : c.isDigit) : 48 ≤ c.toNat ∧ c.toNat ≤ 57 :=
  Char.isDigit_iff_toNat.mp h

theorem not_isWhitespace_of_isDigit (h : c.isDigit) : isWhitespace c = false := by
  have ⟨hl, hu⟩ := bounds_of_isDigit h
  simp only [isWhitespace, List.mem_cons, List.not_mem_nil, or_false, decide_eq_false_iff_not]
  omega

theorem firstWord_append {word : List Char} (hn : word ≠ []) (hw : ∀ c ∈ word, isWhitespace c = false)
    (hc : isWhitespace c) : firstWord (.ofList (word ++ c :: xs)) = some (.ofList word) := by
  have hd : (word ++ c :: xs).dropWhile isWhitespace = word ++ c :: xs := by
    match word, hn with
    | x :: word, _ => simp [hw x List.mem_cons_self]
  have ht : (word ++ c :: xs).takeWhile (¬ isWhitespace ·) = word := by
    rw [List.takeWhile_append_of_pos (by simpa using hw)]
    simp [hc]
  rw [firstWord, String.toList_ofList, hd, ht]
  match word, hn with
  | _ :: _, _ => rfl

theorem toDigit_fromDigit {n : Nat} (h : n < 16) : toDigit (fromDigit n) = some n := by
  revert n
  decide

theorem fromDigit_ascii {n : Nat} (h : n < 16) : (fromDigit n).val < 128 := by
  revert n
  decide

theorem fromDigit_ne_space {n : Nat} (h : n < 16) : fromDigit n ≠ ' ' := by
  revert n
  decide

-- The digits of a number are hexadecimal digits.
theorem mem_toDigits {n : Nat} (h : c ∈ Nat.toDigits 16 n) : ∃ k < 16, c = fromDigit k := by
  induction n using Nat.strong_induction_on
  case h n ih =>
    rw [Nat.toDigits_eq_if (by decide)] at h
    split at h
    case isTrue hn => exact ⟨n, hn, List.mem_singleton.mp h⟩
    case isFalse hn =>
      cases List.mem_append.mp h
      case inl h => exact ih (n / 16) (by omega) h
      case inr h => exact ⟨n % 16, Nat.mod_lt n (by decide), List.mem_singleton.mp h⟩

theorem toDigits_ascii {n : Nat} (h : c ∈ Nat.toDigits 16 n) : c.val < 128 := by
  have ⟨_, hk, hc⟩ := mem_toDigits h
  exact hc ▸ fromDigit_ascii hk

@[simp]
theorem len_append : len (s ++ t) = len s + len t :=
  String.utf8ByteSize_append

theorem len_ofList_cons : len (.ofList (c :: xs)) = c.utf8Size + len (.ofList xs) := by
  rw [show String.ofList (c :: xs) = String.singleton c ++ .ofList xs by simp, len_append, len,
    String.utf8ByteSize_singleton]

theorem len_ofList_of_ascii (h : ∀ c ∈ xs, c.val < 128) : len (.ofList xs) = xs.length := by
  induction xs
  case nil => rfl
  case cons c xs ih =>
    simp only [List.mem_cons, forall_eq_or_imp] at h
    have hc : c.val ≤ 127 := Nat.le_of_lt_succ h.left
    rw [len_ofList_cons, ih h.right, Char.utf8Size_eq_one_iff.mpr hc, List.length_cons, Nat.add_comm]

theorem len_toString {n k : Nat} (h : n < 10 ^ k) (hk : 0 < k) : len (toString n) ≤ k := by
  rw [Nat.toString_eq_ofList_toDigits, len_ofList_of_ascii]
  · exact (Nat.length_toDigits_le_iff (by decide) hk).mpr h
  · intro c hc
    have ⟨_, hu⟩ := bounds_of_isDigit (Nat.isDigit_of_mem_toDigits (by decide) (by decide) hc)
    exact Nat.lt_of_le_of_lt hu (by decide)

section

variable {bs bs' : Bytes}

theorem hexDigits_cons {b : UInt8} :
    hexDigits (b :: bs) = fromDigit (b.toNat / 16) :: fromDigit (b.toNat % 16) :: hexDigits bs :=
  rfl

-- What hexadecimal digits stand for is known from each digit.
theorem mem_hexDigits (h : c ∈ hexDigits bs) : ∃ n < 16, c = fromDigit n := by
  have ⟨b, _, hc⟩ := List.mem_flatMap.mp h
  have hb := b.toNat_lt
  simp only [List.mem_cons, List.not_mem_nil, or_false] at hc
  cases hc
  case inl hc => exact ⟨_, by omega, hc⟩
  case inr hc => exact ⟨_, by omega, hc⟩

@[simp]
theorem length_hexDigits : (hexDigits bs).length = 2 * bs.length := by
  induction bs
  case nil => rfl
  case cons b bs ih => rw [hexDigits_cons, List.length_cons, List.length_cons, ih, List.length_cons]; ring

theorem unhex_hexDigits : unhex (hexDigits bs) = some bs := by
  induction bs
  case nil => rfl
  case cons b bs ih =>
    have hb := b.toNat_lt
    have hi : toDigit (fromDigit (b.toNat / 16)) = some (b.toNat / 16) := toDigit_fromDigit (by omega)
    have lo : toDigit (fromDigit (b.toNat % 16)) = some (b.toNat % 16) := toDigit_fromDigit (by omega)
    rw [hexDigits_cons]
    have hv : UInt8.ofNat (b.toNat / 16 * 16 + b.toNat % 16) = b := by rw [Nat.div_add_mod', UInt8.ofNat_toNat]
    simp only [unhex, hi, lo, ih, hv, Option.pure_def, Option.bind_eq_bind, Option.bind_some]

theorem isAscii_hex : isAscii (hex bs) := by
  rw [isAscii, hex, String.toList_ofList, List.all_eq_true]
  intro c hc
  have ⟨n, hn, hc⟩ := mem_hexDigits hc
  exact decide_eq_true (hc ▸ fromDigit_ascii hn)

theorem len_hex : len (hex bs) = 2 * bs.length := by
  rw [hex, len_ofList_of_ascii, length_hexDigits]
  intro c hc
  have ⟨n, hn, hc⟩ := mem_hexDigits hc
  exact hc ▸ fromDigit_ascii hn

end

theorem splitOn_cons_self : (c :: xs).splitOn c = [] :: xs.splitOn c := by
  rw [List.splitOn_cons_eq_if_modifyHead, if_pos (beq_self_eq_true c)]

theorem splitOn_cons_of_ne {x : Char} (h : x ≠ c) : (x :: xs).splitOn c = (xs.splitOn c).modifyHead (x :: ·) := by
  rw [List.splitOn_cons_eq_if_modifyHead, if_neg (by simpa using h)]

-- Where the first part is empty, the text starts with the character.
theorem head_of_splitOn (h : (xs.splitOn c).head? = some []) : xs = [] ∨ xs.head? = some c := by
  cases xs
  case nil => exact .inl rfl
  case cons x xs =>
    by_cases hx : x = c
    · exact .inr (congrArg some hx)
    · rw [splitOn_cons_of_ne hx, List.head?_modifyHead] at h
      simp at h

-- An empty part that is not the first one stands between two of the characters, or behind the last of them.
theorem doubled_of_splitOn (h : [] ∈ (xs.splitOn c).tail) : [c, c] <:+: xs ∨ xs.getLast? = some c := by
  induction xs
  case nil => simp at h
  case cons x xs ih =>
    have hcons (h : [] ∈ (xs.splitOn c).tail) : [c, c] <:+: x :: xs ∨ (x :: xs).getLast? = some c := by
      cases ih h
      case inl h => exact .inl (h.trans (List.suffix_cons x xs).isInfix)
      case inr h =>
        rw [List.getLast?_cons, h]
        exact .inr rfl
    by_cases hx : x = c
    case neg =>
      rw [splitOn_cons_of_ne hx, List.tail_modifyHead] at h
      exact hcons h
    case pos =>
      subst hx
      rw [splitOn_cons_self, List.tail_cons] at h
      cases hs : xs.splitOn x
      case nil => exact absurd hs (List.splitOn_ne_nil x xs)
      case cons part parts =>
        rw [hs] at h hcons
        cases h
        case head =>
          obtain rfl | hh := (head_of_splitOn (hs ▸ rfl) : xs = [] ∨ xs.head? = some x)
          · exact .inr rfl
          · have ⟨ys, hy⟩ := List.head?_eq_some_iff.mp hh
            exact .inl ⟨[], ys, by simp [hy]⟩
        case tail h => exact hcons h

-- The first line of a text.
theorem lines_append (h : '\n' ∉ xs) (hr : xs.getLast? ≠ some '\r') :
    lines (.ofList (xs ++ '\n' :: a)) = .ofList xs :: lines (.ofList a) := by
  rw [lines, String.toList_ofList, List.splitOn_append_cons_self_of_not_mem h, lines, String.toList_ofList]
  cases ha : a.splitOn '\n'
  case nil => exact absurd ha (List.splitOn_ne_nil _ _)
  case cons => rw [endLines, if_neg hr]; exact nofun

end Text
