import JlrModel.Lib.Bytes

-- Files in which one field follows the other. A field is read from the bytes that the fields before it have left.

namespace Layout

abbrev Read := StateT Bytes Option

def take (n : Nat) : Read Bytes := fun data =>
  if n ≤ data.length then some (data.take n, data.drop n) else none

-- The `width` low-order bytes of `n`, least significant byte first.
def le (width n : Nat) : Bytes :=
  (Bytes.ofNat width n).reverse

def number (width : Nat) : Read Nat := do
  return Bytes.toNat (← take width).reverse

def times (read : Read α) : Nat → Read (List α)
  | 0     => return []
  | n + 1 => do
    let a ← read
    return a :: (← times read n)

def check (c : Prop) [Decidable c] : Read Unit := fun data =>
  if c then some ((), data) else none

variable {α β : Type} {read : Read α} {next : α → Read β} {data rest : Bytes} {n width : Nat} {a : α} {b : β}
  {as : List α}

theorem bind_eq_some : (read >>= next) data = some (b, rest) ↔
    ∃ a left, read data = some (a, left) ∧ next a left = some (b, rest) := by
  change (read data).bind (fun r => next r.1 r.2) = some (b, rest) ↔ _
  rw [Option.bind_eq_some_iff]
  exact Prod.exists

theorem pure_eq_some {a' : α} : (pure a : Read α) data = some (a', rest) ↔ a = a' ∧ data = rest := by
  change some (a, data) = some (a', rest) ↔ _
  rw [Option.some_inj, Prod.mk.injEq]

theorem check_eq_some {c : Prop} [Decidable c] {u : Unit} : check c data = some (u, rest) ↔ c ∧ data = rest := by
  rw [check]
  split <;> simp_all

theorem take_eq_some {bs : Bytes} : take n data = some (bs, rest) ↔ bs.length = n ∧ data = bs ++ rest := by
  rw [take]
  split
  case isTrue h =>
    rw [Option.some_inj, Prod.mk.injEq]
    constructor
    · rintro ⟨rfl, rfl⟩
      exact ⟨List.length_take_of_le h, (List.take_append_drop n data).symm⟩
    · rintro ⟨rfl, rfl⟩
      exact ⟨List.take_left, List.drop_left⟩
  case isFalse h =>
    refine iff_of_false nofun ?_
    rintro ⟨rfl, rfl⟩
    exact h (by simp)

@[simp]
theorem length_le : (le width n).length = width := by
  rw [le, List.length_reverse, Bytes.length_ofNat]

theorem toNat_reverse_le (h : n < 256 ^ width) : Bytes.toNat (le width n).reverse = n := by
  rw [le, List.reverse_reverse, Bytes.toNat_ofNat h]

-- What a field may be, and how it is written.
structure Exact (read : Read α) (fits : α → Prop) (write : α → Bytes) : Prop where
  iff : ∀ {data a rest}, read data = some (a, rest) ↔ fits a ∧ data = write a ++ rest

-- No field begins another.
theorem Exact.unique {fits : α → Prop} {write : α → Bytes} {a' : α} {rest' : Bytes} (h : Exact read fits write)
    (ha : fits a) (ha' : fits a') (he : write a ++ rest = write a' ++ rest') : a = a' ∧ rest = rest' := by
  have hr := (h.iff.mpr ⟨ha, rfl⟩).symm.trans (h.iff.mpr ⟨ha', he⟩)
  exact Prod.mk.inj (Option.some.inj hr)

theorem exact_number : Exact (number width) (· < 256 ^ width) (le width) := by
  refine ⟨?_⟩
  intro data n rest
  simp only [number, bind_eq_some, take_eq_some, pure_eq_some]
  constructor
  · rintro ⟨bs, _, ⟨rfl, rfl⟩, rfl, rfl⟩
    rw [← @List.length_reverse _ bs]
    exact ⟨Bytes.toNat_lt, by rw [le, Bytes.ofNat_toNat, List.reverse_reverse]⟩
  · rintro ⟨h, rfl⟩
    exact ⟨_, _, ⟨length_le, rfl⟩, toNat_reverse_le h, rfl⟩

-- As many fields of one kind as were announced.
theorem exact_times {fits : α → Prop} {write : α → Bytes} (h : Exact read fits write) :
    Exact (times read n) (fun as => as.length = n ∧ ∀ a ∈ as, fits a) (List.flatMap write) := by
  refine ⟨?_⟩
  intro data as rest
  induction n generalizing data as rest
  case zero =>
    simp only [times, pure_eq_some, List.length_eq_zero_iff]
    constructor
    · rintro ⟨rfl, rfl⟩
      exact ⟨⟨rfl, nofun⟩, rfl⟩
    · rintro ⟨⟨rfl, _⟩, rfl⟩
      exact ⟨rfl, rfl⟩
  case succ n ih =>
    simp only [times, bind_eq_some, pure_eq_some, h.iff, ih]
    constructor
    · rintro ⟨a, _, ⟨ha, rfl⟩, as, _, ⟨⟨rfl, has⟩, rfl⟩, rfl, rfl⟩
      exact ⟨⟨rfl, List.forall_mem_cons.mpr ⟨ha, has⟩⟩, (List.append_assoc ..).symm⟩
    · rintro ⟨⟨hl, hf⟩, rfl⟩
      match as, hl with
      | a :: as, hl =>
        have ⟨ha, has⟩ := List.forall_mem_cons.mp hf
        exact ⟨a, _, ⟨ha, List.append_assoc ..⟩, as, _, ⟨⟨Nat.succ.inj hl, has⟩, rfl⟩, rfl, rfl⟩

end Layout
