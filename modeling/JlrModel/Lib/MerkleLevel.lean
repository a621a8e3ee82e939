import JlrModel.Lib.MerkleProof

-- The levels of a Merkle tree. The prover sees the two parts of a tree, the verifier what is above a
-- level: a root and the proofs are the same in both views.

namespace Merkle

-- The two parts that the leaves of a tree are split into.
structure Parts (k : Nat) (left right : List α) : Prop where
  perfect : left.length = 2 ^ k
  bounded : right.length ≤ 2 ^ k
  filled  : right ≠ []

variable {k : Nat}

theorem Parts.split_eq {left right : List α} (p : Parts k left right) : split (left ++ right).length = left.length := by
  have hp := List.length_pos_iff.mpr p.filled
  have hl := p.perfect
  have hr := p.bounded
  rw [List.length_append, hl]
  apply Merkle.split_eq <;> omega

theorem Parts.length {left right : List α} (p : Parts k left right) : 2 ≤ (left ++ right).length := by
  have hp := List.length_pos_iff.mpr p.filled
  have hk := Nat.two_pow_pos k
  have hl := p.perfect
  rw [List.length_append]
  omega

-- A tree of two leaves.
theorem Parts.of_zero {left right : List α} (p : Parts 0 left right) : ∃ a b, left = [a] ∧ right = [b] := by
  obtain ⟨a, ha⟩ := List.length_eq_one_iff.mp p.perfect
  have hr := List.length_pos_iff.mpr p.filled
  have hb := p.bounded
  obtain ⟨b, hb⟩ := List.length_eq_one_iff.mp (show right.length = 1 by omega)
  exact ⟨a, b, ha, hb⟩

theorem parts_split {leaves : List α} (h : 2 ≤ leaves.length) :
    Parts (Nat.log2 (leaves.length - 1)) (leaves.take (split leaves.length))
      (leaves.drop (split leaves.length)) where
  perfect := by
    rw [List.length_take_of_le (split_lt h).le, split]
  bounded := by
    have := Nat.lt_log2_self (n := leaves.length - 1)
    rw [List.length_drop, split]
    omega
  filled := by
    have := split_lt h
    rw [Ne, List.drop_eq_nil_iff]
    omega

-- A property of trees holds if it passes from the two parts of a tree to the whole.
@[elab_as_elim]
theorem split_induction {motive : List α → Prop} (nil : motive []) (leaf : ∀ a, motive [a])
    (node : ∀ k left right, Parts k left right → motive left → motive right → motive (left ++ right))
    (leaves : List α) : motive leaves := by
  induction hn : leaves.length using Nat.strong_induction_on generalizing leaves
  case h n ih =>
  match leaves with
  | []           => exact nil
  | [a]          => exact leaf a
  | a :: b :: ls =>
    have h2 : 2 ≤ (a :: b :: ls).length := by simp
    rw [← List.take_append_drop (split (a :: b :: ls).length) (a :: b :: ls)]
    exact node _ _ _ (parts_split h2) (ih _ (hn ▸ length_take_lt h2) _ rfl)
      (ih _ (hn ▸ length_drop_lt h2) _ rfl)

variable {δ : Type} [Hash δ] {left right leaves : List δ}

theorem Parts.rootOf (p : Parts k left right) :
    rootOf (left ++ right) = Hash.node (Merkle.rootOf left) (Merkle.rootOf right) :=
  rootOf_append p.perfect p.bounded p.filled

theorem Parts.nodes (p : Parts k left right) :
    nodes (left ++ right) =
      (Merkle.rootOf left, Merkle.rootOf right) :: (Merkle.nodes left ++ Merkle.nodes right) := by
  rw [nodes_node p.length, p.split_eq, List.take_left, List.drop_left]
theorem path_of_length (h : leaves.length ≤ 1) : path m leaves = [] := by
  rw [path, if_pos h]

theorem Parts.path_left (p : Parts k left right) (h : m < left.length) :
    path m (left ++ right) = path m left ++ [Merkle.rootOf right] := by
  have hl := p.length
  rw [path, if_neg (by omega), p.split_eq, if_pos h, List.take_left, List.drop_left]

theorem Parts.path_right (p : Parts k left right) (h : left.length ≤ m) :
    path m (left ++ right) = path (m - left.length) right ++ [Merkle.rootOf left] := by
  have hl := p.length
  rw [path, if_neg (by omega), p.split_eq, if_neg (by omega), List.take_left, List.drop_left]

theorem subproof_length (h : m = leaves.length) :
    subproof m leaves b = if b then [] else [rootOf leaves] := by
  rw [subproof, if_pos h]

theorem Parts.subproof_left (p : Parts k left right) (h : m ≤ left.length) :
    subproof m (left ++ right) b = subproof m left b ++ [Merkle.rootOf right] := by
  have hl := p.length
  have hr := List.length_pos_iff.mpr p.filled
  rw [subproof, if_neg (by rw [List.length_append]; omega), if_pos hl, p.split_eq, if_pos h,
    List.take_left, List.drop_left]

theorem Parts.subproof_right (p : Parts k left right) (h : left.length < m)
    (hm : m ≠ (left ++ right).length) :
    subproof m (left ++ right) b = subproof (m - left.length) right false ++ [Merkle.rootOf left] := by
  rw [subproof, if_neg hm, if_pos p.length, p.split_eq, if_neg (by omega), List.take_left,
    List.drop_left]

-- The level above the leaves, where a last leaf without a sibling stays as it is.
def pairUp : List δ → List δ
  | []           => []
  | [a]          => [a]
  | a :: b :: ls => Hash.node a b :: pairUp ls

theorem length_pairUp (leaves : List δ) : (pairUp leaves).length = (leaves.length + 1) / 2 := by
  fun_induction pairUp leaves
  case case1 => simp
  case case2 => simp
  case case3 ih =>
    simp only [List.length_cons, ih]
    omega

theorem pairUp_append (h : left.length % 2 = 0) (right : List δ) :
    pairUp (left ++ right) = pairUp left ++ pairUp right := by
  fun_induction pairUp left
  case case1 => rfl
  case case2 => cases h
  case case3 a b ls ih =>
    have hl : ls.length % 2 = 0 := by
      simp only [List.length_cons] at h
      omega
    simp only [List.cons_append, pairUp, ih hl]

theorem take_pairUp (h : 2 * j ≤ leaves.length) : (pairUp leaves).take j = pairUp (leaves.take (2 * j)) := by
  have hl : (leaves.take (2 * j)).length = 2 * j := List.length_take_of_le h
  have hp := pairUp_append (show (leaves.take (2 * j)).length % 2 = 0 by omega) (leaves.drop (2 * j))
  rw [List.take_append_drop] at hp
  rw [hp, List.take_left' (by rw [length_pairUp, hl]; omega)]

theorem getElem_pairUp (ha : leaves[2 * j]? = some a) (hb : leaves[2 * j + 1]? = some b) :
    (pairUp leaves)[j]? = some (Hash.node a b) := by
  fun_induction pairUp leaves generalizing j
  case case1 => simp at ha
  case case2 => simp at hb
  case case3 ih =>
    cases j
    case zero => simp_all
    case succ j => simpa using ih (by simpa [Nat.mul_add] using ha) (by simpa [Nat.mul_add] using hb)

theorem getElem_pairUp_last (h : leaves.length = 2 * j + 1) : (pairUp leaves)[j]? = leaves[2 * j]? := by
  fun_induction pairUp leaves generalizing j
  case case1 => simp at h
  case case2 =>
    obtain rfl : j = 0 := by
      simp only [List.length_singleton] at h
      omega
    rfl
  case case3 ih =>
    obtain ⟨j, rfl⟩ : ∃ i, j = i + 1 := ⟨j - 1, by simp only [List.length_cons] at h; omega⟩
    simpa [Nat.mul_add] using ih (j := j) (by simp only [List.length_cons] at h; omega)

theorem Parts.pairUp (p : Parts (k + 1) left right) : Parts k (pairUp left) (pairUp right) where
  perfect := by
    have := p.perfect
    rw [length_pairUp]
    omega
  bounded := by
    have := p.bounded
    rw [length_pairUp]
    omega
  filled := by
    have := List.length_pos_iff.mpr p.filled
    apply List.length_pos_iff.mp
    rw [length_pairUp]
    omega

theorem Parts.pairUp_append (p : Parts (k + 1) left right) :
    Merkle.pairUp (left ++ right) = Merkle.pairUp left ++ Merkle.pairUp right := by
  have := p.perfect
  exact Merkle.pairUp_append (by omega) right

-- The levels of a tree have one root.
theorem rootOf_pairUp (leaves : List δ) : rootOf (pairUp leaves) = rootOf leaves := by
  induction leaves using split_induction
  case nil => rfl
  case leaf => rfl
  case node k left right p ihl ihr =>
    cases k
    case zero =>
      obtain ⟨a, b, rfl, rfl⟩ := p.of_zero
      rw [p.rootOf]
      simp [pairUp, rootOf]
    case succ k => rw [p.pairUp_append, p.pairUp.rootOf, ihl, ihr, p.rootOf]

-- A pair of neighbours is hashed for the root, and so is everything above them.
theorem mem_nodes_pair (ha : leaves[2 * j]? = some a) (hb : leaves[2 * j + 1]? = some b) :
    (a, b) ∈ nodes leaves := by
  induction leaves using split_induction generalizing j
  case nil => simp at ha
  case leaf => simp at hb
  case node k left right p ihl ihr =>
    rw [p.nodes, List.mem_cons, List.mem_append]
    cases k
    case zero =>
      obtain ⟨c, d, rfl, rfl⟩ := p.of_zero
      obtain ⟨hj, -⟩ := List.getElem?_eq_some_iff.mp hb
      obtain rfl : j = 0 := by simp only [List.length_append, List.length_singleton] at hj; omega
      left
      simp_all [rootOf]
    case succ k =>
      have hk := p.perfect
      right
      by_cases hj : 2 * j < left.length
      · rw [List.getElem?_append_left (by omega)] at ha hb
        exact .inl (ihl ha hb)
      · have hs : 2 * j - left.length = 2 * (j - left.length / 2) := by omega
        rw [List.getElem?_append_right (by omega)] at ha hb
        exact .inr (ihr (hs ▸ ha) (by rwa [Nat.sub_add_comm (by omega), hs] at hb))

theorem nodes_pairUp (h : p ∈ nodes (pairUp leaves)) : p ∈ nodes leaves := by
  induction leaves using split_induction
  case nil => exact h
  case leaf => exact h
  case node k left right parts ihl ihr =>
    cases k
    case zero =>
      obtain ⟨a, b, rfl, rfl⟩ := parts.of_zero
      simp [pairUp, nodes] at h
    case succ k =>
      rw [parts.pairUp_append, parts.pairUp.nodes, rootOf_pairUp, rootOf_pairUp, List.mem_cons,
        List.mem_append] at h
      rw [parts.nodes, List.mem_cons, List.mem_append]
      exact h.imp_right (Or.imp ihl ihr)

-- The other leaf of a pair.
def sibling (i : Nat) (leaves : List δ) : Option δ :=
  if i % 2 = 1 then leaves[i - 1]? else leaves[i + 1]?

omit [Hash δ] in
theorem sibling_append_left (hl : left.length % 2 = 0) (hi : i < left.length) :
    sibling i (left ++ right) = sibling i left := by
  unfold sibling
  split
  case isTrue => rw [List.getElem?_append_left (by omega)]
  case isFalse => rw [List.getElem?_append_left (by omega)]

omit [Hash δ] in
theorem sibling_append_right (hl : left.length % 2 = 0) (hi : left.length ≤ i) :
    sibling i (left ++ right) = sibling (i - left.length) right := by
  have hm : (i - left.length) % 2 = i % 2 := by omega
  unfold sibling
  rw [hm]
  split
  case isTrue => rw [List.getElem?_append_right (by omega), Nat.sub_right_comm]
  case isFalse => rw [List.getElem?_append_right (by omega), Nat.sub_add_comm hi]

-- The path of a leaf is its sibling, if there is one, and then the path of what is above it.
theorem path_pairUp (hi : i < leaves.length) :
    path i leaves = (sibling i leaves).toList ++ path (i / 2) (pairUp leaves) := by
  induction leaves using split_induction generalizing i
  case nil => simp at hi
  case leaf a =>
    obtain rfl : i = 0 := by simpa using hi
    simp [path_of_length, sibling, pairUp]
  case node k left right p ihl ihr =>
    cases k
    case zero =>
      obtain ⟨a, b, rfl, rfl⟩ := p.of_zero
      have hp : path (i / 2) (pairUp ([a] ++ [b])) = [] := path_of_length (by simp [pairUp])
      rw [hp, List.append_nil]
      obtain rfl | rfl : i = 0 ∨ i = 1 := by simp only [List.length_append, List.length_singleton] at hi; omega
      · rw [p.path_left (by simp)]
        simp [path_of_length, sibling, rootOf]
      · rw [p.path_right (by simp)]
        simp [path_of_length, sibling, rootOf]
    case succ k =>
      have hk := p.perfect
      have hl : (pairUp left).length = left.length / 2 := by rw [length_pairUp]; omega
      rw [p.pairUp_append]
      by_cases hil : i < left.length
      · rw [p.path_left hil, ihl hil, sibling_append_left (by omega) hil, p.pairUp.path_left (by omega),
          rootOf_pairUp, List.append_assoc]
      · have hd : i / 2 - left.length / 2 = (i - left.length) / 2 := by omega
        rw [List.length_append] at hi
        rw [p.path_right (by omega), ihr (by omega), sibling_append_right (by omega) (by omega),
          p.pairUp.path_right (by omega), rootOf_pairUp, hl, hd, List.append_assoc]

-- A property of trees holds if it passes from the level above the leaves down to them.
@[elab_as_elim]
theorem level_induction {motive : List δ → Prop} (nil : motive []) (leaf : ∀ a, motive [a])
    (level : ∀ leaves, 2 ≤ leaves.length → motive (pairUp leaves) → motive leaves)
    (leaves : List δ) : motive leaves := by
  induction hn : leaves.length using Nat.strong_induction_on generalizing leaves
  case h n ih =>
  match leaves with
  | []           => exact nil
  | [a]          => exact leaf a
  | a :: b :: ls =>
    have h2 : 2 ≤ (a :: b :: ls).length := by simp
    have hp := length_pairUp (a :: b :: ls)
    exact level _ h2 (ih _ (by omega) _ rfl)

-- A node and its sibling in their order.
def beside (i : Nat) (sibling node : δ) : δ × δ :=
  if i % 2 = 1 then (sibling, node) else (node, sibling)

omit [Hash δ] in
theorem beside_inj (h : beside i p x = beside i p' x') : p = p' ∧ x = x' := by
  unfold beside at h
  split at h
  case isTrue => exact Prod.ext_iff.mp h
  case isFalse => exact (Prod.ext_iff.mp h).symm

def join (i : Nat) (sibling node : δ) : δ :=
  Hash.node (beside i sibling node).1 (beside i sibling node).2

-- The index of a node that has a sibling in a tree whose last index is `s`.
def Paired (i s : Nat) : Prop :=
  i % 2 = 1 ∨ i < s

omit [Hash δ] in
theorem sibling_of_paired (h : Paired i (leaves.length - 1)) (hi : i < leaves.length) :
    ∃ p, sibling i leaves = some p := by
  unfold sibling
  split
  case isTrue => exact ⟨_, List.getElem?_eq_getElem (by omega)⟩
  case isFalse ho =>
    have := h.resolve_left ho
    exact ⟨_, List.getElem?_eq_getElem (by omega)⟩

-- A node without a sibling is the last one.
theorem last_of_not_paired (h : ¬ Paired i s) (hi : i ≤ s) : i = s ∧ i % 2 = 0 := by
  unfold Paired at h
  omega

omit [Hash δ] in
theorem sibling_last (hi : i = leaves.length - 1) (he : i % 2 = 0) : sibling i leaves = none := by
  rw [sibling, if_neg (by omega), List.getElem?_eq_none (by omega)]

-- It is what stands above it.
theorem pairUp_last (hi : i = leaves.length - 1) (he : i % 2 = 0) (h : i < leaves.length) :
    (pairUp leaves)[i / 2]? = leaves[i]? := by
  rw [getElem_pairUp_last (by omega), show 2 * (i / 2) = i by omega]

-- What stands above a node and its sibling.
theorem pairUp_join (hx : leaves[i]? = some x) (hp : sibling i leaves = some p) :
    (pairUp leaves)[i / 2]? = some (join i p x) ∧ beside i p x ∈ nodes leaves := by
  unfold sibling at hp
  unfold join beside
  split at hp
  case isTrue ho =>
    have ha : leaves[2 * (i / 2)]? = some p := by rwa [show 2 * (i / 2) = i - 1 by omega]
    have hb : leaves[2 * (i / 2) + 1]? = some x := by rwa [show 2 * (i / 2) + 1 = i by omega]
    rw [if_pos ho]
    exact ⟨getElem_pairUp ha hb, mem_nodes_pair ha hb⟩
  case isFalse he =>
    have ha : leaves[2 * (i / 2)]? = some x := by rwa [show 2 * (i / 2) = i by omega]
    have hb : leaves[2 * (i / 2) + 1]? = some p := by rwa [show 2 * (i / 2) = i by omega]
    rw [if_neg he]
    exact ⟨getElem_pairUp ha hb, mem_nodes_pair ha hb⟩

-- The last index of the level above.
theorem last_pairUp (h : 2 ≤ leaves.length) : (leaves.length - 1) / 2 = (pairUp leaves).length - 1 := by
  rw [length_pairUp]
  omega

-- The proof for an even number of leaves is that of the level above.
theorem subproof_even (hm : m % 2 = 0) (h : m ≤ leaves.length) (h0 : m ≠ 0) :
    subproof m leaves false = subproof (m / 2) (pairUp leaves) false := by
  induction leaves using split_induction generalizing m
  case nil => simp at h; omega
  case leaf => simp at h; omega
  case node k left right p ihl ihr =>
    have hk := p.perfect
    have hb := p.bounded
    by_cases hn : m = (left ++ right).length
    · have hn' : m / 2 = (pairUp (left ++ right)).length := by rw [length_pairUp]; omega
      rw [subproof_length hn, subproof_length hn', rootOf_pairUp]
    · rw [List.length_append] at h hn
      cases k
      case zero => omega
      case succ k =>
        have hl : (pairUp left).length = left.length / 2 := by rw [length_pairUp]; omega
        have hr := length_pairUp right
        rw [p.pairUp_append]
        by_cases hml : m ≤ left.length
        · rw [p.subproof_left hml, ihl hm hml h0, p.pairUp.subproof_left (by omega), rootOf_pairUp]
        · have hd : m / 2 - left.length / 2 = (m - left.length) / 2 := by omega
          rw [p.subproof_right (by omega) (by rwa [List.length_append]), ihr (by omega) (by omega) (by omega),
            p.pairUp.subproof_right (by omega) (by rw [List.length_append]; omega), rootOf_pairUp, hl, hd]

-- For an odd number, it is the last of these leaves and its path.
theorem subproof_odd (hm : m % 2 = 1) (h : m < leaves.length ∨ leaves.length = 1 ∧ m = 1)
    (hx : leaves[m - 1]? = some x) :
    subproof m leaves false = x :: path (m - 1) leaves := by
  induction leaves using split_induction generalizing m
  case nil => simp at hx
  case leaf a =>
    obtain rfl : m = 1 := by simp at h; omega
    obtain rfl : a = x := by simpa using hx
    rw [path_of_length (by simp), subproof_length (m := 1) rfl]
    simp [rootOf]
  case node k left right p ihl ihr =>
    have hk := p.perfect
    have hb := p.bounded
    have hf := List.length_pos_iff.mpr p.filled
    rw [List.length_append] at h
    have hmn : m < left.length + right.length := by omega
    by_cases hml : m ≤ left.length
    · rw [List.getElem?_append_left (by omega)] at hx
      have hlt : m < left.length ∨ left.length = 1 ∧ m = 1 := by
        cases k
        case zero => omega
        case succ => omega
      rw [p.subproof_left hml, ihl hm hlt hx, p.path_left (by omega), List.cons_append]
    · cases k
      case zero => omega
      case succ k =>
        rw [List.getElem?_append_right (by omega), Nat.sub_right_comm] at hx
        rw [p.subproof_right (by omega) (by rw [List.length_append]; omega), ihr (by omega) (by omega) hx,
          p.path_right (by omega), Nat.sub_right_comm, List.cons_append]

theorem rootOf_take_even (hm : m % 2 = 0) (h : m ≤ leaves.length) :
    rootOf ((pairUp leaves).take (m / 2)) = rootOf (leaves.take m) := by
  rw [take_pairUp (by omega), rootOf_pairUp, show 2 * (m / 2) = m by omega]

omit [Hash δ] in
theorem take_concat (h0 : m ≠ 0) (hx : leaves[m - 1]? = some x) :
    leaves.take (m - 1) ++ [x] = leaves.take m := by
  obtain ⟨hi, rfl⟩ := List.getElem?_eq_some_iff.mp hx
  rw [← List.take_succ_eq_append_getElem, Nat.sub_add_cancel (by omega)]

end Merkle
