import JlrModel.Lib.MerkleLevel

-- The verifiers accept the proofs of a tree, and without a collision nothing else.

namespace Merkle

variable {δ : Type} [Hash δ] {left right leaves : List δ}

-- The pairs that a verifier hashes.
def climbed : (proof : List δ) → (fnode snode : Nat) → (r : δ) → List (δ × δ)
  | [], _, _, _ => []
  | p :: proof, fnode, snode, r =>
    if snode = 0 then
      []
    else if fnode % 2 = 1 ∨ fnode = snode then
      let n := next fnode snode
      (p, r) :: climbed proof n.1 n.2 (Hash.node p r)
    else
      (r, p) :: climbed proof (fnode / 2) (snode / 2) (Hash.node r p)

-- The first root of two, as a verifier computes it.
def climbFirst : (proof : List δ) → (fnode snode : Nat) → (fr : δ) → δ
  | [], _, _, fr => fr
  | p :: proof, fnode, snode, fr =>
    if fnode % 2 = 1 ∨ fnode = snode then
      let n := next fnode snode
      climbFirst proof n.1 n.2 (Hash.node p fr)
    else
      climbFirst proof (fnode / 2) (snode / 2) fr

theorem next_odd (ho : i % 2 = 1) : next i s = (i / 2, s / 2) := by
  rw [next, if_neg (by omega)]

theorem next_even (he : i % 2 = 0) (h0 : i ≠ 0) : next i i = next (i / 2) (i / 2) := by
  rw [next, if_pos he, skip, if_pos ⟨he, h0⟩, next]
  split
  case isTrue => rfl
  case isFalse h => rw [skip, if_neg (fun hc => h hc.left)]

variable {proof : List δ} {p r root : δ}

-- A level on which the node is the last one and has no sibling is passed by.
theorem climbed_last (hi : i = s) (he : i % 2 = 0) (h0 : i ≠ 0) :
    climbed proof i s r = climbed proof (i / 2) (s / 2) r := by
  subst hi
  cases proof
  case nil => rfl
  case cons p proof =>
    rw [climbed, climbed, if_neg h0, if_neg (show i / 2 ≠ 0 by omega), if_pos (.inr rfl),
      if_pos (.inr rfl), next_even he h0]

theorem climbFirst_last (hi : i = s) (he : i % 2 = 0) (h0 : i ≠ 0) :
    climbFirst proof i s r = climbFirst proof (i / 2) (s / 2) r := by
  subst hi
  cases proof
  case nil => rfl
  case cons p proof =>
    rw [climbFirst, climbFirst, if_pos (.inr rfl), if_pos (.inr rfl), next_even he h0]

theorem climbed_cons (hp : Paired i s) (h0 : s ≠ 0) :
    climbed (p :: proof) i s r = beside i p r :: climbed proof (i / 2) (s / 2) (join i p r) := by
  unfold join beside
  rw [climbed, if_neg h0]
  by_cases ho : i % 2 = 1
  · rw [if_pos (.inl ho), if_pos ho, next_odd ho]
  · have := hp.resolve_left ho
    rw [if_neg (by omega), if_neg ho]

theorem climbFirst_odd (ho : i % 2 = 1) :
    climbFirst (p :: proof) i s r = climbFirst proof (i / 2) (s / 2) (Hash.node p r) := by
  rw [climbFirst, if_pos (.inl ho), next_odd ho]

theorem climbFirst_even (he : i % 2 = 0) (hi : i < s) :
    climbFirst (p :: proof) i s r = climbFirst proof (i / 2) (s / 2) r := by
  rw [climbFirst, if_neg (by omega)]

section Verify

variable [DecidableEq δ]

theorem climb_last (hi : i = s) (he : i % 2 = 0) (h0 : i ≠ 0) :
    climb root proof i s r = climb root proof (i / 2) (s / 2) r := by
  subst hi
  have hd : i / 2 ≠ 0 := by omega
  cases proof
  case nil => simp [climb, h0, hd]
  case cons p proof =>
    rw [climb, climb, if_neg h0, if_neg hd, if_pos (.inr rfl), if_pos (.inr rfl), next_even he h0]

theorem climb_cons (hp : Paired i s) (h0 : s ≠ 0) :
    climb root (p :: proof) i s r = climb root proof (i / 2) (s / 2) (join i p r) := by
  unfold join beside
  rw [climb, if_neg h0]
  by_cases ho : i % 2 = 1
  · rw [if_pos (.inl ho), if_pos ho, next_odd ho]
  · have := hp.resolve_left ho
    rw [if_neg (by omega), if_neg ho]

theorem climb_nil (h0 : s ≠ 0) : climb root [] i s r = false := by
  simp [climb, h0]

-- The path of a leaf leads to the root.
theorem climb_path (hx : leaves[i]? = some x) :
    climb (rootOf leaves) (path i leaves) i (leaves.length - 1) x := by
  obtain ⟨hi, -⟩ := List.getElem?_eq_some_iff.mp hx
  induction leaves using level_induction generalizing i x
  case nil => simp at hi
  case leaf a =>
    obtain rfl : i = 0 := by simpa using hi
    simp_all [path_of_length, climb, rootOf]
  case level leaves h2 ih =>
    rw [path_pairUp hi, ← rootOf_pairUp]
    have hl := last_pairUp h2
    by_cases hp : Paired i (leaves.length - 1)
    · obtain ⟨p, hs⟩ := sibling_of_paired hp hi
      have hj := (pairUp_join hx hs).left
      rw [hs, Option.toList_some, List.singleton_append, climb_cons hp (by omega), hl]
      exact ih hj (List.getElem?_eq_some_iff.mp hj).choose
    · obtain ⟨hs, he⟩ := last_of_not_paired hp (by omega)
      have hj := (pairUp_last hs he hi).trans hx
      rw [sibling_last hs he, Option.toList_none, List.nil_append, climb_last hs he (by omega), hl]
      exact ih hj (List.getElem?_eq_some_iff.mp hj).choose

-- Without a collision among the pairs that are hashed, nothing else does.
theorem path_of_climb {S : Set (δ × δ)} (inj : Set.InjOn (fun p => Hash.node p.1 p.2) S)
    (hi : i < leaves.length) (hs : ∀ p ∈ nodes leaves, p ∈ S)
    (hs' : ∀ p ∈ climbed proof i (leaves.length - 1) x, p ∈ S)
    (h : climb (rootOf leaves) proof i (leaves.length - 1) x) :
    leaves[i]? = some x ∧ proof = path i leaves := by
  induction leaves using level_induction generalizing i x proof
  case nil => simp at hi
  case leaf a =>
    obtain rfl : i = 0 := by simpa using hi
    cases proof
    case nil => simp_all [path_of_length, climb, rootOf]
    case cons => simp [climb] at h
  case level leaves h2 ih =>
    have hl := last_pairUp h2
    have hn : i / 2 < (pairUp leaves).length := by rw [length_pairUp]; omega
    rw [← rootOf_pairUp] at h
    rw [path_pairUp hi]
    by_cases hp : Paired i (leaves.length - 1)
    · cases proof
      case nil => simp [climb_nil (show leaves.length - 1 ≠ 0 by omega)] at h
      case cons p proof =>
        rw [climb_cons hp (by omega), hl] at h
        rw [climbed_cons hp (by omega), hl] at hs'
        obtain ⟨hj, hr⟩ := ih hn (fun q hq => hs q (nodes_pairUp hq))
          (fun q hq => hs' q (List.mem_cons_of_mem _ hq)) h
        obtain ⟨a, ha⟩ := sibling_of_paired hp hi
        have hx := List.getElem?_eq_getElem hi
        obtain ⟨hj', hm⟩ := pairUp_join hx ha
        have he := Option.some.inj (hj.symm.trans hj')
        obtain ⟨rfl, hx'⟩ := beside_inj (inj (hs' _ List.mem_cons_self) (hs _ hm) he)
        rw [ha, hr, hx, hx']
        exact ⟨rfl, rfl⟩
    · obtain ⟨hi', he⟩ := last_of_not_paired hp (by omega)
      rw [climb_last hi' he (by omega), hl] at h
      rw [climbed_last hi' he (by omega), hl] at hs'
      obtain ⟨hj, hr⟩ := ih hn (fun q hq => hs q (nodes_pairUp hq)) hs' h
      rw [sibling_last hi' he, ← pairUp_last hi' he hi]
      exact ⟨hj, hr⟩

theorem verifyInclusion_path (hx : leaves[i]? = some x) :
    verifyInclusion x i leaves.length (path i leaves) (rootOf leaves) := by
  obtain ⟨hi, -⟩ := List.getElem?_eq_some_iff.mp hx
  rw [verifyInclusion, if_neg (by omega)]
  exact climb_path hx

theorem path_of_verifyInclusion {S : Set (δ × δ)} (inj : Set.InjOn (fun p => Hash.node p.1 p.2) S)
    (hs : ∀ p ∈ nodes leaves, p ∈ S) (hs' : ∀ p ∈ climbed proof i (leaves.length - 1) x, p ∈ S)
    (h : verifyInclusion x i leaves.length proof (rootOf leaves)) :
    leaves[i]? = some x ∧ proof = path i leaves := by
  unfold verifyInclusion at h
  split at h
  case isTrue => contradiction
  case isFalse hi => exact path_of_climb inj (by omega) hs hs' h

-- The verifier of two roots is that of the second one, with a first root beside it.
theorem climbBoth_eq : climbBoth firstRoot root proof i s fr sr =
    (climb root proof i s sr && climbFirst proof i s fr = firstRoot) := by
  induction proof generalizing i s fr sr
  case nil =>
    simp only [climbBoth, climb, climbFirst]
    grind
  case cons p proof ih =>
    simp only [climbBoth, climb, climbFirst]
    split
    case isTrue => rfl
    case isFalse => split <;> exact ih

end Verify

-- On the path of a leaf, the first root is that of the leaves up to it.
theorem climbFirst_path (hi : i < leaves.length) :
    climbFirst (path i leaves) i (leaves.length - 1) y = rootOf (leaves.take i ++ [y]) := by
  induction leaves using level_induction generalizing i y
  case nil => simp at hi
  case leaf a =>
    obtain rfl : i = 0 := by simpa using hi
    simp [path_of_length, climbFirst, rootOf]
  case level leaves h2 ih =>
    have hl := last_pairUp h2
    have hn : i / 2 < (pairUp leaves).length := by rw [length_pairUp]; omega
    rw [path_pairUp hi, ← rootOf_pairUp]
    by_cases ho : i % 2 = 1
    · -- The last two of the leaves are a pair.
      have ha : sibling i leaves = some leaves[i - 1] := by
        rw [sibling, if_pos ho, List.getElem?_eq_getElem (by omega)]
      have ht : leaves.take i = leaves.take (i - 1) ++ [leaves[i - 1]] := by
        rw [← List.take_succ_eq_append_getElem, Nat.sub_add_cancel (by omega)]
      rw [ha, Option.toList_some, List.singleton_append, climbFirst_odd ho, hl, ih hn,
        take_pairUp (by omega), ht, List.append_assoc, pairUp_append, show 2 * (i / 2) = i - 1 by omega]
      · rfl
      · rw [List.length_take]
        omega
    · have he : i % 2 = 0 := by omega
      have hu : pairUp (leaves.take i ++ [y]) = (pairUp leaves).take (i / 2) ++ [y] := by
        rw [take_pairUp (by omega), pairUp_append, show 2 * (i / 2) = i by omega]
        · rfl
        · rw [List.length_take]
          omega
      rw [hu, ← ih hn]
      by_cases hp : Paired i (leaves.length - 1)
      · obtain ⟨p, hs⟩ := sibling_of_paired hp hi
        rw [hs, Option.toList_some, List.singleton_append, climbFirst_even he (hp.resolve_left ho), hl]
      · obtain ⟨hs, -⟩ := last_of_not_paired hp (by omega)
        rw [sibling_last hs he, Option.toList_none, List.nil_append, climbFirst_last hs he (by omega), hl]

-- The verifier puts the first root in front of a proof that leaves it out.
theorem known_append_subproof (h0 : m ≠ 0) (h : m ≤ leaves.length)
    (hm : m = leaves.length → m.isPowerOfTwo) :
    known m (rootOf (leaves.take m)) ++ subproof m leaves true = subproof m leaves false := by
  induction leaves using split_induction generalizing m
  case nil => simp at h; omega
  case leaf a =>
    obtain rfl : m = 1 := by simp at h; omega
    rw [known, if_pos (hm rfl), subproof_length (m := 1) rfl, subproof_length (m := 1) rfl]
    rfl
  case node k left right p ihl ihr =>
    by_cases hn : m = (left ++ right).length
    · rw [known, if_pos (hm hn), subproof_length hn, subproof_length hn, hn, List.take_length]
      rfl
    · have hk := p.perfect
      have hb := p.bounded
      by_cases hml : m ≤ left.length
      · have hp : m = left.length → m.isPowerOfTwo := fun he => ⟨k, he.trans hk⟩
        rw [p.subproof_left hml, p.subproof_left hml, List.take_append_of_le_length hml, ← List.append_assoc,
          ihl h0 hml hp]
      · have hp : ¬ m.isPowerOfTwo := by
          rintro ⟨j, rfl⟩
          rw [List.length_append] at h hn
          have hkj : k < j := (Nat.pow_lt_pow_iff_right Nat.one_lt_two).mp (by omega)
          have hjk : 2 ^ (k + 1) ≤ 2 ^ j := Nat.pow_le_pow_right Nat.two_pos hkj
          omega
        rw [known, if_neg hp, p.subproof_right (by omega) hn, p.subproof_right (by omega) hn]
        rfl

section Verify

variable [DecidableEq δ]

-- The pairs that the verifier hashes for the second root.
def climbedFrom (first second : Nat) : (nodes : List δ) → List (δ × δ)
  | []            => []
  | node :: nodes =>
    let n := shift (first - 1) (second - 1)
    climbed nodes n.1 n.2 node

theorem shift_odd (hm : m % 2 = 1) : shift (m - 1) s = (m - 1, s) := by
  rw [shift, if_neg (by omega)]

theorem shift_even (hm : m % 2 = 0) (h0 : m ≠ 0) : shift (m - 1) s = shift (m / 2 - 1) (s / 2) := by
  rw [shift, if_pos (by omega), show (m - 1) / 2 = m / 2 - 1 by omega]

theorem climbFrom_even (hm : m % 2 = 0) (h0 : m ≠ 0) (h : 2 ≤ leaves.length) :
    climbFrom r root m leaves.length proof = climbFrom r root (m / 2) (pairUp leaves).length proof := by
  unfold climbFrom
  rw [shift_even hm h0, last_pairUp h]

omit [DecidableEq δ] in
theorem climbedFrom_even (hm : m % 2 = 0) (h0 : m ≠ 0) (h : 2 ≤ leaves.length) :
    climbedFrom m leaves.length proof = climbedFrom (m / 2) (pairUp leaves).length proof := by
  unfold climbedFrom
  rw [shift_even hm h0, last_pairUp h]

-- The proof of some first leaves leads to both roots.
theorem climbFrom_subproof (h0 : m ≠ 0) (h : m < leaves.length) :
    climbFrom (rootOf (leaves.take m)) (rootOf leaves) m leaves.length (subproof m leaves false) := by
  induction leaves using level_induction generalizing m
  case nil => simp at h
  case leaf => simp at h; omega
  case level leaves h2 ih =>
    by_cases hm : m % 2 = 0
    · rw [subproof_even hm h.le h0, climbFrom_even hm h0 h2, ← rootOf_pairUp leaves,
        ← rootOf_take_even hm h.le]
      exact ih (by omega) (by rw [length_pairUp]; omega)
    · have hx : leaves[m - 1]? = some leaves[m - 1] := List.getElem?_eq_getElem (by omega)
      rw [subproof_odd (by omega) (.inl h) hx, climbFrom, shift_odd (by omega), climbBoth_eq,
        climbFirst_path (by omega), take_concat h0 hx, climb_path hx]
      simp

theorem rootOf_of_climbFrom {S : Set (δ × δ)} (inj : Set.InjOn (fun p => Hash.node p.1 p.2) S)
    (h0 : m ≠ 0) (h : m < leaves.length) (hs : ∀ p ∈ nodes leaves, p ∈ S)
    (hs' : ∀ p ∈ climbedFrom m leaves.length proof, p ∈ S)
    (hc : climbFrom r (rootOf leaves) m leaves.length proof) : r = rootOf (leaves.take m) := by
  induction leaves using level_induction generalizing m
  case nil => simp at h
  case leaf => simp at h; omega
  case level leaves h2 ih =>
    by_cases hm : m % 2 = 0
    · rw [climbFrom_even hm h0 h2, ← rootOf_pairUp] at hc
      rw [climbedFrom_even hm h0 h2] at hs'
      rw [← rootOf_take_even hm h.le]
      exact ih (by omega) (by rw [length_pairUp]; omega) (fun q hq => hs q (nodes_pairUp hq)) hs' hc
    · cases proof
      case nil => contradiction
      case cons node proof =>
        rw [climbFrom, shift_odd (by omega), climbBoth_eq, Bool.and_eq_true, decide_eq_true_iff] at hc
        rw [climbedFrom, shift_odd (by omega)] at hs'
        obtain ⟨hx, rfl⟩ := path_of_climb inj (by omega) hs hs' hc.left
        rw [← hc.right, climbFirst_path (by omega), take_concat h0 hx]

theorem verifyConsistency_self : verifyConsistency n n root root [] := by
  simp [verifyConsistency]

theorem verifyConsistency_zero (h : n ≠ 0) : verifyConsistency 0 n Hash.empty root [] := by
  simp [verifyConsistency, h.symm]

theorem verifyConsistency_subproof (h0 : m ≠ 0) (h : m < leaves.length) :
    verifyConsistency m leaves.length (rootOf (leaves.take m)) (rootOf leaves)
      (subproof m leaves true) := by
  rw [verifyConsistency, if_neg (by omega), if_neg (by omega), if_neg h0,
    known_append_subproof h0 h.le (by omega)]
  exact climbFrom_subproof h0 h

theorem rootOf_of_verifyConsistency {S : Set (δ × δ)} (inj : Set.InjOn (fun p => Hash.node p.1 p.2) S)
    (hs : ∀ p ∈ nodes leaves, p ∈ S)
    (hs' : ∀ p ∈ climbedFrom m leaves.length (known m r ++ proof), p ∈ S)
    (h : verifyConsistency m leaves.length r (rootOf leaves) proof) :
    m ≤ leaves.length ∧ r = rootOf (leaves.take m) := by
  unfold verifyConsistency at h
  split at h
  case isTrue => contradiction
  case isFalse hm =>
    refine ⟨by omega, ?_⟩
    split at h
    case isTrue he =>
      rw [he, List.take_length]
      simpa using (Bool.and_eq_true_iff.mp h).right
    case isFalse hn =>
      split at h
      case isTrue h0 =>
        rw [h0, List.take_zero, rootOf]
        simpa using (Bool.and_eq_true_iff.mp h).right
      case isFalse h0 => exact rootOf_of_climbFrom inj h0 (by omega) hs hs' h

end Verify

end Merkle
