import JlrModel.Lib.Merkle

-- Proofs that a leaf belongs to a Merkle tree, and that a tree is the beginning of another. The prover
-- goes down from the root and splits the leaves, the verifier goes up from a leaf and halves its index.

namespace Merkle

variable {δ : Type} [Hash δ]

-- The audit path of the leaf at an index, from the leaf to the root.
def path (m : Nat) (d : List δ) : List δ :=
  if d.length ≤ 1 then
    []
  else
    let k := split d.length
    if m < k then
      path m (d.take k) ++ [rootOf (d.drop k)]
    else
      path (m - k) (d.drop k) ++ [rootOf (d.take k)]
termination_by d.length
decreasing_by
  · exact length_take_lt (by omega)
  · exact length_drop_lt (by omega)

-- What proves that the first leaves of a tree were one, which is known to the verifier if `b` is set.
-- It is asked for some of the leaves, so a tree that is split has at least two.
def subproof (m : Nat) (d : List δ) (b : Bool) : List δ :=
  if m = d.length then
    if b then [] else [rootOf d]
  else if 2 ≤ d.length then
    let k := split d.length
    if m ≤ k then
      subproof m (d.take k) b ++ [rootOf (d.drop k)]
    else
      subproof (m - k) (d.drop k) false ++ [rootOf (d.take k)]
  else
    []
termination_by d.length
decreasing_by
  · exact length_take_lt (by omega)
  · exact length_drop_lt (by omega)

def Tree.inclusionProof (t : Tree δ) (index size : Nat) : Option (List δ) :=
  if size > t.size ∨ index ≥ size then
    none
  else
    some <| path index (t.leaves.take size)

def Tree.consistencyProof (t : Tree δ) (first second : Nat) : Option (List δ) :=
  if second > t.size ∨ first > second then
    none
  else if first = 0 ∨ first = second then
    some []
  else
    some <| subproof first (t.leaves.take second) true

-- The inner loop of both verifiers, which passes by the levels without a sibling.
def skip (fnode snode : Nat) : Nat × Nat :=
  if fnode % 2 = 0 ∧ fnode ≠ 0 then
    skip (fnode / 2) (snode / 2)
  else
    (fnode, snode)

-- Where both verifiers are after a node on the right, or without a sibling on this level.
def next (fnode snode : Nat) : Nat × Nat :=
  let n := if fnode % 2 = 0 then skip fnode snode else (fnode, snode)
  (n.1 / 2, n.2 / 2)

section Verify

variable [DecidableEq δ]

def climb (root : δ) : (proof : List δ) → (fnode snode : Nat) → (r : δ) → Bool
  | [], _, snode, r => snode = 0 && r = root
  | p :: proof, fnode, snode, r =>
    if snode = 0 then
      false
    else if fnode % 2 = 1 ∨ fnode = snode then
      let n := next fnode snode
      climb root proof n.1 n.2 (Hash.node p r)
    else
      climb root proof (fnode / 2) (snode / 2) (Hash.node r p)

def verifyInclusion (leaf : δ) (index size : Nat) (proof : List δ) (root : δ) : Bool :=
  if index ≥ size then
    false
  else
    climb root proof index (size - 1) leaf

def shift (fnode snode : Nat) : Nat × Nat :=
  if fnode % 2 = 1 then
    shift (fnode / 2) (snode / 2)
  else
    (fnode, snode)

def climbBoth (firstRoot secondRoot : δ) : (nodes : List δ) → (fnode snode : Nat) → (fr sr : δ) → Bool
  | [], _, snode, fr, sr => fr = firstRoot && (sr = secondRoot && snode = 0)
  | c :: nodes, fnode, snode, fr, sr =>
    if snode = 0 then
      false
    else if fnode % 2 = 1 ∨ fnode = snode then
      let n := next fnode snode
      climbBoth firstRoot secondRoot nodes n.1 n.2 (Hash.node c fr) (Hash.node c sr)
    else
      climbBoth firstRoot secondRoot nodes (fnode / 2) (snode / 2) fr (Hash.node sr c)

-- It starts on the level where the last node of the first tree has no sibling in it.
def climbFrom (firstRoot secondRoot : δ) (first second : Nat) : (nodes : List δ) → Bool
  | []            => false
  | node :: nodes =>
    let n := shift (first - 1) (second - 1)
    climbBoth firstRoot secondRoot nodes n.1 n.2 node node

-- The first root is not part of a proof if it is a node of the second tree.
def known (first : Nat) (firstRoot : δ) : List δ :=
  if first.isPowerOfTwo then [firstRoot] else []

def verifyConsistency (first second : Nat) (firstRoot secondRoot : δ) (proof : List δ) : Bool :=
  if first > second then
    false
  else if first = second then
    proof.isEmpty && firstRoot = secondRoot
  else if first = 0 then
    proof.isEmpty && firstRoot = Hash.empty
  else
    climbFrom firstRoot secondRoot first second (known first firstRoot ++ proof)

end Verify

end Merkle
