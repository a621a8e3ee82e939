import JlrModel.Ledger.Merkle
import JlrModel.Lib.MerkleVerify

-- The tree of the ledger against its recursive definition, and what its proofs establish.

open Merkle

section

variable [Crypto]

-- No two of the pairs have one hash.
def NoCollision (pairs : List (Digest × Digest)) : Prop :=
  Set.InjOn (fun p => nodeHash p.1 p.2) { p | p ∈ pairs }

-- A tree that is built leaf by leaf has the roots of the recursive definition. No counter of a height
-- and no number of digits in a split gets to 64, and each size has its root at the index before it.
theorem tree_refines_rootOf (leaves : List Digest) :
    (Tree.of leaves).root = rootOf leaves ∧
    (∀ n, (Tree.of leaves).rootAt n =
      if n ≤ leaves.length then some (rootOf (leaves.take n)) else none) ∧
    (Tree.of leaves).roots.length = (Tree.of leaves).size ∧
    (leaves.length < 2 ^ 64 →
      leaves.foldlM (Tree.pushBelow 64) Tree.new = some (Tree.of leaves) ∧
      ∀ n, 2 ≤ n → n ≤ leaves.length → Nat.log2 (n - 1) < 64 ∧ split n < n) := by
  refine ⟨Tree.root_of, fun n => Tree.rootAt_of, ?_, fun h => ⟨Tree.foldlM_pushBelow_new h, ?_⟩⟩
  · rw [Tree.length_roots_of, Tree.size_of]
  · intro n h2 hn
    have hl : Nat.log2 (n - 1) < 64 := (Nat.log2_lt (by omega)).mpr (by omega)
    exact ⟨hl, split_lt h2⟩

theorem inclusionProof_of_append (leaves more : List Digest) (h : i < leaves.length) :
    (Tree.of (leaves ++ more)).inclusionProof i leaves.length = some (path i leaves) := by
  rw [Tree.inclusionProof, if_neg, Tree.leaves_of, List.take_left]
  rw [Tree.size_of, List.length_append]
  omega

-- An inclusion proof is accepted if and only if it is the path of this leaf.
theorem verifyInclusion_iff_path (leaves : List Digest) (i : Nat) (leaf : Digest) (proof : List Digest)
    (inj : NoCollision (nodes leaves ++ climbed proof i (leaves.length - 1) leaf)) :
    (verifyInclusion leaf i leaves.length proof (rootOf leaves) ↔
      i < leaves.length ∧ leaves[i]? = some leaf ∧ proof = path i leaves) ∧
    (i < leaves.length → ∀ more,
      (Tree.of (leaves ++ more)).inclusionProof i leaves.length = some (path i leaves)) := by
  refine ⟨⟨fun h => ?_, ?_⟩, fun h more => inclusionProof_of_append leaves more h⟩
  · have ⟨hl, hp⟩ := path_of_verifyInclusion inj (fun _ => List.mem_append_left _)
      (fun _ => List.mem_append_right _) h
    exact ⟨(List.getElem?_eq_some_iff.mp hl).choose, hl, hp⟩
  · rintro ⟨-, hl, rfl⟩
    exact verifyInclusion_path hl

theorem consistencyProof_of_append (leaves more : List Digest) (h : m ≤ leaves.length) :
    (Tree.of (leaves ++ more)).consistencyProof m leaves.length =
      some (if m = 0 ∨ m = leaves.length then [] else subproof m leaves true) := by
  have hs : ¬ (leaves.length > (Tree.of (leaves ++ more)).size ∨ m > leaves.length) := by
    rw [Tree.size_of, List.length_append]
    omega
  rw [Tree.consistencyProof, if_neg hs, Tree.leaves_of, List.take_left]
  split <;> rfl

-- The proofs of a tree are accepted, and a proof that is accepted is one of the first leaves.
theorem verifyConsistency_sound_complete (leaves : List Digest) :
    (∀ more m, m ≤ leaves.length → ∃ proof,
      (Tree.of (leaves ++ more)).consistencyProof m leaves.length = some proof ∧
      verifyConsistency m leaves.length (rootOf (leaves.take m)) (rootOf leaves) proof) ∧
    (∀ m root proof,
      NoCollision (nodes leaves ++ climbedFrom m leaves.length (known m root ++ proof)) →
      verifyConsistency m leaves.length root (rootOf leaves) proof →
      m ≤ leaves.length ∧ root = rootOf (leaves.take m)) := by
  constructor
  · intro more m hm
    refine ⟨_, consistencyProof_of_append leaves more hm, ?_⟩
    by_cases hn : m = leaves.length
    · rw [if_pos (.inr hn), hn, List.take_length]
      exact verifyConsistency_self
    by_cases h0 : m = 0
    · rw [if_pos (.inl h0), h0, List.take_zero, rootOf]
      exact verifyConsistency_zero (by omega)
    · rw [if_neg (by omega)]
      exact verifyConsistency_subproof h0 (by omega)
  · intro m root proof inj h
    exact rootOf_of_verifyConsistency inj (fun _ => List.mem_append_left _)
      (fun _ => List.mem_append_right _) h

end

-- A tree of three leaves with the hashes of SHA-256.
namespace Three

def digest (n : Nat) : Digest :=
  ⟨Bytes.fixed 32 n⟩

def a : Digest := digest 0x022a6979e6dab7aa5ae4c3e5e45f7e977112a7e63593820dbec1ec738a24f93c
def b : Digest := digest 0x57eb35615d47f34ec714cacdf5fd74608a5e8e102724e80b24b287c0c27b6a31
def c : Digest := digest 0x597fcb31282d34654c200d3418fca5705c648ebf326ec73d8ddef11841f876d8
def ab : Digest := digest 0xb137985ff484fb600db93107c77b0365c80d78f5b429ded0fd97361d077999eb
def root : Digest := digest 0x36642e73c2540ab121e3a6bf9545b0a24982cd830eb13d3cd19de3ce6c021ec1

local instance : Crypto where
  sha256 data :=
    if data = 0x01 :: (a.bytes.val ++ b.bytes.val) then ab.bytes
    else if data = 0x01 :: (ab.bytes.val ++ c.bytes.val) then root.bytes
    else Bytes.fixed 32 0
  publicKey seed     := seed
  isPoint _          := true
  sign _ _           := Bytes.fixed 64 0
  verifyStrict _ _ _ := false

theorem parts_ab : Parts 0 [a] [b] where
  perfect := rfl
  bounded := le_rfl
  filled  := by simp

theorem parts_abc : Parts 1 ([a] ++ [b]) [c] where
  perfect := rfl
  bounded := by decide
  filled  := by simp

theorem node_ab : Hash.node a b = ab := by
  decide +kernel

theorem node_abc : Hash.node ab c = root := by
  decide +kernel

theorem rootOf_abc : rootOf [a, b, c] = root := by
  have h : rootOf ([a] ++ [b] ++ [c]) = root := by
    rw [parts_abc.rootOf, parts_ab.rootOf]
    simp [rootOf, node_ab, node_abc]
  exact h

theorem nodes_abc : nodes [a, b, c] = [(ab, c), (a, b)] := by
  have h : nodes ([a] ++ [b] ++ [c]) = [(ab, c), (a, b)] := by
    rw [parts_abc.nodes, parts_ab.nodes, parts_ab.rootOf]
    simp [rootOf, nodes, node_ab]
  exact h

theorem path_abc : path 2 [a, b, c] = [ab] := by
  have h : path 2 ([a] ++ [b] ++ [c]) = [ab] := by
    rw [parts_abc.path_right (by simp), parts_ab.rootOf, path_of_length (by simp)]
    simp [rootOf, node_ab]
  exact h

theorem noCollision_abc : NoCollision ([(ab, c), (a, b)] ++ [(ab, c)]) := by
  have h : ∀ p ∈ [(ab, c), (a, b)] ++ [(ab, c)], ∀ q ∈ [(ab, c), (a, b)] ++ [(ab, c)],
      nodeHash p.1 p.2 = nodeHash q.1 q.2 → p = q := by decide +kernel
  exact fun p hp q hq => h p hp q hq

-- The proof of the last leaf is the hash of the first two.
theorem verifyInclusion_last : verifyInclusion c 2 3 [ab] (rootOf [a, b, c]) := by
  have hc : climbed [ab] 2 2 c = [(ab, c)] := by simp [climbed]
  have inj : NoCollision (nodes [a, b, c] ++ climbed [ab] 2 2 c) := by
    rw [nodes_abc, hc]
    exact noCollision_abc
  exact (verifyInclusion_iff_path [a, b, c] 2 c [ab] inj).left.mpr ⟨by decide, rfl, path_abc.symm⟩

-- That of the first two is the last one, as their root is a node of the tree.
theorem verifyConsistency_two : ab = rootOf [a, b] := by
  have hk : known 2 ab ++ [c] = [ab, c] := by
    rw [known, if_pos ⟨1, rfl⟩]
    rfl
  have hs : shift 1 2 = (0, 1) := by simp [shift]
  have hc : climbedFrom 2 3 (known 2 ab ++ [c]) = [(ab, c)] := by
    rw [hk]
    simp [climbedFrom, hs, climbed]
  have inj : NoCollision (nodes [a, b, c] ++ climbedFrom 2 3 (known 2 ab ++ [c])) := by
    rw [nodes_abc, hc]
    exact noCollision_abc
  have hv : verifyConsistency 2 3 ab (rootOf [a, b, c]) [c] := by
    rw [verifyConsistency, hk, rootOf_abc]
    simp [climbFrom, hs, climbBoth, node_abc]
  exact ((verifyConsistency_sound_complete [a, b, c]).right 2 ab [c] inj hv).right

end Three
