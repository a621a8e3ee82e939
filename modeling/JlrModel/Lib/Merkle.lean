import Mathlib.Algebra.Group.Nat.Defs
import Mathlib.Data.Set.Function
import Mathlib.Order.Basic

-- Merkle trees over the hashes of a list of leaves, where a tree splits at the largest power of two
-- that is smaller than the number of its leaves.

namespace Merkle

-- How two subtrees are combined, and what stands for no tree at all.
class Hash (δ : Type) where
  node  : δ → δ → δ
  empty : δ

-- The largest power of two that is strictly smaller than `n`, which is at least two.
def split (n : Nat) : Nat :=
  2 ^ Nat.log2 (n - 1)

theorem split_pos : 0 < split n :=
  Nat.two_pow_pos _

theorem split_lt (h : 2 ≤ n) : split n < n := by
  have := Nat.log2_self_le (n := n - 1) (by omega)
  unfold split
  omega

theorem split_eq (h₁ : 2 ^ k < n) (h₂ : n ≤ 2 ^ (k + 1)) : split n = 2 ^ k := by
  have hn : n - 1 ≠ 0 := by have := Nat.two_pow_pos k; omega
  have hk : Nat.log2 (n - 1) = k := (Nat.log2_eq_iff hn).mpr (by omega)
  rw [split, hk]

theorem length_take_lt {leaves : List α} (h : 2 ≤ leaves.length) :
    (leaves.take (split leaves.length)).length < leaves.length := by
  have := split_lt h
  rw [List.length_take]
  omega

theorem length_drop_lt {leaves : List α} (h : 2 ≤ leaves.length) :
    (leaves.drop (split leaves.length)).length < leaves.length := by
  have := split_pos (n := leaves.length)
  rw [List.length_drop]
  omega

theorem ne_nil_of_length {segment : List α} (h : segment.length = 2 ^ k) : segment ≠ [] :=
  List.length_pos_iff.mp (h ▸ Nat.two_pow_pos k)

variable {δ : Type} [Hash δ]

def rootOf : List δ → δ
  | []                 => Hash.empty
  | [leaf]             => leaf
  | leaf :: next :: ls =>
    let leaves := leaf :: next :: ls
    let k      := split leaves.length
    Hash.node (rootOf (leaves.take k)) (rootOf (leaves.drop k))
termination_by leaves => leaves.length
decreasing_by
  · exact length_take_lt (by simp)
  · exact length_drop_lt (by simp)

theorem rootOf_node {leaves : List δ} (h : 2 ≤ leaves.length) :
    rootOf leaves = Hash.node (rootOf (leaves.take (split leaves.length)))
      (rootOf (leaves.drop (split leaves.length))) := by
  match leaves, h with
  | _ :: _ :: _, _ => rw [rootOf]

-- A perfect subtree on the left is combined with whatever is not larger on the right.
theorem rootOf_append {left right : List δ} (hl : left.length = 2 ^ k) (hr : right.length ≤ 2 ^ k)
    (hn : right ≠ []) : rootOf (left ++ right) = Hash.node (rootOf left) (rootOf right) := by
  have hp := List.length_pos_iff.mpr hn
  have hk := Nat.two_pow_pos k
  have hs : split (left ++ right).length = left.length := by
    rw [List.length_append, hl]
    apply split_eq <;> omega
  rw [rootOf_node (by rw [List.length_append]; omega), hs, List.take_left, List.drop_left]

-- The pairs that are hashed for a root.
def nodes : List δ → List (δ × δ)
  | []                 => []
  | [_]                => []
  | leaf :: next :: ls =>
    let leaves := leaf :: next :: ls
    let k      := split leaves.length
    (rootOf (leaves.take k), rootOf (leaves.drop k)) ::
      (nodes (leaves.take k) ++ nodes (leaves.drop k))
termination_by leaves => leaves.length
decreasing_by
  · exact length_take_lt (by simp)
  · exact length_drop_lt (by simp)

theorem nodes_node {leaves : List δ} (h : 2 ≤ leaves.length) :
    nodes leaves =
      (rootOf (leaves.take (split leaves.length)), rootOf (leaves.drop (split leaves.length))) ::
      (nodes (leaves.take (split leaves.length)) ++ nodes (leaves.drop (split leaves.length))) := by
  match leaves, h with
  | _ :: _ :: _, _ => rw [nodes]

theorem nodes_pair {a b : δ} : nodes [a, b] = [(a, b)] := by
  have hl : [a, b].length = 2 := rfl
  have hs : split 2 = 1 := split_eq (k := 0) (by decide) (by decide)
  rw [nodes_node hl.ge, hl, hs]
  simp [nodes, rootOf]

-- Without a collision among the pairs that are hashed, a root determines its leaves.
theorem rootOf_inj {S : Set (δ × δ)} (inj : Set.InjOn (fun p => Hash.node p.1 p.2) S)
    {leaves leaves' : List δ} (hl : leaves.length = leaves'.length)
    (hs : ∀ p ∈ nodes leaves, p ∈ S) (hs' : ∀ p ∈ nodes leaves', p ∈ S)
    (h : rootOf leaves = rootOf leaves') : leaves = leaves' := by
  -- By induction on the size, as the halves of a tree are not its tail.
  induction hn : leaves.length using Nat.strong_induction_on generalizing leaves leaves'
  case h n ih =>
  by_cases h2 : 2 ≤ n
  · have hb : 2 ≤ leaves.length := hn ▸ h2
    have hb' : 2 ≤ leaves'.length := hl ▸ hb
    rw [nodes_node hb] at hs
    rw [nodes_node hb', ← hl] at hs'
    rw [rootOf_node hb, rootOf_node hb', ← hl] at h
    simp only [List.mem_cons, List.mem_append, forall_eq_or_imp] at hs hs'
    have hr := Prod.ext_iff.mp (inj hs.left hs'.left h)
    have ht := ih _ (hn ▸ length_take_lt hb) (by simp [hl])
      (fun p hp => hs.right p (.inl hp)) (fun p hp => hs'.right p (.inl hp)) hr.left rfl
    have hd := ih _ (hn ▸ length_drop_lt hb) (by simp [hl])
      (fun p hp => hs.right p (.inr hp)) (fun p hp => hs'.right p (.inr hp)) hr.right rfl
    rw [← List.take_append_drop (split leaves.length) leaves, ht, hd, List.take_append_drop]
  · match leaves, leaves', hl with
    | [], [], _     => rfl
    | [a], [b], _   => simpa [rootOf] using h
    | _ :: _ :: _, _, _ => simp at hn; omega

-- A tree that grows leaf by leaf. There is a root for each number of leaves, and a peak with its height
-- for each perfect subtree, the smallest and last one first.
structure Tree (δ : Type) where
  leaves : List δ
  roots  : List δ
  peaks  : List (Nat × δ)
  deriving DecidableEq

namespace Tree

def new : Tree δ :=
  { leaves := [], roots := [], peaks := [] }

def size (t : Tree δ) : Nat :=
  t.leaves.length

-- Adds a subtree to the peaks, and combines it with those of its own height.
def merge : List (Nat × δ) → (height : Nat) → (hash : δ) → List (Nat × δ)
  | [], height, hash => [(height, hash)]
  | (h, left) :: peaks, height, hash =>
    if h ≠ height then
      (height, hash) :: (h, left) :: peaks
    else
      merge peaks (height + 1) (Hash.node left hash)

def bag : List (Nat × δ) → δ
  | []                => Hash.empty
  | (_, acc) :: peaks => peaks.foldl (fun acc p => Hash.node p.2 acc) acc

def root (t : Tree δ) : δ :=
  bag t.peaks

def push (t : Tree δ) (leaf : δ) : Tree δ :=
  let peaks := merge t.peaks 0 leaf
  { leaves := t.leaves ++ [leaf], roots := t.roots ++ [bag peaks], peaks }

def rootAt (t : Tree δ) (size : Nat) : Option δ :=
  if size = 0 then
    some Hash.empty
  else if size ≤ t.size then
    t.roots[size - 1]?
  else
    none

-- The tree after all of the leaves were pushed.
def of (leaves : List δ) : Tree δ :=
  leaves.foldl push new

theorem of_append {leaves leaves' : List δ} : of (leaves ++ leaves') = leaves'.foldl push (of leaves) :=
  List.foldl_append

theorem of_concat {leaves : List δ} {leaf : δ} : of (leaves ++ [leaf]) = (of leaves).push leaf :=
  of_append

-- The peaks are the roots of perfect subtrees that cover the leaves and get larger to the left.
inductive Peaks : List δ → List (Nat × δ) → Prop
  | nil  : Peaks [] []
  | cons {ls segment ps} : Peaks ls ps → segment.length = 2 ^ h → (∀ p ∈ ps, h < p.1) →
      Peaks (ls ++ segment) ((h, rootOf segment) :: ps)

variable {leaves segment : List δ} {peaks : List (Nat × δ)}

theorem Peaks.merge (p : Peaks leaves peaks) (hs : segment.length = 2 ^ height)
    (hh : ∀ p ∈ peaks, height ≤ p.1) :
    Peaks (leaves ++ segment) (merge peaks height (rootOf segment)) := by
  induction p generalizing segment height
  case nil => exact .cons .nil hs (by simp)
  case cons h leaves s peaks p hl hp ih =>
    have hle : height ≤ h := hh _ List.mem_cons_self
    unfold Tree.merge
    split
    case isTrue hne =>
      refine .cons (.cons p hl hp) hs fun q hq => ?_
      obtain rfl | hq := List.mem_cons.mp hq
      · exact lt_of_le_of_ne hle hne.symm
      · exact hle.trans_lt (hp q hq)
    case isFalse he =>
      have he := not_not.mp he
      subst he
      rw [List.append_assoc, ← rootOf_append hl hs.le (ne_nil_of_length hs)]
      exact ih (by rw [List.length_append, hl, hs, Nat.pow_succ]; omega) hp

theorem Peaks.foldl_eq (p : Peaks leaves peaks) (hn : segment ≠ [])
    (hs : ∀ p ∈ peaks, segment.length ≤ 2 ^ p.1) :
    peaks.foldl (fun acc p => Hash.node p.2 acc) (rootOf segment) = rootOf (leaves ++ segment) := by
  induction p generalizing segment
  case nil => rfl
  case cons h leaves s peaks p hl hp ih =>
    have hle := hs _ List.mem_cons_self
    rw [List.foldl_cons, ← rootOf_append hl hle hn, List.append_assoc]
    apply ih (by simp [hn])
    intro q hq
    have hh : 2 ^ (h + 1) ≤ 2 ^ q.1 := Nat.pow_le_pow_right Nat.two_pos (hp q hq)
    have hw := Nat.pow_succ (n := 2) (m := h)
    rw [List.length_append, hl]
    dsimp only at hle
    omega

theorem Peaks.bag_eq (p : Peaks leaves peaks) : bag peaks = rootOf leaves := by
  cases p
  case nil => rw [bag, rootOf]
  case cons p hl hp =>
    apply p.foldl_eq (ne_nil_of_length hl)
    intro q hq
    exact hl ▸ Nat.pow_le_pow_right Nat.two_pos (hp q hq).le

-- A push whose counter of the height must not reach a limit.
def mergeBelow (limit : Nat) : List (Nat × δ) → (height : Nat) → (hash : δ) → Option (List (Nat × δ))
  | [], height, hash => some [(height, hash)]
  | (h, left) :: peaks, height, hash =>
    if h ≠ height then
      some <| (height, hash) :: (h, left) :: peaks
    else if height + 1 < limit then
      mergeBelow limit peaks (height + 1) (Hash.node left hash)
    else
      none

def pushBelow (limit : Nat) (t : Tree δ) (leaf : δ) : Option (Tree δ) := do
  let peaks ← mergeBelow limit t.peaks 0 leaf
  return { leaves := t.leaves ++ [leaf], roots := t.roots ++ [bag peaks], peaks }

-- A subtree of the height that is counted has been filled with leaves.
theorem Peaks.mergeBelow (p : Peaks leaves peaks) (hs : segment.length = 2 ^ height)
    (hl : (leaves ++ segment).length < 2 ^ limit) :
    mergeBelow limit peaks height (rootOf segment) = some (Tree.merge peaks height (rootOf segment)) := by
  induction p generalizing segment height
  case nil => rfl
  case cons h leaves s peaks p hs' hp ih =>
    unfold Tree.mergeBelow Tree.merge
    split
    case isTrue => rfl
    case isFalse he =>
      have he := not_not.mp he
      subst he
      have hs'' : (s ++ segment).length = 2 ^ (h + 1) := by
        rw [List.length_append, hs', hs, Nat.pow_succ]
        omega
      rw [List.append_assoc] at hl
      have hlt : h + 1 < limit := by
        apply (Nat.pow_lt_pow_iff_right Nat.one_lt_two).mp
        rw [List.length_append] at hl
        omega
      rw [if_pos hlt, ← rootOf_append hs' hs.le (ne_nil_of_length hs)]
      exact ih hs'' hl

structure Valid (t : Tree δ) : Prop where
  peaks : Peaks t.leaves t.peaks
  roots : t.roots = (List.range t.size).map fun n => rootOf (t.leaves.take (n + 1))

theorem Valid.new : Valid (δ := δ) new where
  peaks := .nil
  roots := rfl

theorem Valid.push {t : Tree δ} (v : t.Valid) (leaf : δ) : (t.push leaf).Valid := by
  have hp : Peaks (t.leaves ++ [leaf]) (Tree.merge t.peaks 0 leaf) := by
    have h := @Peaks.merge δ _ t.leaves [leaf] t.peaks 0 v.peaks rfl (by simp)
    rwa [rootOf] at h
  refine { peaks := hp, roots := ?_ }
  simp only [Tree.push, size, List.length_append, List.length_singleton, List.range_succ,
    List.map_append, List.map_singleton, hp.bag_eq, v.roots]
  congr 1
  · apply List.map_congr_left
    intro n hn
    rw [List.take_append_of_le_length (List.mem_range.mp hn)]
  · rw [List.take_of_length_le (by simp)]

theorem valid_foldl {t : Tree δ} (v : t.Valid) (ls : List δ) : (ls.foldl Tree.push t).Valid := by
  induction ls generalizing t
  case nil => exact v
  case cons leaf ls ih => exact ih (v.push leaf)

theorem leaves_foldl {t : Tree δ} {ls : List δ} : (ls.foldl push t).leaves = t.leaves ++ ls := by
  induction ls generalizing t
  case nil => simp
  case cons leaf ls ih => simp [ih, push]

theorem valid_of : (of leaves).Valid :=
  valid_foldl .new leaves

@[simp]
theorem leaves_of : (of leaves).leaves = leaves :=
  leaves_foldl

@[simp]
theorem size_of : (of leaves).size = leaves.length := by
  simp [size]

theorem root_of : (of leaves).root = rootOf leaves := by
  rw [root, valid_of.peaks.bag_eq, leaves_of]

theorem rootAt_of {n : Nat} :
    (of leaves).rootAt n = if n ≤ leaves.length then some (rootOf (leaves.take n)) else none := by
  rw [rootAt, valid_of.roots, size_of, leaves_of]
  by_cases h0 : n = 0
  · simp [h0, rootOf]
  · rw [if_neg h0]
    split
    case isFalse => rfl
    case isTrue hn =>
      rw [List.getElem?_map, List.getElem?_range (by omega), Option.map_some, Nat.sub_add_cancel (by omega)]

theorem length_roots_of : (of leaves).roots.length = leaves.length := by
  rw [valid_of.roots, List.length_map, List.length_range, size_of]

-- The height stays below the number of digits of the size.
theorem Valid.pushBelow {t : Tree δ} (v : t.Valid) (h : (t.leaves ++ [leaf]).length < 2 ^ limit) :
    t.pushBelow limit leaf = some (t.push leaf) := by
  have hm := @Peaks.mergeBelow δ _ t.leaves [leaf] t.peaks 0 limit v.peaks rfl h
  rw [rootOf] at hm
  simp [Tree.pushBelow, Tree.push, hm]

theorem foldlM_pushBelow {t : Tree δ} (v : t.Valid) (h : (t.leaves ++ ls).length < 2 ^ limit) :
    ls.foldlM (pushBelow limit) t = some (ls.foldl push t) := by
  induction ls generalizing t
  case nil => rfl
  case cons leaf ls ih =>
    have hl : (t.leaves ++ [leaf]).length < 2 ^ limit := by
      simp only [List.length_append, List.length_cons, List.length_nil] at h ⊢
      omega
    rw [List.foldlM_cons, v.pushBelow hl]
    apply ih (v.push leaf)
    rwa [push, List.append_assoc]

theorem foldlM_pushBelow_new (h : leaves.length < 2 ^ limit) :
    leaves.foldlM (pushBelow limit) new = some (of leaves) :=
  foldlM_pushBelow .new h

theorem rootAt_size : (of leaves).rootAt leaves.length = some (of leaves).root := by
  rw [rootAt_of, if_pos le_rfl, List.take_length, root_of]

-- The roots of a tree stay where they are while it grows.
theorem rootAt_of_append {more : List δ} {n : Nat} {r : δ} (h : (of leaves).rootAt n = some r) :
    (of (leaves ++ more)).rootAt n = some r := by
  rw [rootAt_of] at h ⊢
  split at h
  case isTrue hn =>
    rw [List.length_append, if_pos (hn.trans (Nat.le_add_right _ _)), List.take_append_of_le_length hn, h]
  case isFalse => contradiction

end Tree

end Merkle
