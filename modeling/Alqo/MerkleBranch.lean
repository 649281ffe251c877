import Alqo.MerkleTree
import Mathlib.Data.Nat.Bitwise

/-!
# Merkle branches (primitives/block.cpp)

The levels of the tree stand one behind the other in `vMerkleTree`. A read past its end is `none`.
-/

namespace Alqo
open Lib.PairTree List

section
variable (Hash : Bytes → uint256)

/-- One turn of the inner loop of `BuildMerkleTree`. -/
def pushPair (j nSize : Nat) (vMerkleTree : List uint256) (i : Nat) : Option (List uint256) := do
  let i2 := min (i + 1) (nSize - 1)
  let left ← vMerkleTree[j + i]?
  let right ← vMerkleTree[j + i2]?
  return vMerkleTree ++ [pairHash Hash (left, right)]

/-- The outer loop. -/
def growMerkleTree : (turns j nSize : Nat) → List uint256 → Option (List uint256)
  | 0, _, _, vMerkleTree => some vMerkleTree
  | turns + 1, j, nSize, vMerkleTree =>
    if nSize ≤ 1 then some vMerkleTree
    else do
      let vMerkleTree ← ((List.range ((nSize + 1) / 2)).map (2 * ·)).foldlM
        (pushPair Hash j nSize) vMerkleTree
      growMerkleTree turns (j + nSize) ((nSize + 1) / 2) vMerkleTree

/-- `vMerkleTree` after `BuildMerkleTree`. -/
def CBlock.vMerkleTree (block : CBlock) : Option (List uint256) :=
  growMerkleTree Hash block.vtx.length 0 block.vtx.length (block.vtx.map CTransaction.hash)

def branchFrom (vMerkleTree : List uint256) : (turns j nSize nIndex : Nat) → Option (List uint256)
  | 0, _, _, _ => some []
  | turns + 1, j, nSize, nIndex =>
    if nSize ≤ 1 then some []
    else do
      let i := min (nIndex ^^^ 1) (nSize - 1)
      let otherside ← vMerkleTree[j + i]?
      let rest ← branchFrom vMerkleTree turns (j + nSize) ((nSize + 1) / 2) (nIndex >>> 1)
      return otherside :: rest

/- `vMerkleTree` is what an earlier call left, or empty. -/
def CBlock.getMerkleBranch (block : CBlock) (vMerkleTree : List uint256) (nIndex : Nat) :
    Option (List uint256) := do
  let vMerkleTree ← if vMerkleTree.isEmpty then block.vMerkleTree Hash else some vMerkleTree
  branchFrom vMerkleTree block.vtx.length 0 block.vtx.length nIndex

def foldBranch (hash : uint256) : List uint256 → (nIndex : Int) → uint256
  | [], _ => hash
  | otherside :: rest, nIndex =>
    let hash := if nIndex % 2 = 1 then pairHash Hash (otherside, hash)
      else pairHash Hash (hash, otherside)
    foldBranch hash rest (nIndex / 2)

def checkMerkleBranch (hash : uint256) (vMerkleBranch : List uint256) (nIndex : Int) : uint256 :=
  if nIndex = -1 then 0 else foldBranch Hash hash vMerkleBranch nIndex

end

variable {Hash : Bytes → uint256} {pre l : List uint256}

theorem getElem?_level (i : Nat) (post : List uint256) (h : i < l.length) :
    (pre ++ (l ++ post))[pre.length + i]? = l[i]? := by
  rw [getElem?_append_right (Nat.le_add_right _ _), Nat.add_sub_cancel_left,
    getElem?_append_left h]

/-- The inner loop after `k` turns. -/
theorem foldlM_pushPair (pre : List uint256) {k : Nat} (hk : k ≤ (l.length + 1) / 2) :
    ((List.range k).map (2 * ·)).foldlM (pushPair Hash pre.length l.length) (pre ++ l) =
      some (pre ++ (l ++ (above (pairHash Hash) l).take k)) := by
  induction k with
  | zero => simp
  | succ k ih =>
    have ha : 2 * k < l.length := by omega
    have hb : min (2 * k + 1) (l.length - 1) < l.length := by omega
    have hup := getElem?_above (pairHash Hash) (getElem?_eq_getElem ha)
      (getElem?_eq_getElem hb)
    rw [range_succ, map_append, foldlM_append, ih (by omega)]
    simp only [map_cons, map_nil, Option.bind_eq_bind, Option.bind_some,
      foldlM_cons, foldlM_nil, pushPair, getElem?_level _ _ ha, getElem?_level _ _ hb,
      getElem?_eq_getElem ha, getElem?_eq_getElem hb]
    simp [take_add_one, hup]

variable {turns : Nat} {a : uint256}

theorem growMerkleTree_eq (pre : List uint256) (hturns : l.length ≤ turns + 1)
    (ha : root (pairHash Hash) turns l = some a) :
    growMerkleTree Hash turns pre.length l.length (pre ++ l) =
      some (pre ++ ((levels (pairHash Hash) turns l).flatten ++ [a])) := by
  induction turns generalizing pre l with
  | zero =>
    match l, hturns with
    | [c], _ =>
      cases ha
      rfl
  | succ turns ih =>
    match l, hturns with
    | [c], _ =>
      cases ha
      rfl
    | c :: d :: rest, hturns =>
      have hnext := ih (pre ++ (c :: d :: rest)) (length_above_le (f := pairHash Hash) hturns) ha
      rw [length_above, length_append, append_assoc] at hnext
      rw [growMerkleTree, if_neg (by simp), foldlM_pushPair pre le_rfl, ← length_above (pairHash Hash),
        take_length, length_above, Option.bind_eq_bind, Option.bind_some, hnext, levels]
      simp

variable (Hash) in
/-- One step up the branch: the element and its neighbour give the element above. -/
theorem getElem?_above_branch {i : Nat} (hi : l[i]? = some a) :
    ∃ b, l[min (i ^^^ 1) (l.length - 1)]? = some b ∧ (above (pairHash Hash) l)[i / 2]? =
        some (if (i : Int) % 2 = 1 then pairHash Hash (b, a) else pairHash Hash (a, b)) := by
  have hlt : i < l.length := (List.getElem?_eq_some_iff.mp hi).1
  have hmin : min (i ^^^ 1) (l.length - 1) < l.length := by omega
  refine ⟨_, getElem?_eq_getElem hmin, ?_⟩
  rcases Nat.even_or_odd' i with ⟨k, rfl | rfl⟩
  · rw [if_neg (by omega), Nat.mul_div_cancel_left k Nat.two_pos]
    refine getElem?_above _ hi ?_
    rw [getElem?_eq_getElem (by omega)]
    simp only [Nat.xor_one_of_even (even_two_mul k)]
  · rw [if_pos (by omega), show (2 * k + 1) / 2 = k by omega]
    have hxor : min ((2 * k + 1) ^^^ 1) (l.length - 1) = 2 * k := by
      rw [Nat.xor_one_of_odd (odd_two_mul_add_one k)]
      omega
    refine getElem?_above _ ?_ ?_
    · simp only [hxor, getElem?_eq_getElem (show 2 * k < l.length by omega)]
    · rwa [min_eq_left (by omega)]

/-- Up the levels from one of them on; `root` is what stands last. -/
theorem foldBranch_branchFrom (pre : List uint256) {r : uint256} {i : Nat}
    (hturns : l.length ≤ turns + 1) (hr : root (pairHash Hash) turns l = some r)
    (hi : l[i]? = some a) :
    ∃ branch, branchFrom (pre ++ ((levels (pairHash Hash) turns l).flatten ++ [r])) turns
        pre.length l.length i = some branch ∧ foldBranch Hash a branch i = r := by
  induction turns generalizing pre l i a with
  | zero =>
    match l, hturns with
    | [c], _ =>
      cases hr
      exact ⟨[], rfl, mem_singleton.mp (mem_of_getElem? hi)⟩
  | succ turns ih =>
    match l, hturns with
    | [c], _ =>
      cases hr
      exact ⟨[], rfl, mem_singleton.mp (mem_of_getElem? hi)⟩
    | c :: d :: rest, hturns =>
      obtain ⟨b, hb, hup⟩ := getElem?_above_branch Hash hi
      obtain ⟨branch, hbranch, hfold⟩ := ih (pre ++ (c :: d :: rest))
        (length_above_le (f := pairHash Hash) hturns) hr hup
      rw [length_above, length_append, append_assoc] at hbranch
      refine ⟨b :: branch, ?_, ?_⟩
      · rw [branchFrom, if_neg (by simp), levels, flatten_cons, append_assoc]
        dsimp only
        rw [getElem?_level _ _ (List.getElem?_eq_some_iff.mp hb).1, hb, Nat.shiftRight_one,
          Option.bind_eq_bind, Option.bind_some, hbranch]
        rfl
      · exact hfold

/-- The branch of a transaction leads from its id to the merkle root, whether the
tree is built for the branch or stands there from before. -/
theorem checkMerkleBranch_getMerkleBranch (Hash : Bytes → uint256) (block : CBlock) (i : Nat)
    (tx : CTransaction) (hi : block.vtx[i]? = some tx) :
    ∃ tree branch, block.vMerkleTree Hash = some tree ∧
      tree.getLast? = some (block.buildMerkleTree Hash).1 ∧
      block.getMerkleBranch Hash [] i = some branch ∧
      block.getMerkleBranch Hash tree i = some branch ∧
      checkMerkleBranch Hash tx.hash branch i = (block.buildMerkleTree Hash).1 := by
  have hlen : (block.vtx.map CTransaction.hash).length = block.vtx.length := length_map _
  have hid : (block.vtx.map CTransaction.hash)[i]? = some tx.hash := by
    rw [getElem?_map, hi, Option.map_some]
  have hne : block.vtx.map CTransaction.hash ≠ [] := by
    intro hnil
    rw [hnil] at hid
    cases hid
  obtain ⟨r, hr⟩ := root_ne_none Hash block.vtx.length hne
  have hroot : (block.buildMerkleTree Hash).1 = r := by
    rw [CBlock.buildMerkleTree, merkleLevels_eq, hr, Option.getD_some]
  have htree := growMerkleTree_eq [] (by omega) hr
  obtain ⟨branch, hbranch, hfold⟩ := foldBranch_branchFrom [] (by omega) hr hid
  simp only [nil_append, length_nil, hlen] at htree hbranch
  refine ⟨_, branch, htree, ?_, ?_, ?_, ?_⟩
  · rw [hroot, getLast?_append, getLast?_singleton, Option.some_or]
  · simp only [CBlock.getMerkleBranch, isEmpty_nil, if_true, CBlock.vMerkleTree, htree,
      Option.bind_eq_bind, Option.bind_some, hbranch]
  · simp only [CBlock.getMerkleBranch, List.isEmpty_iff, append_eq_nil_iff, cons_ne_self,
      and_false, if_false, Option.bind_eq_bind, Option.bind_some, hbranch]
  · rw [hroot, checkMerkleBranch, if_neg (by omega), hfold]

/-- The last of three is its own neighbour. -/
theorem checkMerkleBranch_threeTxs : ∃ branch,
    threeTxs.getMerkleBranch weightedHash [] 2 = some branch ∧ branch.head? = some 3 ∧
      checkMerkleBranch weightedHash 3 branch 2 = threeTxs.hashMerkleRoot := by
  obtain ⟨tree, branch, -, -, hbranch, -, hcheck⟩ :=
    checkMerkleBranch_getMerkleBranch weightedHash threeTxs 2 (txOfId 3 ⟨7, 1⟩) rfl
  refine ⟨branch, hbranch, ?_, ?_⟩
  · have hhead : (threeTxs.getMerkleBranch weightedHash [] 2).bind List.head? = some 3 := by
      decide +kernel
    rwa [hbranch] at hhead
  · exact hcheck.trans (by decide +kernel)

end Alqo
