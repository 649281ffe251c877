import Alqo.ConnectBlock
import Alqo.Lib.PairTree

/-!
# What a merkle root binds (primitives/block.cpp, main.cpp)

A list is reported as mutated if some level ends in two equal hashes; of the lists with one root at
most one is not reported. The empty list has the zero hash for its root.
-/

namespace Alqo
open Lib.PairTree List

/-- The hash of two neighbours. -/
def pairHash (Hash : Bytes → uint256) (p : uint256 × uint256) : uint256 :=
  Hash (leBytes 32 p.1.toNat ++ leBytes 32 p.2.toNat)

def hashedPairs (Hash : Bytes → uint256) (ids : List uint256) : List (uint256 × uint256) :=
  combined (pairHash Hash) ids.length ids

/-- Over what is hashed for two lists the pair hash is injective, and none of the
ids is the hash of a pair. -/
structure CollisionFree (Hash : Bytes → uint256) (ids ids' : List uint256) : Prop where
  injective : ∀ p ∈ hashedPairs Hash ids ++ hashedPairs Hash ids',
    ∀ q ∈ hashedPairs Hash ids ++ hashedPairs Hash ids', pairHash Hash p = pairHash Hash q → p = q
  noInner : ∀ id ∈ ids ++ ids', ∀ p ∈ hashedPairs Hash ids ++ hashedPairs Hash ids',
    id ≠ pairHash Hash p

variable {Hash : Bytes → uint256} {ids : List uint256}

theorem merkleLevel_eq (level : List uint256) :
    merkleLevel Hash level = (above (pairHash Hash) level, repeatsLast level) := by
  induction level using pairs.induct with
  | case1 => rfl
  | case2 a => rfl
  | case3 a b rest ih =>
    cases rest with
    | nil => rfl
    | cons c rest => simp only [merkleLevel, ih, above, pairs, map_cons, repeatsLast, pairHash]

theorem merkleLevels_eq (fuel : Nat) (level : List uint256) :
    merkleLevels Hash fuel level = ((root (pairHash Hash) fuel level).getD 0,
      (levels (pairHash Hash) fuel level).any repeatsLast) := by
  induction fuel generalizing level with
  | zero =>
    match level with
    | [] | [_] | _ :: _ :: _ => rfl
  | succ fuel ih =>
    match level with
    | [] | [_] => rfl
    | a :: b :: rest =>
      simp only [merkleLevels, merkleLevel_eq, ih, root, levels, any_cons]

theorem root_ne_none (Hash : Bytes → uint256) (fuel : Nat) (h : ids ≠ []) :
    ∃ a, root (pairHash Hash) fuel ids = some a := by
  induction fuel generalizing ids with
  | zero =>
    match ids, h with
    | [a], _ => exact ⟨a, rfl⟩
    | a :: _ :: _, _ => exact ⟨a, rfl⟩
  | succ fuel ih =>
    match ids, h with
    | [a], _ => exact ⟨a, rfl⟩
    | a :: b :: rest, h => exact ih (above_ne_nil (pairHash Hash) h)

theorem unrepeated_of_unmutated {fuel : Nat} (h : (merkleLevels Hash fuel ids).2 = false) :
    Unrepeated (pairHash Hash) fuel ids := by
  intro t ht
  rw [merkleLevels_eq, any_eq_false] at h
  exact Bool.eq_false_iff.mpr (h t ht)

theorem ids_eq_of_unmutated {ids' : List uint256} (hfree : CollisionFree Hash ids ids')
    (hne : ids ≠ []) (hne' : ids' ≠ [])
    (hroot : (merkleLevels Hash ids.length ids).1 = (merkleLevels Hash ids'.length ids').1)
    (hum : (merkleLevels Hash ids.length ids).2 = false)
    (hum' : (merkleLevels Hash ids'.length ids').2 = false) : ids = ids' := by
  obtain ⟨a, ha⟩ := root_ne_none Hash ids.length hne
  obtain ⟨a', ha'⟩ := root_ne_none Hash ids'.length hne'
  rw [merkleLevels_eq, merkleLevels_eq, ha, ha'] at hroot
  cases (hroot : a = a')
  refine eq_of_root_eq (s := {p | p ∈ hashedPairs Hash ids ++ hashedPairs Hash ids'})
    (fun p hp q hq => hfree.injective p hp q hq) (Nat.le_succ _) (Nat.le_succ _) ha ha'
    (unrepeated_of_unmutated hum) (unrepeated_of_unmutated hum')
    (fun p hp => mem_append_left _ hp) (fun p hp => mem_append_right _ hp) ?_
  intro x hx p hp
  exact hfree.noInner x (mem_append.mpr hx) p hp

theorem passed_of_ok {c : Prop} [Decidable c] {nDoS : Nat} {reason : String} {corrupt : Bool}
    {rest : Unit → Except Failure Unit} {u : Unit}
    (h : (if c then dos nDoS reason corrupt >>= rest else rest ()) = .ok u) :
    ¬ c ∧ rest () = .ok u := by
  by_cases hc : c
  · rw [if_pos hc] at h
    cases h
  · rw [if_neg hc] at h
    exact ⟨hc, h⟩

theorem merkle_of_checkBlock {node : Node} {block : CBlock} {fCheckPOW : Bool}
    {history : PaymentHistory} (h : checkBlock Hash node block fCheckPOW true = .ok history) :
    block.vtx ≠ [] ∧ block.hashMerkleRoot = (block.buildMerkleTree Hash).1 ∧
      (block.buildMerkleTree Hash).2 = false := by
  obtain ⟨u, hform, -⟩ := Lib.Fallible.bind_ok_iff.mp h
  dsimp only [checkBlockForm] at hform
  obtain ⟨-, hform⟩ := passed_of_ok hform
  obtain ⟨-, hform⟩ := passed_of_ok hform
  rw [if_pos rfl] at hform
  obtain ⟨hroot, hform⟩ := passed_of_ok hform
  obtain ⟨hmutated, hform⟩ := passed_of_ok hform
  split_ifs at hform with hsize
  · cases hform
  simp only [Bool.or_eq_true, not_or, List.isEmpty_iff] at hsize
  exact ⟨hsize.1.1, not_not.mp hroot, Bool.eq_false_iff.mpr hmutated⟩

/-- Of two different lists of ids with one root, neither of them empty, one is reported;
so one header has one list of ids that `CheckBlock` accepts. -/
theorem merkleRoot_binds (Hash : Bytes → uint256) (block block' : CBlock)
    (hne : block.vtx.map CTransaction.hash ≠ block'.vtx.map CTransaction.hash)
    (hfree : CollisionFree Hash (block.vtx.map CTransaction.hash)
      (block'.vtx.map CTransaction.hash)) :
    (block.vtx ≠ [] → block'.vtx ≠ [] →
      (block.buildMerkleTree Hash).1 = (block'.buildMerkleTree Hash).1 →
      (block.buildMerkleTree Hash).2 = true ∨ (block'.buildMerkleTree Hash).2 = true) ∧
    (block.toCBlockHeader = block'.toCBlockHeader →
      ∀ (node node' : Node) (fCheckPOW fCheckPOW' : Bool) (history history' : PaymentHistory),
        checkBlock Hash node block fCheckPOW true = .ok history →
        checkBlock Hash node' block' fCheckPOW' true ≠ .ok history') := by
  have hbinds : block.vtx ≠ [] → block'.vtx ≠ [] →
      (block.buildMerkleTree Hash).1 = (block'.buildMerkleTree Hash).1 →
      (block.buildMerkleTree Hash).2 = false → (block'.buildMerkleTree Hash).2 ≠ false := by
    intro hvtx hvtx' hroot hum hum'
    simp only [CBlock.buildMerkleTree] at hroot hum hum'
    have hlen : ∀ vtx : List CTransaction, vtx.length = (vtx.map CTransaction.hash).length :=
      fun vtx => (length_map CTransaction.hash).symm
    rw [hlen block.vtx] at hroot hum
    rw [hlen block'.vtx] at hroot hum'
    exact hne (ids_eq_of_unmutated hfree (map_eq_nil_iff.not.mpr hvtx)
      (map_eq_nil_iff.not.mpr hvtx') hroot hum hum')
  refine ⟨?_, ?_⟩
  · intro hvtx hvtx' hroot
    cases hum : (block.buildMerkleTree Hash).2 with
    | true => exact .inl rfl
    | false => exact .inr (Bool.eq_true_of_not_eq_false (hbinds hvtx hvtx' hroot hum))
  · intro hheader node node' fCheckPOW fCheckPOW' history history' h h'
    obtain ⟨hvtx, hroot, hum⟩ := merkle_of_checkBlock h
    obtain ⟨hvtx', hroot', hum'⟩ := merkle_of_checkBlock h'
    refine hbinds hvtx hvtx' ?_ hum hum'
    rw [← hroot, ← hroot', hheader]

def txOfId (id : uint256) (prevout : COutPoint) : CTransaction where
  hash := id
  vin := [{ prevout := prevout, scriptSig := [0x52, 0x00] }]
  vout := []

def weightedHash (bytes : Bytes) : uint256 :=
  bytes.foldl (fun n b => n * 257 + BitVec.ofNat 256 b.toNat) 1

def threeTxs : CBlock :=
  { firstHeader with
    hashMerkleRoot := pairHash weightedHash (pairHash weightedHash (1, 2), pairHash weightedHash (3, 3))
    vtx := [txOfId 1 COutPoint.null, txOfId 2 ⟨7, 0⟩, txOfId 3 ⟨7, 1⟩] }

def lastTwice : CBlock := { threeTxs with vtx := threeTxs.vtx ++ [txOfId 3 ⟨7, 1⟩] }

theorem collisionFree_threeTxs : CollisionFree weightedHash
    (threeTxs.vtx.map CTransaction.hash) (lastTwice.vtx.map CTransaction.hash) where
  injective := by
    have h : ((hashedPairs weightedHash [1, 2, 3] ++ hashedPairs weightedHash [1, 2, 3, 3]).all
        fun p => (hashedPairs weightedHash [1, 2, 3] ++ hashedPairs weightedHash [1, 2, 3, 3]).all
          fun q => pairHash weightedHash p != pairHash weightedHash q || p == q) = true := by
      decide +kernel
    intro p hp q hq he
    simpa [he] using all_eq_true.mp (all_eq_true.mp h p hp) q hq
  noInner := by
    have h : (([1, 2, 3] ++ [1, 2, 3, 3] : List uint256).all
        fun id => (hashedPairs weightedHash [1, 2, 3] ++ hashedPairs weightedHash [1, 2, 3, 3]).all
          fun p => id != pairHash weightedHash p) = true := by
      decide +kernel
    intro id hid p hp
    simpa using all_eq_true.mp (all_eq_true.mp h id hid) p hp

theorem lastTwice_mutated : checkBlock weightedHash Node.afterFirst threeTxs false true = .ok [] ∧
      (lastTwice.buildMerkleTree weightedHash).2 = true ∧
      ∀ history, checkBlock weightedHash Node.afterFirst lastTwice false true ≠ .ok history := by
  have hok : checkBlock weightedHash Node.afterFirst threeTxs false true = .ok [] := by
    decide +kernel
  have hbinds := merkleRoot_binds weightedHash threeTxs lastTwice (by decide) collisionFree_threeTxs
  refine ⟨hok, ?_, ?_⟩
  · have hroot : (threeTxs.buildMerkleTree weightedHash).1 =
        (lastTwice.buildMerkleTree weightedHash).1 := by decide +kernel
    have hum : (threeTxs.buildMerkleTree weightedHash).2 = false := by decide +kernel
    rcases hbinds.1 (by decide) (by decide) hroot with h | h
    · rw [hum] at h
      cases h
    · exact h
  · intro history
    exact hbinds.2 rfl _ _ _ _ _ _ hok

/-- The list of one zero id has the root of the empty list. -/
theorem emptyBlock_unmutated :
    let empty : CBlock := { firstHeader with vtx := [] }
    let zero : CBlock := { firstHeader with vtx := [txOfId 0 COutPoint.null] }
    empty.vtx.map CTransaction.hash ≠ zero.vtx.map CTransaction.hash ∧
      CollisionFree weightedHash (empty.vtx.map CTransaction.hash)
        (zero.vtx.map CTransaction.hash) ∧
      empty.buildMerkleTree weightedHash = zero.buildMerkleTree weightedHash ∧
      (empty.buildMerkleTree weightedHash).2 = false := by
  refine ⟨by decide, ⟨?_, ?_⟩, rfl, rfl⟩
  · intro p hp
    cases hp
  · intro id _ p hp
    cases hp

end Alqo
