import Alqo.MintBound

/-!
# The supply schedule (main.cpp)

`ConnectBlock` asks `GetBlockValue` for the height of the parent, so block 162 is the last of the
large ones.
-/

namespace Alqo
open Lib.FixedSum List

/-- A block that a synced node without superblocks weighs,
with its fees in range. -/
structure MintTurn where
  node : Node
  block : CBlock
  /-- `pindex->pprev` -/
  pprev : CBlockIndex
  nFees : CAmount
  synced : node.synced = true
  noSuperblocks : node.sporkActive .enableSuperblocks = false
  hasTip : node.tip.isNone = false
  fits : (getBlockValue pprev.nHeight).toInt + nFees.toInt < 2 ^ 63

namespace MintTurn

variable (t : MintTurn)

/-- The check of `nMint` against `nExpectedMint`. -/
def allows (nMint : CAmount) : Bool :=
  isBlockValueValid t.node.params t.node.toPaymentState t.node.toChainState t.block.hashPrevBlock
    (expectedMint t.block t.pprev.nHeight t.nFees) nMint

/-- What is new of `nMint`: a proof-of-work block takes its fees over. -/
def newCoins (nMint : CAmount) : Int :=
  nMint.toInt - if t.block.isProofOfWork then t.nFees.toInt else 0

theorem connectBlockBody_amount_iff {hash : uint256} {pindex : CBlockIndex} {view : CoinsView}
    {fJustCheck : Bool} {s : ConnectState}
    (hs : connectVtx t.node (decide (pindex.nHeight ≥ t.node.totalBlocksEstimate)) pindex.nHeight
      t.block.vtx { view := view } = .ok s)
    (hfees : s.nFees = t.nFees) :
    connectBlockBody t.node t.block hash pindex t.pprev view fJustCheck = dos 100 "bad-cb-amount" ↔
      t.allows (pindex.minted t.pprev.nMoneySupply s).nMint = false := by
  simp only [connectBlockBody, hs, allows, ← hfees]
  cases isBlockValueValid t.node.params t.node.toPaymentState t.node.toChainState
      t.block.hashPrevBlock (expectedMint t.block t.pprev.nHeight s.nFees)
      (pindex.minted t.pprev.nMoneySupply s).nMint with
  | false => simp
  | true =>
    simp only [Bool.not_true, Bool.false_eq_true, if_false, Bool.true_eq_false, iff_false]
    split_ifs
    · simp [dos]
    · simp [dos]
    · simp [dos]

theorem allows_iff (nMint : CAmount) :
    t.allows nMint = true ↔ t.newCoins nMint ≤ (getBlockValue t.pprev.nHeight).toInt := by
  have hlow := Int64.le_toInt t.nFees
  have hvalue := getBlockValue_nonneg t.pprev.nHeight
  have hlimit : (expectedMint t.block t.pprev.nHeight t.nFees).toInt =
      (getBlockValue t.pprev.nHeight).toInt + if t.block.isProofOfWork then t.nFees.toInt else 0 := by
    unfold expectedMint
    split_ifs
    · exact toInt_of_tracks (tracks_add (tracks_self _) (tracks_self _)) (by omega) t.fits
    · omega
  have hcheck : t.allows nMint = decide (nMint ≤ expectedMint t.block t.pprev.nHeight t.nFees) := by
    simp only [allows, isBlockValueValid, t.hasTip, t.synced, t.noSuperblocks, Bool.not_true,
      Bool.not_false, Bool.false_eq_true, if_true, if_false]
  rw [hcheck, decide_eq_true_iff, Int64.le_iff_toInt_le, hlimit, newCoins]
  omega

theorem exists_allowed :
    ∃ nMint, t.allows nMint = true ∧ t.newCoins nMint = (getBlockValue t.pprev.nHeight).toInt := by
  have hlow := Int64.le_toInt t.nFees
  have hvalue := getBlockValue_nonneg t.pprev.nHeight
  have hnew : t.newCoins (expectedMint t.block t.pprev.nHeight t.nFees) =
      (getBlockValue t.pprev.nHeight).toInt := by
    unfold newCoins expectedMint
    split_ifs
    · rw [toInt_of_tracks (tracks_add (tracks_self _) (tracks_self _)) (by omega) t.fits]
      omega
    · omega
  exact ⟨_, (t.allows_iff _).mpr hnew.le, hnew⟩

end MintTurn

inductive MintTotal : List MintTurn → Int → Prop where
  | nil : MintTotal [] 0
  | cons {t : MintTurn} {rest : List MintTurn} {nMint : CAmount} {total : Int} :
      t.allows nMint = true → MintTotal rest total → MintTotal (t :: rest) (t.newCoins nMint + total)

theorem isGreatest_mintTotal (turns : List MintTurn) : IsGreatest {total | MintTotal turns total}
      (turns.map fun t => (getBlockValue t.pprev.nHeight).toInt).sum := by
  induction turns with
  | nil =>
    refine ⟨.nil, ?_⟩
    intro total h
    cases h
    exact le_rfl
  | cons t rest ih =>
    obtain ⟨hattained, hbound⟩ := ih
    rw [map_cons, sum_cons]
    refine ⟨?_, ?_⟩
    · obtain ⟨nMint, hallowed, hnew⟩ := t.exists_allowed
      exact hnew ▸ MintTotal.cons hallowed hattained
    · intro total h
      cases h with
      | cons hallowed hrest =>
        have hfirst := (t.allows_iff _).mp hallowed
        have hlast := hbound hrest
        omega

theorem sum_getBlockValue (n : Nat) :
    ((List.range (162 + n)).map fun nHeight => (getBlockValue nHeight).toInt).sum =
      (81000000 + 5 * n) * COIN.toInt := by
  induction n with
  | zero => decide +kernel
  | succ n ih =>
    have hsmall : (getBlockValue (162 + n)).toInt = 5 * COIN.toInt := by
      rw [getBlockValue, if_neg (by omega)]
      decide
    rw [← Nat.add_assoc, range_succ, map_append, sum_append, ih]
    simp only [map_cons, map_nil, sum_cons, sum_nil, hsmall]
    push_cast
    ring

/-- Blocks 1 to `H` may mint 80.5 million coins and 5 for each block from 162 on
if and only if there is no such block; block 162 may mint 499995 coins too many. -/
theorem mintSchedule_iff (H : Nat) (hH : 161 ≤ H) (turns : List MintTurn)
    (hheights : turns.map (fun t => t.pprev.nHeight) = List.range H) :
    IsGreatest {total | MintTotal turns total}
      ((80500000 + 5 * ((H - 161 : Nat) : Int)) * COIN.toInt) ↔ H = 161 := by
  have hcoin : COIN.toInt = 100000000 := by decide
  have hgreatest := isGreatest_mintTotal turns
  have hsum : (turns.map fun t => (getBlockValue t.pprev.nHeight).toInt) =
      (List.range H).map fun nHeight => (getBlockValue nHeight).toInt := by
    rw [← hheights, map_map]
    rfl
  rw [hsum] at hgreatest
  rcases Nat.lt_or_eq_of_le hH with hlt | rfl
  · obtain ⟨n, rfl⟩ : ∃ n, H = 162 + n := ⟨H - 162, by omega⟩
    rw [sum_getBlockValue] at hgreatest
    refine ⟨fun h => ?_, fun h => ?_⟩
    · have heq := h.unique hgreatest
      rw [hcoin] at heq
      omega
    · omega
  · refine iff_of_true ?_ rfl
    have hfirst : ((List.range 161).map fun nHeight => (getBlockValue nHeight).toInt).sum =
        (80500000 + 5 * ((161 - 161 : Nat) : Int)) * COIN.toInt := by decide +kernel
    exact hfirst ▸ hgreatest

/-- A block of no transactions on a parent at some height, as the node of
`Node.afterFirst` weighs it. -/
def turnAt (nHeight : Nat) : MintTurn where
  node := Node.afterFirst
  block := { secondHeader with vtx := [] }
  pprev := { nHeight := nHeight }
  nFees := 0
  synced := rfl
  noSuperblocks := rfl
  hasTip := by decide +kernel
  fits := by
    show (getBlockValue nHeight).toInt + (0 : Int) < 2 ^ 63
    unfold getBlockValue
    split_ifs
    · decide
    · decide

theorem heights_turnAt (H : Nat) :
    ((List.range H).map turnAt).map (fun t => t.pprev.nHeight) = List.range H := by
  rw [map_map]
  exact map_id _

theorem mintSchedule_chainswap : IsGreatest {total | MintTotal ((List.range 161).map turnAt) total}
      ((80500000 + 5 * ((161 - 161 : Nat) : Int)) * COIN.toInt) :=
  (mintSchedule_iff 161 le_rfl _ (heights_turnAt 161)).mpr rfl

/-- With block 162 the total is 81 million coins instead of 80500005. -/
theorem block162_mintsTooMuch :
    IsGreatest {total | MintTotal ((List.range 162).map turnAt) total} (81000000 * COIN.toInt) ∧
      ¬ IsGreatest {total | MintTotal ((List.range 162).map turnAt) total}
        ((80500000 + 5 * ((162 - 161 : Nat) : Int)) * COIN.toInt) := by
  have hgreatest := isGreatest_mintTotal ((List.range 162).map turnAt)
  have hsum : (((List.range 162).map turnAt).map fun t => (getBlockValue t.pprev.nHeight).toInt).sum =
      81000000 * COIN.toInt := by
    rw [map_map]
    exact sum_getBlockValue 0
  rw [hsum] at hgreatest
  refine ⟨hgreatest, fun h => ?_⟩
  have heq := h.unique hgreatest
  revert heq
  decide

end Alqo
