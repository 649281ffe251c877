import Alqo.Kernel

/-!
# The weight of a stake (kernel.cpp, chainparams.cpp)

Money range, stake ages and target limits of the networks do not keep the product in 64 bits or the
one in 256 bits in range.
-/

namespace Alqo
open Lib.FixedSum

structure StakeParams (params : CChainParams) : Prop where
  ages : params.nStakeMinAge ≤ params.nStakeMaxAge ∧
    params.nStakeMaxAge - params.nStakeMinAge ≤ 2588400
  money : params.nMaxMoneyOut.toInt ≤ 2100000000000000

theorem Network.stakeParams (network : Network) : StakeParams network.params := by
  cases network with
  | main => exact ⟨by decide, by decide⟩
  | testnet => exact ⟨by decide, by decide⟩
  | regtest => exact ⟨by decide, by decide⟩
  | unittest => exact ⟨by decide, by decide⟩

namespace StakeNode.StakedOutput

/-- What the kernel hash is compared with. -/
def kernelBound (params : CChainParams) (staked : StakedOutput) (nTimeTx : Nat)
    (bnTargetPerCoinDay : uint256) : uint256 :=
  staked.coinDayWeight params nTimeTx * bnTargetPerCoinDay

def age (staked : StakedOutput) (nTimeTx : Nat) : Int := (nTimeTx : Int) - staked.blockFrom.nTime

section Exact

variable {params : CChainParams} (hparams : StakeParams params) {staked : StakedOutput}
  {nTimeTx : Nat}

include hparams in
theorem timeWeight_bounds (hage : 0 ≤ staked.age nTimeTx) :
    0 ≤ staked.timeWeight params nTimeTx ∧ staked.timeWeight params nTimeTx ≤ 2588400 := by
  have hages := hparams.ages
  unfold timeWeight
  unfold age at hage
  omega

theorem exactWeight_eq (params : CChainParams) (staked : StakedOutput) (nTimeTx : Nat) :
    staked.exactWeight params nTimeTx =
      staked.out.nValue.toInt * staked.timeWeight params nTimeTx / 20000000000 := by
  have hcoin : COIN.toInt = 100000000 := by decide
  rw [exactWeight, hcoin, Int.ediv_ediv_of_nonneg (by decide)]
  rfl

theorem toInt_weight (a : Int64) :
    (a / COIN / 200).toInt = if 0 ≤ a.toInt then a.toInt / 20000000000
      else -(-a.toInt / 20000000000) := by
  have hcoin : COIN.toInt = 100000000 := by decide
  have hdays : (200 : Int64).toInt = 200 := by decide
  have hlow := a.le_toInt
  have hhigh := a.toInt_lt
  split_ifs with hsign
  · have hone : (a / COIN).toInt = a.toInt / 100000000 := by
      rw [toInt_div_of_nonneg a COIN hsign (by decide), hcoin]
    rw [toInt_div_of_nonneg _ 200 (by omega) (by decide), hone, hdays]
    omega
  · have hone : (a / COIN).toInt = -(-a.toInt / 100000000) := by
      have htdiv : a.toInt.tdiv 100000000 = -(-a.toInt / 100000000) := by
        rw [← Int.neg_neg a.toInt, Int.neg_tdiv, Int.neg_neg, Int.tdiv_eq_ediv_of_nonneg (by omega)]
      rw [Int64.toInt_div, hcoin, htdiv]
      exact Int.bmod_eq_of_le (by omega) (by omega)
    have htwo : (-(-a.toInt / 100000000)).tdiv 200 = -(-a.toInt / 100000000 / 200) := by
      rw [Int.neg_tdiv, Int.tdiv_eq_ediv_of_nonneg (by omega)]
    rw [Int64.toInt_div, hone, hdays, htwo, Int.bmod_eq_of_le (by omega) (by omega)]
    omega

theorem toNat_toBitVec_neg (a : Int64) (ha : a.toInt < 0) :
    (a.toBitVec.toNat : Int) = a.toInt + 2 ^ 64 := by
  have h : a.toInt = a.toBitVec.toInt := rfl
  have hlt := a.toBitVec.isLt
  rw [h, BitVec.toInt_eq_toNat_bmod, Int.bmod_def] at ha ⊢
  split at ha <;> split <;> omega

include hparams in
theorem coinDayWeight_wraps (hage : 0 ≤ staked.age nTimeTx)
    (hmoney : staked.out.nValue.toInt ≤ params.nMaxMoneyOut.toInt)
    (hwrap : 2 ^ 63 ≤ staked.out.nValue.toInt * staked.timeWeight params nTimeTx) :
    ((staked.coinDayWeight params nTimeTx).toNat : Int) ≠ staked.exactWeight params nTimeTx := by
  have hweight := timeWeight_bounds hparams hage
  have hmax : staked.out.nValue.toInt * staked.timeWeight params nTimeTx ≤
      2100000000000000 * 2588400 :=
    Int.mul_le_mul (le_trans hmoney hparams.money) hweight.2 hweight.1 (by decide)
  have htracks : Tracks (staked.out.nValue * Int64.ofInt (staked.timeWeight params nTimeTx)) _ :=
    tracks_mul (tracks_self staked.out.nValue) rfl
  obtain ⟨m, hm⟩ := tracks_congr htracks
  rw [exactWeight_eq]
  unfold coinDayWeight
  rw [BitVec.toNat_setWidth_of_le (by norm_num)]
  have hquot := toInt_weight (staked.out.nValue * Int64.ofInt (staked.timeWeight params nTimeTx))
  have hlow := (staked.out.nValue * Int64.ofInt (staked.timeWeight params nTimeTx)).le_toInt
  have hhigh := (staked.out.nValue * Int64.ofInt (staked.timeWeight params nTimeTx)).toInt_lt
  generalize staked.out.nValue * Int64.ofInt (staked.timeWeight params nTimeTx) = product at *
  generalize staked.out.nValue.toInt * staked.timeWeight params nTimeTx = exact at *
  by_cases hsign : 0 ≤ (product / COIN / 200).toInt
  · rw [toNat_toBitVec _ hsign, hquot]
    split_ifs with hproduct
    · omega
    · omega
  · rw [toNat_toBitVec_neg _ (by omega), hquot]
    split_ifs with hproduct
    · omega
    · omega

include hparams in
theorem coinDayWeight_exact_iff (hage : 0 ≤ staked.age nTimeTx)
    (hvalue : 0 ≤ staked.out.nValue.toInt)
    (hmoney : staked.out.nValue.toInt ≤ params.nMaxMoneyOut.toInt) :
    ((staked.coinDayWeight params nTimeTx).toNat : Int) = staked.exactWeight params nTimeTx ↔
      staked.out.nValue.toInt * staked.timeWeight params nTimeTx < 2 ^ 63 := by
  constructor
  · intro hexact
    by_contra hwrap
    exact coinDayWeight_wraps hparams hage hmoney (by omega) hexact
  · exact staked.toNat_coinDayWeight_of_lt params nTimeTx hvalue (timeWeight_bounds hparams hage).1

/- A larger and older stake has the larger exact weight. -/
include hparams in
theorem exactWeight_mono {smaller : StakedOutput} {nTimeTx' : Nat}
    (hage : 0 ≤ smaller.age nTimeTx') (hvalue : 0 ≤ smaller.out.nValue.toInt)
    (holder : smaller.age nTimeTx' ≤ staked.age nTimeTx)
    (hlarger : smaller.out.nValue.toInt ≤ staked.out.nValue.toInt) :
    smaller.out.nValue.toInt * smaller.timeWeight params nTimeTx' ≤
      staked.out.nValue.toInt * staked.timeWeight params nTimeTx := by
  have hweight := (timeWeight_bounds hparams hage).1
  have hlonger : smaller.timeWeight params nTimeTx' ≤ staked.timeWeight params nTimeTx := by
    unfold timeWeight
    unfold age at holder
    omega
  exact Int.mul_le_mul hlarger hlonger hweight (by omega)

end Exact

structure BoundExact (params : CChainParams) (staked : StakedOutput) (nTimeTx : Nat)
    (bnTargetPerCoinDay : uint256) : Prop where
  weight : ((staked.coinDayWeight params nTimeTx).toNat : Int) = staked.exactWeight params nTimeTx
  bound : ((staked.kernelBound params nTimeTx bnTargetPerCoinDay).toNat : Int) =
    staked.exactWeight params nTimeTx * bnTargetPerCoinDay.toNat
  monotone : ∀ (smaller : StakedOutput) (nTimeTx' : Nat), 0 ≤ smaller.age nTimeTx' →
    0 ≤ smaller.out.nValue.toInt → smaller.age nTimeTx' ≤ staked.age nTimeTx →
    smaller.out.nValue.toInt ≤ staked.out.nValue.toInt →
    smaller.kernelBound params nTimeTx' bnTargetPerCoinDay ≤
      staked.kernelBound params nTimeTx bnTargetPerCoinDay

theorem toNat_kernelBound {params : CChainParams} {staked : StakedOutput} {nTimeTx : Nat}
    {target : uint256}
    (hweight : ((staked.coinDayWeight params nTimeTx).toNat : Int) =
      staked.exactWeight params nTimeTx) :
    ((staked.kernelBound params nTimeTx target).toNat : Int) =
        staked.exactWeight params nTimeTx * target.toNat ↔
      staked.exactWeight params nTimeTx * target.toNat < 2 ^ 256 := by
  have hmul : (staked.kernelBound params nTimeTx target).toNat =
      (staked.coinDayWeight params nTimeTx).toNat * target.toNat % 2 ^ 256 := BitVec.toNat_mul ..
  have hcast : staked.exactWeight params nTimeTx * target.toNat =
      (((staked.coinDayWeight params nTimeTx).toNat * target.toNat : Nat) : Int) := by
    rw [← hweight]
    push_cast
    ring
  rw [hmul, hcast]
  generalize (staked.coinDayWeight params nTimeTx).toNat * target.toNat = product
  omega

theorem boundExact_iff (network : Network) (staked : StakedOutput) (nTimeTx : Nat)
    (bnTargetPerCoinDay : uint256) (hage : 0 ≤ staked.age nTimeTx)
    (hvalue : 0 ≤ staked.out.nValue.toInt)
    (hmoney : staked.out.nValue.toInt ≤ network.params.nMaxMoneyOut.toInt) :
    staked.BoundExact network.params nTimeTx bnTargetPerCoinDay ↔
      staked.out.nValue.toInt * staked.timeWeight network.params nTimeTx < 2 ^ 63 ∧
      staked.exactWeight network.params nTimeTx * bnTargetPerCoinDay.toNat < 2 ^ 256 := by
  have hparams := network.stakeParams
  constructor
  · intro h
    exact ⟨(coinDayWeight_exact_iff hparams hage hvalue hmoney).mp h.weight,
      (toNat_kernelBound h.weight).mp h.bound⟩
  · intro h
    have hweight := (coinDayWeight_exact_iff hparams hage hvalue hmoney).mpr h.1
    have hbound := (toNat_kernelBound hweight).mpr h.2
    refine ⟨hweight, hbound, ?_⟩
    intro smaller nTimeTx' hage' hvalue' holder hlarger
    -- the smaller stake stays in range as well, so both bounds are exact
    have hproduct := exactWeight_mono hparams hage' hvalue' holder hlarger
    have hweight' := smaller.toNat_coinDayWeight_of_lt network.params nTimeTx' hvalue'
      (timeWeight_bounds hparams hage').1 (by omega)
    have hless : smaller.exactWeight network.params nTimeTx' * bnTargetPerCoinDay.toNat ≤
        staked.exactWeight network.params nTimeTx * bnTargetPerCoinDay.toNat := by
      apply Int.mul_le_mul_of_nonneg_right _ (Int.natCast_nonneg _)
      rw [exactWeight_eq, exactWeight_eq]
      exact Int.ediv_le_ediv (by decide) hproduct
    have hbound' := (toNat_kernelBound hweight').mpr (lt_of_le_of_lt hless h.2)
    rw [BitVec.le_def]
    omega

def thousandCoins : StakedOutput := ⟨⟨1, 0⟩, ⟨1000 * COIN, [], -10⟩, youngBlock⟩

theorem boundExact_thousandCoins :
    thousandCoins.BoundExact Network.main.params 7200 (setCompact 0x1e0ffff0#32).bnTarget :=
  (boundExact_iff .main thousandCoins 7200 (setCompact 0x1e0ffff0#32).bnTarget (by decide)
    (by decide) (by decide)).mpr ⟨by decide, by decide⟩

/-- At the proof-of-stake limit 1025 coins have a smaller bound than 1024, and at the full
age 72000 coins have a smaller weight than 35000. -/
theorem kernelBound_decreases :
    (setCompact 0x1f01ffff#32).bnTarget = Network.main.params.bnProofOfStakeLimit ∧
    StakedOutput.kernelBound Network.main.params ⟨⟨1, 0⟩, ⟨1025 * COIN, [], -10⟩, youngBlock⟩ 6400
        (setCompact 0x1f01ffff#32).bnTarget <
      StakedOutput.kernelBound Network.main.params ⟨⟨1, 0⟩, ⟨1024 * COIN, [], -10⟩, youngBlock⟩
        6400 (setCompact 0x1f01ffff#32).bnTarget ∧
    StakedOutput.coinDayWeight Network.main.params
        ⟨⟨1, 0⟩, ⟨72000 * COIN, [], -10⟩, youngBlock⟩ 2588400 <
      StakedOutput.coinDayWeight Network.main.params
        ⟨⟨1, 0⟩, ⟨35000 * COIN, [], -10⟩, youngBlock⟩ 2588400 := by
  decide +kernel

end StakeNode.StakedOutput

end Alqo
