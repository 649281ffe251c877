import Alqo.ChainParams

/-!
# Compact targets and the work they stand for (uint256.cpp, pow.cpp, chain.cpp)

`GetBlockTrust` scales down by `2^20`, never goes below one and ignores the sign and overflow marks
of the compact form; `GetBlockProof` is `2^256 / (target + 1)`.
-/

namespace Alqo
open BitVec

structure CompactTarget where
  bnTarget : uint256
  fNegative : Bool
  fOverflow : Bool
deriving DecidableEq, Repr

def setCompact (nCompact : BitVec 32) : CompactTarget :=
  let nSize := nCompact.toNat / 2 ^ 24
  let nMantissa := nCompact.toNat % 2 ^ 23
  let nWord := if nSize ≤ 3 then nMantissa >>> (8 * (3 - nSize)) else nMantissa
  { bnTarget :=
      if nSize ≤ 3 then BitVec.ofNat 256 nWord
      else BitVec.ofNat 256 nWord <<< (8 * (nSize - 3))
    fNegative := nWord != 0 && nCompact.getLsbD 23
    fOverflow := nWord != 0 &&
      (nSize > 34 || (nWord > 0xff && nSize > 33) || (nWord > 0xffff && nSize > 32)) }

def checkProofOfWork (params : CChainParams) (hash : uint256) (nBits : BitVec 32) : Bool :=
  let c := setCompact nBits
  !(c.fNegative || c.bnTarget == 0 || c.fOverflow || decide (c.bnTarget > params.bnProofOfWorkLimit)) &&
    !decide (hash > c.bnTarget)

/- `1 << 256` is zero in 256
bits, so the proof-of-stake branch always yields zero. -/
def getBlockTrust (nBits : BitVec 32) (fProofOfStake : Bool) : uint256 :=
  let bnTarget := (setCompact nBits).bnTarget
  if bnTarget ≤ 0 then 0
  else if fProofOfStake then ((1 : uint256) <<< 256) / (bnTarget + 1)
  else
    let bnPoWTrust := (~~~(0 : uint256) >>> 20) / (bnTarget + 1)
    if bnPoWTrust > 1 then bnPoWTrust else 1

def getBlockProof (nBits : BitVec 32) : uint256 :=
  let c := setCompact nBits
  if c.fNegative || c.fOverflow || c.bnTarget == 0 then 0
  else ~~~c.bnTarget / (c.bnTarget + 1) + 1

theorem setCompact_lt (nCompact : BitVec 32) :
    (setCompact nCompact).bnTarget.toNat + 1 < 2 ^ 256 := by
  have hm : nCompact.toNat % 2 ^ 23 < 2 ^ 23 := Nat.mod_lt _ (by norm_num)
  simp only [setCompact]
  split_ifs with hsize
  · have hle : (nCompact.toNat % 2 ^ 23) >>> (8 * (3 - nCompact.toNat / 2 ^ 24)) ≤
        nCompact.toNat % 2 ^ 23 := by
      rw [Nat.shiftRight_eq_div_pow]
      exact Nat.div_le_self _ _
    rw [toNat_ofNat]
    have hmod := Nat.mod_le
      ((nCompact.toNat % 2 ^ 23) >>> (8 * (3 - nCompact.toNat / 2 ^ 24))) (2 ^ 256)
    omega
  · rw [toNat_shiftLeft, Nat.shiftLeft_eq]
    have hlt := Nat.mod_lt ((BitVec.ofNat 256 (nCompact.toNat % 2 ^ 23)).toNat *
      2 ^ (8 * (nCompact.toNat / 2 ^ 24 - 3))) (show 0 < 2 ^ 256 by norm_num)
    have heven : 2 ∣ (BitVec.ofNat 256 (nCompact.toNat % 2 ^ 23)).toNat *
        2 ^ (8 * (nCompact.toNat / 2 ^ 24 - 3)) % 2 ^ 256 := by
      rw [Nat.dvd_mod_iff (dvd_pow_self 2 (by norm_num))]
      exact dvd_mul_of_dvd_right (dvd_pow_self 2 (by omega)) _
    omega

theorem toNat_add_one (t : uint256) (h : t.toNat + 1 < 2 ^ 256) : (t + 1).toNat = t.toNat + 1 := by
  rw [toNat_add]
  exact Nat.mod_eq_of_lt h

theorem toNat_proof (t : uint256) (h0 : 0 < t.toNat) (h : t.toNat + 1 < 2 ^ 256) :
    (~~~t / (t + 1) + 1).toNat = 2 ^ 256 / (t.toNat + 1) := by
  have hquot : (2 ^ 256 - 1 - t.toNat) / (t.toNat + 1) + 1 = 2 ^ 256 / (t.toNat + 1) := by
    rw [← Nat.add_div_right _ (Nat.succ_pos t.toNat)]
    congr 1
    omega
  have hsmall : 2 ^ 256 / (t.toNat + 1) < 2 ^ 256 := Nat.div_lt_self (by norm_num) (by omega)
  rw [toNat_add, toNat_udiv, toNat_not, toNat_add_one t h]
  rw [show (1 : uint256).toNat = 1 from rfl, hquot]
  exact Nat.mod_eq_of_lt hsmall

theorem toNat_trust (nBits : BitVec 32) (h0 : 0 < (setCompact nBits).bnTarget.toNat) :
    (getBlockTrust nBits false).toNat =
      max 1 ((2 ^ 236 - 1) / ((setCompact nBits).bnTarget.toNat + 1)) := by
  have hlt := setCompact_lt nBits
  have hnum : (~~~(0 : uint256) >>> 20).toNat = 2 ^ 236 - 1 := by decide
  have hle : ¬ (setCompact nBits).bnTarget ≤ 0 := by
    rw [le_def, show (0 : uint256).toNat = 0 from rfl]
    omega
  unfold getBlockTrust
  simp only [hle, if_false, Bool.false_eq_true, lt_def, gt_iff_lt]
  have hval : (~~~(0 : uint256) >>> 20 / ((setCompact nBits).bnTarget + 1)).toNat =
      (2 ^ 236 - 1) / ((setCompact nBits).bnTarget.toNat + 1) := by
    rw [toNat_udiv, hnum, toNat_add_one _ hlt]
  rw [show (1 : uint256).toNat = 1 from rfl, hval]
  split_ifs with h
  · rw [hval]
    omega
  · rw [show (1 : uint256).toNat = 1 from rfl]
    omega

/-- The target is zero, or it is a plain non-negative number of `2^255` or more. -/
def WorkAgrees (nBits : BitVec 32) : Prop :=
  (setCompact nBits).bnTarget = 0 ∨
    ((setCompact nBits).fNegative = false ∧ (setCompact nBits).fOverflow = false ∧
      2 ^ 255 ≤ (setCompact nBits).bnTarget.toNat)

instance (nBits : BitVec 32) : Decidable (WorkAgrees nBits) :=
  inferInstanceAs (Decidable (_ ∨ _))

theorem div_eq_max_iff (t : Nat) (h : t + 1 < 2 ^ 256) :
    max 1 ((2 ^ 236 - 1) / (t + 1)) = 2 ^ 256 / (t + 1) ↔ 2 ^ 255 ≤ t := by
  constructor
  · intro heq
    by_contra hlt
    have htwo : 2 ≤ 2 ^ 256 / (t + 1) := by
      rw [Nat.le_div_iff_mul_le (Nat.succ_pos t)]
      omega
    -- the smaller numerator would have to give the same quotient, 2^20 times too large
    have hk : (2 ^ 236 - 1) / (t + 1) = 2 ^ 256 / (t + 1) := by omega
    have hmul : (2 ^ 236 - 1) / (t + 1) * (t + 1) ≤ 2 ^ 236 - 1 := Nat.div_mul_le_self _ _
    have hscaled : 2 ^ 20 * ((2 ^ 236 - 1) / (t + 1)) ≤ 2 ^ 256 / (t + 1) := by
      rw [Nat.le_div_iff_mul_le (by omega : 0 < t + 1), Nat.mul_assoc]
      omega
    omega
  · intro hlo
    have hone : 2 ^ 256 / (t + 1) = 1 := by
      apply Nat.div_eq_of_lt_le
      · omega
      · omega
    have hzero : (2 ^ 236 - 1) / (t + 1) = 0 := Nat.div_eq_of_lt (by omega)
    rw [hone, hzero]
    rfl

theorem getBlockTrust_eq_getBlockProof_iff (nBits : BitVec 32) :
    getBlockTrust nBits false = getBlockProof nBits ↔ WorkAgrees nBits := by
  unfold WorkAgrees
  by_cases h0 : (setCompact nBits).bnTarget = 0
  · simp [getBlockTrust, getBlockProof, h0]
  · have hpos : 0 < (setCompact nBits).bnTarget.toNat := by
      rw [Nat.pos_iff_ne_zero]
      intro hz
      exact h0 (eq_of_toNat_eq hz)
    have hlt := setCompact_lt nBits
    have htrust := toNat_trust nBits hpos
    simp only [h0, false_or]
    have hone : 1 ≤ (getBlockTrust nBits false).toNat := by omega
    unfold getBlockProof
    cases hneg : (setCompact nBits).fNegative with
    | true =>
      simp only [hneg, Bool.true_or, if_true, Bool.true_eq_false, false_and, iff_false]
      intro hz
      simp [hz] at hone
    | false =>
      cases hovf : (setCompact nBits).fOverflow with
      | true =>
        simp only [hneg, hovf, Bool.or_true, Bool.true_or, if_true, Bool.true_eq_false, false_and,
          and_false, iff_false]
        intro hz
        simp [hz] at hone
      | false =>
        have hne : ((setCompact nBits).bnTarget == 0) = false := beq_eq_false_iff_ne.mpr h0
        simp only [hneg, hovf, hne, Bool.or_false, Bool.false_eq_true, if_false, true_and]
        rw [← toNat_inj, htrust, toNat_proof _ hpos hlt]
        exact div_eq_max_iff _ hlt

end Alqo
