import Alqo.NextWork

/-!
# Bounds of the next target (pow.cpp, chainparams.cpp)

The loop in exact integers. With the parameters of every network the machine loop computes exactly
these, and the target is within the rounding of the weighted average.
-/

namespace Alqo
open List

def clampedTime (previousTimestamp time : Int) : Int :=
  if time > previousTimestamp then time else previousTimestamp + 1

/-- The clamped solve times of blocks with these times, after a block with time
`previousTimestamp`. -/
def solveTimes (T : Int) : Int → List Int → List Int
  | _, [] => []
  | previousTimestamp, time :: rest =>
    min (6 * T) (clampedTime previousTimestamp time - previousTimestamp) ::
      solveTimes T (clampedTime previousTimestamp time) rest

def weightedSum : Int → List Int → Int
  | _, [] => 0
  | j, x :: rest => x * (j + 1) + weightedSum (j + 1) rest

def CBlockIndex.target (block : CBlockIndex) : Nat := (setCompact block.nBits).bnTarget.toNat

def scaledSum (divisor : Nat) (blocks : List CBlockIndex) : Nat :=
  (blocks.map fun block => block.target / divisor).sum

def targetSum (blocks : List CBlockIndex) : Nat := (blocks.map CBlockIndex.target).sum

variable {T M : Int} {params : CChainParams} {limit : Nat}

theorem solveTimes_bounds (hT : 0 < T) (times : List Int) (previousTimestamp : Int) :
    ∀ x ∈ solveTimes T previousTimestamp times, 1 ≤ x ∧ x ≤ 6 * T := by
  induction times generalizing previousTimestamp with
  | nil => simp [solveTimes]
  | cons time rest ih =>
    intro x hx
    simp only [solveTimes, mem_cons] at hx
    rcases hx with hx | hx
    · rw [hx]
      have hclamped : previousTimestamp < clampedTime previousTimestamp time := by
        unfold clampedTime
        split_ifs
        · omega
        · omega
      omega
    · exact ih _ x hx

theorem length_solveTimes (T : Int) (times : List Int) (previousTimestamp : Int) :
    (solveTimes T previousTimestamp times).length = times.length := by
  induction times generalizing previousTimestamp with
  | nil => rfl
  | cons time rest ih => simp [solveTimes, ih]

theorem weightedSum_bounds (l : List Int) (h : ∀ x ∈ l, 1 ≤ x ∧ x ≤ M) (j : Int) (hj : 0 ≤ j) :
    (l.length : Int) ≤ weightedSum j l ∧
      2 * weightedSum j l ≤ M * (l.length * (2 * j + l.length + 1)) := by
  induction l generalizing j with
  | nil => simp [weightedSum]
  | cons x rest ih =>
    obtain ⟨hone, hmax⟩ := h x (mem_cons_self ..)
    obtain ⟨hlow, hhigh⟩ := ih (fun y hy => h y (mem_cons_of_mem _ hy)) (j + 1) (by omega)
    have hpos : 1 * (j + 1) ≤ x * (j + 1) := Int.mul_le_mul_of_nonneg_right hone (by omega)
    have hmul : x * (j + 1) ≤ M * (j + 1) := Int.mul_le_mul_of_nonneg_right hmax (by omega)
    simp only [weightedSum, length_cons, Nat.cast_add, Nat.cast_one]
    refine ⟨by omega, ?_⟩
    calc 2 * (x * (j + 1) + weightedSum (j + 1) rest)
        ≤ 2 * (M * (j + 1)) + M * (rest.length * (2 * (j + 1) + rest.length + 1)) := by omega
      _ = M * ((rest.length + 1) * (2 * j + (rest.length + 1) + 1)) := by ring

theorem scaledSum_bounds {divisor : Nat} (hd : 0 < divisor) (blocks : List CBlockIndex) :
    divisor * scaledSum divisor blocks ≤ targetSum blocks ∧
      targetSum blocks + blocks.length ≤ divisor * (scaledSum divisor blocks + blocks.length) := by
  induction blocks with
  | nil => simp [scaledSum, targetSum]
  | cons block rest ih =>
    have hlow := Nat.mul_div_le block.target divisor
    have hhigh := Nat.lt_mul_div_succ block.target hd
    simp only [scaledSum, targetSum, map_cons, sum_cons, length_cons] at ih ⊢
    simp only [Nat.mul_add, Nat.mul_one] at ih hhigh ⊢
    omega

theorem targetSum_le (blocks : List CBlockIndex) (h : ∀ block ∈ blocks, block.target ≤ limit) :
    targetSum blocks ≤ blocks.length * limit := by
  have hle := sum_le_card_nsmul (blocks.map CBlockIndex.target) limit
    (List.forall_mem_map.mpr h)
  rwa [length_map, nsmul_eq_mul] at hle

theorem toNat_ofInt64 {z : Int} (hlo : 0 ≤ z) (hhi : z < 2 ^ 63) : (ofInt64 z).toNat = z.toNat := by
  unfold ofInt64
  rw [Int.emod_eq_of_lt hlo (by omega), BitVec.toNat_ofNat]
  apply Nat.mod_eq_of_lt
  omega

theorem lwmaK_eq (hT : 0 < T ∧ T < 2 ^ 32) : lwmaK T = some (325 * T) := by
  have hone : int64 (lwmaN + 1) = some 26 := rfl
  have htwo : int64 (lwmaN * 26) = some 650 := rfl
  have hthree : int64 (650 * T) = some (650 * T) := int64_eq (by omega) (by omega)
  have hdiv : (650 * T).tdiv 2 = 325 * T := by
    rw [Int.tdiv_eq_ediv_of_nonneg (by omega)]
    omega
  have hfour : int64 (325 * T) = some (325 * T) := int64_eq (by omega) (by omega)
  simp only [lwmaK, hone, Option.bind_eq_bind, Option.bind_some, htwo, hthree, hdiv, hfour]

/- What the loop keeps: nothing has come near an overflow after `j` blocks. -/
structure LwmaState.InRange (T : Int) (limit : Nat) (s : LwmaState) : Prop where
  timestamp : 0 ≤ s.previousTimestamp ∧ s.previousTimestamp ≤ 2 ^ 32 + s.j
  j : 0 ≤ s.j
  t : 0 ≤ s.t ∧ s.t ≤ 6 * T * 25 * s.j
  sumTarget : s.sumTarget.toNat ≤ s.j.toNat * limit

/- One turn with exact integers in place of the `int64_t`s. -/
def lwmaTurn (T : Int) (s : LwmaState) (block : CBlockIndex) : LwmaState where
  previousTimestamp := clampedTime s.previousTimestamp block.nTime
  t := s.t + min (6 * T) (clampedTime s.previousTimestamp block.nTime - s.previousTimestamp) *
    (s.j + 1)
  j := s.j + 1
  sumTarget := s.sumTarget + (setCompact block.nBits).bnTarget / ofInt64 (8125 * T)

section Turn

variable {block : CBlockIndex} {s : LwmaState} (hT : 0 < T ∧ T < 2 ^ 32)
  (hs : s.InRange T limit) (hj : s.j < 25) (htime : block.nTime < 2 ^ 32)
  (hlimit : 26 * limit < 2 ^ 256) (htarget : block.target ≤ limit)

include hs htime in
theorem clampedTime_bounds :
    s.previousTimestamp < clampedTime s.previousTimestamp block.nTime ∧
      clampedTime s.previousTimestamp block.nTime ≤ 2 ^ 32 + (s.j + 1) := by
  have hprev := hs.timestamp
  have hj := hs.j
  unfold clampedTime
  split_ifs
  · omega
  · omega

include hT hs hj htime in
theorem clampedWeight_bounds :
    0 ≤ min (6 * T) (clampedTime s.previousTimestamp block.nTime - s.previousTimestamp) *
        (s.j + 1) ∧
      min (6 * T) (clampedTime s.previousTimestamp block.nTime - s.previousTimestamp) *
        (s.j + 1) ≤ 6 * T * 25 := by
  have hclamped := (clampedTime_bounds hs htime).1
  have hj0 := hs.j
  constructor
  · apply Int.mul_nonneg
    · omega
    · omega
  · apply Int.mul_le_mul
    · omega
    · omega
    · omega
    · omega

include hT in
theorem toNat_divisor : (ofInt64 (8125 * T)).toNat = 8125 * T.toNat := by
  rw [toNat_ofInt64 (by omega) (by omega)]
  omega

include hT hs hj htime in
theorem lwmaRound_eq : lwmaRound T (325 * T) block s = some (lwmaTurn T s block) := by
  have hprev := hs.timestamp
  have hj0 := hs.j
  have ht := hs.t
  have hweight := clampedWeight_bounds hT hs hj htime
  obtain ⟨hclamped, hnext⟩ := clampedTime_bounds hs htime
  have hstamp : (if (block.nTime : Int) > s.previousTimestamp then some (block.nTime : Int)
      else int64 (s.previousTimestamp + 1)) =
      some (clampedTime s.previousTimestamp block.nTime) := by
    unfold clampedTime
    split_ifs
    · rfl
    · exact int64_eq (by omega) (by omega)
  have htmax : 6 * T * 25 * s.j ≤ 6 * T * 25 * 25 :=
    Int.mul_le_mul_of_nonneg_left (by omega) (by omega)
  have hslowest : int64 (6 * T) = some (6 * T) := int64_eq (by omega) (by omega)
  have hcount : int64 (s.j + 1) = some (s.j + 1) := int64_eq (by omega) (by omega)
  have hfull : 325 * T * lwmaN = 8125 * T := by
    unfold lwmaN
    ring
  have hdivisor : int64 (8125 * T) = some (8125 * T) := int64_eq (by omega) (by omega)
  have hnonzero : ofInt64 (8125 * T) ≠ 0 := by
    intro hzero
    have hnat := toNat_divisor hT
    rw [hzero] at hnat
    change 0 = 8125 * T.toNat at hnat
    omega
  unfold lwmaTurn
  generalize clampedTime s.previousTimestamp block.nTime = this at *
  have helapsed : int64 (this - s.previousTimestamp) = some (this - s.previousTimestamp) :=
    int64_eq (by omega) (by omega)
  generalize hweighted : min (6 * T) (this - s.previousTimestamp) * (s.j + 1) = weighted at *
  have hproduct : int64 weighted = some weighted := int64_eq (by omega) (by omega)
  have htotal : int64 (s.t + weighted) = some (s.t + weighted) := int64_eq (by omega) (by omega)
  simp only [lwmaRound, hstamp, Option.bind_eq_bind, Option.bind_some, hslowest, helapsed,
    hcount, hweighted, hproduct, htotal, hfull, hdivisor, if_neg hnonzero]

include hT hs hj hlimit htarget in
theorem toNat_sumTarget_lwmaTurn :
    (lwmaTurn T s block).sumTarget.toNat = s.sumTarget.toNat + block.target / (8125 * T.toNat) := by
  have hquot : ((setCompact block.nBits).bnTarget / ofInt64 (8125 * T)).toNat =
      block.target / (8125 * T.toNat) := by
    rw [BitVec.toNat_udiv, toNat_divisor hT]
    rfl
  have hquotle : block.target / (8125 * T.toNat) ≤ limit :=
    le_trans (Nat.div_le_self _ _) htarget
  have hsumle : s.sumTarget.toNat ≤ 25 * limit :=
    le_trans hs.sumTarget (Nat.mul_le_mul_right _ (by omega))
  change (s.sumTarget + (setCompact block.nBits).bnTarget / ofInt64 (8125 * T)).toNat = _
  rw [BitVec.toNat_add, hquot]
  apply Nat.mod_eq_of_lt
  omega

include hT hs hj htime hlimit htarget in
theorem lwmaTurn_inRange : (lwmaTurn T s block).InRange T limit := by
  have hsum := toNat_sumTarget_lwmaTurn hT hs hj hlimit htarget
  have hweight := clampedWeight_bounds hT hs hj htime
  obtain ⟨hclamped, hnext⟩ := clampedTime_bounds hs htime
  obtain ⟨hprev, hj0, ht, hold⟩ := hs
  constructor
  · exact ⟨by change 0 ≤ clampedTime _ _; omega, hnext⟩
  · change 0 ≤ s.j + 1
    omega
  · have hexpand : 6 * T * 25 * (s.j + 1) = 6 * T * 25 * s.j + 6 * T * 25 := by ring
    simp only [lwmaTurn]
    omega
  · have hquotle : block.target / (8125 * T.toNat) ≤ limit :=
      le_trans (Nat.div_le_self _ _) htarget
    have hcount : (lwmaTurn T s block).j.toNat = s.j.toNat + 1 := by
      change (s.j + 1).toNat = _
      omega
    rw [hsum, hcount, Nat.add_mul, Nat.one_mul]
    omega

end Turn

theorem lwmaRun_spec (hT : 0 < T ∧ T < 2 ^ 32) (hlimit : 26 * limit < 2 ^ 256)
    (blocks : List CBlockIndex)
    (hblocks : ∀ block ∈ blocks, block.nTime < 2 ^ 32 ∧ block.target ≤ limit) (s : LwmaState)
    (hs : s.InRange T limit) (hj : s.j + blocks.length ≤ 25) :
    ∃ s', blocks.foldlM (fun s block => lwmaRound T (325 * T) block s) s = some s' ∧
      s'.t = s.t + weightedSum s.j
        (solveTimes T s.previousTimestamp (blocks.map fun block => (block.nTime : Int))) ∧
      s'.sumTarget.toNat = s.sumTarget.toNat + scaledSum (8125 * T.toNat) blocks := by
  induction blocks generalizing s with
  | nil => exact ⟨s, rfl, by simp [solveTimes, weightedSum], by simp [scaledSum]⟩
  | cons block rest ih =>
    simp only [length_cons, Nat.cast_add, Nat.cast_one] at hj
    obtain ⟨htime, htarget⟩ := hblocks block (mem_cons_self ..)
    have hturn := lwmaTurn_inRange hT hs (by omega) htime hlimit htarget
    have hsum := toNat_sumTarget_lwmaTurn hT hs (by omega) hlimit htarget
    obtain ⟨s', hrun, ht, htotal⟩ := ih (fun b hb => hblocks b (mem_cons_of_mem _ hb))
      (lwmaTurn T s block) hturn (by change s.j + 1 + _ ≤ 25; omega)
    refine ⟨s', ?_, ?_, ?_⟩
    · rw [foldlM_cons, lwmaRound_eq hT hs (by omega) htime]
      exact hrun
    · rw [ht]
      simp only [lwmaTurn, map_cons, solveTimes, weightedSum]
      ring
    · rw [htotal, hsum]
      simp only [scaledSum, map_cons, sum_cons]
      omega

/-- `nBits` of the block does not exceed the limits. -/
def WithinLimits (params : CChainParams) (block : CBlockIndex) : Prop :=
  (setCompact block.nBits).bnTarget ≤ params.bnProofOfWorkLimit ∨
    (setCompact block.nBits).bnTarget ≤ params.bnProofOfStakeLimit

def targetLimit (params : CChainParams) : Nat :=
  max params.bnProofOfWorkLimit.toNat params.bnProofOfStakeLimit.toNat

/-- What the parameters have to be for the loop to be exact. -/
structure ExactParams (params : CChainParams) : Prop where
  spacing : 0 < params.nTargetSpacing ∧ params.nTargetSpacing < 2 ^ 32
  limit : 26 * targetLimit params < 2 ^ 256

theorem Network.exactParams (network : Network) : ExactParams network.params := by
  cases network with
  | main => exact ⟨by decide, by decide⟩
  | testnet => exact ⟨by decide, by decide⟩
  | regtest => exact ⟨by decide, by decide⟩
  | unittest => exact ⟨by decide, by decide⟩

def windowTime (params : CChainParams) (chain : IndexChain) : Int :=
  weightedSum 0 (solveTimes params.nTargetSpacing (chain.block (chain.nHeight - 25)).nTime
    (chain.window.map fun block => (block.nTime : Int)))

def averageTarget (blocks : List CBlockIndex) : ℚ := targetSum blocks / blocks.length

theorem IndexChain.length_window (chain : IndexChain) : chain.window.length = 25 := by
  simp [IndexChain.window]

theorem WithinLimits.target_le {block : CBlockIndex} (h : WithinLimits params block) :
    block.target ≤ targetLimit params := by
  rcases h with h | h
  · exact le_trans h (le_max_left ..)
  · exact le_trans h (le_max_right ..)

section Window

variable (hparams : ExactParams params) (chain : IndexChain)
  (hheight : 25 ≤ chain.nHeight) (hchain : ∀ i ≤ chain.nHeight, WithinLimits params (chain.block i))

include hheight hchain in
theorem window_inRange : ∀ block ∈ chain.window,
    block.nTime < 2 ^ 32 ∧ block.target ≤ targetLimit params := by
  intro block hblock
  simp only [IndexChain.window, List.mem_map, mem_range] at hblock
  obtain ⟨i, hi, rfl⟩ := hblock
  have hle : chain.nHeight - 24 + i ≤ chain.nHeight := by omega
  exact ⟨chain.time _ hle, (hchain _ hle).target_le⟩

include hparams in
theorem windowTime_bounds :
    25 ≤ windowTime params chain ∧ windowTime params chain ≤ 1950 * params.nTargetSpacing := by
  have hbounds := solveTimes_bounds hparams.spacing.1
    (chain.window.map fun block => (block.nTime : Int)) (chain.block (chain.nHeight - 25)).nTime
  have hlength := length_solveTimes params.nTargetSpacing
    (chain.window.map fun block => (block.nTime : Int)) (chain.block (chain.nHeight - 25)).nTime
  rw [length_map, chain.length_window] at hlength
  obtain ⟨hlow, hhigh⟩ := weightedSum_bounds _ hbounds 0 le_rfl
  rw [hlength] at hlow hhigh
  unfold windowTime
  omega

include hparams hheight hchain in
theorem lwmaWindow_spec : ∃ s, lwmaWindow params (325 * params.nTargetSpacing) chain = some s ∧
      s.t = windowTime params chain ∧
      s.sumTarget.toNat = scaledSum (8125 * params.nTargetSpacing.toNat) chain.window := by
  have htime := chain.time (chain.nHeight - 25) (by omega)
  have hstart : LwmaState.InRange params.nTargetSpacing (targetLimit params)
      { previousTimestamp := (chain.block (chain.nHeight - 25)).nTime } := by
    constructor
    · dsimp only
      omega
    · exact le_rfl
    · exact ⟨le_rfl, by simp⟩
    · exact Nat.zero_le _
  obtain ⟨s, hrun, ht, hsum⟩ := lwmaRun_spec hparams.spacing hparams.limit chain.window
    (window_inRange chain hheight hchain) _ hstart (by rw [chain.length_window]; exact le_rfl)
  refine ⟨s, ?_, ?_, ?_⟩
  · rw [lwmaWindow_eq params _ chain hheight]
    exact hrun
  · rw [ht]
    exact Int.zero_add _
  · rw [hsum]
    exact Nat.zero_add _

/- In natural numbers: the product of the two sums against the sum of the targets. -/
include hparams in
theorem window_product_le : 25 * ((windowTime params chain).toNat *
        scaledSum (8125 * params.nTargetSpacing.toNat) chain.window) ≤
      6 * targetSum chain.window := by
  have hspacing := hparams.spacing.1
  have htime := (windowTime_bounds hparams chain).2
  have hscaled := (scaledSum_bounds (by omega : 0 < 8125 * params.nTargetSpacing.toNat)
    chain.window).1
  generalize scaledSum (8125 * params.nTargetSpacing.toNat) chain.window = sum at *
  have hmul : (windowTime params chain).toNat * sum ≤ 1950 * params.nTargetSpacing.toNat * sum :=
    Nat.mul_le_mul_right _ (by omega)
  have hcommon : 25 * (1950 * params.nTargetSpacing.toNat * sum) =
      6 * (8125 * params.nTargetSpacing.toNat * sum) := by ring
  omega

include hparams hheight hchain in
theorem toNat_product {s : LwmaState} (ht : s.t = windowTime params chain)
    (hsum : s.sumTarget.toNat = scaledSum (8125 * params.nTargetSpacing.toNat) chain.window) :
    (ofInt64 s.t * s.sumTarget).toNat = (windowTime params chain).toNat *
      scaledSum (8125 * params.nTargetSpacing.toNat) chain.window := by
  have htime := windowTime_bounds hparams chain
  have hspacing := hparams.spacing
  have hlimit := hparams.limit
  have hprod := window_product_le hparams chain
  have htargets : targetSum chain.window ≤ 25 * targetLimit params := by
    rw [← chain.length_window]
    exact targetSum_le _ fun block hblock => (window_inRange chain hheight hchain block hblock).2
  rw [BitVec.toNat_mul, ht, toNat_ofInt64 (by omega) (by omega), hsum]
  apply Nat.mod_eq_of_lt
  omega

/- In rationals: the product against the average target times `t / k`. -/
include hparams in
theorem window_product_near {product : Nat} (h : product = (windowTime params chain).toNat *
      scaledSum (8125 * params.nTargetSpacing.toNat) chain.window) :
    (product : ℚ) ≤ 6 * averageTarget chain.window ∧
      |(product : ℚ) - averageTarget chain.window * windowTime params chain /
        (325 * params.nTargetSpacing : ℤ)| < 25 * windowTime params chain := by
  have hspacing := hparams.spacing.1
  have htime := (windowTime_bounds hparams chain).1
  have hle := window_product_le hparams chain
  obtain ⟨hlow, hhigh⟩ := scaledSum_bounds (by omega : 0 < 8125 * params.nTargetSpacing.toNat)
    chain.window
  rw [← h] at hle
  unfold averageTarget
  rw [chain.length_window] at hhigh ⊢
  obtain ⟨T, hT⟩ := Int.eq_ofNat_of_zero_le (le_of_lt hspacing)
  obtain ⟨t, ht⟩ := Int.eq_ofNat_of_zero_le (by omega : 0 ≤ windowTime params chain)
  rw [hT, Int.toNat_natCast] at hlow hhigh h
  rw [ht, Int.toNat_natCast] at h
  rw [hT, ht]
  rw [hT] at hspacing
  rw [ht] at htime
  generalize scaledSum (8125 * T) chain.window = sum at *
  generalize targetSum chain.window = total at *
  have hTpos : (0 : ℚ) < T := by exact_mod_cast hspacing
  have htpos : (0 : ℚ) < t := by
    have hcast : (25 : ℚ) ≤ t := by exact_mod_cast htime
    linarith
  have hle' : 25 * (product : ℚ) ≤ 6 * total := by exact_mod_cast hle
  have hlow' : 8125 * (T : ℚ) * sum ≤ total := by exact_mod_cast hlow
  have hhigh' : (total : ℚ) + 25 ≤ 8125 * T * (sum + 25) := by exact_mod_cast hhigh
  have hproduct : (product : ℚ) = t * sum := by exact_mod_cast h
  -- the exact value lies between the product and the product with every quotient one larger
  have hexact : (total : ℚ) / (25 : ℕ) * ((t : ℕ) : ℤ) / (325 * (T : ℤ) : ℤ) =
      t * (total / (8125 * T)) := by
    push_cast
    field_simp
    ring
  have hsumle : (sum : ℚ) ≤ total / (8125 * T) := by
    rw [le_div_iff₀ (by positivity)]
    linarith
  have hsumlt : total / (8125 * T) < (sum : ℚ) + 25 := by
    rw [div_lt_iff₀ (by positivity)]
    linarith
  constructor
  · push_cast
    linarith
  · rw [hexact, hproduct, ← mul_sub, abs_mul, abs_of_pos htpos, abs_sub_comm,
      abs_of_nonneg (by linarith)]
    push_cast
    nlinarith

end Window

structure WindowTarget (params : CChainParams) (chain : IndexChain) (fProofOfStake : Bool)
    (nextTarget : uint256) : Prop where
  sums : ∃ s, lwmaWindow params (325 * params.nTargetSpacing) chain = some s ∧
    s.t = windowTime params chain ∧
    s.sumTarget.toNat = scaledSum (8125 * params.nTargetSpacing.toNat) chain.window ∧
    (ofInt64 s.t * s.sumTarget).toNat = (windowTime params chain).toNat *
      scaledSum (8125 * params.nTargetSpacing.toNat) chain.window
  target : lwmaNextTarget params (325 * params.nTargetSpacing) chain fProofOfStake = some nextTarget
  le_average : (nextTarget.toNat : ℚ) ≤ 6 * averageTarget chain.window
  near : |(nextTarget.toNat : ℚ) - min ((workLimit params fProofOfStake).toNat : ℚ)
      (averageTarget chain.window * windowTime params chain /
        (325 * params.nTargetSpacing : ℤ))| < 25 * windowTime params chain

theorem lwmaNextTarget_spec (hparams : ExactParams params) (chain : IndexChain)
    (hheight : 25 ≤ chain.nHeight)
    (hchain : ∀ i ≤ chain.nHeight, WithinLimits params (chain.block i)) (fProofOfStake : Bool) :
    ∃ nextTarget, WindowTarget params chain fProofOfStake nextTarget ∧
      nextTarget ≤ workLimit params fProofOfStake := by
  obtain ⟨s, hwindow, ht, hsum⟩ := lwmaWindow_spec hparams chain hheight hchain
  have hproduct := toNat_product hparams chain hheight hchain ht hsum
  obtain ⟨hsix, hnear⟩ := window_product_near hparams chain hproduct
  have htarget : lwmaNextTarget params (325 * params.nTargetSpacing) chain fProofOfStake =
      some (if ofInt64 s.t * s.sumTarget > workLimit params fProofOfStake
        then workLimit params fProofOfStake else ofInt64 s.t * s.sumTarget) := by
    simp only [lwmaNextTarget, hwindow, Option.bind_eq_bind, Option.bind_some]
    rfl
  have hmin : ∀ limit product : uint256,
      ((if product > limit then limit else product).toNat : ℚ) =
        min (limit.toNat : ℚ) (product.toNat : ℚ) := by
    intro limit product
    split_ifs with hover
    · rw [min_eq_left (by exact_mod_cast (BitVec.lt_def.mp hover).le)]
    · rw [min_eq_right (by exact_mod_cast BitVec.not_lt.mp hover)]
  refine ⟨_, ⟨⟨s, hwindow, ht, hsum, hproduct⟩, htarget, ?_, ?_⟩, ?_⟩
  · rw [hmin]
    exact le_trans (min_le_right ..) hsix
  · rw [hmin]
    apply lt_of_le_of_lt (abs_min_sub_min_le_max ..)
    rw [sub_self, abs_zero, max_eq_right (abs_nonneg _)]
    exact hnear
  · split_ifs with hover
    · exact BitVec.le_refl _
    · exact BitVec.not_lt.mp hover

theorem tooFewBlocks_false {height : Int} (h : tooFewBlocks params height = false) :
    25 ≤ height := by
  have hlow := of_decide_eq_false (Bool.or_eq_false_iff.mp h).1
  unfold lwmaN at hlow
  omega

/-- The target asked of the next block is the compact form of a number not above the
limit. With a full window that number is at most six times the average target and
less than `N * t` away from the exact `min (limit, average * t / k)`. -/
theorem getNextWorkRequired_bounds (network : Network) (chain : IndexChain)
    (hchain : ∀ i ≤ chain.nHeight, WithinLimits network.params (chain.block i)) :
    ∃ nBits nextTarget, getNextWorkRequired network.params chain = some nBits ∧
      getCompactChecked nextTarget = some nBits ∧
      nextTarget ≤ workLimit network.params (nextProofOfStake network.params chain.nHeight) ∧
      (setCompact nBits).fNegative = false ∧ (setCompact nBits).fOverflow = false ∧
      (setCompact nBits).bnTarget ≤
        workLimit network.params (nextProofOfStake network.params chain.nHeight) ∧
      (tooFewBlocks network.params chain.nHeight = false →
        WindowTarget network.params chain (nextProofOfStake network.params chain.nHeight)
          nextTarget) := by
  have hparams := network.exactParams
  have hk := lwmaK_eq hparams.spacing
  by_cases hfew : tooFewBlocks network.params chain.nHeight = true
  · obtain ⟨nBits, hcompact, hnegative, hoverflow, ⟨hle, -⟩, -⟩ := getCompactChecked_spec
      (workLimit network.params (nextProofOfStake network.params chain.nHeight))
    refine ⟨nBits, _, ?_, hcompact, BitVec.le_refl _, hnegative, hoverflow, hle, ?_⟩
    · simp only [getNextWorkRequired, lwma3CalculateNextWorkRequired, hk, Option.bind_eq_bind,
        Option.bind_some, hfew, if_true, hcompact]
    · rw [hfew]
      intro hno
      exact absurd hno (by decide)
  · have hheight : 25 ≤ chain.nHeight := by
      exact_mod_cast tooFewBlocks_false (Bool.eq_false_iff.mpr hfew)
    obtain ⟨nextTarget, hwindow, hlimit⟩ := lwmaNextTarget_spec hparams chain hheight hchain
      (nextProofOfStake network.params chain.nHeight)
    obtain ⟨nBits, hcompact, hnegative, hoverflow, ⟨hle, -⟩, -⟩ :=
      getCompactChecked_spec nextTarget
    refine ⟨nBits, nextTarget, ?_, hcompact, hlimit, hnegative, hoverflow,
      BitVec.le_trans hle hlimit, fun _ => hwindow⟩
    simp only [getNextWorkRequired, lwma3CalculateNextWorkRequired, hk, Option.bind_eq_bind,
      Option.bind_some, hfew, Bool.false_eq_true, if_false, hwindow.target, hcompact]

def IndexChain.regular (nHeight spacing : Nat) (nBits : BitVec 32) (hheight : nHeight < 2 ^ 31)
    (htime : nHeight * spacing < 2 ^ 32) : IndexChain where
  nHeight := nHeight
  block i := { nHeight := i, nTime := i * spacing, nBits := nBits }
  nHeight_lt := hheight
  height _ _ := rfl
  time _ hi := lt_of_le_of_lt (Nat.mul_le_mul_right spacing hi) htime

theorem getNextWorkRequired_regular : tooFewBlocks Network.main.params 40 = false ∧
    ∃ nBits nextTarget, getNextWorkRequired Network.main.params
        (.regular 40 90 0x1e0fffff#32 (by decide) (by decide)) = some nBits ∧
      getCompactChecked nextTarget = some nBits ∧
      WindowTarget Network.main.params (.regular 40 90 0x1e0fffff#32 (by decide) (by decide)) false
        nextTarget := by
  refine ⟨by decide, ?_⟩
  obtain ⟨nBits, nextTarget, hnext, hcompact, -, -, -, -, hwindow⟩ :=
    getNextWorkRequired_bounds .main (.regular 40 90 0x1e0fffff#32 (by decide) (by decide))
      (fun i _ => Or.inl (by change (setCompact 0x1e0fffff#32).bnTarget ≤ _; decide))
  exact ⟨nBits, nextTarget, hnext, hcompact, hwindow (by decide)⟩

end Alqo
