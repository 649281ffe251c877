import Alqo.BlockTemplate

/-!
# Fee estimates (txmempool.cpp)

Priorities are left open, and so is what the shuffle of a bucket returns.
-/

namespace Alqo
open List Lib.Runs

/-- `CFeeRate::GetFee`; the size is unsigned, so the arithmetic is. -/
def getFee (nSatoshisPerK : CAmount) (nSize : UInt64) : CAmount :=
  let nFee := (nSatoshisPerK.toUInt64 * nSize / 1000).toInt64
  if nFee = 0 ∧ nSatoshisPerK > 0 then nSatoshisPerK else nFee

def areSane (fee minRelayFee : CAmount) : Bool :=
  !decide (fee < 0) && !decide (getFee fee 1000 > getFee minRelayFee 1000 * 10000)

structure PriorityRules where
  Double : Type
  allowFree : Double → Bool
  areSane : Double → Bool

structure ConfirmedEntry (R : PriorityRules) extends CTxMemPoolEntry where
  /-- the priority when it went in -/
  dPriority : R.Double
  nHeight : UInt32

structure CBlockAverage (R : PriorityRules) where
  feeSamples : List CAmount := []
  prioritySamples : List R.Double := []

/-- `push_back` of a circular buffer for a hundred samples. -/
def pushBack {α : Type} (samples : List α) (x : α) : List α :=
  (samples ++ [x]).drop (samples.length - 99)

variable {R : PriorityRules}

def seenTxConfirm (minRelayFee : CAmount) (average : CBlockAverage R) (entry : ConfirmedEntry R) :
    CBlockAverage R :=
  let feeRate := satoshisPerK entry.nFee entry.getTxSize
  let sufficientFee := decide (feeRate > minRelayFee)
  let sufficientPriority := R.allowFree entry.dPriority
  if sufficientFee && !sufficientPriority && areSane feeRate minRelayFee then
    { average with feeSamples := pushBack average.feeSamples feeRate }
  else if sufficientPriority && !sufficientFee && R.areSane entry.dPriority then
    { average with prioritySamples := pushBack average.prioritySamples entry.dPriority }
  else average

/-- What `seenBlock` is called with. -/
structure SeenBlock (R : PriorityRules) where
  entries : List (ConfirmedEntry R)
  nBlockHeight : Int32
  minRelayFee : CAmount
  random_shuffle : List (ConfirmedEntry R) → List (ConfirmedEntry R)

structure CMinerPolicyEstimator (R : PriorityRules) where
  history : List (CBlockAverage R) := replicate 25 {}
  sortedFeeSamples : List CAmount := []
  nBestSeenHeight : Int32 := 0

namespace CMinerPolicyEstimator

variable (s : CMinerPolicyEstimator R)

def sorted : List CAmount := (s.history.flatMap (·.feeSamples)).mergeSort fun a b => decide (a ≥ b)

def sizes : List Nat := s.history.map (·.feeSamples.length)

def estimateFee (nBlocksToConfirm : Int) : CAmount × CMinerPolicyEstimator R :=
  let n := nBlocksToConfirm - 1
  if n < 0 ∨ n ≥ s.history.length then (0, s)
  else
    let fees := if s.sortedFeeSamples.length = 0 then s.sorted else s.sortedFeeSamples
    let nPrevSize := (s.sizes.take n.toNat).sum
    let index := min (nPrevSize + s.sizes.getD n.toNat 0 / 2) (fees.length - 1)
    (if fees.length < 11 then 0 else fees.getD index 0, { s with sortedFeeSamples := fees })

/-- The place of an entry in `entriesByConfirmations`; the difference is unsigned. -/
def bucket (nBlockHeight : Int32) (entry : ConfirmedEntry R) : Option Nat :=
  let delta := (nBlockHeight.toUInt32 - entry.nHeight).toInt32
  if delta ≤ 0 then none else some (min delta.toInt.toNat s.history.length - 1)

/-- A log line of `seenBlock` asks for the estimate of each bucket that is not empty. -/
def logEstimate (i : Nat) : CMinerPolicyEstimator R :=
  let average := s.history.getD i {}
  if average.feeSamples.length + average.prioritySamples.length > 0 then (s.estimateFee (i + 1)).2
  else s

def seenBlock (block : SeenBlock R) : CMinerPolicyEstimator R :=
  if block.nBlockHeight ≤ s.nBestSeenHeight then s
  else
    let history := s.history.mapIdx fun i average =>
      let e := block.entries.filter fun entry => s.bucket block.nBlockHeight entry = some i
      let e := if e.length > 10 then (block.random_shuffle e).take 10 else e
      e.foldl (seenTxConfirm block.minRelayFee) average
    (range history.length).foldl logEstimate
      { history, sortedFeeSamples := [], nBestSeenHeight := block.nBlockHeight }

/-- A processed block, or a question in between. -/
def step : SeenBlock R ⊕ Int → CMinerPolicyEstimator R
  | .inl block => s.seenBlock block
  | .inr nBlocksToConfirm => (s.estimateFee nBlocksToConfirm).2

/-- The sorted samples are empty or up to date, and no sample is negative. -/
structure Sound : Prop where
  cached : s.sortedFeeSamples = [] ∨ s.sortedFeeSamples = s.sorted
  nonneg : ∀ average ∈ s.history, ∀ fee ∈ average.feeSamples, 0 ≤ fee

variable {s}

theorem Sound.fees_eq (h : s.Sound) :
    (if s.sortedFeeSamples.length = 0 then s.sorted else s.sortedFeeSamples) = s.sorted := by
  split_ifs with hempty
  · rfl
  · exact h.cached.resolve_left fun hnil => hempty (length_eq_zero_iff.mpr hnil)

theorem Sound.estimateFee (h : s.Sound) (n : Int) : (s.estimateFee n).2.Sound := by
  simp only [CMinerPolicyEstimator.estimateFee, h.fees_eq]
  split
  · exact h
  · exact ⟨.inr rfl, h.nonneg⟩

theorem Sound.logEstimates (h : s.Sound) (buckets : List Nat) :
    (buckets.foldl logEstimate s).Sound := by
  induction buckets generalizing s with
  | nil => exact h
  | cons i rest ih =>
    apply ih
    simp only [logEstimate]
    split
    · exact h.estimateFee _
    · exact h

theorem nonneg_of_confirms {minRelayFee : CAmount} {average : CBlockAverage R}
    (h : ∀ fee ∈ average.feeSamples, 0 ≤ fee) (entries : List (ConfirmedEntry R)) :
    ∀ fee ∈ (entries.foldl (seenTxConfirm minRelayFee) average).feeSamples, 0 ≤ fee := by
  induction entries generalizing average with
  | nil => exact h
  | cons entry rest ih =>
    apply ih
    intro fee hfee
    simp only [seenTxConfirm] at hfee
    split_ifs at hfee with hrecord hpriority
    · rcases mem_append.mp (mem_of_mem_drop hfee) with hold | hnew
      · exact h fee hold
      · simp only [areSane, Bool.and_eq_true, Bool.not_eq_true', decide_eq_false_iff_not] at hrecord
        rw [mem_singleton.mp hnew]
        exact Int64.not_lt.mp hrecord.2.1
    · exact h fee hfee
    · exact h fee hfee

theorem Sound.step (h : s.Sound) (event : SeenBlock R ⊕ Int) : (s.step event).Sound := by
  cases event with
  | inr n => exact h.estimateFee n
  | inl block =>
    simp only [CMinerPolicyEstimator.step, seenBlock]
    split
    · exact h
    · apply Sound.logEstimates
      refine ⟨.inl rfl, fun average haverage => ?_⟩
      obtain ⟨i, hi, rfl⟩ := mem_mapIdx.mp haverage
      exact nonneg_of_confirms (h.nonneg _ (getElem_mem hi)) _

theorem sorted_pairwise : s.sorted.Pairwise (· ≥ ·) := by
  have htrans (a b c : CAmount) (hab : decide (a ≥ b) = true) (hbc : decide (b ≥ c) = true) :
      decide (a ≥ c) = true := by
    rw [decide_eq_true_eq] at hab hbc ⊢
    exact Int64.le_trans hbc hab
  have htotal (a b : CAmount) : (decide (a ≥ b) || decide (b ≥ a)) = true := by
    simpa using Int64.le_total b a
  exact (pairwise_mergeSort htrans htotal _).imp of_decide_eq_true

theorem Sound.sorted_nonneg (h : s.Sound) (i : Nat) : 0 ≤ s.sorted.getD i 0 := by
  rcases Nat.lt_or_ge i s.sorted.length with hi | hi
  · rw [getD_eq_getElem _ _ hi]
    obtain ⟨average, haverage, hfee⟩ := mem_flatMap.mp (mem_mergeSort.mp (getElem_mem hi))
    exact h.nonneg average haverage _ hfee
  · rw [getD_eq_default _ _ hi]
    exact Int64.le_refl 0

theorem Sound.sorted_antitone (h : s.Sound) {i j : Nat} (hij : i ≤ j) :
    s.sorted.getD j 0 ≤ s.sorted.getD i 0 := by
  rcases Nat.lt_or_ge j s.sorted.length with hj | hj
  · rcases hij.eq_or_lt with rfl | hlt
    · exact Int64.le_refl _
    · rw [getD_eq_getElem _ _ hj, getD_eq_getElem _ _ (hlt.trans hj)]
      exact pairwise_iff_getElem.mp sorted_pairwise i j _ hj hlt
  · rw [getD_eq_default _ _ hj]
    exact h.sorted_nonneg i

/-- A later bucket starts after all samples of an earlier one. -/
theorem index_le {m n : Nat} (h : m ≤ n) (hn : n < s.sizes.length) :
    (s.sizes.take m).sum + s.sizes.getD m 0 / 2 ≤ (s.sizes.take n).sum + s.sizes.getD n 0 / 2 := by
  rcases h.eq_or_lt with rfl | hlt
  · exact le_rfl
  · have hm : m < s.sizes.length := hlt.trans hn
    have hmono : (s.sizes.take (m + 1)).sum ≤ (s.sizes.take n).sum :=
      monotone_sum_take s.sizes hlt
    rw [sum_take_succ _ _ hm] at hmono
    rw [getD_eq_getElem _ _ hm]
    omega

/-- Waiting for more blocks is never estimated to cost more. -/
theorem estimateFee_le (events : List (SeenBlock R ⊕ Int)) (a b : Int) (ha : 1 ≤ a) (hab : a ≤ b) :
    ((run step ({} : CMinerPolicyEstimator R) events).estimateFee b).1 ≤
      ((run step ({} : CMinerPolicyEstimator R) events).estimateFee a).1 := by
  have h : (run step ({} : CMinerPolicyEstimator R) events).Sound := by
    refine run_induct (fun s event hs => hs.step event) _ events ⟨.inl rfl, fun average hstart => ?_⟩
    rw [eq_of_mem_replicate hstart]
    simp
  generalize run step ({} : CMinerPolicyEstimator R) events = s at h ⊢
  simp only [estimateFee, h.fees_eq]
  by_cases hb : b - 1 < 0 ∨ b - 1 ≥ s.history.length
  · rw [if_pos hb]
    split_ifs
    · exact Int64.le_refl 0
    · exact Int64.le_refl 0
    · exact h.sorted_nonneg _
  · have ha' : ¬ (a - 1 < 0 ∨ a - 1 ≥ s.history.length) := by omega
    rw [if_neg hb, if_neg ha']
    dsimp only
    split
    · exact Int64.le_refl 0
    · have hlength : s.sizes.length = s.history.length := length_map ..
      have hindex := index_le (s := s) (m := (a - 1).toNat) (n := (b - 1).toNat) (by omega) (by omega)
      exact h.sorted_antitone (min_le_min_right _ hindex)

theorem estimateFee_two_le_one :
    ((run step ({} : CMinerPolicyEstimator ⟨Int, (576000000 < ·), (0 ≤ ·)⟩)
        [.inl ⟨[], 1, 100, id⟩, .inr 1]).estimateFee 2).1 ≤
      ((run step ({} : CMinerPolicyEstimator ⟨Int, (576000000 < ·), (0 ≤ ·)⟩)
        [.inl ⟨[], 1, 100, id⟩, .inr 1]).estimateFee 1).1 :=
  estimateFee_le _ 1 2 (by decide) (by decide)

end CMinerPolicyEstimator
end Alqo
