import Alqo.BudgetDelivery

/-!
# Which proposals are paid (masternode-budget.h, masternode-budget.cpp)

`GetBudget` takes the passing proposals in the order of their votes as long as they fit the total.
`CFinalizedBudget::IsValid` limits the number of payments too, and adds up what it is sent.
-/

namespace Alqo.BudgetVotes
open Lib.FixedSum List

def PROPOSAL_ESTABLISHMENT_TIME : Int64 := 60 * 60 * 24

namespace CBudgetProposal

/-- `CBudgetProposalBroadcast` -/
def broadcast (nBudgetCycleBlocks : Int) (strProposalName strURL : Bytes) (nPaymentCount : Int)
    (address : CScript) (nAmount : CAmount) (nBlockStart : Int) (nFeeTXHash : uint256) :
    CBudgetProposal :=
  let nCycleStart := nBlockStart - nBlockStart.tmod nBudgetCycleBlocks
  { strProposalName, strURL, nBlockStart
    nBlockEnd := nCycleStart + (nBudgetCycleBlocks + 1) * nPaymentCount
    address, nAmount, nFeeTXHash }

/-- The two tests of `IsPassing` on the blocks. -/
def inWindow (p : CBudgetProposal) (nBlockStartBudget nBlockEndBudget : Int) : Bool :=
  decide (p.nBlockStart ≤ nBlockStartBudget) && decide (nBlockEndBudget ≤ p.nBlockEnd)

/-- `nProposalEnd` of `IsValid`, with `GetTotalPaymentCount`. -/
def nProposalEnd (p : CBudgetProposal) (nBudgetCycleBlocks : Int) : Int :=
  p.nBlockStart + nBudgetCycleBlocks *
    (p.nBlockEnd - (p.nBlockStart - p.nBlockStart.tmod nBudgetCycleBlocks)).tdiv nBudgetCycleBlocks

/-- The tests of `IsValid` before that of the end. -/
structure Sound (Hash : Bytes → uint256) (ctx : BudgetContext) (p : CBudgetProposal) : Prop where
  support : 0 ≤ ctx.nCountEnabled.tdiv 10
  start : 0 ≤ p.nBlockStart
  stop : p.nBlockStart ≤ p.nBlockEnd
  least : 10 * COIN ≤ p.nAmount
  address : p.address ≠ []
  collateral : (isBudgetCollateralValid ctx p.nFeeTXHash (p.getHash Hash) false).1 = true
  script : CScript.isPayToScriptHash p.address = false
  most : p.nAmount ≤ getTotalBudget ctx p.nBlockStart

variable {Hash : Bytes → uint256} {ctx : BudgetContext} {p : CBudgetProposal}

theorem isValid_iff : p.isValid Hash ctx = true ↔ p.Sound Hash ctx ∧
    ∀ nHeight : Nat, ctx.tipHeight = some nHeight →
      (nHeight : Int) ≤ p.nProposalEnd ctx.params.nBudgetCycleBlocks := by
  unfold isValid nProposalEnd
  split_ifs with h1 h2 h3 h4 h5 h6 h7 h8
  · exact iff_of_false (by simp) fun h => by have := h.1.support; omega
  · exact iff_of_false (by simp) fun h => by have := h.1.start; omega
  · exact iff_of_false (by simp) fun h => by have := h.1.stop; omega
  · exact iff_of_false (by simp) fun h => Int64.not_lt.mpr h.1.least h4
  · exact iff_of_false (by simp) fun h => h.1.address h5
  · exact iff_of_false (by simp) fun h => by simp [h.1.collateral] at h6
  · exact iff_of_false (by simp) fun h => by simp [h.1.script] at h7
  · exact iff_of_false (by simp) fun h => Int64.not_lt.mpr h.1.most h8
  · have hsound : p.Sound Hash ctx := ⟨by omega, by omega, by omega, Int64.not_lt.mp h4, h5,
      by simpa using h6, by simpa using h7, Int64.not_lt.mp h8⟩
    cases ctx.tipHeight <;> simp [hsound]

/-- A proposal made for `n` payments is in the window of its `n` superblocks and of
no other one, and its end does not refuse it before the last of them. -/
theorem broadcast_window (Hash : Bytes → uint256) (C S n : Int) (hn : 1 ≤ n) (hC : n + 1 < C)
    (hS : C ∣ S) (strProposalName strURL : Bytes) (address : CScript) (nAmount : CAmount)
    (nFeeTXHash : uint256) :
    let p := broadcast C strProposalName strURL n address nAmount S nFeeTXHash
    (∀ nBlockStart, C ∣ nBlockStart → (p.inWindow nBlockStart (nBlockStart + C - 1) = true ↔
        ∃ k, 0 ≤ k ∧ k < n ∧ nBlockStart = S + k * C)) ∧
    ∀ (ctx : BudgetContext) (nHeight : Nat), ctx.params.nBudgetCycleBlocks = C →
      ctx.tipHeight = some nHeight → (nHeight : Int) < S + (n - 1) * C →
      (p.isValid Hash ctx = true ↔ p.Sound Hash ctx) := by
  intro p
  obtain ⟨j, rfl⟩ := hS
  have hmod : (C * j).tmod C = 0 := Int.mul_tmod_right C j
  have hend : p.nBlockEnd = C * j + C * n + n := by
    show C * j - (C * j).tmod C + (C + 1) * n = _
    rw [hmod]
    ring
  have hstart : p.nBlockStart = C * j := rfl
  refine ⟨fun nBlockStart hB => ?_, fun ctx nHeight hcycle htip hlt => ?_⟩
  · obtain ⟨i, rfl⟩ := hB
    have hlast : C * i + C - 1 ≤ C * j + C * n + n ↔ i < j + n := by
      constructor
      · intro h
        by_contra hge
        have := mul_le_mul_of_nonneg_left (show j + n ≤ i by omega) (show 0 ≤ C by omega)
        rw [mul_add] at this
        omega
      · intro h
        have := mul_le_mul_of_nonneg_left (show i + 1 ≤ j + n by omega) (show 0 ≤ C by omega)
        rw [mul_add, mul_add, mul_one] at this
        omega
    rw [inWindow, hend, hstart, Bool.and_eq_true, decide_eq_true_eq, decide_eq_true_eq, hlast,
      mul_le_mul_iff_right₀ (show 0 < C by omega)]
    constructor
    · intro h
      exact ⟨i - j, by omega, by omega, by ring⟩
    · rintro ⟨k, hk, hkn, heq⟩
      have hi : i = j + k := by
        apply mul_left_cancel₀ (show C ≠ 0 by omega)
        rw [heq]
        ring
      omega
  · have hcount : (C * n + n).tdiv C = n := by
      have := mul_nonneg (show 0 ≤ C by omega) (show 0 ≤ n by omega)
      rw [Int.tdiv_eq_ediv_of_nonneg (by omega), Int.add_comm,
        Int.add_mul_ediv_left _ _ (by omega), Int.ediv_eq_zero_of_lt (by omega) (by omega)]
      omega
    rw [isValid_iff, and_iff_left_iff_imp]
    intro _ nHeight' htip'
    rw [htip] at htip'
    cases htip'
    rw [hcycle, nProposalEnd, hend, hstart, hmod,
      show C * j + C * n + n - (C * j - 0) = C * n + n by ring, hcount]
    rw [sub_mul, one_mul, mul_comm n] at hlt
    omega

theorem broadcast_window_pair :
    let p := broadcast 10 [] [] 2 [] 0 20 0
    p.inWindow 20 29 = true ∧ p.inWindow 30 39 = true ∧ p.inWindow 40 49 = false := by
  have h := (broadcast_window rollingHash 10 20 2 (by decide) (by decide) (by decide) [] [] [] 0 0).1
  exact ⟨(h 20 (by decide)).mpr ⟨0, by decide⟩, (h 30 (by decide)).mpr ⟨1, by decide⟩, rfl⟩

end CBudgetProposal

def IsTotal (nAmount : CAmount) : Prop := 0 ≤ nAmount.toInt ∧ nAmount.toInt ≤ 64800000000000

instance (nAmount : CAmount) : Decidable (IsTotal nAmount) := inferInstanceAs (Decidable (_ ∧ _))

theorem isTotal_getTotalBudget (ctx : BudgetContext) (nHeight : Int) :
    IsTotal (getTotalBudget ctx nHeight) := by
  refine iteInduction (fun _ => by decide +kernel) fun _ => ?_
  refine iteInduction (fun _ => by decide +kernel) fun _ => ?_
  refine iteInduction (fun _ => by decide +kernel) fun _ => ?_
  iterate 10 refine iteInduction (motive := fun nSubsidy =>
    IsTotal (nSubsidy / 100 * 10 * 1440 * 30)) (fun _ => by decide +kernel) fun _ => ?_
  decide +kernel

namespace CFinalizedBudget

variable (b : CFinalizedBudget)

def amounts : List CAmount := b.vecBudgetPayments.map fun payment =>
  payment.nAmount

def getTotalPayout : CAmount :=
  b.vecBudgetPayments.foldl (fun ret payment => ret + payment.nAmount) 0

theorem tracks_foldl (l : List CTxBudgetPayment) {a : CAmount} {x : Int} (h : Tracks a x) :
    Tracks (l.foldl (fun ret payment => ret + payment.nAmount) a)
      (x + exactSum (l.map fun payment => payment.nAmount)) := by
  induction l generalizing a x with
  | nil => simpa using h
  | cons payment l ih =>
    have hnext := ih (tracks_add h (tracks_self payment.nAmount))
    rwa [add_assoc, ← exactSum_cons, ← map_cons] at hnext

theorem tracks_getTotalPayout : Tracks b.getTotalPayout (exactSum b.amounts) := by
  have h := tracks_foldl b.vecBudgetPayments tracks_zero
  rwa [zero_add] at h

/-- The tests of `IsValid` on the number of payments and on their sum. -/
structure WithinLimits (ctx : BudgetContext) (b : CFinalizedBudget) : Prop where
  blocks : b.nBlockStart + ((b.vecBudgetPayments.length : Int) - 1) - b.nBlockStart ≤ 100
  count : b.vecBudgetPayments.length ≤ 100
  payout : b.getTotalPayout ≤ getTotalBudget ctx b.nBlockStart

theorem withinLimits_of_isValid {Hash : Bytes → uint256} {ctx : BudgetContext}
    {b : CFinalizedBudget} (h : b.isValid Hash ctx = true) : b.WithinLimits ctx := by
  unfold isValid at h
  dsimp only at h
  split_ifs at h with _ hblocks hcount _ _ _ hpayout
  exact ⟨Int.not_lt.mp hblocks, Nat.not_lt.mp hcount, Int64.not_lt.mp hpayout⟩

/-- What `IsValid` lets through has payments that are not negative and fit the total
exactly if they are not negative and their exact sum fits 64 bits. -/
theorem isValid_exact_iff (Hash : Bytes → uint256) (ctx : BudgetContext) (b : CFinalizedBudget)
    (h : b.isValid Hash ctx = true) :
    (∀ nAmount ∈ b.amounts, 0 ≤ nAmount.toInt) ∧
        exactSum b.amounts ≤ (getTotalBudget ctx b.nBlockStart).toInt ↔
      (∀ nAmount ∈ b.amounts, 0 ≤ nAmount.toInt) ∧ exactSum b.amounts < 2 ^ 63 := by
  obtain ⟨hlow, hhigh⟩ := isTotal_getTotalBudget ctx b.nBlockStart
  refine and_congr_right fun hpos => ⟨fun hle => by omega, fun hlt => ?_⟩
  exact le_of_tracks b.tracks_getTotalPayout (tracks_self _) (withinLimits_of_isValid h).payout
    hlow hlt

def paidBudget (vecBudgetPayments : List CTxBudgetPayment) : CFinalizedBudget where
  strBudgetName := [0x6d, 0x61, 0x69, 0x6e]
  nBlockStart := 43200
  vecBudgetPayments
  nFeeTXHash := 3

def paidContext : BudgetContext :=
  { schoolContext with
    getTransaction _ := some ({ hash := 3, vin := [], vout := [{
      nValue := 5 * COIN
      scriptPubKey := findScript (b.getHash rollingHash) }] }, 1) }

def onePayment : CFinalizedBudget := paidBudget [⟨1, [], 10 * COIN⟩]

theorem isValid_exact_one :
    onePayment.isValid rollingHash (paidContext onePayment) = true ∧ exactSum onePayment.amounts ≤
      (getTotalBudget (paidContext onePayment) onePayment.nBlockStart).toInt := by
  have h : onePayment.isValid rollingHash (paidContext onePayment) = true := by decide +kernel
  have hsum : exactSum onePayment.amounts = 1000000000 := by decide +kernel
  have hpos : ∀ nAmount ∈ onePayment.amounts, 0 ≤ nAmount.toInt :=
    forall_mem_singleton.mpr (by decide +kernel)
  have hlt : (1000000000 : Int) < 2 ^ 63 := by norm_num
  exact ⟨h, ((isValid_exact_iff _ _ _ h).mpr ⟨hpos, hsum.trans_lt hlt⟩).2⟩

/-- A negative payment makes room for one above the total, and two large ones wrap. -/
theorem isValid_negative_and_wrapping :
    let b := paidBudget [⟨1, [], 648001 * COIN⟩, ⟨2, [], -COIN⟩]
    let b' := paidBudget [⟨1, [], 4611686018427387904⟩, ⟨2, [], 4611686018427387904⟩]
    (b.isValid rollingHash (paidContext b) = true ∧ ∃ nAmount ∈ b.amounts, nAmount.toInt < 0) ∧
      b'.isValid rollingHash (paidContext b') = true ∧
      (getTotalBudget (paidContext b') b'.nBlockStart).toInt < exactSum b'.amounts := by
  decide +kernel

end CFinalizedBudget

/-- A proposal of `mapProposals` with the votes on it. -/
structure ListedProposal extends CBudgetProposal where
  fValid : Bool := true
  nTime : Int64
  mapVotes : AList fun _ : uint256 => CBudgetVote

namespace ListedProposal
variable (ctx : BudgetContext) (nAdjustedTime : Int64) (p : ListedProposal)

/-- `GetYeas` and `GetNays` after `CleanAndRemove(false)`: the votes of masternodes that are known. -/
def countVotes (nVote : Int) : Int :=
  p.mapVotes.entries.countP fun e => e.2.nVote == nVote &&
    ctx.mnodeman.checkSignature e.2.vin.prevout false fun _ => true

def netVotes : Int := p.countVotes ctx 1 - p.countVotes ctx 2

/- Where there is a tip -/
def isPassing (nBlockStartBudget nBlockEndBudget : Int) : Bool :=
  p.fValid && p.inWindow nBlockStartBudget nBlockEndBudget &&
    !decide (p.netVotes ctx ≤ ctx.nCountEnabled.tdiv 10) &&
    decide (p.nTime < nAdjustedTime - PROPOSAL_ESTABLISHMENT_TIME)

/-- `sortProposalsByVotes` does not put the second first. -/
def Ranked (p q : ListedProposal) : Prop :=
  q.netVotes ctx < p.netVotes ctx ∨ q.netVotes ctx = p.netVotes ctx ∧ q.nFeeTXHash ≤ p.nFeeTXHash

instance (p q : ListedProposal) : Decidable (p.Ranked ctx q) := inferInstanceAs (Decidable (_ ∨ _))

/-- The second loop of `GetBudget`. -/
def grab (passing : ListedProposal → Bool) (nTotalBudget : CAmount) :
    (nBudgetAllocated : CAmount) → List ListedProposal → List ListedProposal
  | _, [] => []
  | nBudgetAllocated, p :: rest =>
    if passing p = true ∧ p.nAmount + nBudgetAllocated ≤ nTotalBudget then
      p :: grab passing nTotalBudget (nBudgetAllocated + p.nAmount) rest
    else grab passing nTotalBudget nBudgetAllocated rest

end ListedProposal

/-- Start of the next superblock. -/
def nextBudget (ctx : BudgetContext) (nHeight : Nat) : Int :=
  nHeight - (nHeight : Int).tmod ctx.params.nBudgetCycleBlocks + ctx.params.nBudgetCycleBlocks

/-- `GetBudget` of the sorted proposals. -/
def getBudget (ctx : BudgetContext) (nAdjustedTime : Int64) (sorted : List ListedProposal) :
    List ListedProposal :=
  match ctx.tipHeight with
  | none => []
  | some nHeight =>
    let nBlockStart := nextBudget ctx nHeight
    let nBlockEnd := nBlockStart + ctx.params.nBudgetCycleBlocks - 1
    ListedProposal.grab (·.isPassing ctx nAdjustedTime nBlockStart nBlockEnd)
      (getTotalBudget ctx nBlockStart) 0 sorted

/-- The budget that `SubmitFinalBudget` makes of them. The
proposals that are returned are allotted their amounts. -/
def finalBudget (Hash : Bytes → uint256) (nBlockStart : Int) (txidCollateral : uint256)
    (vBudgetProposals : List ListedProposal) : CFinalizedBudget where
  strBudgetName := [0x6d, 0x61, 0x69, 0x6e]
  nBlockStart
  vecBudgetPayments := vBudgetProposals.map fun p =>
    ⟨p.toCBudgetProposal.getHash Hash, p.address, p.nAmount⟩
  nFeeTXHash := txidCollateral

namespace ListedProposal
variable {ctx : BudgetContext} {passing : ListedProposal → Bool} {nTotalBudget a : CAmount}
  {l : List ListedProposal}

def total (l : List ListedProposal) : Int := exactSum (l.map fun p => p.nAmount)

/-- The amount is one that `IsValid` lets through. -/
def Payable (p : ListedProposal) : Prop := 0 ≤ p.nAmount.toInt ∧ p.nAmount.toInt ≤ 64800000000000

theorem payable_of_isValid {Hash : Bytes → uint256} {p : ListedProposal}
    (h : p.toCBudgetProposal.isValid Hash ctx = true) : p.Payable := by
  obtain ⟨hsound, -⟩ := CBudgetProposal.isValid_iff.mp h
  have hleast := Int64.le_iff_toInt_le.mp hsound.least
  have hmost := Int64.le_iff_toInt_le.mp hsound.most
  have htotal := isTotal_getTotalBudget ctx p.nBlockStart
  have hcoin : (10 * COIN : CAmount).toInt = 1000000000 := by decide
  exact ⟨by omega, by have := htotal.2; omega⟩

variable (passing) in
/-- What is taken passes and fits, and the greedy order leaves out only what does not fit. -/
theorem grab_spec (htotal : IsTotal nTotalBudget) (ha : 0 ≤ a.toInt)
    (hle : a.toInt ≤ nTotalBudget.toInt) (hl : ∀ p ∈ l, p.Payable) :
    (∀ p ∈ grab passing nTotalBudget a l, p ∈ l ∧ passing p = true) ∧
      a.toInt + total (grab passing nTotalBudget a l) ≤ nTotalBudget.toInt ∧
      ∀ pre p post, l = pre ++ p :: post → passing p = true → p ∈ grab passing nTotalBudget a l ∨
          grab passing nTotalBudget a pre <+: grab passing nTotalBudget a l ∧
          nTotalBudget.toInt < a.toInt + total (grab passing nTotalBudget a pre) + p.nAmount.toInt := by
  induction l generalizing a with
  | nil => exact ⟨by simp [grab], by simpa [grab, total] using hle, by simp⟩
  | cons q l ih =>
    rw [forall_mem_cons] at hl
    obtain ⟨⟨hlow, hhigh⟩, hl⟩ := hl
    have hmax := htotal.2
    have hadd := toInt_add_of_lt a q.nAmount ha hlow (by omega)
    have hfits : q.nAmount + a ≤ nTotalBudget ↔ a.toInt + q.nAmount.toInt ≤ nTotalBudget.toInt := by
      rw [Int64.add_comm, Int64.le_iff_toInt_le, hadd]
    by_cases hq : passing q = true ∧ q.nAmount + a ≤ nTotalBudget
    · have hcons : ∀ m, grab passing nTotalBudget a (q :: m) =
          q :: grab passing nTotalBudget (a + q.nAmount) m := fun m => if_pos hq
      have htake := hfits.mp hq.2
      obtain ⟨hpass, hsum, hleft⟩ := ih (a := a + q.nAmount) (by omega) (by omega) hl
      rw [hadd] at hsum hleft
      rw [hcons]
      refine ⟨?_, ?_, ?_⟩
      · rw [forall_mem_cons]
        exact ⟨⟨mem_cons_self, hq.1⟩,
          fun p hp => (hpass p hp).imp_left (mem_cons_of_mem _)⟩
      · rw [total, map_cons, exactSum_cons]
        exact add_assoc a.toInt q.nAmount.toInt _ ▸ hsum
      · intro pre p post heq hp
        cases pre with
        | nil =>
          cases heq
          exact .inl mem_cons_self
        | cons r pre =>
          cases heq
          rw [hcons, cons_prefix_cons, total, map_cons, exactSum_cons, ← add_assoc]
          exact (hleft pre p post rfl hp).imp (mem_cons_of_mem _) fun h => ⟨⟨rfl, h.1⟩, h.2⟩
    · have hskip : ∀ m, grab passing nTotalBudget a (q :: m) = grab passing nTotalBudget a m :=
        fun m => if_neg hq
      obtain ⟨hpass, hsum, hleft⟩ := ih ha hle hl
      rw [hskip]
      refine ⟨fun p hp => (hpass p hp).imp_left (mem_cons_of_mem _), hsum, ?_⟩
      intro pre p post heq hp
      cases pre with
      | nil =>
        cases heq
        rw [not_and, hfits] at hq
        exact .inr ⟨List.nil_prefix, by simpa [grab, total] using hq hp⟩
      | cons r pre =>
        cases heq
        rw [hskip]
        exact hleft pre p post rfl hp

end ListedProposal

/-- Proposals of ten coins, each with one vote. -/
def smallProposals (n : Nat) : List ListedProposal :=
  (List.range n).map fun i =>
    { school with
      strProposalName := [UInt8.ofNat i]
      nTime := 0
      mapVotes := AList.singleton 7 (schoolVote 0) }

def smallContext (p : CBudgetProposal) : BudgetContext :=
  { schoolContext with
    getTransaction _ := some ({ hash := 3, vin := [], vout := [{
      nValue := 50 * COIN
      scriptPubKey := findScript (p.getHash rollingHash) }] }, 1) }

end Alqo.BudgetVotes
