import Alqo.Payments
import Alqo.Lib.Runs

/-!
# Judging the payee of a block again (masternode-payments.cpp, masternode-budget.cpp)

`IsPaidAlready` writes each budget payment it finds into `mapPayment_History`, and a payment that
stands there already is not one; so the answer for a block depends on the blocks asked about before.
-/

namespace Alqo
open Lib.Runs Finset List

namespace CFinalizedBudget

def pays (b : CFinalizedBudget) (txNew : CTransaction) (nBlockHeight : Nat) : Bool :=
  match b.vecBudgetPayments[nBlockHeight - b.nBlockStart]? with
  | none => false
  | some payment => txNew.vout.any fun out =>
      decide (payment.payee = out.scriptPubKey ∧ payment.nAmount = out.nValue)

section
variable {b : CFinalizedBudget} {n : Nat} {history : PaymentHistory} {p : uint256}

theorem isPaidAlready_keeps (hcovers : b.covers n = true) (q : uint256) (h : (p, n) ∈ history) :
    (p, n) ∈ (b.isPaidAlready history q n).2 := by
  have hcurrent : (p, n) ∈ history.filter fun paid => b.covers paid.2 :=
    mem_filter.mpr ⟨h, hcovers⟩
  unfold isPaidAlready
  dsimp only
  split_ifs
  · exact hcurrent
  · exact mem_cons_of_mem _ hcurrent

theorem isPaidAlready_new (hcovers : b.covers n = true)
    (h : (b.isPaidAlready history p n).1 = false) :
    (p, n) ∉ history ∧ (p, n) ∈ (b.isPaidAlready history p n).2 := by
  unfold isPaidAlready at h ⊢
  dsimp only at h ⊢
  split_ifs at h ⊢ with hpaid
  refine ⟨fun hmem => hpaid ?_, mem_cons_self⟩
  rw [any_eq_true]
  exact ⟨(p, n), mem_filter.mpr ⟨hmem, hcovers⟩, by simp⟩

theorem matchOutputs_outcome (hcovers : b.covers n = true) (payment : CTxBudgetPayment)
    (outs : List CTxOut) (history : PaymentHistory) (status : TrxValidationStatus) :
    (∀ p, (p, n) ∈ history → (p, n) ∈ (b.matchOutputs payment n outs status history).2) ∧
      ((b.matchOutputs payment n outs status history).1 = (if outs.any fun out =>
            decide (payment.payee = out.scriptPubKey ∧ payment.nAmount = out.nValue)
          then .doublePayment else status) ∨
        (b.matchOutputs payment n outs status history).1 = .valid ∧
          (payment.nProposalHash, n) ∉ history ∧
          (payment.nProposalHash, n) ∈ (b.matchOutputs payment n outs status history).2) := by
  induction outs generalizing status history with
  | nil => exact ⟨fun p h => h, .inl rfl⟩
  | cons out rest ih =>
    rw [matchOutputs, any_cons]
    by_cases hmatch : payment.payee = out.scriptPubKey ∧ payment.nAmount = out.nValue
    · rw [if_pos hmatch, decide_eq_true hmatch, Bool.true_or, if_pos rfl]
      have hkept : ∀ p, (p, n) ∈ history →
          (p, n) ∈ (b.isPaidAlready history payment.nProposalHash n).2 :=
        fun p h => isPaidAlready_keeps hcovers _ h
      have hnew := @isPaidAlready_new b n history payment.nProposalHash hcovers
      cases hpaid : b.isPaidAlready history payment.nProposalHash n with
      | mk paid history' =>
        rw [hpaid] at hkept hnew
        cases paid with
        | true => exact ⟨hkept, .inl rfl⟩
        | false =>
          obtain ⟨hlater, houtcome⟩ := ih history' .valid
          refine ⟨fun p h => hlater p (hkept p h), ?_⟩
          obtain ⟨hfirst, hnoted⟩ := hnew rfl
          rcases houtcome with hunpaid | ⟨hvalid, -⟩
          · split_ifs at hunpaid
            · exact .inl hunpaid
            · exact .inr ⟨hunpaid, hfirst, hlater _ hnoted⟩
          · exact .inr ⟨hvalid, hfirst, hlater _ hnoted⟩
    · rw [if_neg hmatch, decide_eq_false hmatch, Bool.false_or]
      exact ih history status

end

end CFinalizedBudget

namespace CBudgetManager

/- The status that the loop over the budgets ends with if none of them takes the payment. -/
def unpaidStatus (txNew : CTransaction) (nBlockHeight : Nat) (nCountThreshold : Int) :
    List CFinalizedBudget → TrxValidationStatus → (fThreshold : Bool) → TrxValidationStatus
  | [], status, fThreshold => if fThreshold then status else .voteThreshold
  | b :: rest, status, fThreshold =>
    if nCountThreshold < b.nVoteCount then
      if b.covers nBlockHeight then
        unpaidStatus txNew nBlockHeight nCountThreshold rest
          (if b.pays txNew nBlockHeight then .doublePayment else .inValid) true
      else unpaidStatus txNew nBlockHeight nCountThreshold rest status true
    else unpaidStatus txNew nBlockHeight nCountThreshold rest status fThreshold

def unpaid (m : CBudgetManager) (txNew : CTransaction) (nBlockHeight : Nat) :
    TrxValidationStatus :=
  let nHighestCount := highestCount nBlockHeight m.mapFinalizedBudgets 0
  if nHighestCount < m.countEnabled / 20 then .inValid
  else
    unpaidStatus txNew nBlockHeight (nHighestCount - m.countEnabled / 10) m.mapFinalizedBudgets
      .inValid false

def due (nBlockHeight : Nat) (budgets : List CFinalizedBudget) : List uint256 :=
  budgets.filterMap fun b =>
    (b.vecBudgetPayments[nBlockHeight - b.nBlockStart]?).map (·.nProposalHash)

/- What judging the payments that are due leaves behind: no note is lost, and a payment that is
taken was not noted before. -/
structure Settled (due : List uint256) (n : Nat) (history : PaymentHistory)
    (unpaid : TrxValidationStatus) (r : TrxValidationStatus × PaymentHistory) : Prop where
  keeps : ∀ p, (p, n) ∈ history → (p, n) ∈ r.2
  outcome : r.1 ≠ .valid ∧ r.1 = unpaid ∨
    r.1 = .valid ∧ ∃ p ∈ due, (p, n) ∉ history ∧ (p, n) ∈ r.2

section
variable {b : CFinalizedBudget} {budgets : List CFinalizedBudget} {txNew : CTransaction} {n : Nat}
  {nCountThreshold : Int} {history : PaymentHistory} {r : TrxValidationStatus × PaymentHistory}

theorem Settled.after {due due' : List uint256} {history' : PaymentHistory}
    {unpaid : TrxValidationStatus} (h : Settled due' n history' unpaid r)
    (hkeeps : ∀ p, (p, n) ∈ history → (p, n) ∈ history') :
    Settled (due ++ due') n history unpaid r := by
  refine ⟨fun p hp => h.keeps p (hkeeps p hp), h.outcome.imp_right ?_⟩
  rintro ⟨hvalid, p, hp, hnew, hnoted⟩
  exact ⟨hvalid, p, mem_append_right _ hp, fun hmem => hnew (hkeeps p hmem), hnoted⟩

theorem budget_isTransactionValid (history : PaymentHistory) (txNew : CTransaction)
    (hcovers : b.covers n = true) : Settled (due n [b]) n history
      (if b.pays txNew n then .doublePayment else .inValid)
      (b.isTransactionValid history txNew n) := by
  have hstart : ¬ n < b.nBlockStart := by
    simp only [CFinalizedBudget.covers, Bool.and_eq_true, decide_eq_true_eq] at hcovers
    omega
  unfold CFinalizedBudget.isTransactionValid CFinalizedBudget.pays due
  rw [if_neg hstart]
  cases hpayment : b.vecBudgetPayments[n - b.nBlockStart]? with
  | none => exact ⟨fun p h => h, .inl ⟨by simp, rfl⟩⟩
  | some payment =>
    obtain ⟨hkeeps, houtcome⟩ :=
      CFinalizedBudget.matchOutputs_outcome hcovers payment txNew.vout history .inValid
    refine ⟨hkeeps, houtcome.imp (fun hunpaid => ⟨?_, hunpaid⟩) fun hvalid => ?_⟩
    · rw [hunpaid]
      split_ifs <;> decide
    · exact ⟨hvalid.1, payment.nProposalHash, by simp [hpayment], hvalid.2⟩

theorem checkBudgets_consulted (hcount : nCountThreshold < b.nVoteCount)
    (hcovers : b.covers n = true) (status : TrxValidationStatus) (fThreshold : Bool) :
    checkBudgets txNew n nCountThreshold (b :: budgets) status fThreshold history =
      if (b.isTransactionValid history txNew n).1 = .valid then
        (.valid, (b.isTransactionValid history txNew n).2)
      else
        checkBudgets txNew n nCountThreshold budgets (b.isTransactionValid history txNew n).1 true
          (b.isTransactionValid history txNew n).2 := by
  rw [checkBudgets, if_pos hcount, if_pos hcovers]
  cases b.isTransactionValid history txNew n with
  | mk status' history' => cases status' <;> rfl

theorem due_cons (b : CFinalizedBudget) (budgets : List CFinalizedBudget) :
    due n (b :: budgets) = due n [b] ++ due n budgets := by
  rw [due, due, due, ← filterMap_append]
  rfl

theorem checkBudgets_settled (budgets : List CFinalizedBudget) (status : TrxValidationStatus)
    (fThreshold : Bool) (hstatus : status ≠ .valid) : Settled (due n budgets) n history
      (unpaidStatus txNew n nCountThreshold budgets status fThreshold)
      (checkBudgets txNew n nCountThreshold budgets status fThreshold history) := by
  induction budgets generalizing status fThreshold history with
  | nil =>
    refine ⟨fun p h => h, .inl ⟨?_, rfl⟩⟩
    rw [checkBudgets]
    dsimp only
    split_ifs
    · exact hstatus
    · decide
  | cons b rest ih =>
    rw [due_cons, unpaidStatus]
    by_cases hcount : nCountThreshold < b.nVoteCount
    · by_cases hcovers : b.covers n = true
      · obtain ⟨hkeeps, houtcome⟩ := budget_isTransactionValid history txNew hcovers
        rw [checkBudgets_consulted hcount hcovers, if_pos hcount, if_pos hcovers]
        rcases houtcome with ⟨hnot, hunpaid⟩ | ⟨hvalid, p, hp, hnew⟩
        · rw [if_neg hnot, ← hunpaid]
          exact (ih _ true hnot).after hkeeps
        · rw [if_pos hvalid]
          exact ⟨hkeeps, .inr ⟨rfl, p, mem_append_left _ hp, hnew⟩⟩
      · rw [checkBudgets, if_pos hcount, if_neg hcovers, if_pos hcount, if_neg hcovers]
        exact (ih status true hstatus).after fun p h => h
    · rw [checkBudgets, if_neg hcount, if_neg hcount]
      exact (ih status fThreshold hstatus).after fun p h => h

theorem manager_isTransactionValid (m : CBudgetManager) (txNew : CTransaction) (n : Nat) :
    Settled (due n m.mapFinalizedBudgets) n m.history (m.unpaid txNew n)
      (m.isTransactionValid txNew n) := by
  unfold isTransactionValid unpaid
  dsimp only
  split_ifs
  · exact ⟨fun p h => h, .inl ⟨by simp, rfl⟩⟩
  · exact checkBudgets_settled _ _ _ (by decide)

end

end CBudgetManager

section
variable (params : CChainParams) (pay : PaymentState) (nBlockHeight : Nat)

def PaymentState.withHistory (history : PaymentHistory) : PaymentState :=
  { pay with budget := { pay.budget with history } }

/- What `IsBlockPayeeValid` says of a block when the history is the given one. -/
def payeeVerdict (history : PaymentHistory) (block : CBlock) : Option Bool :=
  (isBlockPayeeValid params (pay.withHistory history) block nBlockHeight).map (·.1)

def judge (history : PaymentHistory) (block : CBlock) : PaymentHistory :=
  match isBlockPayeeValid params (pay.withHistory history) block nBlockHeight with
  | some (_, history) => history
  | none => history

def TakenByBudget (history : PaymentHistory) (block : CBlock) : Prop :=
  pay.synced = true ∧ pay.sporkActive .enableSuperblocks = true ∧
    pay.budget.isBudgetPaymentBlock nBlockHeight = true ∧
    ∃ txNew, block.vtx[if nBlockHeight > params.nLastPOWBlock then 1 else 0]? = some txNew ∧
      ((pay.withHistory history).budget.isTransactionValid txNew nBlockHeight).1 = .valid

def unpaidVerdict (block : CBlock) : Option Bool :=
  if !pay.synced then some true
  else
    (block.vtx[if nBlockHeight > params.nLastPOWBlock then 1 else 0]?).map fun txNew =>
      if pay.sporkActive .enableSuperblocks && pay.budget.isBudgetPaymentBlock nBlockHeight &&
          decide (pay.budget.unpaid txNew nBlockHeight = .inValid) &&
          pay.sporkActive .masternodeBudgetEnforcement then false
      else pay.masternodePaymentValid txNew nBlockHeight ||
        !pay.sporkActive .masternodePaymentEnforcement

end

section
variable {params : CChainParams} {pay : PaymentState} {n : Nat} {history : PaymentHistory}
  {block : CBlock} {p : uint256}

theorem unpaid_withHistory (txNew : CTransaction) :
    (pay.withHistory history).budget.unpaid txNew n = pay.budget.unpaid txNew n := rfl

theorem isBlockPayeeValid_withHistory : isBlockPayeeValid params (pay.withHistory history) block n =
      if !pay.synced then some (true, history)
      else
        (block.vtx[if n > params.nLastPOWBlock then 1 else 0]?).map fun txNew =>
          let masternode := pay.masternodePaymentValid txNew n ||
            !pay.sporkActive .masternodePaymentEnforcement
          let (status, history') := (pay.withHistory history).budget.isTransactionValid txNew n
          if pay.sporkActive .enableSuperblocks && pay.budget.isBudgetPaymentBlock n then
            (if status = .valid then true
              else if status = .inValid ∧ pay.sporkActive .masternodeBudgetEnforcement = true
                then false else masternode, history')
          else (masternode, history) := by
  unfold isBlockPayeeValid
  have hsame : (pay.withHistory history).synced = pay.synced := rfl
  have hspork : (pay.withHistory history).sporkActive = pay.sporkActive := rfl
  have hblock : (pay.withHistory history).budget.isBudgetPaymentBlock n =
      pay.budget.isBudgetPaymentBlock n := rfl
  rw [hsame, hspork, hblock]
  cases pay.synced with
  | false => rfl
  | true =>
    cases block.vtx[if n > params.nLastPOWBlock then 1 else 0]? with
    | none => rfl
    | some txNew =>
      dsimp only [Option.map_some]
      cases hsuper : pay.sporkActive .enableSuperblocks && pay.budget.isBudgetPaymentBlock n with
      | false => rfl
      | true =>
        cases (pay.withHistory history).budget.isTransactionValid txNew n with
        | mk status history' =>
          cases pay.sporkActive .masternodeBudgetEnforcement <;> cases status <;> rfl

theorem payeeVerdict_of_taken (h : TakenByBudget params pay n history block) :
    payeeVerdict params pay n history block = some true := by
  obtain ⟨hsynced, hspork, hblock, txNew, htx, hvalid⟩ := h
  rw [payeeVerdict, isBlockPayeeValid_withHistory, hsynced, hspork, hblock, htx]
  simp [hvalid]

theorem payeeVerdict_of_not_taken (h : ¬ TakenByBudget params pay n history block) :
    payeeVerdict params pay n history block = unpaidVerdict params pay n block := by
  rw [payeeVerdict, isBlockPayeeValid_withHistory, unpaidVerdict]
  cases hsynced : pay.synced with
  | false => rfl
  | true =>
    cases htx : block.vtx[if n > params.nLastPOWBlock then 1 else 0]? with
    | none => rfl
    | some txNew =>
      dsimp only [Option.map_some, Bool.not_true]
      cases hsuper : pay.sporkActive .enableSuperblocks && pay.budget.isBudgetPaymentBlock n with
      | false => rfl
      | true =>
        rw [Bool.and_eq_true] at hsuper
        have hnot : ((pay.withHistory history).budget.isTransactionValid txNew n).1 ≠ .valid :=
          fun hvalid => h ⟨hsynced, hsuper.1, hsuper.2, txNew, htx, hvalid⟩
        have hstatus := ((CBudgetManager.manager_isTransactionValid
          (pay.withHistory history).budget txNew n).outcome.resolve_right fun h => hnot h.1).2
        rw [unpaid_withHistory] at hstatus
        rw [hstatus] at hnot ⊢
        simp [hnot]

theorem judge_keeps (h : (p, n) ∈ history) : (p, n) ∈ judge params pay n history block := by
  rw [judge, isBlockPayeeValid_withHistory]
  cases pay.synced with
  | false => exact h
  | true =>
    cases block.vtx[if n > params.nLastPOWBlock then 1 else 0]? with
    | none => exact h
    | some txNew =>
      cases pay.sporkActive .enableSuperblocks && pay.budget.isBudgetPaymentBlock n with
      | false => exact h
      | true =>
        exact (CBudgetManager.manager_isTransactionValid
          (pay.withHistory history).budget txNew n).keeps p h

theorem judge_notes (h : TakenByBudget params pay n history block) :
    ∃ p ∈ CBudgetManager.due n pay.budget.mapFinalizedBudgets,
      (p, n) ∉ history ∧ (p, n) ∈ judge params pay n history block := by
  obtain ⟨hsynced, hspork, hblock, txNew, htx, hvalid⟩ := h
  rw [judge, isBlockPayeeValid_withHistory, hsynced, hspork, hblock, htx]
  obtain ⟨hnot, -⟩ | ⟨-, hnotes⟩ := (CBudgetManager.manager_isTransactionValid
    (pay.withHistory history).budget txNew n).outcome
  · exact absurd hvalid hnot
  · exact hnotes

def notedDue (pay : PaymentState) (n : Nat) (history : PaymentHistory) : Finset uint256 :=
  (CBudgetManager.due n pay.budget.mapFinalizedBudgets).toFinset.filter fun p => (p, n) ∈ history

theorem card_notedDue_lt (h : TakenByBudget params pay n history block) :
    (notedDue pay n history).card < (notedDue pay n (judge params pay n history block)).card := by
  obtain ⟨p, hp, hnew, hnoted⟩ := judge_notes h
  refine Finset.card_lt_card ((Finset.ssubset_iff_of_subset fun q hq => ?_).mpr ⟨p, ?_, ?_⟩)
  · obtain ⟨hdue, hmem⟩ := Finset.mem_filter.mp hq
    exact Finset.mem_filter.mpr ⟨hdue, judge_keeps hmem⟩
  · exact Finset.mem_filter.mpr ⟨List.mem_toFinset.mpr hp, hnoted⟩
  · exact fun hmem => hnew (Finset.mem_filter.mp hmem).2

/- Each time a budget takes the payment another proposal is noted, so asking about the same
block again and again ends with a block without budget payment. -/
theorem exists_not_taken (params : CChainParams) (pay : PaymentState) (n : Nat)
    (history : PaymentHistory) (block : CBlock) :
    ∃ k, ¬ TakenByBudget params pay n
      (run (judge params pay n) history (List.replicate k block)) block := by
  by_contra hall
  push Not at hall
  have hcard : ∀ k, k ≤ (notedDue pay n
      (run (judge params pay n) history (List.replicate k block))).card := by
    intro k
    induction k with
    | zero => exact Nat.zero_le _
    | succ k ih =>
      rw [replicate_succ', run_concat]
      exact Nat.lt_of_le_of_lt ih (card_notedDue_lt (hall k))
  have hbound : ∀ h, (notedDue pay n h).card ≤
      (CBudgetManager.due n pay.budget.mapFinalizedBudgets).toFinset.card :=
    fun h => card_le_card (filter_subset _ _)
  have htoo := hcard ((CBudgetManager.due n pay.budget.mapFinalizedBudgets).toFinset.card + 1)
  have := hbound (run (judge params pay n) history (List.replicate
    ((CBudgetManager.due n pay.budget.mapFinalizedBudgets).toFinset.card + 1) block))
  omega

/- Of a block of which a budget takes a payment, the answer stays the same however often the
block is judged exactly if the block would also do without. Whatever was judged before, at
this height and in any history, the answer is the same exactly if in addition to these blocks
no budget can take a payment of the block. -/
theorem payee_recheck_iff (params : CChainParams) (pay : PaymentState) (n : Nat) (block : CBlock) :
    (∀ history, TakenByBudget params pay n history block → ((∀ k, payeeVerdict params pay n
          (run (judge params pay n) history (List.replicate k block)) block =
            payeeVerdict params pay n history block) ↔
        unpaidVerdict params pay n block = some true)) ∧
    ((∀ history earlier, payeeVerdict params pay n
        (run (judge params pay n) history earlier) block =
          payeeVerdict params pay n history block) ↔
      unpaidVerdict params pay n block = some true ∨
        ∀ history, ¬ TakenByBudget params pay n history block) := by
  have hends : ∀ history, TakenByBudget params pay n history block → (∀ k, payeeVerdict params pay n
        (run (judge params pay n) history (List.replicate k block)) block =
          payeeVerdict params pay n history block) →
      unpaidVerdict params pay n block = some true := by
    intro history htaken hsame
    obtain ⟨k, hk⟩ := exists_not_taken params pay n history block
    rw [← payeeVerdict_of_not_taken hk, hsame k, payeeVerdict_of_taken htaken]
  have halways : unpaidVerdict params pay n block = some true →
      ∀ history, payeeVerdict params pay n history block = some true := by
    intro hunpaid history
    by_cases htaken : TakenByBudget params pay n history block
    · exact payeeVerdict_of_taken htaken
    · rw [payeeVerdict_of_not_taken htaken, hunpaid]
  refine ⟨fun history htaken => ⟨hends history htaken, fun hunpaid k => ?_⟩, fun hsame => ?_,
    fun h history earlier => ?_⟩
  · rw [halways hunpaid, halways hunpaid]
  · by_contra hnot
    push Not at hnot
    obtain ⟨hunpaid, history, htaken⟩ := hnot
    exact hunpaid (hends history htaken fun k => hsame history (List.replicate k block))
  · rcases h with hunpaid | hnever
    · rw [halways hunpaid, halways hunpaid]
    · rw [payeeVerdict_of_not_taken (hnever _), payeeVerdict_of_not_taken (hnever _)]

end

def onePayment : PaymentState where
  sporkActive _ := true
  synced := true
  budget := { mapFinalizedBudgets := [⟨10, [⟨1, [0x51], 100⟩], 1⟩], countEnabled := 10 }
  masternodePaymentValid _ _ := false

def payingBlock (hash : uint256) : CBlock where
  hashPrevBlock := 0
  hashMerkleRoot := hash
  nTime := 0
  nBits := 0
  nNonce := 0
  vtx := [{ hash, vin := [], vout := [{ nValue := 100, scriptPubKey := [0x51] }] }]

/- The block that pays the budget is good once; judged again it is not, and neither is
another block at its height. -/
theorem payingBlock_judged_again :
    let verdict := payeeVerdict mainParams onePayment 10
    let judged := judge mainParams onePayment 10 [] (payingBlock 1)
    verdict [] (payingBlock 1) = some true ∧ verdict judged (payingBlock 1) = some false ∧
      verdict [] (payingBlock 2) = some true ∧ verdict judged (payingBlock 2) = some false := by
  decide +kernel

end Alqo
