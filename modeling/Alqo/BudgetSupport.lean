import Alqo.Payments

/-!
# The support of a paid budget (masternode-budget.cpp)

The budget with the most votes needs five percent of the masternodes; then a payment of any budget
at most ten percent behind is taken.
-/

namespace Alqo
open List

namespace CFinalizedBudget

structure Tally where
  nBlockStart : Nat
  nPayments : Nat
  nVoteCount : Nat
deriving DecidableEq, Repr

def tally (b : CFinalizedBudget) : Tally := ⟨b.nBlockStart, b.vecBudgetPayments.length, b.nVoteCount⟩

variable {b : CFinalizedBudget}

theorem covers_of_tally {b' : CFinalizedBudget} (h : b'.tally = b.tally) (nBlockHeight : Nat) :
    b'.covers nBlockHeight = b.covers nBlockHeight := by
  simp only [tally, Tally.mk.injEq] at h
  simp only [covers, h.1, h.2.1]

def flat (b : CFinalizedBudget) (nAmount : CAmount) : CFinalizedBudget :=
  { b with vecBudgetPayments := List.replicate b.vecBudgetPayments.length ⟨0, [], nAmount⟩ }

theorem tally_flat (b : CFinalizedBudget) (nAmount : CAmount) : (b.flat nAmount).tally = b.tally := by
  simp [tally, flat]

theorem isTransactionValid_flat {nBlockHeight : Nat} (h : b.covers nBlockHeight = true)
    (nAmount : CAmount) (txNew : CTransaction) (hvout : txNew.vout = [⟨1, [], -10⟩]) :
    (b.flat nAmount).isTransactionValid [] txNew nBlockHeight =
      if nAmount = 1 then (.valid, [(0, nBlockHeight)]) else (.inValid, []) := by
  simp only [covers, Bool.and_eq_true, decide_eq_true_eq] at h
  have hstart : ¬ nBlockHeight < (b.flat nAmount).nBlockStart := by
    change ¬ nBlockHeight < b.nBlockStart
    omega
  have hpayment : (b.flat nAmount).vecBudgetPayments[nBlockHeight - (b.flat nAmount).nBlockStart]? =
      some ⟨0, [], nAmount⟩ := by
    apply getElem?_replicate_of_lt
    change nBlockHeight - b.nBlockStart < _
    omega
  rw [isTransactionValid, if_neg hstart, hpayment, hvout]
  by_cases hamount : nAmount = 1
  · simp [matchOutputs, isPaidAlready, hamount]
  · simp [matchOutputs, hamount]

end CFinalizedBudget

namespace CBudgetManager
open CFinalizedBudget

/-- The budget at which the second loop of `IsTransactionValid` returns. -/
def firstValid (txNew : CTransaction) (nBlockHeight : Nat) (nCountThreshold : Int) :
    List CFinalizedBudget → PaymentHistory → Option CFinalizedBudget
  | [], _ => none
  | b :: rest, history =>
    if nCountThreshold < b.nVoteCount ∧ b.covers nBlockHeight = true then
      match b.isTransactionValid history txNew nBlockHeight with
      | (.valid, _) => some b
      | (_, history) => firstValid txNew nBlockHeight nCountThreshold rest history
    else firstValid txNew nBlockHeight nCountThreshold rest history

/-- The budget whose payment `IsTransactionValid` reports as valid. -/
def paidBudget (m : CBudgetManager) (txNew : CTransaction) (nBlockHeight : Nat) :
    Option CFinalizedBudget :=
  let nHighestCount := highestCount nBlockHeight m.mapFinalizedBudgets 0
  if nHighestCount < m.countEnabled / 20 then none
  else firstValid txNew nBlockHeight (nHighestCount - m.countEnabled / 10) m.mapFinalizedBudgets
    m.history

theorem checkBudgets_valid_iff (txNew : CTransaction) (n : Nat) (nCountThreshold : Int)
    (budgets : List CFinalizedBudget) {status : TrxValidationStatus} (hstatus : status ≠ .valid)
    (fThreshold : Bool) (history : PaymentHistory) :
    (checkBudgets txNew n nCountThreshold budgets status fThreshold history).1 = .valid ↔
      (firstValid txNew n nCountThreshold budgets history).isSome = true := by
  induction budgets generalizing status fThreshold history with
  | nil => cases fThreshold <;> simp [checkBudgets, firstValid, hstatus]
  | cons b rest ih =>
    unfold checkBudgets firstValid
    by_cases hcount : nCountThreshold < b.nVoteCount
    · cases hcovers : b.covers n with
      | false =>
        simp only [hcount, if_true, Bool.false_eq_true, and_false, if_false]
        exact ih hstatus true history
      | true =>
        simp only [hcount, if_true, and_self]
        cases hvalid : b.isTransactionValid history txNew n with
        | mk verdict history' =>
          cases verdict with
          | valid => simp
          | inValid => exact ih (by simp) true history'
          | doublePayment => exact ih (by simp) true history'
          | voteThreshold => exact ih (by simp) true history'
    · simp only [hcount, if_false, false_and]
      exact ih hstatus fThreshold history

theorem isTransactionValid_iff_paid (m : CBudgetManager) (txNew : CTransaction) (n : Nat) :
    (m.isTransactionValid txNew n).1 = .valid ↔ (m.paidBudget txNew n).isSome = true := by
  unfold isTransactionValid paidBudget
  dsimp only
  split_ifs with hfew
  · simp
  · exact checkBudgets_valid_iff txNew n _ _ (by simp) false m.history

variable {n : Nat} {b : CFinalizedBudget} {m : CBudgetManager} {txNew : CTransaction}
  {nCountThreshold : Int} {budgets : List CFinalizedBudget}

theorem firstValid_spec {history : PaymentHistory}
    (h : firstValid txNew n nCountThreshold budgets history = some b) :
    b ∈ budgets ∧ nCountThreshold < b.nVoteCount ∧ b.covers n = true := by
  induction budgets generalizing history with
  | nil => cases h
  | cons c rest ih =>
    unfold firstValid at h
    have hrest : ∀ history, firstValid txNew n nCountThreshold rest history = some b →
        b ∈ c :: rest ∧ nCountThreshold < b.nVoteCount ∧ b.covers n = true := by
      intro history hfound
      obtain ⟨hmem, hvotes⟩ := ih hfound
      exact ⟨mem_cons_of_mem c hmem, hvotes⟩
    split_ifs at h with hask
    · cases hvalid : c.isTransactionValid history txNew n with
      | mk verdict history' =>
        rw [hvalid] at h
        cases verdict with
        | valid =>
          cases h
          exact ⟨mem_cons_self .., hask⟩
        | inValid => exact hrest history' h
        | doublePayment => exact hrest history' h
        | voteThreshold => exact hrest history' h
    · exact hrest history h

def SameVotes (m m' : CBudgetManager) : Prop :=
  m'.countEnabled = m.countEnabled ∧
    m'.mapFinalizedBudgets.map tally = m.mapFinalizedBudgets.map tally

theorem highestCount_congr {budgets' : List CFinalizedBudget} (n : Nat)
    (h : budgets'.map tally = budgets.map tally) (nHighestCount : Int) :
    highestCount n budgets' nHighestCount = highestCount n budgets nHighestCount := by
  induction budgets generalizing budgets' nHighestCount with
  | nil =>
    rw [map_nil, map_eq_nil_iff] at h
    rw [h]
  | cons b rest ih =>
    cases budgets' with
    | nil => simp at h
    | cons b' rest' =>
      simp only [map_cons, List.cons.injEq] at h
      have hvotes : b'.nVoteCount = b.nVoteCount := congrArg Tally.nVoteCount h.1
      unfold highestCount
      rw [hvotes, covers_of_tally h.1]
      split_ifs
      · exact ih h.2 _
      · exact ih h.2 _

/-- Every budget that covers the height and is close enough to the best one has the support
of five percent, or none is paid because the best one has not. -/
def Supported (m : CBudgetManager) (n : Nat) : Prop :=
  highestCount n m.mapFinalizedBudgets 0 < m.countEnabled / 20 ∨
    ∀ b ∈ m.mapFinalizedBudgets, b.covers n = true →
      highestCount n m.mapFinalizedBudgets 0 - m.countEnabled / 10 < b.nVoteCount →
      m.countEnabled / 20 ≤ b.nVoteCount

theorem paidBudget_supported (h : m.Supported n) (hpaid : m.paidBudget txNew n = some b) :
    m.countEnabled / 20 ≤ b.nVoteCount := by
  unfold paidBudget at hpaid
  dsimp only at hpaid
  split_ifs at hpaid with hfew
  obtain ⟨hmem, hvotes, hcovers⟩ := firstValid_spec hpaid
  rcases h with h | h
  · exact absurd h hfew
  · exact h b hmem hcovers hvotes

theorem supported_of_sameVotes {m' : CBudgetManager} (hsame : SameVotes m m') (h : m.Supported n) :
    m'.Supported n := by
  have hhighest := highestCount_congr n hsame.2 0
  rcases h with h | h
  · left
    rw [hhighest, hsame.1]
    exact h
  · right
    intro b' hb' hcovers hvotes
    have htally : b'.tally ∈ m.mapFinalizedBudgets.map tally := by
      rw [← hsame.2]
      exact mem_map_of_mem hb'
    obtain ⟨b, hb, heq⟩ := mem_map.mp htally
    have hcount : b'.nVoteCount = b.nVoteCount := congrArg Tally.nVoteCount heq.symm
    rw [hhighest, hsame.1, hcount] at hvotes
    rw [hsame.1, hcount]
    exact h b hb (by rw [covers_of_tally heq]; exact hcovers) hvotes

def flatTx : CTransaction := { hash := 0, vin := [], vout := [⟨1, [], -10⟩] }

theorem firstValid_flat (before after : List CFinalizedBudget)
    (hvotes : nCountThreshold < b.nVoteCount) (hcovers : b.covers n = true) :
    firstValid flatTx n nCountThreshold (before.map (flat · 0) ++ b.flat 1 :: after) [] =
      some (b.flat 1) := by
  induction before with
  | nil =>
    have hask : nCountThreshold < (b.flat 1).nVoteCount ∧ (b.flat 1).covers n = true :=
      ⟨hvotes, by rw [covers_of_tally (b.tally_flat 1)]; exact hcovers⟩
    simp only [map_nil, nil_append, firstValid]
    rw [if_pos hask, isTransactionValid_flat hcovers 1 flatTx rfl, if_pos rfl]
  | cons c before ih =>
    simp only [map_cons, cons_append]
    unfold firstValid
    split_ifs with hask
    · rw [isTransactionValid_flat (by rw [← covers_of_tally (c.tally_flat 0)]; exact hask.2) 0
        flatTx rfl, if_neg (by decide)]
      exact ih
    · exact ih

theorem exists_sameVotes_paying
    (hhighest : ¬ highestCount n m.mapFinalizedBudgets 0 < m.countEnabled / 20)
    (hb : b ∈ m.mapFinalizedBudgets) (hcovers : b.covers n = true)
    (hvotes : highestCount n m.mapFinalizedBudgets 0 - m.countEnabled / 10 < b.nVoteCount) :
    ∃ m', SameVotes m m' ∧ m'.paidBudget flatTx n = some (b.flat 1) := by
  obtain ⟨before, after, hsplit⟩ := append_of_mem hb
  have htally : (before.map (flat · 0) ++ b.flat 1 :: after).map tally =
      m.mapFinalizedBudgets.map tally := by
    rw [hsplit]
    simp [tally_flat]
  refine ⟨{ mapFinalizedBudgets := before.map (flat · 0) ++ b.flat 1 :: after
            countEnabled := m.countEnabled }, ⟨rfl, htally⟩, ?_⟩
  unfold paidBudget
  rw [highestCount_congr n htally, if_neg hhighest]
  exact firstValid_flat before after hvotes hcovers

/-- Given the votes and the periods of the budgets: whatever they pay, whatever was paid before
and whatever the transaction, a paid budget has five percent of the masternodes exactly if the
votes leave no other choice. -/
theorem paid_supported_iff (m : CBudgetManager) (n : Nat) :
    (∀ m', SameVotes m m' → ∀ txNew, (m'.isTransactionValid txNew n).1 = .valid →
        ∃ b, m'.paidBudget txNew n = some b ∧ m'.countEnabled / 20 ≤ b.nVoteCount) ↔
      m.Supported n := by
  constructor
  · intro h
    by_cases hfew : highestCount n m.mapFinalizedBudgets 0 < m.countEnabled / 20
    · exact .inl hfew
    · right
      intro b hb hcovers hvotes
      obtain ⟨m', hsame, hpaid⟩ := exists_sameVotes_paying hfew hb hcovers hvotes
      have hvalid := (m'.isTransactionValid_iff_paid flatTx n).mpr (by rw [hpaid]; rfl)
      obtain ⟨b', hb', hcount⟩ := h m' hsame flatTx hvalid
      rw [hpaid, Option.some.injEq] at hb'
      rw [← hb', hsame.1] at hcount
      exact hcount
  · intro h m' hsame txNew hvalid
    obtain ⟨b, hpaid⟩ := Option.isSome_iff_exists.mp
      ((m'.isTransactionValid_iff_paid txNew n).mp hvalid)
    exact ⟨b, hpaid, paidBudget_supported (supported_of_sameVotes hsame h) hpaid⟩

def unsupportedBudgets : CBudgetManager where
  mapFinalizedBudgets := [⟨43200, [⟨11, [0x51], 5⟩], 6⟩, ⟨43200, [⟨12, [0x52], 7⟩], 0⟩]
  countEnabled := 100

/-- The payment of the budget without votes is valid. -/
theorem unsupportedBudgets_paid : (unsupportedBudgets.isTransactionValid
      { hash := 0, vin := [], vout := [⟨7, [0x52], -10⟩] } 43200).1 = .valid ∧
    unsupportedBudgets.paidBudget { hash := 0, vin := [], vout := [⟨7, [0x52], -10⟩] } 43200 =
      some ⟨43200, [⟨12, [0x52], 7⟩], 0⟩ ∧
    unsupportedBudgets.countEnabled / 20 = 5 := by
  decide

end CBudgetManager

end Alqo
