import Alqo.BlockIndex

/-!
# Budget and masternode payments (masternode-payments.cpp, masternode-budget.cpp)

Finalized budgets are listed in the order of their map, and the payment history is the one map that
all budgets share. What the masternode vote asks of a transaction is a parameter.
-/

namespace Alqo

inductive Spork where
  /-- `SPORK_3_SWIFTTX_BLOCK_FILTERING` -/
  | swiftTxBlockFiltering
  /-- `SPORK_8_MASTERNODE_PAYMENT_ENFORCEMENT` -/
  | masternodePaymentEnforcement
  /-- `SPORK_9_MASTERNODE_BUDGET_ENFORCEMENT` -/
  | masternodeBudgetEnforcement
  /-- `SPORK_13_ENABLE_SUPERBLOCKS` -/
  | enableSuperblocks
  /-- `SPORK_17_CHOKE_CONTROL_MODE` -/
  | chokeControlMode
deriving DecidableEq, Repr

structure CTxBudgetPayment where
  nProposalHash : uint256
  payee : CScript
  nAmount : CAmount
deriving DecidableEq, Repr

structure CFinalizedBudget where
  nBlockStart : Nat
  vecBudgetPayments : List CTxBudgetPayment
  /-- `mapVotes.size()` -/
  nVoteCount : Nat
deriving DecidableEq, Repr

inductive TrxValidationStatus where
  | inValid
  | valid
  | doublePayment
  | voteThreshold
deriving DecidableEq, Repr

/-- `mapPayment_History`: proposals paid, with the height. -/
abbrev PaymentHistory := List (uint256 × Nat)

namespace CFinalizedBudget

variable (b : CFinalizedBudget)

/-- The heights from `GetBlockStart()` to `GetBlockEnd()`; no height if there are
no payments. -/
def covers (nBlockHeight : Nat) : Bool :=
  decide (b.nBlockStart ≤ nBlockHeight) &&
    decide (nBlockHeight < b.nBlockStart + b.vecBudgetPayments.length)

/- Forget what was paid
outside this cycle, then look the proposal up and note it if it is new. -/
def isPaidAlready (history : PaymentHistory) (nProposalHash : uint256) (nBlockHeight : Nat) :
    Bool × PaymentHistory :=
  let current := history.filter fun paid => b.covers paid.2
  if current.any fun paid => paid.1 == nProposalHash then (true, current)
  else (false, (nProposalHash, nBlockHeight) :: current)

/-- Loop over the outputs in `IsTransactionValid`. -/
def matchOutputs (b : CFinalizedBudget) (payment : CTxBudgetPayment) (nBlockHeight : Nat) :
    List CTxOut → TrxValidationStatus → PaymentHistory → TrxValidationStatus × PaymentHistory
  | [], status, history => (status, history)
  | out :: rest, status, history =>
    if payment.payee = out.scriptPubKey ∧ payment.nAmount = out.nValue then
      match b.isPaidAlready history payment.nProposalHash nBlockHeight with
      | (true, history) => (.doublePayment, history)
      | (false, history) => matchOutputs b payment nBlockHeight rest .valid history
    else matchOutputs b payment nBlockHeight rest status history

def isTransactionValid (history : PaymentHistory) (txNew : CTransaction) (nBlockHeight : Nat) :
    TrxValidationStatus × PaymentHistory :=
  if nBlockHeight < b.nBlockStart then (.inValid, history)
  else
    match b.vecBudgetPayments[nBlockHeight - b.nBlockStart]? with
    | none => (.inValid, history)
    | some payment => b.matchOutputs payment nBlockHeight txNew.vout .inValid history

end CFinalizedBudget

structure CBudgetManager where
  mapFinalizedBudgets : List CFinalizedBudget := []
  /-- `mnodeman.CountEnabled(ActiveProtocol())` -/
  countEnabled : Nat := 0
  history : PaymentHistory := []

namespace CBudgetManager

/-- The most votes a budget that covers the height has, from `nHighestCount` up. -/
def highestCount (nBlockHeight : Nat) : List CFinalizedBudget → Int → Int
  | [], nHighestCount => nHighestCount
  | b :: rest, nHighestCount =>
    if nHighestCount < b.nVoteCount ∧ b.covers nBlockHeight = true then
      highestCount nBlockHeight rest b.nVoteCount
    else highestCount nBlockHeight rest nHighestCount

variable (m : CBudgetManager)

def isBudgetPaymentBlock (nBlockHeight : Nat) : Bool :=
  decide (highestCount nBlockHeight m.mapFinalizedBudgets (-1) > m.countEnabled / 20)

/-- Second loop of `IsTransactionValid`. -/
def checkBudgets (txNew : CTransaction) (nBlockHeight : Nat) (nCountThreshold : Int) :
    List CFinalizedBudget → TrxValidationStatus → (fThreshold : Bool) → PaymentHistory →
      TrxValidationStatus × PaymentHistory
  | [], status, fThreshold, history => (if fThreshold then status else .voteThreshold, history)
  | b :: rest, status, fThreshold, history =>
    if nCountThreshold < b.nVoteCount then
      if b.covers nBlockHeight then
        match b.isTransactionValid history txNew nBlockHeight with
        | (.valid, history) => (.valid, history)
        | (status, history) => checkBudgets txNew nBlockHeight nCountThreshold rest status true history
      else checkBudgets txNew nBlockHeight nCountThreshold rest status true history
    else checkBudgets txNew nBlockHeight nCountThreshold rest status fThreshold history

def isTransactionValid (txNew : CTransaction) (nBlockHeight : Nat) :
    TrxValidationStatus × PaymentHistory :=
  let nHighestCount := highestCount nBlockHeight m.mapFinalizedBudgets 0
  if nHighestCount < m.countEnabled / 20 then (.inValid, m.history)
  else
    checkBudgets txNew nBlockHeight (nHighestCount - m.countEnabled / 10) m.mapFinalizedBudgets
      .inValid false m.history

/-- Loop of `FillBlockPayee`: the amount the
budget with the most votes pays at a height, zero if there is none. -/
def winningAmount (nBlockHeight : Nat) : List CFinalizedBudget → (nHighestCount : Nat) →
    CAmount → CAmount
  | [], _, nAmount => nAmount
  | b :: rest, nHighestCount, nAmount =>
    if nHighestCount < b.nVoteCount ∧ b.covers nBlockHeight = true then
      match b.vecBudgetPayments[nBlockHeight - b.nBlockStart]? with
      | some payment => winningAmount nBlockHeight rest b.nVoteCount payment.nAmount
      | none => winningAmount nBlockHeight rest nHighestCount nAmount
    else winningAmount nBlockHeight rest nHighestCount nAmount

def budgetPayment (nBlockHeight : Nat) : CAmount :=
  winningAmount nBlockHeight m.mapFinalizedBudgets 0 0

end CBudgetManager

structure ChainState where
  mapBlockIndex : BlockMap
  chainActive : List uint256

namespace ChainState

/-- `chainActive.Tip()`. -/
def tip (chain : ChainState) : Option (uint256 × CBlockIndex) :=
  match chain.chainActive.getLast? with
  | none => none
  | some hash => (chain.mapBlockIndex.lookup hash).map fun index => (hash, index)

/-- The height of a block by its parent, zero if that is not known. -/
def heightAfter (chain : ChainState) (hashPrevBlock : uint256) : Nat :=
  match chain.tip with
  | none => 0
  | some (hash, index) =>
    if hash = hashPrevBlock then index.nHeight + 1
    else
      match chain.mapBlockIndex.lookup hashPrevBlock with
      | some index => index.nHeight + 1
      | none => 0

end ChainState

structure PaymentState where
  sporkActive : Spork → Bool
  /-- `masternodeSync.IsSynced()` -/
  synced : Bool
  budget : CBudgetManager
  /-- `masternodePayments.IsTransactionValid` -/
  masternodePaymentValid : CTransaction → Nat → Bool

def isBlockValueValid (params : CChainParams) (pay : PaymentState) (chain : ChainState)
    (hashPrevBlock : uint256) (nExpectedValue nMinted : CAmount) : Bool :=
  if chain.tip.isNone then true
  else
    let nHeight := chain.heightAfter hashPrevBlock
    if !pay.synced then
      if nHeight % params.nBudgetCycleBlocks < 100 then true
      else !decide (nMinted > nExpectedValue)
    else if !pay.sporkActive .enableSuperblocks then decide (nMinted ≤ nExpectedValue)
    else if pay.budget.isBudgetPaymentBlock nHeight then true
    else !decide (nMinted > nExpectedValue)

/- masternode-payments.cpp:278-321 and the payment
history it leaves; `none` is an access past the end of `vtx`. -/
def isBlockPayeeValid (params : CChainParams) (pay : PaymentState) (block : CBlock)
    (nBlockHeight : Nat) : Option (Bool × PaymentHistory) :=
  if !pay.synced then some (true, pay.budget.history)
  else
    match block.vtx[if nBlockHeight > params.nLastPOWBlock then 1 else 0]? with
    | none => none
    | some txNew =>
      let masternode := pay.masternodePaymentValid txNew nBlockHeight ||
        !pay.sporkActive .masternodePaymentEnforcement
      if pay.sporkActive .enableSuperblocks && pay.budget.isBudgetPaymentBlock nBlockHeight then
        match pay.budget.isTransactionValid txNew nBlockHeight with
        | (.valid, history) => some (true, history)
        | (.inValid, history) =>
          if pay.sporkActive .masternodeBudgetEnforcement then some (false, history)
          else some (masternode, history)
        | (_, history) => some (masternode, history)
      else some (masternode, pay.budget.history)

end Alqo
