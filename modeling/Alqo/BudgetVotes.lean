import Alqo.SwiftTx
import Alqo.Lib.BallotBox

/-!
# Budget proposals, finalized budgets and their votes (masternode-budget.h, masternode-budget.cpp)

Proposals and finalized budgets are handled alike: `VoteBook` is what the manager keeps for either
kind. Relaying, asking peers for unknown items and the times of collateral transactions are left
out.
-/

namespace Alqo.BudgetVotes

def BUDGET_VOTE_UPDATE_MIN : Int64 := 60 * 60
def PROPOSAL_FEE_TX : CAmount := 50 * COIN
def BUDGET_FEE_TX : CAmount := 5 * COIN
/-- `nBudget_Fee_Confirmations`, the same on every network. -/
def BUDGET_FEE_CONFIRMATIONS : Int := 6

structure BudgetContext where
  params : CChainParams
  /-- `NetworkID() == TESTNET` -/
  fTestNet : Bool := false
  fLiteMode : Bool := false
  fBlockchainSynced : Bool := true
  /-- `masternodeSync.IsSynced()` -/
  fSynced : Bool := true
  /-- `GetTime()` -/
  nTime : Int64
  mnodeman : CMasternodeMan
  /-- `mnodeman.CountEnabled(ActiveProtocol())` -/
  nCountEnabled : Int := 0
  /-- `GetTransaction`, with the block the transaction is in. -/
  getTransaction : uint256 → Option (CTransaction × uint256)
  getIXConfirmations : uint256 → Int := fun _ => 0
  /-- Height of a block, if it is on the active chain. -/
  activeHeight : uint256 → Option Nat
  /-- `chainActive.Height()`, if there is a tip. -/
  tipHeight : Option Nat

/-- `CScript() << OP_RETURN << ToByteVector(nExpectedHash)` -/
def findScript (nExpectedHash : uint256) : CScript :=
  0x6a :: 0x20 :: leBytes 32 nExpectedHash.toNat

/-- Loop over the outputs of the collateral: `none` for a script that is neither a
payment nor unspendable, else whether the fee was found. -/
def findOpReturn (script : CScript) (fee : CAmount) :
    List CTxOut → (foundOpReturn : Bool) → Option Bool
  | [], foundOpReturn => some foundOpReturn
  | o :: rest, foundOpReturn =>
    if !isNormalPaymentScript o.scriptPubKey && !isUnspendable o.scriptPubKey then none
    else findOpReturn script fee rest
      (foundOpReturn || (o.scriptPubKey == script && decide (fee ≤ o.nValue)))

/- masternode-budget.cpp:28-108 with `nConf`. -/
def isBudgetCollateralValid (ctx : BudgetContext) (nTxCollateralHash nExpectedHash : uint256)
    (fBudgetFinalization : Bool) : Bool × Int :=
  match ctx.getTransaction nTxCollateralHash with
  | none => (false, 0)
  | some (txCollateral, nBlockHash) =>
    if txCollateral.vout.length < 1 then (false, 0)
    else if txCollateral.nLockTime ≠ 0 then (false, 0)
    else
      match findOpReturn (findScript nExpectedHash)
          (if fBudgetFinalization then BUDGET_FEE_TX else PROPOSAL_FEE_TX)
          txCollateral.vout false with
      | none => (false, 0)
      | some false => (false, 0)
      | some true =>
        let inChain : Int :=
          if nBlockHash ≠ 0 then
            match ctx.activeHeight nBlockHash, ctx.tipHeight with
            | some nHeight, some tip => tip - nHeight + 1
            | _, _ => 0
          else 0
        let conf := ctx.getIXConfirmations nTxCollateralHash + inChain
        (decide (BUDGET_FEE_CONFIRMATIONS ≤ conf), conf)

def getTotalBudget (ctx : BudgetContext) (nHeight : Int) : CAmount :=
  if ctx.tipHeight.isNone then 0
  else if ctx.fTestNet then 500 * COIN / 100 * 10 * 146
  else
    let nSubsidy : CAmount :=
      if nHeight ≤ ctx.params.nLastPOWBlock ∧ nHeight ≥ 151200 then 50 * COIN
      else if nHeight ≤ 302399 ∧ nHeight > ctx.params.nLastPOWBlock then 50 * COIN
      else if nHeight ≤ 345599 ∧ nHeight ≥ 302400 then 45 * COIN
      else if nHeight ≤ 388799 ∧ nHeight ≥ 345600 then 40 * COIN
      else if nHeight ≤ 431999 ∧ nHeight ≥ 388800 then 35 * COIN
      else if nHeight ≤ 475199 ∧ nHeight ≥ 432000 then 30 * COIN
      else if nHeight ≤ 518399 ∧ nHeight ≥ 475200 then 25 * COIN
      else if nHeight ≤ 561599 ∧ nHeight ≥ 518400 then 20 * COIN
      else if nHeight ≤ 604799 ∧ nHeight ≥ 561600 then 15 * COIN
      else if nHeight ≤ 647999 ∧ nHeight ≥ 604800 then 10 * COIN
      else 5 * COIN
    if nHeight ≤ 172800 then 648000 * COIN
    else nSubsidy / 100 * 10 * 1440 * 30

structure CBudgetProposal where
  strProposalName : Bytes
  strURL : Bytes
  nBlockStart : Int
  nBlockEnd : Int
  nAmount : CAmount
  address : CScript
  nFeeTXHash : uint256
deriving DecidableEq, Repr

structure CFinalizedBudget where
  strBudgetName : Bytes
  nBlockStart : Int
  vecBudgetPayments : List CTxBudgetPayment
  nFeeTXHash : uint256
deriving DecidableEq, Repr

def stringBytes (s : Bytes) : Bytes := compactSize s.length ++ s

def int32Bytes (n : Int) : Bytes := leBytes 4 (n % 2 ^ 32).toNat

def amountBytes (n : Int64) : Bytes := leBytes 8 n.toUInt64.toNat

def CBudgetProposal.getHash (Hash : Bytes → uint256) (p : CBudgetProposal) : uint256 :=
  Hash (stringBytes p.strProposalName ++ stringBytes p.strURL ++ int32Bytes p.nBlockStart ++
    int32Bytes p.nBlockEnd ++ amountBytes p.nAmount ++ stringBytes p.address)

def CFinalizedBudget.getHash (Hash : Bytes → uint256) (b : CFinalizedBudget) : uint256 :=
  Hash (stringBytes b.strBudgetName ++ int32Bytes b.nBlockStart ++
    compactSize b.vecBudgetPayments.length ++
    (b.vecBudgetPayments.map fun payment =>
      stringBytes payment.payee ++ amountBytes payment.nAmount ++
        leBytes 32 payment.nProposalHash.toNat).flatten)

/- masternode-budget.cpp:1478-1552 of a proposal
that has no votes yet. -/
def CBudgetProposal.isValid (Hash : Bytes → uint256) (ctx : BudgetContext)
    (p : CBudgetProposal) : Bool :=
  let nCycle : Int := ctx.params.nBudgetCycleBlocks
  if (0 : Int) - 0 > ctx.nCountEnabled.tdiv 10 then false
  else if p.nBlockStart < 0 then false
  else if p.nBlockEnd < p.nBlockStart then false
  else if p.nAmount < 10 * COIN then false
  else if p.address = [] then false
  else if (isBudgetCollateralValid ctx p.nFeeTXHash (p.getHash Hash) false).1 = false then false
  else if CScript.isPayToScriptHash p.address then false
  else if p.nAmount > getTotalBudget ctx p.nBlockStart then false
  else
    match ctx.tipHeight with
    | none => true
    | some nHeight =>
      let nBlockStartCycle := p.nBlockStart - p.nBlockStart.tmod nCycle
      let nTotalPaymentCount := (p.nBlockEnd - nBlockStartCycle).tdiv nCycle
      !decide (p.nBlockStart + nCycle * nTotalPaymentCount < nHeight)

/- `GetTotalPayout`
adds up the payments. -/
def CFinalizedBudget.isValid (Hash : Bytes → uint256) (ctx : BudgetContext)
    (b : CFinalizedBudget) : Bool :=
  let nCycle : Int := ctx.params.nBudgetCycleBlocks
  let nBlockEnd : Int := b.nBlockStart + (b.vecBudgetPayments.length - 1)
  if b.nBlockStart.tmod nCycle ≠ 0 then false
  else if nBlockEnd - b.nBlockStart > 100 then false
  else if b.vecBudgetPayments.length > 100 then false
  else if b.strBudgetName = [] then false
  else if b.nBlockStart = 0 then false
  else if b.nFeeTXHash = 0 then false
  else if b.vecBudgetPayments.foldl (fun ret payment => ret + payment.nAmount) 0 >
      getTotalBudget ctx b.nBlockStart then false
  else if (isBudgetCollateralValid ctx b.nFeeTXHash (b.getHash Hash) true).1 = false then false
  else
    match ctx.tipHeight with
    | none => true
    | some nHeight =>
      let nBlockStart := nHeight - (nHeight : Int).tmod nCycle + nCycle
      !decide (nBlockEnd < nBlockStart - 2 * nCycle)

structure CBudgetVote where
  vin : CTxIn
  nProposalHash : uint256
  nVote : Int
  nTime : Int64
  vchSig : Bytes := []
  nMessVersion : Int := MESS_VER_HASH
deriving DecidableEq, Repr

structure CFinalizedBudgetVote where
  vin : CTxIn
  nBudgetHash : uint256
  nTime : Int64
  vchSig : Bytes := []
  nMessVersion : Int := MESS_VER_HASH
deriving DecidableEq, Repr

def outPointBytes (o : COutPoint) : Bytes := leBytes 32 o.hash.toNat ++ leBytes 4 o.n

def txInBytes (i : CTxIn) : Bytes :=
  outPointBytes i.prevout ++ stringBytes i.scriptSig ++ leBytes 4 i.nSequence

def CBudgetVote.getHash (Hash : Bytes → uint256) (vote : CBudgetVote) : uint256 :=
  Hash (txInBytes vote.vin ++ leBytes 32 vote.nProposalHash.toNat ++ int32Bytes vote.nVote ++
    amountBytes vote.nTime)

def CFinalizedBudgetVote.getHash (Hash : Bytes → uint256) (vote : CFinalizedBudgetVote) :
    uint256 :=
  Hash (txInBytes vote.vin ++ leBytes 32 vote.nBudgetHash.toNat ++ amountBytes vote.nTime)

/-- `COutPoint::GetHash`. -/
def outPointHash (Hash : Bytes → uint256) (o : COutPoint) : uint256 := Hash (outPointBytes o)

structure ItemKind (I : Type) where
  getHash : I → uint256
  nFeeTXHash : I → uint256
  fBudgetFinalization : Bool
  isValid : BudgetContext → I → Bool

structure VoteKind (V : Type) where
  vin : V → CTxIn
  nItemHash : V → uint256
  nTime : V → Int64
  getHash : V → uint256
  checkSignature : CMasternodeMan → V → Bool
  /-- Key of the voter in `mapVotes`. -/
  voter : V → uint256

structure VoteBook (I V : Type) where
  mapItems : uint256 → Option (I × (uint256 → Option V)) := fun _ => none
  mapSeenItems : uint256 → Option I := fun _ => none
  mapSeenVotes : uint256 → Option V := fun _ => none
  mapOrphanVotes : AList fun _ : uint256 => V := ∅
  vecImmature : List I := []

section
variable {I V : Type}

def storeVote (K : VoteKind V) (nTime : Int64) (mapVotes : uint256 → Option V) (vote : V) :
    Bool × (uint256 → Option V) :=
  if K.nTime vote > nTime + 60 * 60 then (false, mapVotes)
  else (true, Function.update mapVotes (K.voter vote) (some vote))

def addOrUpdateVote (K : VoteKind V) (nTime : Int64) (mapVotes : uint256 → Option V) (vote : V) :
    Bool × (uint256 → Option V) :=
  match mapVotes (K.voter vote) with
  | some old =>
    if K.nTime old > K.nTime vote then (false, mapVotes)
    else if K.nTime vote - K.nTime old < BUDGET_VOTE_UPDATE_MIN then (false, mapVotes)
    else storeVote K nTime mapVotes vote
  | none => storeVote K nTime mapVotes vote

namespace VoteBook

/-- `UpdateProposal` and `UpdateFinalizedBudget`;
`fFromPeer` is `pfrom != NULL`. -/
def update (K : VoteKind V) (ctx : BudgetContext) (fFromPeer : Bool) (s : VoteBook I V)
    (vote : V) : Bool × VoteBook I V :=
  match s.mapItems (K.nItemHash vote) with
  | none =>
    if fFromPeer && ctx.fSynced then
      (false, { s with mapOrphanVotes := s.mapOrphanVotes.insert (K.nItemHash vote) vote })
    else (false, s)
  | some (item, mapVotes) =>
    let (fAdded, mapVotes) := addOrUpdateVote K ctx.nTime mapVotes vote
    (fAdded, { s with
      mapItems := Function.update s.mapItems (K.nItemHash vote) (some (item, mapVotes)) })

/-- One turn of a loop of `CheckOrphanVotes`. -/
def checkOrphan (K : VoteKind V) (ctx : BudgetContext) (s : VoteBook I V)
    (orphan : Sigma fun _ : uint256 => V) : VoteBook I V :=
  match s.update K ctx false orphan.2 with
  | (true, s) => { s with mapOrphanVotes := s.mapOrphanVotes.erase orphan.1 }
  | (false, s) => s

/-- A loop of `CheckOrphanVotes`. -/
def checkOrphans (K : VoteKind V) (ctx : BudgetContext) (s : VoteBook I V) : VoteBook I V :=
  s.mapOrphanVotes.entries.foldl (checkOrphan K ctx) s

/-- `AddProposal` and `AddFinalizedBudget`. -/
def addItem (L : ItemKind I) (ctx : BudgetContext) (s : VoteBook I V) (item : I) :
    VoteBook I V :=
  if ¬ L.isValid ctx item then s
  else if (s.mapItems (L.getHash item)).isSome then s
  else { s with
    mapItems := Function.update s.mapItems (L.getHash item) (some (item, fun _ => none)) }

/-- The `mprop` and `fbs` branches of `ProcessMessage` up to the check of the orphan
votes, and whether it is reached. -/
def processItem (L : ItemKind I) (ctx : BudgetContext) (s : VoteBook I V) (item : I) :
    Bool × VoteBook I V :=
  if (s.mapSeenItems (L.getHash item)).isSome then (false, s)
  else
    match isBudgetCollateralValid ctx (L.nFeeTXHash item) (L.getHash item)
        L.fBudgetFinalization with
    | (false, nConf) =>
      (false, if 1 ≤ nConf then { s with vecImmature := s.vecImmature ++ [item] } else s)
    | (true, _) =>
      let s := { s with
        mapSeenItems := Function.update s.mapSeenItems (L.getHash item) (some item) }
      if ¬ L.isValid ctx item then (false, s) else (true, s.addItem L ctx item)

/-- The `mvote` and `fbvote` branches of `ProcessMessage`. -/
def processVote (K : VoteKind V) (ctx : BudgetContext) (s : VoteBook I V) (vote : V) :
    VoteBook I V :=
  if (s.mapSeenVotes (K.getHash vote)).isSome then s
  else if (ctx.mnodeman.find (K.vin vote).prevout).isNone then s
  else
    let s := { s with mapSeenVotes := Function.update s.mapSeenVotes (K.getHash vote) (some vote) }
    if ¬ K.checkSignature ctx.mnodeman vote then s
    else (s.update K ctx true vote).2

end VoteBook

end

structure BudgetKeys where
  Hash : Bytes → uint256
  budgetVote : Verifier CBudgetVote
  finalizedBudgetVote : Verifier CFinalizedBudgetVote

section
variable (keys : BudgetKeys)

def proposalKind : ItemKind CBudgetProposal where
  getHash := CBudgetProposal.getHash keys.Hash
  nFeeTXHash := CBudgetProposal.nFeeTXHash
  fBudgetFinalization := false
  isValid := CBudgetProposal.isValid keys.Hash

def finalizedBudgetKind : ItemKind CFinalizedBudget where
  getHash := CFinalizedBudget.getHash keys.Hash
  nFeeTXHash := CFinalizedBudget.nFeeTXHash
  fBudgetFinalization := true
  isValid := CFinalizedBudget.isValid keys.Hash

def budgetVoteKind : VoteKind CBudgetVote where
  vin := CBudgetVote.vin
  nItemHash := CBudgetVote.nProposalHash
  nTime := CBudgetVote.nTime
  getHash := CBudgetVote.getHash keys.Hash
  checkSignature mnodeman vote := mnodeman.checkSignature vote.vin.prevout true
    (keys.budgetVote.checkSignature vote.nMessVersion (vote.getHash keys.Hash) vote vote.vchSig)
  voter vote := outPointHash keys.Hash vote.vin.prevout

def finalizedBudgetVoteKind : VoteKind CFinalizedBudgetVote where
  vin := CFinalizedBudgetVote.vin
  nItemHash := CFinalizedBudgetVote.nBudgetHash
  nTime := CFinalizedBudgetVote.nTime
  getHash := CFinalizedBudgetVote.getHash keys.Hash
  checkSignature mnodeman vote := mnodeman.checkSignature vote.vin.prevout true
    (keys.finalizedBudgetVote.checkSignature vote.nMessVersion (vote.getHash keys.Hash) vote
      vote.vchSig)
  voter vote := outPointHash keys.Hash vote.vin.prevout

structure CBudgetManager where
  /-- `mapProposals`, `mapSeenMasternodeBudgetProposals`, `mapSeenMasternodeBudgetVotes`,
  `mapOrphanMasternodeBudgetVotes`, `vecImmatureBudgetProposals` -/
  proposals : VoteBook CBudgetProposal CBudgetVote := {}
  /-- `mapFinalizedBudgets`, `mapSeenFinalizedBudgets`, `mapSeenFinalizedBudgetVotes`,
  `mapOrphanFinalizedBudgetVotes`, `vecImmatureFinalizedBudgets` -/
  finalizedBudgets : VoteBook CFinalizedBudget CFinalizedBudgetVote := {}

inductive BudgetMessage where
  | mprop (budgetProposalBroadcast : CBudgetProposal) (ctx : BudgetContext)
  | mvote (vote : CBudgetVote) (ctx : BudgetContext)
  | fbs (finalizedBudgetBroadcast : CFinalizedBudget) (ctx : BudgetContext)
  | fbvote (vote : CFinalizedBudgetVote) (ctx : BudgetContext)

def BudgetMessage.ctx : BudgetMessage → BudgetContext
  | .mprop _ ctx => ctx
  | .mvote _ ctx => ctx
  | .fbs _ ctx => ctx
  | .fbvote _ ctx => ctx

namespace CBudgetManager

def checkOrphanVotes (ctx : BudgetContext) (s : CBudgetManager) : CBudgetManager where
  proposals := s.proposals.checkOrphans (budgetVoteKind keys) ctx
  finalizedBudgets := s.finalizedBudgets.checkOrphans (finalizedBudgetVoteKind keys) ctx

/-- The branches of `ProcessMessage`. -/
def handle (s : CBudgetManager) : BudgetMessage → CBudgetManager
  | .mprop item ctx =>
    match s.proposals.processItem (proposalKind keys) ctx item with
    | (true, proposals) => { s with proposals }.checkOrphanVotes keys ctx
    | (false, proposals) => { s with proposals }
  | .mvote vote ctx =>
    { s with proposals := s.proposals.processVote (budgetVoteKind keys) ctx vote }
  | .fbs item ctx =>
    match s.finalizedBudgets.processItem (finalizedBudgetKind keys) ctx item with
    | (true, finalizedBudgets) => { s with finalizedBudgets }.checkOrphanVotes keys ctx
    | (false, finalizedBudgets) => { s with finalizedBudgets }
  | .fbvote vote ctx =>
    { s with
      finalizedBudgets := s.finalizedBudgets.processVote (finalizedBudgetVoteKind keys) ctx vote }

def processMessage (s : CBudgetManager) (e : BudgetMessage) : CBudgetManager :=
  if e.ctx.fLiteMode then s
  else if ¬ e.ctx.fBlockchainSynced then s
  else s.handle keys e

end CBudgetManager

end

end Alqo.BudgetVotes
