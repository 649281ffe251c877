import Alqo.CoinsView
import Alqo.Sha256
import Alqo.Lib.Fallible

/-!
# Connecting a block (main.cpp)

The undo file, the transaction index and the timing statistics are left out.
-/

namespace Alqo
open Lib.Fallible

structure CScriptCheck where
  tx : CTransaction
  nIn : Nat
  out : CTxOut

section
variable (node : Node) (view : CoinsView)

/-- One turn of the first loop of `CheckInputs`: the sum of
the inputs after this one. -/
def checkInputValue (nSpendHeight : Nat) (prevout : COutPoint) (nValueIn : CAmount) :
    Except Failure CAmount :=
  match view.accessCoins prevout.hash with
  | none => .error (.assertion "coins")
  | some coins =>
    if (coins.fCoinBase || coins.fCoinStake) &&
        decide ((nSpendHeight : Int) - coins.nHeight < node.params.nMaturity) then
      invalid "bad-txns-premature-spend-of-coinbase"
    else
      match coins.vout[prevout.n]? with
      | none => .error .outOfBounds
      | some out =>
        if !moneyRange node.params out.nValue || !moneyRange node.params (nValueIn + out.nValue) then
          dos 100 "bad-txns-inputvalues-outofrange"
        else .ok (nValueIn + out.nValue)

def checkInputValues (nSpendHeight : Nat) : List COutPoint → CAmount → Except Failure CAmount
  | [], nValueIn => .ok nValueIn
  | prevout :: rest, nValueIn =>
    match checkInputValue node view nSpendHeight prevout nValueIn with
    | .error e => .error e
    | .ok nValueIn => checkInputValues nSpendHeight rest nValueIn

variable (tx : CTransaction)

/-- `tx.GetValueOut()` where an exception leaves the caller. -/
def valueOut : Except Failure CAmount :=
  match tx.getValueOut with
  | .ok v => .ok v
  | .error what => .error (.throws what)

/-- The fee checks of `CheckInputs`. -/
def checkFee (nValueIn : CAmount) : Except Failure Unit :=
  if tx.isCoinStake then .ok ()
  else
    match valueOut tx with
    | .error e => .error e
    | .ok nValueOut =>
      if nValueIn < nValueOut then dos 100 "bad-txns-in-belowout"
      else if nValueIn - nValueOut < 0 then dos 100 "bad-txns-fee-negative"
      else if !moneyRange node.params (0 + (nValueIn - nValueOut)) then
        dos 100 "bad-txns-fee-outofrange"
      else .ok ()

/-- Second loop of `CheckInputs`, at input `nIn`. -/
def checkScripts (tx : CTransaction) : Nat → List CTxIn → Except Failure (List CScriptCheck)
  | _, [] => .ok []
  | nIn, txin :: rest =>
    match view.unspent txin.prevout with
    | none => .error .outOfBounds
    | some out =>
      if !node.scriptCheckThreads && !node.verifyScript false tx nIn out then
        if node.verifyScript true tx nIn out then invalid "non-mandatory-script-verify-flag"
        else dos 100 "mandatory-script-verify-flag-failed"
      else
        match checkScripts tx (nIn + 1) rest with
        | .error e => .error e
        | .ok vChecks =>
          .ok (if node.scriptCheckThreads then ⟨tx, nIn, out⟩ :: vChecks else vChecks)

/- The checks that are still to be run. -/
def checkInputs (fScriptChecks : Bool) : Except Failure (List CScriptCheck) :=
  if tx.isCoinBase then .ok []
  else if !view.haveInputs tx then invalid ""
  else
    match node.mapBlockIndex.lookup view.hashBlock with
    | none => .error .outOfBounds
    | some pindexPrev =>
      match checkInputValues node view (pindexPrev.nHeight + 1) tx.prevouts 0 with
      | .error e => .error e
      | .ok nValueIn =>
        match checkFee node tx nValueIn with
        | .error e => .error e
        | .ok _ => if fScriptChecks then checkScripts node view tx 0 tx.vin else .ok []

end

/-- What the loop of `ConnectBlock` carries along. -/
structure ConnectState where
  view : CoinsView
  nFees : CAmount := 0
  nValueOut : CAmount := 0
  nValueIn : CAmount := 0
  nSigOps : Nat := 0
  vtxundo : List CTxUndo := []
  vChecks : List CScriptCheck := []

/-- `coins && !coins->IsPruned()`. -/
def CoinsView.overwrites (view : CoinsView) (txid : uint256) : Bool :=
  match view.accessCoins txid with
  | some coins => !coins.isPruned
  | none => false

section
variable (node : Node) (fScriptChecks : Bool) (tx : CTransaction)

/-- `nFees` after a transaction. -/
def feesAfter (valueIn nFees : CAmount) : Except Failure CAmount :=
  if tx.isCoinStake then .ok nFees
  else
    match valueOut tx with
    | .error e => .error e
    | .ok out => .ok (nFees + (valueIn - out))

/-- The part of the loop for transactions with inputs. -/
def connectInputs (s : ConnectState) : Except Failure ConnectState :=
  if tx.isCoinBase then .ok s
  else if !s.view.haveInputs tx then dos 100 "bad-txns-inputs-missingorspent"
  else
    match s.view.getP2SHSigOpCount tx with
    | .error e => .error e
    | .ok p2sh =>
      if s.nSigOps + p2sh > MAX_BLOCK_SIGOPS_CURRENT then dos 100 "bad-blk-sigops"
      else do
        let valueIn ← s.view.getValueIn tx
        let nFees ← feesAfter tx valueIn s.nFees
        let vChecks ← checkInputs node s.view tx fScriptChecks
        return { s with
          nFees := nFees
          nValueIn := s.nValueIn + valueIn
          nSigOps := s.nSigOps + p2sh
          vChecks := s.vChecks ++ vChecks }

/-- One turn of the loop of `ConnectBlock` up to `UpdateCoins`. -/
def beforeUpdateCoins (s : ConnectState) : Except Failure ConnectState :=
  if s.view.overwrites tx.hash then dos 100 "bad-txns-BIP30"
  else if s.nSigOps + getLegacySigOpCount tx > MAX_BLOCK_SIGOPS_CURRENT then
    dos 100 "bad-blk-sigops"
  else do
    let s ← connectInputs node fScriptChecks tx
      { s with nSigOps := s.nSigOps + getLegacySigOpCount tx }
    let out ← valueOut tx
    return { s with nValueOut := s.nValueOut + out }

/-- One turn of the loop. Undo data is kept for every
transaction but the first. -/
def connectTx (nHeight : Nat) (first : Bool) (tx : CTransaction) (s : ConnectState) :
    Except Failure ConnectState := do
  let s ← beforeUpdateCoins node fScriptChecks tx s
  let (view, txundo) ← s.view.updateCoins tx nHeight
  return { s with
    view := view
    vtxundo := if first then s.vtxundo else s.vtxundo ++ [txundo] }

/-- The loop of `ConnectBlock`. -/
def connectVtx (nHeight : Nat) (vtx : List CTransaction) (s : ConnectState) :
    Except Failure ConnectState :=
  runFrom (fun i => connectTx node fScriptChecks nHeight (i == 0)) 0 vtx s

end

def getBlockValue (nHeight : Nat) : CAmount := if nHeight ≤ 161 then 500000 * COIN else 5 * COIN

/-- The two early blocks that repeat a transaction. -/
def bip30Exempt (nHeight : Nat) (hash : uint256) : Bool :=
  (nHeight == 91842 &&
    hash == 0x00000000000a4d0a398161ffc163c503763b1f4360639393e0e4c8e300e0caec) ||
  (nHeight == 91880 && hash == 0x00000000000743f190a18c5577a3c2d2a1f610ae9601ac046a38084ccb7cd721)

structure Connected where
  view : CoinsView
  pindex : CBlockIndex
  vtxundo : List CTxUndo

section
variable (Hash : Bytes → uint256) (node : Node) (block : CBlock)

/-- The checks of `ConnectBlock` before its loop. -/
def checkBeforeConnect (hash : uint256) (pindex : CBlockIndex) (view : CoinsView) :
    Except Failure Unit :=
  if pindex.nHeight ≤ node.params.nLastPOWBlock ∧ block.isProofOfStake = true then
    dos 100 "PoS-early"
  else if pindex.nHeight > node.params.nLastPOWBlock ∧ block.isProofOfWork = true then
    dos 100 "PoW-ended"
  else if !bip30Exempt pindex.nHeight hash && block.vtx.any (fun tx => view.overwrites tx.hash) then
    dos 100 "bad-txns-BIP30"
  else .ok ()

/-- The entry once the sums are known. -/
def CBlockIndex.minted (pindex : CBlockIndex) (nMoneySupplyPrev : CAmount) (s : ConnectState) :
    CBlockIndex :=
  { pindex with
    nMoneySupply := nMoneySupplyPrev + s.nValueOut - s.nValueIn
    nMint := nMoneySupplyPrev + s.nValueOut - s.nValueIn - nMoneySupplyPrev + s.nFees }

/-- `nExpectedMint`. -/
def expectedMint (pprevHeight : Nat) (nFees : CAmount) : CAmount :=
  if block.isProofOfWork then getBlockValue pprevHeight + nFees else getBlockValue pprevHeight

/-- The entry of a connected block. -/
def CBlockIndex.connected (pindex : CBlockIndex) (undoPos : Nat) : CBlockIndex :=
  { pindex with
    nUndoPos := if pindex.nStatus.fHaveUndo then pindex.nUndoPos else undoPos
    nStatus := BlockStatus.raiseValidity { pindex.nStatus with fHaveUndo := true }
      BlockStatus.VALID_SCRIPTS }

/-- `ConnectBlock` from its loop on, with a parent. -/
def connectBlockBody (hash : uint256) (pindex pprev : CBlockIndex) (view : CoinsView)
    (fJustCheck : Bool) : Except Failure Connected :=
  let fScriptChecks := decide (pindex.nHeight ≥ node.totalBlocksEstimate)
  match connectVtx node fScriptChecks pindex.nHeight block.vtx { view := view } with
  | .error e => .error e
  | .ok s =>
    let pindex := pindex.minted pprev.nMoneySupply s
    if !isBlockValueValid node.params node.toPaymentState node.toChainState block.hashPrevBlock
        (expectedMint block pprev.nHeight s.nFees) pindex.nMint then
      dos 100 "bad-cb-amount"
    else if s.vChecks.any fun check => !node.verifyScript false check.tx check.nIn check.out then
      dos 100 "block-validation-failed"
    else if fJustCheck then .ok ⟨s.view, pindex, s.vtxundo⟩
    else
      .ok ⟨{ s.view with hashBlock := hash }, pindex.connected node.undoPos, s.vtxundo⟩

/-- The repeated `CheckBlock`. -/
def checkBlockAgain (fJustCheck fAlreadyChecked : Bool) : Except Failure Unit :=
  if fAlreadyChecked then .ok ()
  else
    match checkBlock Hash node block (!fJustCheck) (!fJustCheck) with
    | .error e => .error e
    | .ok _ => .ok ()

/- `hash` is the hash of `pindex`. -/
def connectBlock (hash : uint256) (pindex : CBlockIndex) (view : CoinsView)
    (fJustCheck fAlreadyChecked : Bool) : Except Failure Connected :=
  match checkBlockAgain Hash node block fJustCheck fAlreadyChecked with
  | .error e => .error e
  | .ok _ =>
    if pindex.pprev.getD 0 ≠ view.hashBlock then
      .error (.assertion "hashPrevBlock == view.GetBestBlock()")
    else if block.getHash Hash = node.params.hashGenesisBlock then
      .ok ⟨{ view with hashBlock := hash }, pindex, []⟩
    else if node.sporkActive .chokeControlMode then .error .choked
    else
      match checkBeforeConnect node block hash pindex view with
      | .error e => .error e
      | .ok _ =>
        match pindex.pprev.bind fun p => node.mapBlockIndex.lookup p with
        | none => .error .outOfBounds
        | some pprev => connectBlockBody node block hash pindex pprev view fJustCheck

end

def Node.afterFirst : Node where
  sporkActive := fun _ => false
  synced := true
  budget := {}
  masternodePaymentValid := fun _ _ => true
  mapBlockIndex := (AList.singleton mainParams.hashGenesisBlock {}).insert
    secondHeader.hashPrevBlock { pprev := some mainParams.hashGenesisBlock, nHeight := 1 }
  chainActive := [mainParams.hashGenesisBlock, secondHeader.hashPrevBlock]
  params := mainParams
  adjustedTime := secondHeader.nTime
  initialBlockDownload := false
  verifyScript := fun _ _ _ _ => true

def CBlockIndex.second (block : CBlock) : CBlockIndex :=
  { CBlockIndex.ofBlock block with
    pprev := some secondHeader.hashPrevBlock
    nHeight := 2
    nStatus := { nValid := BlockStatus.VALID_TRANSACTIONS, fHaveData := true } }

def paidTx : CTransaction where
  hash := 0xc59d16e819af32020804ef24ce82a4f7facb0e4fd5dcb0842e73c3696c7db113
  vin := [{ prevout := ⟨firstHeader.hashMerkleRoot, 0⟩ }]
  vout := List.replicate 4 ⟨COIN, [0x51], -10⟩

def CoinsView.paid : CoinsView where
  coins := fun txid => if txid = paidTx.hash then (CCoins.fromTx paidTx 1).store else none
  hashBlock := secondHeader.hashPrevBlock

def secondCoinBase : CTransaction where
  hash := secondHeader.hashMerkleRoot
  vin := [{ prevout := COutPoint.null, scriptSig := [0x52, 0x00] }]
  vout := [⟨500000 * COIN, [0x51], -10⟩]

def spendTx : CTransaction where
  hash := 0xf57a8da3478ecf5a5fd0459fb4a19740d9c9d163e661d93b6651a24b8cc5dec6
  vin := [{ prevout := ⟨paidTx.hash, 0⟩ }]
  vout := [⟨COIN, [0x51], -10⟩]

def spendBlock : CBlock :=
  { secondHeader with
    hashMerkleRoot := 0x605ef024a0037e3075c0e25f14a429b1aa34c7e401f6342dc445113ad3971e6
    nNonce := 78516
    vtx := [secondCoinBase, spendTx] }

end Alqo
