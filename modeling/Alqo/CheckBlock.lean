import Alqo.Payments
import Alqo.Script

/-!
# Checks of transactions and blocks (main.cpp, primitives/block.cpp)

A check passes or ends in a `Failure`: a `false` return with its verdict, an exception, a failed
assertion or an access out of bounds.
-/

namespace Alqo

/-- What `DoS` and `Invalid` record. -/
structure Reject where
  nDoS : Nat
  strRejectReason : String := ""
  corruptionPossible : Bool := false
deriving DecidableEq, Repr

inductive Failure where
  | reject (verdict : Reject)
  | throws (what : String)
  | assertion (condition : String)
  | outOfBounds
  /-- `ConnectBlock` under choke control, which invalidates the block by itself. -/
  | choked
deriving DecidableEq, Repr

/-- `state.DoS(level, ...)` and `return false`. -/
def dos {α : Type} (nDoS : Nat) (strRejectReason : String) (corruptionPossible : Bool := false) :
    Except Failure α :=
  .error (.reject ⟨nDoS, strRejectReason, corruptionPossible⟩)

/-- `state.Invalid(...)` and `return false`. -/
def invalid {α : Type} (strRejectReason : String) : Except Failure α := dos 0 strRejectReason

def MAX_BLOCK_SIZE_CURRENT : Nat := 2000000
def MAX_BLOCK_SIZE_LEGACY : Nat := 1000000
def MAX_BLOCK_SIGOPS_CURRENT : Nat := MAX_BLOCK_SIZE_CURRENT / 50
def MAX_BLOCK_SIGOPS_LEGACY : Nat := MAX_BLOCK_SIZE_LEGACY / 50
def MAX_ZEROCOIN_TX_SIZE : Nat := 150000

def moneyRange (params : CChainParams) (nValueOut : CAmount) : Bool :=
  decide (0 ≤ nValueOut) && decide (nValueOut ≤ params.nMaxMoneyOut)

/-- Loop over the outputs, entered with the sum so far. -/
def checkOutputs (params : CChainParams) (tx : CTransaction) :
    List CTxOut → CAmount → Except Failure Unit
  | [], _ => .ok ()
  | txout :: rest, nValueOut =>
    if txout.isEmpty && !tx.isCoinBase && !tx.isCoinStake then dos 100 ""
    else if txout.nValue < 0 then dos 100 "bad-txns-vout-negative"
    else if txout.nValue > params.nMaxMoneyOut then dos 100 "bad-txns-vout-toolarge"
    else if !moneyRange params (nValueOut + txout.nValue) then
      dos 100 "bad-txns-txouttotal-toolarge"
    else checkOutputs params tx rest (nValueOut + txout.nValue)

/-- Loop over the inputs. The set it looks the outpoints up
in is never added to. -/
def checkDuplicateInputs (vInOutPoints : List COutPoint) : List CTxIn → Except Failure Unit
  | [] => .ok ()
  | txin :: rest =>
    if vInOutPoints.contains txin.prevout then dos 100 "bad-txns-inputs-duplicate"
    else checkDuplicateInputs vInOutPoints rest

/-- The end of `CheckTransaction`. -/
def checkInputForm (tx : CTransaction) : Except Failure Unit :=
  if tx.isCoinBase then
    match tx.vin[0]? with
    | none => .error .outOfBounds
    | some txin =>
      if txin.scriptSig.length < 2 || txin.scriptSig.length > 150 then dos 100 "bad-cb-length"
      else .ok ()
  else if tx.vin.any fun txin => txin.prevout.isNull then dos 10 "bad-txns-prevout-null"
  else .ok ()

def checkTransaction (params : CChainParams) (tx : CTransaction) : Except Failure Unit :=
  if tx.vin.isEmpty then dos 10 "bad-txns-vin-empty"
  else if tx.vout.isEmpty then dos 10 "bad-txns-vout-empty"
  else if tx.getSerializeSize > MAX_ZEROCOIN_TX_SIZE then dos 100 "bad-txns-oversize"
  else do
    checkOutputs params tx tx.vout 0
    checkDuplicateInputs [] tx.vin
    checkInputForm tx

/-- One level of `BuildMerkleTree`: the hashes of
the level above, and whether the last two are a pair of equal hashes. -/
def merkleLevel (Hash : Bytes → uint256) : List uint256 → List uint256 × Bool
  | [] => ([], false)
  | [a] => ([Hash (leBytes 32 a.toNat ++ leBytes 32 a.toNat)], false)
  | [a, b] => ([Hash (leBytes 32 a.toNat ++ leBytes 32 b.toNat)], a == b)
  | a :: b :: rest =>
    let (above, mutated) := merkleLevel Hash rest
    (Hash (leBytes 32 a.toNat ++ leBytes 32 b.toNat) :: above, mutated)

def merkleLevels (Hash : Bytes → uint256) : Nat → List uint256 → uint256 × Bool
  | _, [] => (0, false)
  | _, [a] => (a, false)
  | 0, a :: _ => (a, false)
  | fuel + 1, level =>
    let (above, mutated) := merkleLevel Hash level
    let (root, mutatedAbove) := merkleLevels Hash fuel above
    (root, mutated || mutatedAbove)

def CBlock.buildMerkleTree (Hash : Bytes → uint256) (block : CBlock) : uint256 × Bool :=
  merkleLevels Hash block.vtx.length (block.vtx.map CTransaction.hash)

structure Node extends PaymentState, ChainState where
  params : CChainParams
  /-- `NetworkID() == REGTEST` -/
  regtest : Bool := false
  /-- `GetAdjustedTime()` -/
  adjustedTime : Nat
  initialBlockDownload : Bool
  mapLockedInputs : COutPoint → Option uint256 := fun _ => none
  /-- `Checkpoints::GetTotalBlocksEstimate()` -/
  totalBlocksEstimate : Nat := 0
  /-- Whether script checks are queued for other threads. -/
  scriptCheckThreads : Bool := false
  /-- The position `FindUndoPos` returns. -/
  undoPos : Nat := 0
  /-- `CScriptCheck` for an input spending an output, under the flags of a block
  or only the mandatory ones among them. -/
  verifyScript : (mandatoryOnly : Bool) → CTransaction → Nat → CTxOut → Bool

def getLegacySigOpCount (tx : CTransaction) : Nat :=
  (tx.vin.map fun txin => CScript.getSigOpCount false txin.scriptSig).sum +
    (tx.vout.map fun out => CScript.getSigOpCount false out.scriptPubKey).sum

section
variable (Hash : Bytes → uint256) (node : Node) (block : CBlock)

/-- Header, time, merkle root and size. -/
def checkBlockForm (fCheckPOW fCheckMerkleRoot : Bool) : Except Failure Unit := do
  if fCheckPOW && block.isProofOfWork &&
      !checkProofOfWork node.params (block.getHash Hash) block.nBits then
    -- CheckBlockHeader has added 50 already
    dos 150 "bad-header" true
  if !node.regtest && decide (block.nTime >
      node.adjustedTime + if block.isProofOfStake then 180 else 7200) then
    invalid "time-too-new"
  if fCheckMerkleRoot then
    if block.hashMerkleRoot ≠ (block.buildMerkleTree Hash).1 then dos 100 "bad-txnmrklroot" true
    if (block.buildMerkleTree Hash).2 then dos 100 "bad-txns-duplicate" true
  if block.vtx.isEmpty || block.vtx.length > MAX_BLOCK_SIZE_CURRENT ||
      block.getSerializeSize > MAX_BLOCK_SIZE_CURRENT then
    dos 100 "bad-blk-length"

/-- `vout.size() == 1 && vout[0].IsEmpty()`. -/
def CTransaction.emptyOutput (tx : CTransaction) : Bool :=
  match tx.vout with
  | [out] => out.isEmpty
  | _ => false

/-- Which transactions are coinbase and coinstake. -/
def checkBlockShape : Except Failure Unit :=
  match block.vtx with
  | [] => dos 100 "bad-cb-missing"
  | coinbase :: rest =>
    if !coinbase.isCoinBase then dos 100 "bad-cb-missing"
    else if rest.any CTransaction.isCoinBase then dos 100 "bad-cb-multiple"
    else if block.isProofOfStake && !coinbase.emptyOutput then dos 100 ""
    else if block.isProofOfStake && (rest.drop 1).any CTransaction.isCoinStake then dos 100 ""
    else .ok ()

/-- The scan for locked inputs. -/
def checkLockedInputs : Except Failure Unit :=
  if node.sporkActive .swiftTxBlockFiltering && block.vtx.any (fun tx => !tx.isCoinBase &&
      tx.vin.any fun txin =>
        match node.mapLockedInputs txin.prevout with
        | some locked => locked != tx.hash
        | none => false) then
    dos 0 "conflicting-tx-ix"
  else .ok ()

/-- The payment check, with the payment history after it. -/
def checkPayee : Except Failure PaymentHistory :=
  let nHeight := node.heightAfter block.hashPrevBlock
  if nHeight ≠ 0 ∧ node.initialBlockDownload = false then
    match isBlockPayeeValid node.params node.toPaymentState block nHeight with
    | none => .error .outOfBounds
    | some (true, history) => .ok history
    | some (false, _) => dos 0 "bad-cb-payee"
  else .ok node.budget.history

/- It never calls `CheckTransaction`. -/
def checkBlock (fCheckPOW fCheckMerkleRoot : Bool) : Except Failure PaymentHistory := do
  checkBlockForm Hash node block fCheckPOW fCheckMerkleRoot
  checkBlockShape block
  checkLockedInputs node block
  let history ← checkPayee node block
  if (block.vtx.map getLegacySigOpCount).sum > MAX_BLOCK_SIGOPS_LEGACY then
    dos 100 "bad-blk-sigops" true
  return history

end

end Alqo
