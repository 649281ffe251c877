import Alqo.CheckBlock
import Alqo.MasternodeScore
import Alqo.Sporks

/-!
# Transaction locks (swifttx.h, swifttx.cpp)

What the two handlers read of the rest of the node comes with each message. Relaying, the rate limit
for votes on unknown transactions, which only decides whether a vote is relayed, and the wallet are
left out.
-/

namespace Alqo
open Lib.Runs Function

def SWIFTTX_SIGNATURES_REQUIRED : Int := 6
def SWIFTTX_SIGNATURES_TOTAL : Int := 10
def MIN_SWIFTTX_PROTO_VERSION : Int := 70103

structure CConsensusVote where
  vinMasternode : CTxIn
  txHash : uint256
  nBlockHeight : Int
  vchSig : Bytes := []
  nMessVersion : Int := MESS_VER_HASH
deriving DecidableEq, Repr

/- A sum, not a digest. -/
def CConsensusVote.getHash (vote : CConsensusVote) : uint256 :=
  vote.vinMasternode.prevout.hash + BitVec.ofNat 256 vote.vinMasternode.prevout.n + vote.txHash

def CConsensusVote.getSignatureHash (Hash : Bytes → uint256) (vote : CConsensusVote) : uint256 :=
  Hash (leBytes 4 (vote.nMessVersion % 2 ^ 32).toNat ++
    leBytes 32 vote.vinMasternode.prevout.hash.toNat ++
    leBytes 4 vote.vinMasternode.prevout.n ++
    compactSize vote.vinMasternode.scriptSig.length ++ vote.vinMasternode.scriptSig ++
    leBytes 4 vote.vinMasternode.nSequence ++
    leBytes 32 vote.txHash.toNat ++ leBytes 4 (vote.nBlockHeight % 2 ^ 32).toNat)

structure CTransactionLock where
  nBlockHeight : Int
  txHash : uint256
  vecConsensusVotes : List CConsensusVote
  nExpiration : Int
  nTimeout : Int
deriving DecidableEq, Repr

def CTransactionLock.countSignatures (lock : CTransactionLock) : Int :=
  if lock.nBlockHeight = 0 then -1
  else (lock.vecConsensusVotes.filter fun v => v.nBlockHeight = lock.nBlockHeight).length

structure SwiftTx where
  mapTxLockReq : uint256 → Option CTransaction := fun _ => none
  mapTxLockReqRejected : uint256 → Option CTransaction := fun _ => none
  mapTxLockVote : uint256 → Option CConsensusVote := fun _ => none
  mapTxLocks : uint256 → Option CTransactionLock := fun _ => none
  mapLockedInputs : COutPoint → Option uint256 := fun _ => none

structure SwiftContext where
  fLiteMode : Bool := false
  fBlockchainSynced : Bool := true
  sporks : CSporkManager := {}
  /-- `GetAdjustedTime()` -/
  nAdjustedTime : Int := 1
  /-- `GetTime()` -/
  nTime : Int := 0
  node : ScoreNode
  mnodeman : CMasternodeMan
  getTransaction : uint256 → Option CTransaction
  getInputAge : COutPoint → Int
  /-- `AcceptToMemoryPool` has nothing against the transaction but its locks. -/
  fAcceptable : Bool
  /-- `activeMasternode.vin`, if this node is a masternode. -/
  activeMasternode : Option CTxIn := none
  /-- `Sign` with the masternode key: version and signature. -/
  signVote : CConsensusVote → Option (Int × Bytes) := fun _ => none

inductive SwiftMessage where
  | ix (tx : CTransaction) (ctx : SwiftContext)
  | txlvote (vote : CConsensusVote) (ctx : SwiftContext)

def SwiftContext.listens (ctx : SwiftContext) : Bool :=
  !ctx.fLiteMode && ctx.sporks.isSporkActive 10001 ctx.nAdjustedTime && ctx.fBlockchainSynced

/-- The value of the inputs in `IsIXTXValid`, and whether one is unknown. -/
def ixValueIn (getTransaction : uint256 → Option CTransaction) :
    List CTxIn → (nValueIn : CAmount) → (missingTx : Bool) → CAmount × Bool
  | [], nValueIn, missingTx => (nValueIn, missingTx)
  | i :: rest, nValueIn, missingTx =>
    match getTransaction i.prevout.hash with
    | none => ixValueIn getTransaction rest nValueIn true
    | some tx2 =>
      match tx2.vout[i.prevout.n]? with
      | some out => ixValueIn getTransaction rest (nValueIn + out.nValue) missingTx
      | none => ixValueIn getTransaction rest nValueIn missingTx

/- `COIN * 0.01` is 1000000. -/
def isIXTXValid (ctx : SwiftContext) (txCollateral : CTransaction) : Bool :=
  if txCollateral.vout.length < 1 then false
  else if txCollateral.nLockTime ≠ 0 then false
  else
    let nValueOut := txCollateral.vout.foldl (fun sum o => sum + o.nValue) 0
    let (nValueIn, missingTx) := ixValueIn ctx.getTransaction txCollateral.vin 0 false
    if nValueOut > Int64.ofInt (ctx.sporks.getSporkValue 10004) * COIN then false
    else if missingTx then true
    else !decide (nValueIn - nValueOut < 1000000)

def matchesOps : List (Option UInt8) → CScript → Bool
  | _, [] => true
  | [], _ :: _ => false
  | expected :: rest, pc =>
    match CScript.getOp pc with
    | none => false
    | some (opcode, _, pc) =>
      (expected.isNone || expected == some opcode) && matchesOps rest pc

/- In 25 bytes a
push that runs over the end leaves more than three opcodes behind it, so the
loop ends with `false` then. -/
def isNormalPaymentScript (s : CScript) : Bool :=
  s.length == 25 &&
    matchesOps [some OP_DUP, some OP_HASH160, none, some OP_EQUALVERIFY, some OP_CHECKSIG] s

/-- The age of the input that `CreateNewLock` computes with, `none` if one is too
new; the loop runs from the last input to the first. -/
def lockAge (getInputAge : COutPoint → Int) : List CTxIn → (nTxAge : Int) → Option Int
  | [], nTxAge => some nTxAge
  | i :: rest, _ =>
    if getInputAge i.prevout < 5 then none
    else lockAge getInputAge rest (getInputAge i.prevout)

namespace SwiftTx

def createNewLock (s : SwiftTx) (ctx : SwiftContext) (tx : CTransaction) : Int × SwiftTx :=
  match lockAge ctx.getInputAge tx.vin.reverse 0 with
  | none => (0, s)
  | some nTxAge =>
    let nBlockHeight := (ctx.node.chainActive.length - 1 - nTxAge) + 4
    let lock : CTransactionLock :=
      match s.mapTxLocks tx.hash with
      | none => ⟨nBlockHeight, tx.hash, [], ctx.nTime + 60 * 60, ctx.nTime + 60 * 5⟩
      | some lock => { lock with nBlockHeight }
    (nBlockHeight, { s with mapTxLocks := update s.mapTxLocks tx.hash (some lock) })

/-- `mapTxLocks[hash].nExpiration = GetTime()`, if there is such a lock. -/
def expire (s : SwiftTx) (nTime : Int) (hash : uint256) : SwiftTx :=
  match s.mapTxLocks hash with
  | none => s
  | some lock =>
    { s with
      mapTxLocks := update s.mapTxLocks hash (some { lock with nExpiration := nTime }) }

/-- Loop of `CheckForConflictingLocks`. -/
def checkForConflictingLocks (s : SwiftTx) (nTime : Int) (hash : uint256) :
    List CTxIn → Bool × SwiftTx
  | [] => (false, s)
  | txin :: rest =>
    match s.mapLockedInputs txin.prevout with
    | none => checkForConflictingLocks s nTime hash rest
    | some other =>
      if other ≠ hash then (true, (s.expire nTime hash).expire nTime other)
      else checkForConflictingLocks s nTime hash rest

def lockInputs (mapLockedInputs : COutPoint → Option uint256) (txHash : uint256) :
    List CTxIn → COutPoint → Option uint256
  | [] => mapLockedInputs
  | txin :: rest =>
    match mapLockedInputs txin.prevout with
    | some _ => lockInputs mapLockedInputs txHash rest
    | none =>
      lockInputs (update mapLockedInputs txin.prevout (some txHash)) txHash rest

/-- An input is locked to another transaction: the scan of `AcceptToMemoryPool`, and of `CheckBlock` for each transaction. -/
def lockConflict (mapLockedInputs : COutPoint → Option uint256) (tx : CTransaction) : Bool :=
  tx.vin.any fun txin =>
    match mapLockedInputs txin.prevout with
    | some locked => locked != tx.hash
    | none => false

end SwiftTx

/-- The checks that let a vote be added to a lock. -/
def voteValid (Hash : Bytes → uint256) (v : Verifier CConsensusVote) (ctx : SwiftContext)
    (vote : CConsensusVote) : Bool :=
  let n := (getMasternodeRank Hash ctx.node ctx.mnodeman vote.vinMasternode.prevout
    vote.nBlockHeight MIN_SWIFTTX_PROTO_VERSION true).1
  decide (n ≠ -1) && decide (n ≤ SWIFTTX_SIGNATURES_TOTAL) &&
    ctx.mnodeman.checkSignature vote.vinMasternode.prevout true
      (v.checkSignature vote.nMessVersion (vote.getSignatureHash Hash) vote vote.vchSig)

namespace SwiftTx

section
variable (Hash : Bytes → uint256) (v : Verifier CConsensusVote)

variable (s : SwiftTx) (ctx : SwiftContext) (tx : CTransaction) (vote : CConsensusVote)

/- The node's own vote is noted, and
not added to the lock. -/
def doConsensusVote (nBlockHeight : Int) : SwiftTx :=
  match ctx.activeMasternode with
  | none => s
  | some vinMasternode =>
    let vote : CConsensusVote := { vinMasternode, txHash := tx.hash, nBlockHeight }
    let n := (getMasternodeRank Hash ctx.node ctx.mnodeman vinMasternode.prevout nBlockHeight
      MIN_SWIFTTX_PROTO_VERSION true).1
    if n = -1 ∨ n > SWIFTTX_SIGNATURES_TOTAL then s
    else
      match ctx.signVote vote with
      | none => s
      | some (nMessVersion, vchSig) =>
        let vote := { vote with nMessVersion, vchSig }
        if ¬ ctx.mnodeman.checkSignature vinMasternode.prevout true
            (v.checkSignature nMessVersion (vote.getSignatureHash Hash) vote vchSig) then s
        else { s with mapTxLockVote := update s.mapTxLockVote vote.getHash (some vote) }

/-- A request that the memory pool refuses. -/
def rejectRequest : SwiftTx :=
  let s := { s with
    mapTxLockReqRejected := update s.mapTxLockReqRejected tx.hash (some tx)
    mapLockedInputs := lockInputs s.mapLockedInputs tx.hash tx.vin }
  match s.mapTxLocks tx.hash with
  | none => s
  | some lock =>
    if SWIFTTX_SIGNATURES_REQUIRED ≤ lock.countSignatures then
      match s.checkForConflictingLocks ctx.nTime tx.hash tx.vin with
      | (true, s) => s
      | (false, s) =>
        { s with mapTxLockReq := update s.mapTxLockReq tx.hash (some tx) }
    else s

/-- A request that the memory pool takes. -/
def acceptRequest (nBlockHeight : Int) :
    SwiftTx :=
  let s := s.doConsensusVote Hash v ctx tx nBlockHeight
  { s with mapTxLockReq := update s.mapTxLockReq tx.hash (some tx) }

/-- The `ix` branch of `ProcessMessageSwiftTX`. -/
def processIx : SwiftTx :=
  if ¬ ctx.listens then s
  else if (s.mapTxLockReq tx.hash).isSome ∨ (s.mapTxLockReqRejected tx.hash).isSome then s
  else if ¬ isIXTXValid ctx tx then s
  else if tx.vout.any fun o =>
      !isNormalPaymentScript o.scriptPubKey && !isUnspendable o.scriptPubKey then s
  else
    let (nBlockHeight, s) := s.createNewLock ctx tx
    if ctx.fAcceptable && !lockConflict s.mapLockedInputs tx then
      s.acceptRequest Hash v ctx tx nBlockHeight
    else s.rejectRequest ctx tx

/-- A vote is added to the lock of its transaction. -/
def addSignature : SwiftTx :=
  let lock := (s.mapTxLocks vote.txHash).getD
    ⟨0, vote.txHash, [], ctx.nTime + 60 * 60, ctx.nTime + 60 * 5⟩
  { s with
    mapTxLocks := update s.mapTxLocks vote.txHash
      (some { lock with vecConsensusVotes := lock.vecConsensusVotes ++ [vote] }) }

/-- With enough votes the inputs of the request are locked.
`mapTxLockReq[ctx.txHash]` makes an empty request where there is none. -/
def completeLock (txHash : uint256) : SwiftTx :=
  let tx := (s.mapTxLockReq txHash).getD { hash := 0, vin := [], vout := [] }
  let s := { s with mapTxLockReq := update s.mapTxLockReq txHash (some tx) }
  match s.checkForConflictingLocks ctx.nTime tx.hash tx.vin with
  | (true, s) => s
  | (false, s) => { s with mapLockedInputs := lockInputs s.mapLockedInputs txHash tx.vin }

def processConsensusVote : SwiftTx :=
  if ¬ voteValid Hash v ctx vote then s
  else
    let s := s.addSignature ctx vote
    match s.mapTxLocks vote.txHash with
    | none => s
    | some lock =>
      if SWIFTTX_SIGNATURES_REQUIRED ≤ lock.countSignatures then
        s.completeLock ctx vote.txHash
      else s

/-- The `txlvote` branch of `ProcessMessageSwiftTX`. -/
def processTxlvote : SwiftTx :=
  if ¬ ctx.listens then s
  else if (s.mapTxLockVote vote.getHash).isSome then s
  else
    { s with mapTxLockVote := update s.mapTxLockVote vote.getHash (some vote) }
      |>.processConsensusVote Hash v ctx vote

/-- `ProcessMessageSwiftTX` -/
def processMessage : SwiftMessage → SwiftTx
  | .ix tx ctx => s.processIx Hash v ctx tx
  | .txlvote vote ctx => s.processTxlvote Hash v ctx vote

end

end SwiftTx

end Alqo
