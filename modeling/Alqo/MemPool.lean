import Alqo.ConnectBlock
import Alqo.SwiftTx

/-!
# The memory pool (txmempool.h, txmempool.cpp, main.cpp)

Those checks of relay policy that rest on floating-point priorities, on script templates or on the
rate limiter are verdicts given with the call. The fee estimator, prioritisation, `pfMissingInputs`
and the wallet are left out.
-/

namespace Alqo
open Lib.Fallible

def MEMPOOL_HEIGHT : Nat := 0x7FFFFFFF
def MAX_TX_SIGOPS_CURRENT : Nat := MAX_BLOCK_SIGOPS_CURRENT / 5
def LOCKTIME_THRESHOLD : Nat := 500000000

structure CTxMemPoolEntry where
  tx : CTransaction
  nFee : CAmount
deriving DecidableEq, Repr

/-- `nTxSize`, which the constructor computes. -/
def CTxMemPoolEntry.getTxSize (entry : CTxMemPoolEntry) : Nat := entry.tx.getSerializeSize

structure CInPoint where
  ptx : CTransaction
  n : Nat
deriving DecidableEq, Repr

structure CTxMemPool where
  mapTx : AList fun _ : uint256 => CTxMemPoolEntry := ∅
  mapNextTx : COutPoint → Option CInPoint := fun _ => none
  totalTxSize : Nat := 0

namespace CTxMemPool

/-- Loop of `addUnchecked` over the inputs, at input `i`. -/
def addInputs (tx : CTransaction) :
    Nat → List CTxIn → (COutPoint → Option CInPoint) → COutPoint → Option CInPoint
  | _, [], mapNextTx => mapNextTx
  | i, txin :: rest, mapNextTx =>
    addInputs tx (i + 1) rest (Function.update mapNextTx txin.prevout (some ⟨tx, i⟩))

variable (pool : CTxMemPool)

def addUnchecked (hash : uint256) (entry : CTxMemPoolEntry) : CTxMemPool where
  mapTx := pool.mapTx.insert hash entry
  mapNextTx := addInputs entry.tx 0 entry.tx.vin pool.mapNextTx
  totalTxSize := pool.totalTxSize + entry.getTxSize

/-- The pool transactions that spend one of the first `n` outputs. -/
def children (hash : uint256) (n : Nat) : List uint256 :=
  (List.range n).filterMap fun i => (pool.mapNextTx ⟨hash, i⟩).map fun inpoint => inpoint.ptx.hash

/-- Loop of `remove` over the inputs. -/
def eraseInputs : List CTxIn → (COutPoint → Option CInPoint) → COutPoint → Option CInPoint
  | [], mapNextTx => mapNextTx
  | txin :: rest, mapNextTx => eraseInputs rest (Function.update mapNextTx txin.prevout none)

/-- The end of a turn of the loop of `remove`. -/
def eraseEntry (hash : uint256) (entry : CTxMemPoolEntry) : CTxMemPool where
  mapTx := pool.mapTx.erase hash
  mapNextTx := eraseInputs entry.tx.vin pool.mapNextTx
  totalTxSize := pool.totalTxSize - entry.getTxSize

theorem length_eraseEntry {pool : CTxMemPool} {hash : uint256} {entry : CTxMemPoolEntry}
    (h : pool.mapTx.lookup hash = some entry) :
    (pool.eraseEntry hash entry).mapTx.entries.length < pool.mapTx.entries.length := by
  have hkeys : hash ∈ pool.mapTx.entries.keys :=
    AList.mem_keys.mp (AList.lookup_isSome.mp (by rw [h]; rfl))
  obtain ⟨b, l₁, l₂, -, hl, herase⟩ := List.exists_of_kerase hkeys
  show (pool.mapTx.entries.kerase hash).length < _
  rw [herase, hl]
  simp

/-- Loop of `remove` over the queue `txToRemove`, which grows by the children of
what is removed. -/
def removeLoop (fRecursive : Bool) (pool : CTxMemPool) (removed : List CTransaction) :
    (txToRemove : List uint256) → CTxMemPool × List CTransaction
  | [] => (pool, removed)
  | hash :: txToRemove =>
    match _h : pool.mapTx.lookup hash with
    | none => removeLoop fRecursive pool removed txToRemove
    | some entry =>
      removeLoop fRecursive (pool.eraseEntry hash entry) (removed ++ [entry.tx]) (txToRemove ++
          if fRecursive then pool.children hash entry.tx.vout.length else [])
termination_by txToRemove => (pool.mapTx.entries.length, txToRemove.length)
decreasing_by
  · exact Prod.Lex.right _ (Nat.lt_succ_self _)
  · exact Prod.Lex.left _ _ (length_eraseEntry _h)

def remove (origTx : CTransaction) (removed : List CTransaction) (fRecursive : Bool) :
    CTxMemPool × List CTransaction :=
  removeLoop fRecursive pool removed (origTx.hash ::
    if fRecursive && (pool.mapTx.lookup origTx.hash).isNone then
      pool.children origTx.hash origTx.vout.length
    else [])

/-- A transaction of the pool spends coins that are gone or not mature: the inner
loop of `removeCoinbaseSpends`; heights are unsigned. -/
def spendsImmature (params : CChainParams) (pcoins : CoinsView) (nMemPoolHeight : Nat)
    (tx : CTransaction) : Bool :=
  tx.vin.any fun txin =>
    (pool.mapTx.lookup txin.prevout.hash).isNone && match pcoins.accessCoins txin.prevout.hash with
      | none => true
      | some coins => (coins.fCoinBase || coins.fCoinStake) &&
          decide ((nMemPoolHeight + 2 ^ 32 - coins.nHeight) % 2 ^ 32 < params.nMaturity)

def removeAll (pool : CTxMemPool) : List CTransaction → CTxMemPool
  | [] => pool
  | tx :: rest => removeAll (pool.remove tx [] true).1 rest

def removeCoinbaseSpends (params : CChainParams) (pcoins : CoinsView) (nMemPoolHeight : Nat) :
    CTxMemPool :=
  pool.removeAll ((pool.mapTx.entries.map fun e => e.2.tx).filter
    (pool.spendsImmature params pcoins nMemPoolHeight))

/-- Loop of `removeConflicts`; transactions are compared
by their hashes. -/
def removeConflictsOf (tx : CTransaction) :
    List CTxIn → CTxMemPool × List CTransaction → CTxMemPool × List CTransaction
  | [], s => s
  | txin :: rest, (pool, removed) =>
    match pool.mapNextTx txin.prevout with
    | none => removeConflictsOf tx rest (pool, removed)
    | some inpoint =>
      if inpoint.ptx.hash ≠ tx.hash then
        removeConflictsOf tx rest (pool.remove inpoint.ptx removed true)
      else removeConflictsOf tx rest (pool, removed)

def removeConflicts (tx : CTransaction) (removed : List CTransaction) :
    CTxMemPool × List CTransaction :=
  removeConflictsOf tx tx.vin (pool, removed)

def removeForBlock (pool : CTxMemPool) (conflicts : List CTransaction) :
    List CTransaction → CTxMemPool × List CTransaction
  | [] => (pool, conflicts)
  | tx :: rest =>
    let (pool, conflicts) := (pool.remove tx [] false).1.removeConflicts tx conflicts
    removeForBlock pool conflicts rest

end CTxMemPool

/- main.cpp:781-797 with a height and a time given. -/
def isFinalTx (tx : CTransaction) (nBlockHeight nBlockTime : Int) : Bool :=
  decide (tx.nLockTime = 0) || decide ((tx.nLockTime : Int) <
      if tx.nLockTime < LOCKTIME_THRESHOLD then nBlockHeight else nBlockTime) ||
    tx.vin.all fun txin => txin.nSequence == 0xffffffff

structure AcceptContext where
  node : Node
  pcoinsTip : CoinsView
  /-- The time that `CheckFinalTx` compares with. -/
  nBlockTime : Int := 0
  /-- Why `IsStandardTx` refuses the transaction, if standard ones are required. -/
  nonStandard : CTransaction → Option String := fun _ => none
  /-- `AreInputsStandard`, if standard transactions are required. -/
  inputsStandard : CTransaction → CoinsView → Bool := fun _ _ => true
  fLimitFree : Bool := true
  fRejectInsaneFee : Bool := false
  ignoreFees : Bool := false
  /-- `mapObfuscationBroadcastTxes.count(hash)` -/
  obfuscation : uint256 → Bool := fun _ => false
  /-- `GetMinRelayFee(tx, nSize, true)` -/
  minRelayFee : CTransaction → Nat → CAmount := fun _ _ => 0
  /-- `minRelayTxFee.GetFee(nSize)` -/
  relayFee : Nat → CAmount := fun _ => 0
  /-- `-relaypriority` is off, or the priority is enough for a free transaction. -/
  allowFree : CTransaction → CoinsView → Bool := fun _ _ => true
  /-- The limiter for free transactions refuses this one. -/
  rateLimited : Bool := false

namespace CTxMemPool

/-- `CCoinsViewMemPool` over the coins of the tip, behind
a cache. -/
def view (pool : CTxMemPool) (pcoinsTip : CoinsView) : CoinsView where
  coins txid :=
    match pool.mapTx.lookup txid with
    | some entry => (CCoins.fromTx entry.tx MEMPOOL_HEIGHT).store
    | none => pcoinsTip.coins txid
  hashBlock := pcoinsTip.hashBlock

variable (ctx : AcceptContext)

/-- The checks before any coins are looked up. -/
def checkBeforeInputs (pool : CTxMemPool) (tx : CTransaction) :
    Except Failure Unit :=
  match checkTransaction ctx.node.params tx with
  | .error (.reject verdict) => dos (verdict.nDoS + 100) "bad-tx"
  | .error e => .error e
  | .ok () =>
    if tx.isCoinBase then dos 100 "coinbase"
    else if tx.isCoinStake then dos 100 "coinstake"
    else if ¬ isFinalTx tx ctx.node.chainActive.length ctx.nBlockTime then dos 0 "non-final"
    else
      match ctx.nonStandard tx with
      | some reason => dos 0 reason
      | none =>
        if (pool.mapTx.lookup tx.hash).isSome then dos 0 ""
        else if SwiftTx.lockConflict ctx.node.mapLockedInputs tx then dos 0 "tx-lock-conflict"
        else if tx.vin.any fun txin => (pool.mapNextTx txin.prevout).isSome then dos 0 ""
        else .ok ()

/-- The fee policy. -/
def checkFeePolicy (view : CoinsView) (tx : CTransaction) (nFees : CAmount) :
    Except Failure Unit :=
  let nSize := tx.getSerializeSize
  if !ctx.obfuscation tx.hash && !ctx.ignoreFees && ctx.fLimitFree &&
      decide (nFees < ctx.minRelayFee tx nSize) then dos 0 "insufficient fee"
  else if !ctx.obfuscation tx.hash && !ctx.ignoreFees && decide (nFees < ctx.relayFee nSize) &&
      !ctx.allowFree tx view then dos 0 "insufficient priority"
  else if !ctx.obfuscation tx.hash && !ctx.ignoreFees && ctx.fLimitFree &&
      decide (nFees < ctx.relayFee nSize) && ctx.rateLimited then
    dos 0 "rate limited free transaction"
  else if ctx.fRejectInsaneFee && decide (nFees > ctx.relayFee nSize * 10000) then dos 0 ""
  else .ok ()

/-- The checks on the coins: the fee of the transaction. -/
def checkWithInputs (view : CoinsView) (tx : CTransaction) :
    Except Failure CAmount := do
  if (view.coins tx.hash).isSome then dos 0 ""
  if tx.vin.any fun txin => (view.coins txin.prevout.hash).isNone then dos 0 ""
  if !view.haveInputs tx then invalid "bad-txns-inputs-spent"
  let nValueIn ← view.getValueIn tx
  if !ctx.inputsStandard tx view then dos 0 ""
  let nP2SHSigOps ← view.getP2SHSigOpCount tx
  if getLegacySigOpCount tx + nP2SHSigOps > MAX_TX_SIGOPS_CURRENT then
    dos 0 "bad-txns-too-many-sigops"
  let nValueOut ← valueOut tx
  let nFees := nValueIn - nValueOut
  checkFeePolicy ctx view tx nFees
  -- scripts are checked at once, first with the standard flags, then with the mandatory ones
  let node := { ctx.node with scriptCheckThreads := false }
  let _ ← checkInputs node view tx true
  let _ ← checkInputs { node with verifyScript := fun _ => node.verifyScript true } view tx true
  return nFees

end CTxMemPool

def acceptToMemoryPool (ctx : AcceptContext) (pool : CTxMemPool) (tx : CTransaction) :
    Except Failure CTxMemPool := do
  pool.checkBeforeInputs ctx tx
  let nFees ← CTxMemPool.checkWithInputs ctx (pool.view ctx.pcoinsTip) tx
  return pool.addUnchecked tx.hash ⟨tx, nFees⟩

end Alqo
