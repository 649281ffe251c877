import Alqo.ConnectTx

/-!
# Disconnecting a block (main.cpp)

An edit of a fully spent entry starts from an empty object. A cache may still hold the metadata of
such an entry; `restoreInput` would keep it only where it reports a mismatch.
-/

namespace Alqo
open Lib.UndoLog

inductive DisconnectError where
  | assertion (condition : String)
  | outOfBounds
  /-- `return error(...)` -/
  | error (message : String)
deriving DecidableEq, Repr

namespace CoinsView

/-- The comparison with what the block created. -/
def matchesOutputs (outs : CCoins) (tx : CTransaction) (nHeight : Nat) : Bool :=
  let outsBlock := CCoins.fromTx tx nHeight
  let outs := outs.clearUnspendable
  let outs := if outsBlock.nVersion < 0 then { outs with nVersion := outsBlock.nVersion } else outs
  outs.equal outsBlock

/-- Take out the outputs of a transaction. -/
def removeOutputs (view : CoinsView) (tx : CTransaction) (nHeight : Nat) : CoinsView × Bool :=
  ({ view with coins := view.coins.modify tx.hash fun _ => CCoins.clear },
    matchesOutputs (view.coins.coins tx.hash) tx nHeight)

end CoinsView

/-- `vout.resize(n + 1)` if that is longer, and `vout[n] = txout`. -/
def CCoins.restored (c : CCoins) (n : Nat) (txout : CTxOut) : CCoins :=
  { c with
    vout := (c.vout ++ List.replicate (n + 1 - c.vout.length) CTxOut.null).set n txout }

/-- The object to which a spent output is added. A recorded
height says that it was the last one; the metadata is put back then, except for
`fCoinStake`. -/
def CTxInUndo.base (undo : CTxInUndo) (coins : CCoins) : CCoins :=
  if undo.nHeight ≠ 0 then
    { fCoinBase := undo.fCoinBase, nHeight := undo.nHeight, nVersion := undo.nVersion }
  else coins

namespace CoinsView

/-- Put back one input. -/
def restoreInput (view : CoinsView) (prevout : COutPoint) (undo : CTxInUndo) : CoinsView × Bool :=
  let coins := view.coins.coins prevout.hash
  ({ view with
      coins := view.coins.modify prevout.hash fun c =>
        (undo.base c).restored prevout.n undo.txout },
    (if undo.nHeight ≠ 0 then coins.isPruned else !coins.isPruned) &&
      !(undo.base coins).isAvailable prevout.n)

/-- One turn of the loop of `DisconnectBlock`. -/
def disconnectTx (nHeight : Nat) (view : CoinsView) (tx : CTransaction)
    (txundo : Option CTxUndo) : Except DisconnectError (CoinsView × Bool) :=
  let removed := view.removeOutputs tx nHeight
  if tx.isCoinBase then .ok removed
  else
    match txundo with
    | none => .error .outOfBounds
    | some txundo =>
      if txundo.vprevout.length ≠ tx.vin.length then
        .error (.error "DisconnectBlock() : transaction and undo data inconsistent")
      else
        let inputs := undoAll restoreInput removed.1 (tx.prevouts.zip txundo.vprevout)
        .ok (inputs.1, removed.2 && inputs.2)

/-- The loop, which takes the last transaction first. -/
def disconnectVtx (nHeight : Nat) (view : CoinsView) :
    List (CTransaction × Option CTxUndo) → Except DisconnectError (CoinsView × Bool)
  | [] => .ok (view, true)
  | (tx, txundo) :: rest =>
    match disconnectVtx nHeight view rest with
    | .error e => .error e
    | .ok (view, fClean) =>
      match disconnectTx nHeight view tx txundo with
      | .error e => .error e
      | .ok (view, fClean') => .ok (view, fClean && fClean')

end CoinsView

/- The view and `fClean`. `hash` is the hash
of `pindex`, `blockUndo` what was read from the undo file. -/
def disconnectBlock (block : CBlock) (hash : uint256) (pindex : CBlockIndex) (view : CoinsView)
    (blockUndo : Option (List CTxUndo)) : Except DisconnectError (CoinsView × Bool) :=
  if hash ≠ view.hashBlock then
    .error (.assertion "pindex->GetBlockHash() == view.GetBestBlock()")
  else if !pindex.nStatus.fHaveUndo then
    .error (.error "DisconnectBlock() : no undo data available")
  else
    match blockUndo with
    | none => .error (.error "DisconnectBlock() : failure reading undo data")
    | some vtxundo =>
      if vtxundo.length + 1 ≠ block.vtx.length then
        .error (.error "DisconnectBlock() : block and undo data inconsistent")
      else
        match view.disconnectVtx pindex.nHeight (block.vtx.zip (none :: vtxundo.map some)) with
        | .error e => .error e
        | .ok (view, fClean) =>
          match pindex.pprev with
          | none => .error .outOfBounds
          | some pprev => .ok ({ view with hashBlock := pprev }, fClean)

end Alqo
