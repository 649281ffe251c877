import Alqo.UndoBlock
import Alqo.MintBound

/-!
# Connecting a block and disconnecting it

The view comes back exactly when every entry that loses its last output is one whose metadata the
undo step puts back.
-/

namespace Alqo
open Lib.Fallible Lib.UndoLog List

def CTransaction.coinOps (tx : CTransaction) : List CoinOp :=
  tx.spends.map .spend ++ [.create tx]

def CBlock.coinOps (block : CBlock) : List CoinOp := block.vtx.flatMap CTransaction.coinOps

def CTxUndo.coinLog (txundo : CTxUndo) : List CTxInUndo :=
  txundo.vprevout ++ [{ txout := CTxOut.null }]

variable {view view' : CoinsView} {x : uint256}

theorem coins_none_of_spendInputs {prevouts : List COutPoint} {undos : List CTxInUndo}
    (hx : view.coins x = none) (h : view.spendInputs prevouts = .ok (view', undos)) :
    view'.coins x = none := by
  induction prevouts generalizing view undos with
  | nil =>
    cases h
    exact hx
  | cons p rest ih =>
    obtain ⟨view₁, u, us, hp, hrest, -⟩ := recordAll_cons_ok_iff.mp h
    refine ih ?_ hrest
    have hrecord : CoinOp.record 0 view (.spend p) = .ok (view₁, u) := hp
    obtain ⟨txout, hout, -, -, rfl⟩ := CoinOp.record_spend_ok hrecord
    -- an absent entry has nothing to spend
    have hne : x ≠ p.hash := by
      rintro rfl
      rw [CoinsMap.coins, hx] at hout
      cases hout
    exact (CoinsMap.modify_of_ne view.coins p.hash x (fun c => c.spent p.n) hne).trans hx

theorem coins_none_of_not_overwrites (h : view.overwrites x = false) : view.coins x = none := by
  cases hx : view.coins x with
  | none => rfl
  | some st =>
    simp [CoinsView.overwrites, CoinsView.accessCoins, hx, st.isPruned_coins] at h

section
variable {node : Node} {fScriptChecks : Bool} {nHeight : Nat} {view : CoinsView} {tx : CTransaction}
  {s : ConnectState} {vtx : List CTransaction} {txundos : List CTxUndo}

theorem connectTx_record {first : Bool} {s' : ConnectState}
    (h : connectTx node fScriptChecks nHeight first tx s = .ok s') :
    ∃ txundo : CTxUndo, txundo.vprevout.length = tx.spends.length ∧
      recordAll (CoinOp.record nHeight) s.view tx.coinOps = .ok (s'.view, txundo.coinLog) ∧
      s'.vtxundo = if first then s.vtxundo else s.vtxundo ++ [txundo] := by
  obtain ⟨mid, view, txundo, hbefore, hupdate, rfl⟩ := connectTx_ok node fScriptChecks h
  obtain ⟨hover, -, -, out, -, hvalue, -⟩ := beforeUpdateCoins_ok node fScriptChecks hbefore
  obtain ⟨hview, hundo, -⟩ := beforeUpdateCoins_view node fScriptChecks hbefore
  rw [hview, CoinsView.updateCoins_eq] at hupdate
  cases hs : s.view.spendInputs tx.spends with
  | error e =>
    rw [hs] at hupdate
    cases hupdate
  | ok r =>
    obtain ⟨spent, undos⟩ := r
    rw [hs] at hupdate
    cases hupdate
    have hspends : recordAll (CoinOp.record nHeight) s.view (tx.spends.map .spend) =
        .ok (spent, undos) := by
      rw [recordAll_map CoinOp.spend fun _ _ => rfl]
      exact hs
    have hnone : spent.coins tx.hash = none :=
      coins_none_of_spendInputs (coins_none_of_not_overwrites hover) hs
    have hcreate : CoinOp.record nHeight spent (.create tx) =
        .ok (spent.create tx nHeight, { txout := CTxOut.null }) := by
      rw [CoinOp.record, if_pos ⟨by rw [hnone]; rfl, ((valueOut_ok_iff tx out).mp hvalue).1⟩]
    refine ⟨⟨undos⟩, recordAll_length hs, ?_, ?_⟩
    · rw [CTransaction.coinOps, recordAll_append_ok_iff]
      exact ⟨spent, undos, _, hspends, by rw [recordAll, hcreate]; rfl, rfl⟩
    · simp only [hundo]

def UndoFits (vtx : List CTransaction) (txundos : List CTxUndo) : Prop :=
  List.Forall₂ (fun tx txundo => txundo.vprevout.length = tx.spends.length) vtx txundos

theorem connectVtx_record (h : connectVtx node fScriptChecks nHeight vtx { view := view } = .ok s) :
    ∃ txundos, UndoFits vtx txundos ∧ s.vtxundo = txundos.tail ∧
      recordAll (CoinOp.record nHeight) view (vtx.flatMap CTransaction.coinOps) =
        .ok (s.view, txundos.flatMap CTxUndo.coinLog) := by
  refine runFrom_induct (fun seen s => ∃ txundos, UndoFits seen txundos ∧ s.vtxundo = txundos.tail ∧
    recordAll (CoinOp.record nHeight) view (seen.flatMap CTransaction.coinOps) =
      .ok (s.view, txundos.flatMap CTxUndo.coinLog)) ?_ [] ⟨[], .nil, rfl, rfl⟩ h
  rintro seen tx s s' ⟨txundos, hfits, hundo, hrecord⟩ hstep
  obtain ⟨txundo, hlen, htx, hundo'⟩ := connectTx_record hstep
  refine ⟨txundos ++ [txundo], rel_append hfits (.cons hlen .nil), ?_, ?_⟩
  · cases hfits with
    | nil => simpa [hundo] using hundo'
    | cons _ _ => simpa [hundo] using hundo'
  · rw [flatMap_append, flatMap_append, recordAll_append_ok_iff]
    refine ⟨s.view, _, _, hrecord, ?_, rfl⟩
    simpa using htx

theorem disconnectTx_undo {txundo : CTxUndo} {given : Option CTxUndo}
    (hlen : txundo.vprevout.length = tx.spends.length)
    (hgiven : given = some txundo ∨ tx.isCoinBase = true) :
    view.disconnectTx nHeight tx given =
      .ok (undoAll (CoinOp.undo nHeight) view (tx.coinOps.zip txundo.coinLog)) := by
  have hzip : tx.coinOps.zip txundo.coinLog = (tx.spends.map CoinOp.spend).zip txundo.vprevout ++
        [(CoinOp.create tx, { txout := CTxOut.null })] := by
    rw [CTransaction.coinOps, CTxUndo.coinLog, zip_append (by simpa using hlen.symm)]
    rfl
  have hspend : ∀ v, undoAll (CoinOp.undo nHeight) v
      ((tx.spends.map CoinOp.spend).zip txundo.vprevout) =
      undoAll CoinsView.restoreInput v (tx.spends.zip txundo.vprevout) := fun v =>
    undoAll_map CoinOp.spend (fun _ _ _ => rfl) v tx.spends txundo.vprevout
  rw [hzip, undoAll_append, hspend]
  unfold CoinsView.disconnectTx
  cases hcb : tx.isCoinBase with
  | true =>
    have hspends : tx.spends = [] := by simp [CTransaction.spends, hcb]
    simp [hspends, undoAll, CoinOp.undo]
  | false =>
    have hspends : tx.spends = tx.prevouts := by simp [CTransaction.spends, hcb]
    have hvin : txundo.vprevout.length = tx.vin.length := by
      rw [hlen, hspends, CTransaction.prevouts, length_map]
    obtain rfl : given = some txundo := by simpa [hcb] using hgiven
    simp [hspends, hvin, undoAll, CoinOp.undo]

theorem disconnectVtx_undo (hfits : UndoFits vtx txundos) :
    view.disconnectVtx nHeight (vtx.zip (txundos.map some)) =
      .ok (undoAll (CoinOp.undo nHeight) view
        ((vtx.flatMap CTransaction.coinOps).zip (txundos.flatMap CTxUndo.coinLog))) := by
  induction hfits with
  | nil => rfl
  | @cons tx txundo rest undos hlen _ ih =>
    have hops : tx.coinOps.length = txundo.coinLog.length := by
      simp [CTransaction.coinOps, CTxUndo.coinLog, hlen]
    rw [map_cons, zip_cons_cons, CoinsView.disconnectVtx, ih, flatMap_cons,
      flatMap_cons, zip_append hops, undoAll_append]
    dsimp only
    rw [disconnectTx_undo hlen (.inl rfl)]

theorem disconnectVtx_block {coinbase : CTransaction} {rest : List CTransaction}
    (hcb : coinbase.isCoinBase = true) (hfits : UndoFits (coinbase :: rest) txundos) :
    view.disconnectVtx nHeight ((coinbase :: rest).zip (none :: txundos.tail.map some)) =
      .ok (undoAll (CoinOp.undo nHeight) view (((coinbase :: rest).flatMap CTransaction.coinOps).zip
          (txundos.flatMap CTxUndo.coinLog))) := by
  cases hfits with
  | @cons _ txundo _ undos hlen hrest =>
    have hops : coinbase.coinOps.length = txundo.coinLog.length := by
      simp [CTransaction.coinOps, CTxUndo.coinLog, hlen]
    rw [tail_cons, zip_cons_cons, CoinsView.disconnectVtx, disconnectVtx_undo hrest,
      flatMap_cons, flatMap_cons, zip_append hops, undoAll_append]
    dsimp only
    rw [disconnectTx_undo hlen (.inr hcb)]

end

def CBlock.UndoKeepsAll (block : CBlock) (nHeight : Nat) (view : CoinsView) : Prop :=
  GoodAlong (CoinOp.record nHeight) (fun view op => op.Kept view) view block.coinOps

theorem undo_restores_iff {nHeight : Nat} {t : CoinsView} {ops : List CoinOp} {log : List CTxInUndo}
    (h : recordAll (CoinOp.record nHeight) view ops = .ok (view', log)) (ht : Restores t view') :
    ((undoAll (CoinOp.undo nHeight) t (ops.zip log)).2 = true ∧
      ∀ x, (undoAll (CoinOp.undo nHeight) t (ops.zip log)).1.coins.content x =
        view.coins.content x) ↔
      GoodAlong (CoinOp.record nHeight) (fun view op => op.Kept view) view ops := by
  constructor
  · rintro ⟨hclean, hcontent⟩
    by_contra hnot
    rcases undoAll_of_not_goodAlong CoinOp.undo_kept CoinOp.undo_not_kept CoinOp.undo_stakeLost h
      hnot ht with hlost | hunclean
    · obtain ⟨x, was, is, hwas, hstake, his, hflag⟩ := hlost
      rw [hcontent x, hwas] at his
      cases his
      rw [hstake] at hflag
      cases hflag
    · rw [hclean] at hunclean
      cases hunclean
  · intro hgood
    obtain ⟨hR, hclean⟩ := undoAll_recordAll CoinOp.undo_kept hgood h ht
    exact ⟨hclean, hR.content⟩

section
variable {Hash : Bytes → uint256} {node : Node} {block : CBlock} {hash p : uint256}
  {pindex : CBlockIndex} {view : CoinsView} {fAlreadyChecked : Bool} {c : Connected}

theorem CBlockIndex.connected_spec (pindex : CBlockIndex) (nMoneySupplyPrev : CAmount)
    (s : ConnectState) (undoPos : Nat) :
    ((pindex.minted nMoneySupplyPrev s).connected undoPos).nStatus.fHaveUndo = true ∧
      ((pindex.minted nMoneySupplyPrev s).connected undoPos).nHeight = pindex.nHeight ∧
      ((pindex.minted nMoneySupplyPrev s).connected undoPos).pprev = pindex.pprev := by
  refine ⟨?_, rfl, rfl⟩
  simp only [CBlockIndex.connected, BlockStatus.raiseValidity]
  split_ifs <;> rfl

theorem checkBlockShape_coinbase (h : checkBlockShape block = .ok ()) :
    ∃ coinbase rest, block.vtx = coinbase :: rest ∧ coinbase.isCoinBase = true := by
  unfold checkBlockShape at h
  cases hvtx : block.vtx with
  | nil =>
    rw [hvtx] at h
    cases h
  | cons coinbase rest =>
    rw [hvtx] at h
    dsimp only at h
    cases hcb : coinbase.isCoinBase with
    | true => exact ⟨coinbase, rest, rfl, hcb⟩
    | false =>
      rw [hcb] at h
      cases h

/-- Disconnecting an accepted block with the undo data it left is clean and gives back
the view exactly when no input of the block takes the last output of an entry that
is a coinstake or has height zero. -/
theorem disconnectBlock_restores_iff {fCheckPOW fCheckMerkleRoot : Bool}
    {history : PaymentHistory} (hgen : block.getHash Hash ≠ node.params.hashGenesisBlock)
    (hparent : pindex.pprev = some p)
    (hcheck : checkBlock Hash node block fCheckPOW fCheckMerkleRoot = .ok history)
    (h : connectBlock Hash node block hash pindex view false fAlreadyChecked = .ok c) :
    (∃ view', disconnectBlock block hash c.pindex c.view (some c.vtxundo) = .ok (view', true) ∧
      (∀ x, view'.coins.content x = view.coins.content x) ∧ view'.hashBlock = view.hashBlock) ↔
      block.UndoKeepsAll pindex.nHeight view := by
  obtain ⟨pprev, henter, hbody⟩ := connectBlock_ok hgen h
  obtain ⟨s, hloop, -, hcoins, hundo, hconnected⟩ := connectBlockBody_ok hbody
  obtain ⟨hbest, hpindex⟩ := hconnected rfl
  obtain ⟨hhave, hheight, hpprev⟩ :=
    CBlockIndex.connected_spec pindex pprev.nMoneySupply s node.undoPos
  rw [← hpindex] at hhave hheight hpprev
  obtain ⟨coinbase, rest, hvtx, hcb⟩ :=
    checkBlockShape_coinbase (checkBlockShape_of_checkBlock hcheck)
  obtain ⟨txundos, hfits, htail, hrecord⟩ := connectVtx_record hloop
  rw [← CBlock.coinOps] at hrecord
  have hview : Restores c.view s.view :=
    ⟨fun x => by rw [hcoins], fun x => by rw [hcoins]; exact id⟩
  have hlen : c.vtxundo.length + 1 = block.vtx.length := by
    have hsame := hfits.length_eq
    rw [hundo, htail, length_tail, hsame]
    have hpos : 0 < block.vtx.length := by simp [hvtx]
    omega
  -- what DisconnectBlock computes
  have hdisconnect : disconnectBlock block hash c.pindex c.view (some c.vtxundo) =
      .ok ({ (undoAll (CoinOp.undo pindex.nHeight) c.view
          (block.coinOps.zip (txundos.flatMap CTxUndo.coinLog))).1 with hashBlock := p },
        (undoAll (CoinOp.undo pindex.nHeight) c.view
          (block.coinOps.zip (txundos.flatMap CTxUndo.coinLog))).2) := by
    rw [hvtx] at hfits
    have hvtxUndo : c.view.disconnectVtx pindex.nHeight
        (block.vtx.zip (none :: c.vtxundo.map some)) =
        .ok (undoAll (CoinOp.undo pindex.nHeight) c.view
          (block.coinOps.zip (txundos.flatMap CTxUndo.coinLog))) := by
      rw [CBlock.coinOps, hvtx, hundo, htail]
      exact disconnectVtx_block hcb hfits
    rw [disconnectBlock, if_neg (not_not.mpr hbest.symm), hhave, if_neg (by simp)]
    dsimp only
    rw [if_neg (not_not.mpr hlen), hheight, hvtxUndo, hpprev, hparent]
  have hbestBlock : p = view.hashBlock := by
    have := henter.best
    rwa [hparent] at this
  rw [CBlock.UndoKeepsAll, ← undo_restores_iff hrecord hview, hdisconnect]
  constructor
  · rintro ⟨view', hok, hcontent, -⟩
    obtain ⟨hview', hclean⟩ := Prod.mk.inj (Except.ok.inj hok)
    rw [← hview'] at hcontent
    exact ⟨hclean, hcontent⟩
  · rintro ⟨hclean, hcontent⟩
    rw [hclean]
    exact ⟨_, rfl, hcontent, hbestBlock⟩

end

instance (block : CBlock) (nHeight : Nat) (view : CoinsView) :
    Decidable (block.UndoKeepsAll nHeight view) :=
  inferInstanceAs (Decidable (GoodAlong _ _ _ _))

theorem spendBlock_restores :
    ∃ c, connectBlock hash256 Node.afterFirst spendBlock (spendBlock.getHash hash256)
        (CBlockIndex.second spendBlock) CoinsView.paid false false = .ok c ∧
      ∃ view', disconnectBlock spendBlock (spendBlock.getHash hash256) c.pindex c.view
          (some c.vtxundo) = .ok (view', true) ∧
        (∀ x, view'.coins.content x = CoinsView.paid.coins.content x) ∧
        view'.hashBlock = CoinsView.paid.hashBlock := by
  have haccept : checkBlock hash256 Node.afterFirst spendBlock true true = .ok [] ∧
      spendBlock.getHash hash256 ≠ mainParams.hashGenesisBlock ∧
      spendBlock.UndoKeepsAll 2 CoinsView.paid ∧
      ∃ c, connectBlock hash256 Node.afterFirst spendBlock (spendBlock.getHash hash256)
        (CBlockIndex.second spendBlock) CoinsView.paid false false = .ok c := by
    decide +kernel
  obtain ⟨hcheck, hgen, hkept, c, hc⟩ := haccept
  exact ⟨c, hc, (disconnectBlock_restores_iff hgen rfl hcheck hc).mpr hkept⟩

def hundredth : uint256 := 0xa11ce000000000000000000000000000000000000000000000000000000

def Node.afterHundred : Node :=
  { Node.afterFirst with
    mapBlockIndex := AList.singleton hundredth { nHeight := 100 }
    chainActive := [hundredth] }

def oldStake : CTransaction where
  hash := 0xb06b7b236596643c0852710a5b02f6985d2b0c2a47eb45a259e954363fc5ce3f
  vin := [{ prevout := ⟨firstHeader.hashMerkleRoot, 0⟩ }]
  vout := [⟨0, [], -10⟩, ⟨10 * COIN, [0x51], -10⟩]

def CoinsView.staked : CoinsView where
  coins := fun txid => if txid = oldStake.hash then (CCoins.fromTx oldStake 50).store else none
  hashBlock := hundredth

def spendStakeBlock : CBlock :=
  { secondHeader with
    hashPrevBlock := hundredth
    hashMerkleRoot := 0x5a571edcdfc0517b9434793681cad5f070741506b7c5d643c06cfb2b6716513
    nNonce := 87679
    vtx := [secondCoinBase, {
      hash := 0x1851bf687fec0d827e323230a43b31026a47887dc7a2a178897fb964acf0506c
      vin := [{ prevout := ⟨oldStake.hash, 0⟩, scriptSig := [0x51] },
        { prevout := ⟨oldStake.hash, 1⟩ }]
      vout := [⟨10 * COIN, [0x51], -10⟩] }] }

/-- Connected and disconnected again, reportedly clean, the coinstake is one no
longer. -/
theorem spendStakeBlock_forgets :
    checkBlock hash256 Node.afterHundred spendStakeBlock true true = .ok [] ∧
      (CoinsView.staked.coins.content oldStake.hash).map UnspentTx.fCoinStake = some true ∧
      ∃ c, connectBlock hash256 Node.afterHundred spendStakeBlock (spendStakeBlock.getHash hash256)
          { CBlockIndex.second spendStakeBlock with pprev := some hundredth, nHeight := 101 }
          CoinsView.staked false false = .ok c ∧
        ∃ r, disconnectBlock spendStakeBlock (spendStakeBlock.getHash hash256) c.pindex c.view
            (some c.vtxundo) = .ok r ∧ r.2 = true ∧
          (r.1.coins.content oldStake.hash).map UnspentTx.fCoinStake = some false := by
  decide +kernel

end Alqo
