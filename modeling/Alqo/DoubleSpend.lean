import Alqo.ConnectTx

/-!
# Repeated inputs

Nothing before `UpdateCoins` keeps a transaction from naming one unspent output twice, and then the
assertion on the second `Spend` fails.
-/

namespace Alqo
open Lib.Fallible

theorem checkDuplicateInputs_nil (vin : List CTxIn) : checkDuplicateInputs [] vin = .ok () := by
  induction vin with
  | nil => rfl
  | cons txin rest ih => simpa [checkDuplicateInputs] using ih

section
variable {Hash : Bytes → uint256} {node : Node} {block : CBlock} {hash : uint256}
  {pindex pprev : CBlockIndex} {view : CoinsView} {fJustCheck fAlreadyChecked : Bool}

/-- `ConnectBlock` has connected the transactions before `tx`, and in the state `s`
has passed its checks of `tx` up to `UpdateCoins`. -/
structure ReachesUpdate (Hash : Bytes → uint256) (node : Node) (block : CBlock) (hash : uint256)
    (pindex pprev : CBlockIndex) (view : CoinsView) (fJustCheck fAlreadyChecked : Bool)
    (tx : CTransaction) (s : ConnectState) : Prop
    extends EntersLoop Hash node block hash pindex pprev view fJustCheck fAlreadyChecked where
  reached : ∃ before after t, block.vtx = before ++ tx :: after ∧
    connectVtx node (decide (pindex.nHeight ≥ node.totalBlocksEstimate)) pindex.nHeight before
      { view := view } = .ok t ∧
    beforeUpdateCoins node (decide (pindex.nHeight ≥ node.totalBlocksEstimate)) tx t = .ok s

/-- What ought to hold at `UpdateCoins`: the outpoints are distinct and unspent, and
every `Spend` succeeds. -/
structure SpendsOnce (nHeight : Nat) (tx : CTransaction) (view : CoinsView) : Prop where
  distinct : tx.spends.Nodup
  unspent : ∀ p ∈ tx.spends, (view.unspent p).isSome = true
  spent : ∃ r, view.updateCoins tx nHeight = .ok r

theorem ReachesUpdate.connectBlock_error {tx : CTransaction} {s : ConnectState} {e : Failure}
    (h : ReachesUpdate Hash node block hash pindex pprev view fJustCheck fAlreadyChecked tx s)
    (hupdate : s.view.updateCoins tx pindex.nHeight = .error e) :
    connectBlock Hash node block hash pindex view fJustCheck fAlreadyChecked = .error e := by
  obtain ⟨before, after, t, hvtx, ht, hs⟩ := h.reached
  have hloop : connectVtx node (decide (pindex.nHeight ≥ node.totalBlocksEstimate)) pindex.nHeight
      block.vtx { view := view } = .error e := by
    refine runFrom_error_iff.mpr ⟨before, tx, after, t, hvtx, ht, ?_⟩
    refine bind_error_iff.mpr (.inr ⟨s, hs, ?_⟩)
    exact bind_error_iff.mpr (.inl hupdate)
  rw [connectBlock_eq_body h.toEntersLoop, connectBlockBody]
  simp only [hloop]

/-- The duplicate check of `CheckTransaction` passes any inputs. A transaction that
reaches `UpdateCoins` finds its inputs unspent, and spends them without failing
exactly when no two name the same output; otherwise `ConnectBlock` ends in the
assertion. -/
theorem spendsOnce_iff {tx : CTransaction} {s : ConnectState}
    (h : ReachesUpdate Hash node block hash pindex pprev view fJustCheck fAlreadyChecked tx s) :
    checkDuplicateInputs [] tx.vin = .ok () ∧
      (SpendsOnce pindex.nHeight tx s.view ↔ tx.spends.Nodup) ∧
      (¬ tx.spends.Nodup →
        connectBlock Hash node block hash pindex view fJustCheck fAlreadyChecked =
          .error (.assertion "ret")) := by
  obtain ⟨before, after, t, -, -, hs⟩ := h.reached
  obtain ⟨hview, -, hunspent⟩ := beforeUpdateCoins_view _ _ hs
  rw [← hview] at hunspent
  obtain ⟨hok, herr⟩ := s.view.updateCoins_spec tx pindex.nHeight
  refine ⟨checkDuplicateInputs_nil tx.vin, ⟨SpendsOnce.distinct, fun hnodup => ?_⟩, fun hdup => ?_⟩
  · exact ⟨hnodup, hunspent, hok.mpr ⟨hnodup, hunspent⟩⟩
  · cases hupdate : s.view.updateCoins tx pindex.nHeight with
    | ok r => exact absurd (hok.mp ⟨r, hupdate⟩).1 hdup
    | error e =>
      obtain rfl := herr e hupdate
      exact h.connectBlock_error hupdate

end

theorem spendTx_spendsOnce :
    ∃ s, ReachesUpdate hash256 Node.afterFirst spendBlock (spendBlock.getHash hash256)
        (CBlockIndex.second spendBlock)
        { pprev := some mainParams.hashGenesisBlock, nHeight := 1 } CoinsView.paid false false
        spendTx s ∧ SpendsOnce 2 spendTx s.view := by
  have hrun : ∃ s, (connectVtx Node.afterFirst true 2 [secondCoinBase]
      { view := CoinsView.paid } >>= beforeUpdateCoins Node.afterFirst true spendTx) = .ok s := by
    decide +kernel
  obtain ⟨s, hs⟩ := hrun
  obtain ⟨t, ht, hs⟩ := bind_ok_iff.mp hs
  have hreach : ReachesUpdate hash256 Node.afterFirst spendBlock (spendBlock.getHash hash256)
      (CBlockIndex.second spendBlock)
      { pprev := some mainParams.hashGenesisBlock, nHeight := 1 } CoinsView.paid false false
      spendTx s := by
    refine ⟨⟨?_, rfl, ?_, rfl, ?_, ?_⟩, [secondCoinBase], [], t, rfl, ht, hs⟩
    all_goals decide +kernel
  exact ⟨s, hreach, (spendsOnce_iff hreach).2.1.mpr (by decide)⟩

def doubleSpend : CTransaction where
  hash := 0x76dbdeba420df392eb82102c7daffc68e0e6eb9422e257a8c94fa89008b3917f
  vin := [{ prevout := ⟨paidTx.hash, 0⟩ }, { prevout := ⟨paidTx.hash, 0⟩ }]
  vout := [⟨2 * COIN, [0x51], -10⟩]

def doubleSpendBlock : CBlock :=
  { secondHeader with
    hashMerkleRoot := 0x51cc59e79514beedc10a7e674f2c692f81ed9138ad17337aba9dedde8cd48310
    nNonce := 354314
    vtx := [secondCoinBase, doubleSpend] }

/-- `CheckTransaction` and `CheckBlock` pass it, and connecting the block ends in the
assertion of `UpdateCoins`. -/
theorem doubleSpend_asserts :
    checkTransaction mainParams doubleSpend = .ok () ∧ ¬ doubleSpend.prevouts.Nodup ∧
      checkBlock hash256 Node.afterFirst doubleSpendBlock true true = .ok [] ∧
      connectBlock hash256 Node.afterFirst doubleSpendBlock (doubleSpendBlock.getHash hash256)
        (CBlockIndex.second doubleSpendBlock) CoinsView.paid false false =
        .error (.assertion "ret") := by
  decide +kernel

end Alqo
