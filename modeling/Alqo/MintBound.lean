import Alqo.ConnectTx

/-!
# What a block mints

The 64-bit sums of `ConnectBlock` are right modulo `2^64`, and the comparison with the reward bounds
what is minted only as long as that fits in 64 bits.
-/

namespace Alqo
open Lib.Fallible Lib.FixedSum List

def CTransaction.mints (tx : CTransaction) : Bool := tx.isCoinBase || tx.isCoinStake

structure ExactSums where
  view : CoinsView
  out : Int := 0
  inp : Int := 0
  fees : Int := 0
  minted : Int := 0

def exactTx (nHeight : Nat) (x : ExactSums) (tx : CTransaction) : ExactSums :=
  let gain := tx.exactValueOut - x.view.exactValueIn tx.spends
  { view :=
      match x.view.updateCoins tx nHeight with
      | .ok (view, _) => view
      | .error _ => x.view
    out := x.out + tx.exactValueOut
    inp := x.inp + x.view.exactValueIn tx.spends
    fees := if tx.mints then x.fees else x.fees - gain
    minted := if tx.mints then x.minted + gain else x.minted }

def exactBlock (nHeight : Nat) (vtx : List CTransaction) (view : CoinsView) : ExactSums :=
  vtx.foldl (exactTx nHeight) { view := view }

theorem exactTx_balance (nHeight : Nat) (x : ExactSums) (tx : CTransaction)
    (h : x.out - x.inp + x.fees = x.minted) :
    (exactTx nHeight x tx).out - (exactTx nHeight x tx).inp + (exactTx nHeight x tx).fees =
      (exactTx nHeight x tx).minted := by
  simp only [exactTx]
  cases tx.mints with
  | true =>
    simp only [if_true]
    omega
  | false =>
    simp only [Bool.false_eq_true, if_false]
    omega

theorem foldl_exactTx_balance (nHeight : Nat) (vtx : List CTransaction) (x : ExactSums)
    (h : x.out - x.inp + x.fees = x.minted) :
    (vtx.foldl (exactTx nHeight) x).out - (vtx.foldl (exactTx nHeight) x).inp +
      (vtx.foldl (exactTx nHeight) x).fees = (vtx.foldl (exactTx nHeight) x).minted := by
  induction vtx generalizing x with
  | nil => exact h
  | cons tx rest ih => exact ih _ (exactTx_balance nHeight x tx h)

theorem foldl_exactTx_minted (nHeight : Nat) (vtx : List CTransaction) (x : ExactSums)
    (h : ∀ tx ∈ vtx, tx.mints = false) : (vtx.foldl (exactTx nHeight) x).minted = x.minted := by
  induction vtx generalizing x with
  | nil => rfl
  | cons tx rest ih =>
    rw [foldl_cons, ih _ fun t ht => h t (mem_cons_of_mem _ ht)]
    simp [exactTx, h tx mem_cons_self]

structure Accounts (hashBlock : uint256) (s : ConnectState) (x : ExactSums) : Prop where
  view : s.view = x.view
  best : s.view.hashBlock = hashBlock
  out : Tracks s.nValueOut x.out
  inp : Tracks s.nValueIn x.inp
  fees : Tracks s.nFees x.fees
  feesNonneg : 0 ≤ x.fees

section
variable {node : Node} {fScriptChecks : Bool} {nHeight : Nat} {hashBlock : uint256}
  {pindexPrev : CBlockIndex} {tx : CTransaction} {x : ExactSums} {s s' : ConnectState}
  {view : CoinsView} {block : CBlock} {Hash : Bytes → uint256}

theorem feesAfter_tracks {valueIn nFees nFees' : CAmount} (hcb : tx.isCoinBase = false)
    (h : feesAfter tx valueIn nFees = .ok nFees')
    (hin : Tracks valueIn (x.view.exactValueIn tx.prevouts)) (hfees : Tracks nFees x.fees) :
    Tracks nFees' (exactTx nHeight x tx).fees := by
  have hspends : tx.spends = tx.prevouts := by simp [CTransaction.spends, hcb]
  simp only [exactTx, CTransaction.mints, hcb, Bool.false_or, hspends]
  unfold feesAfter at h
  cases hstake : tx.isCoinStake with
  | true =>
    rw [hstake, if_pos rfl] at h
    cases h
    exact hfees
  | false =>
    rw [hstake, if_neg (by simp)] at h
    cases hv : valueOut tx with
    | error e =>
      rw [hv] at h
      cases h
    | ok out =>
      rw [hv] at h
      cases h
      have hout : Tracks out tx.exactValueOut := by
        rw [← ((valueOut_ok_iff tx out).mp hv).2]
        exact tracks_self out
      simp only [Bool.false_eq_true, if_false]
      rw [show x.fees - (tx.exactValueOut - x.view.exactValueIn tx.prevouts) =
        x.fees + (x.view.exactValueIn tx.prevouts - tx.exactValueOut) by omega]
      exact tracks_add hfees (tracks_sub hin hout)

theorem connectInputs_accounts (hmax : 0 ≤ node.params.nMaxMoneyOut.toInt)
    (hindex : node.mapBlockIndex.lookup hashBlock = some pindexPrev) (hacc : Accounts hashBlock s x)
    (h : connectInputs node fScriptChecks tx s = .ok s') :
    s'.view = s.view ∧ s'.nValueOut = s.nValueOut ∧
      Tracks s'.nValueIn (x.inp + x.view.exactValueIn tx.spends) ∧
      Tracks s'.nFees (exactTx nHeight x tx).fees ∧ 0 ≤ (exactTx nHeight x tx).fees ∧
      0 ≤ x.view.exactValueIn tx.spends := by
  cases hcb : tx.isCoinBase with
  | true =>
    rw [connectInputs, hcb, if_pos rfl] at h
    cases h
    have hspends : x.view.exactValueIn tx.spends = 0 := by
      simp [CTransaction.spends, hcb, CoinsView.exactValueIn]
    have hfees : (exactTx nHeight x tx).fees = x.fees := by
      simp [exactTx, CTransaction.mints, hcb]
    rw [hspends, hfees]
    exact ⟨rfl, rfl, by simpa using hacc.inp, hacc.fees, hacc.feesNonneg, le_rfl⟩
  | false =>
    obtain ⟨hhave, p2sh, valueIn, nFees, vChecks, -, -, hin, hfees, hchecks, rfl⟩ :=
      connectInputs_ok node fScriptChecks hcb h
    have hspends : tx.spends = tx.prevouts := by simp [CTransaction.spends, hcb]
    obtain ⟨v, hv, htracks⟩ := getValueIn_tracks s.view tx hcb hhave
    rw [hin] at hv
    cases hv
    rw [← hacc.best] at hindex
    obtain ⟨hnonneg, -, hbelow⟩ :=
      (checkInputs_spec node s.view tx fScriptChecks hmax hcb hhave hindex).1 vChecks hchecks
    rw [hacc.view] at htracks hnonneg hbelow
    rw [hspends]
    refine ⟨rfl, rfl, tracks_add hacc.inp htracks, ?_, ?_, hnonneg⟩
    · exact feesAfter_tracks hcb hfees htracks hacc.fees
    · have hfeesNonneg := hacc.feesNonneg
      simp only [exactTx, CTransaction.mints, hcb, Bool.false_or, hspends]
      cases hstake : tx.isCoinStake with
      | true => simpa using hfeesNonneg
      | false =>
        have := (hbelow hstake).2
        simp only [Bool.false_eq_true, if_false]
        omega

theorem connectTx_accounts {first : Bool} (hmax : 0 ≤ node.params.nMaxMoneyOut.toInt)
    (hindex : node.mapBlockIndex.lookup hashBlock = some pindexPrev) (hacc : Accounts hashBlock s x)
    (h : connectTx node fScriptChecks nHeight first tx s = .ok s') :
    Accounts hashBlock s' (exactTx nHeight x tx) ∧ tx.ValueOutOk ∧
      0 ≤ x.view.exactValueIn tx.spends := by
  obtain ⟨mid, view, txundo, hbefore, hupdate, rfl⟩ := connectTx_ok node fScriptChecks h
  obtain ⟨-, -, mid, out, hmid, hout, rfl⟩ := beforeUpdateCoins_ok node fScriptChecks hbefore
  obtain ⟨hok, hvalue⟩ := (valueOut_ok_iff tx out).mp hout
  have hacc' : Accounts hashBlock { s with nSigOps := s.nSigOps + getLegacySigOpCount tx } x :=
    ⟨hacc.view, hacc.best, hacc.out, hacc.inp, hacc.fees, hacc.feesNonneg⟩
  obtain ⟨hview, hvout, hin, hfees, hnonneg, hspent⟩ :=
    connectInputs_accounts hmax hindex hacc' hmid
  rw [hview] at hupdate
  refine ⟨⟨?_, ?_, ?_, hin, hfees, hnonneg⟩, hok, hspent⟩
  · simp only [exactTx, ← hacc.view, hupdate]
  · exact (CoinsView.hashBlock_of_updateCoins hupdate).trans hacc.best
  · rw [hvout]
    refine tracks_add hacc.out ?_
    rw [← hvalue]
    exact tracks_self out

theorem connectVtx_accounts {vtx : List CTransaction} (hmax : 0 ≤ node.params.nMaxMoneyOut.toInt)
    (hindex : node.mapBlockIndex.lookup view.hashBlock = some pindexPrev)
    (h : connectVtx node fScriptChecks nHeight vtx { view := view } = .ok s) :
    Accounts view.hashBlock s (exactBlock nHeight vtx view) := by
  have hstart : Accounts view.hashBlock { view := view } (exactBlock nHeight [] view) :=
    ⟨rfl, rfl, tracks_zero, tracks_zero, tracks_zero, le_rfl⟩
  refine runFrom_induct (fun seen s => Accounts view.hashBlock s (exactBlock nHeight seen view))
    (fun seen tx s s' hacc hstep => ?_) [] hstart h
  rw [exactBlock, foldl_append]
  exact (connectTx_accounts hmax hindex hacc hstep).1

theorem exactValueOut_emptyOutput (h : tx.emptyOutput = true) : tx.exactValueOut = 0 := by
  unfold CTransaction.emptyOutput at h
  split at h
  · next out hout =>
    simp only [CTxOut.isEmpty, Bool.and_eq_true, beq_iff_eq] at h
    simp [CTransaction.exactValueOut, hout, h.1]
  · cases h

theorem checkBlockShape_stake (hpos : block.isProofOfStake = true)
    (h : checkBlockShape block = .ok ()) :
    ∃ coinbase coinstake rest, block.vtx = coinbase :: coinstake :: rest ∧
      coinbase.isCoinBase = true ∧ coinbase.exactValueOut = 0 ∧
      coinstake.isCoinStake = true ∧ ∀ tx ∈ rest, tx.mints = false := by
  unfold checkBlockShape at h
  rw [hpos] at h
  unfold CBlock.isProofOfStake at hpos
  split at hpos
  swap
  · cases hpos
  next coinbase coinstake rest hvtx =>
  rw [hvtx] at h
  dsimp only at h
  split_ifs at h with h1 h2 h3 h4
  iterate 4 · cases h
  simp only [Bool.not_eq_true', Bool.not_eq_false, Bool.true_and, any_eq_true,
    drop_succ_cons, drop_zero, not_exists, not_and, Bool.not_eq_true] at h1 h2 h3 h4
  refine ⟨coinbase, coinstake, rest, hvtx, h1, exactValueOut_emptyOutput h3, hpos, ?_⟩
  intro tx htx
  simp [CTransaction.mints, h2 tx (mem_cons_of_mem _ htx), h4 tx htx]

theorem checkBlockShape_of_checkBlock {fCheckPOW fCheckMerkleRoot : Bool} {history : PaymentHistory}
    (h : checkBlock Hash node block fCheckPOW fCheckMerkleRoot = .ok history) :
    checkBlockShape block = .ok () := by
  obtain ⟨u, -, h⟩ := bind_ok_iff.mp h
  obtain ⟨u', hshape, -⟩ := bind_ok_iff.mp h
  exact hshape

theorem minted_lt_of_stake (hmax : 0 ≤ node.params.nMaxMoneyOut.toInt)
    (hindex : node.mapBlockIndex.lookup view.hashBlock = some pindexPrev)
    (hpos : block.isProofOfStake = true) (hshape : checkBlockShape block = .ok ())
    (h : connectVtx node fScriptChecks nHeight block.vtx { view := view } = .ok s) :
    (exactBlock nHeight block.vtx view).minted < 2 ^ 63 := by
  obtain ⟨coinbase, coinstake, rest, hvtx, hcb, hzero, hstake, hrest⟩ :=
    checkBlockShape_stake hpos hshape
  rw [hvtx] at h ⊢
  obtain ⟨s₁, h₁, h⟩ := runFrom_cons_ok_iff.mp h
  obtain ⟨s₂, h₂, -⟩ := runFrom_cons_ok_iff.mp h
  have hstart : Accounts view.hashBlock { view := view } { view := view } :=
    ⟨rfl, rfl, tracks_zero, tracks_zero, tracks_zero, le_rfl⟩
  obtain ⟨hacc, -, -⟩ := connectTx_accounts hmax hindex hstart h₁
  obtain ⟨-, hok, hspent⟩ := connectTx_accounts hmax hindex hacc h₂
  have hfirst : (exactTx nHeight { view := view } coinbase).minted = 0 := by
    simp [exactTx, CTransaction.mints, hcb, hzero, CTransaction.spends, CoinsView.exactValueIn]
  have hmints : coinstake.mints = true := by simp [CTransaction.mints, hstake]
  rw [exactBlock, foldl_cons, foldl_cons, foldl_exactTx_minted nHeight rest _ hrest]
  simp only [exactTx, hmints, if_true] at hspent hfirst ⊢
  have hlt := hok.2
  omega

/-- What `ConnectBlock` lets a block mint: the reward, and the fees if it is proof of
work. -/
def exactExpectedMint (block : CBlock) (pprevHeight : Nat) (x : ExactSums) : Int :=
  (getBlockValue pprevHeight).toInt + if block.isProofOfWork then x.fees else 0

def WithinReward (block : CBlock) (pprevHeight : Nat) (x : ExactSums) : Prop :=
  x.out - x.inp + x.fees ≤ exactExpectedMint block pprevHeight x

theorem getBlockValue_nonneg (nHeight : Nat) : 0 ≤ (getBlockValue nHeight).toInt := by
  unfold getBlockValue
  split_ifs <;> decide

theorem exactExpectedMint_nonneg (block : CBlock) (pprevHeight : Nat) (x : ExactSums)
    (h : 0 ≤ x.fees) : 0 ≤ exactExpectedMint block pprevHeight x := by
  have hvalue := getBlockValue_nonneg pprevHeight
  unfold exactExpectedMint
  split_ifs <;> omega

theorem expectedMint_tracks (block : CBlock) (pprevHeight : Nat) (x : ExactSums) (nFees : CAmount)
    (h : Tracks nFees x.fees) :
    Tracks (expectedMint block pprevHeight nFees) (exactExpectedMint block pprevHeight x) := by
  unfold expectedMint exactExpectedMint
  split_ifs
  · exact tracks_add (tracks_self _) h
  · simpa using tracks_self _

theorem minted_tracks (pindex : CBlockIndex) (nMoneySupplyPrev : CAmount)
    (h : Accounts hashBlock s x) :
    Tracks (pindex.minted nMoneySupplyPrev s).nMint (x.out - x.inp + x.fees) := by
  have hsupply := tracks_sub (tracks_add (tracks_self nMoneySupplyPrev) h.out) h.inp
  have hmint := tracks_add (tracks_sub hsupply (tracks_self nMoneySupplyPrev)) h.fees
  have heq : nMoneySupplyPrev.toInt + x.out - x.inp - nMoneySupplyPrev.toInt + x.fees =
      x.out - x.inp + x.fees := by omega
  rwa [heq] at hmint

theorem connectBlock_accounts {hash : uint256} {pindex pprev : CBlockIndex}
    {fJustCheck fAlreadyChecked : Bool} {c : Connected} (hmax : 0 ≤ node.params.nMaxMoneyOut.toInt)
    (hgen : block.getHash Hash ≠ node.params.hashGenesisBlock)
    (hparent : (pindex.pprev.bind fun p => node.mapBlockIndex.lookup p) = some pprev)
    (h : connectBlock Hash node block hash pindex view fJustCheck fAlreadyChecked = .ok c) :
    ∃ s, connectVtx node (decide (pindex.nHeight ≥ node.totalBlocksEstimate)) pindex.nHeight
        block.vtx { view := view } = .ok s ∧
      node.mapBlockIndex.lookup view.hashBlock = some pprev ∧
      Accounts view.hashBlock s (exactBlock pindex.nHeight block.vtx view) ∧
      isBlockValueValid node.params node.toPaymentState node.toChainState block.hashPrevBlock
        (expectedMint block pprev.nHeight s.nFees) (pindex.minted pprev.nMoneySupply s).nMint =
          true := by
  obtain ⟨pprev', henter, hbody⟩ := connectBlock_ok hgen h
  obtain rfl : pprev' = pprev := Option.some.inj (henter.parent.symm.trans hparent)
  obtain ⟨s, hloop, hvalue, -⟩ := connectBlockBody_ok hbody
  have hindex : node.mapBlockIndex.lookup view.hashBlock = some pprev' := by
    obtain ⟨p, hp, hlookup⟩ := Option.bind_eq_some_iff.mp hparent
    have hbest := henter.best
    rw [hp] at hbest
    rw [← hbest]
    exact hlookup
  exact ⟨s, hloop, hindex, connectVtx_accounts hmax hindex hloop, hvalue⟩

end

instance (block : CBlock) (pprevHeight : Nat) (x : ExactSums) :
    Decidable (WithinReward block pprevHeight x) :=
  inferInstanceAs (Decidable (_ ≤ _))

/-- A transaction of the shape of a coinstake that pays out all that 64 bits can
hold for a coin of `paidTx`. -/
def wrappingTx (hash : uint256) (n : Nat) : CTransaction where
  hash := hash
  vin := [{ prevout := ⟨paidTx.hash, n⟩ }]
  vout := [⟨0, [], -10⟩, ⟨0x7fffffffffffffff, [0x51], -10⟩]

def wrappingBlock : CBlock :=
  { secondHeader with
    hashMerkleRoot := 0xc751627cf50b9953adee22f097cfcef0f0e265bcba428e3605ba27e9ba6d448c
    nNonce := 51007
    vtx := [secondCoinBase, spendTx,
      wrappingTx 0x7eeb25e4ab4302c66902e850a5484228fec3bc37fbc8855f82253a700daffc22 1,
      wrappingTx 0x5e210e96e64c30cce104a1d1df02205a832fea7f83946aa2550f056c21cc8bac 2] }

end Alqo
