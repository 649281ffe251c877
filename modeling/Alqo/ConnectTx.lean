import Alqo.ConnectBlock

/-!
# One turn of the loop of ConnectBlock

What a turn that succeeds has done, in exact integers, and how a turn can fail.
-/

namespace Alqo
open Lib.Fallible Lib.FixedSum Lib.UndoLog CoinsView List

theorem valueOut_ok_iff (tx : CTransaction) (v : CAmount) :
    valueOut tx = .ok v ↔ tx.ValueOutOk ∧ v.toInt = tx.exactValueOut := by
  rw [← CTransaction.getValueOut_ok_iff]
  unfold valueOut
  cases tx.getValueOut <;> simp

theorem valueOut_error_iff (tx : CTransaction) :
    (∃ e, valueOut tx = .error e) ↔ ¬ tx.ValueOutOk := by
  rw [← CTransaction.getValueOut_error_iff]
  unfold valueOut
  cases tx.getValueOut <;> simp

variable {e : Failure} {out : CTxOut} {view : CoinsView} {p : COutPoint}

theorem valueOut_error {tx : CTransaction} (h : valueOut tx = .error e) :
    ∃ what, e = .throws what := by
  unfold valueOut at h
  cases hv : tx.getValueOut with
  | ok v => simp [hv] at h
  | error what =>
    rw [hv] at h
    exact ⟨what, (Except.error.inj h).symm⟩

def CoinsView.exactValueIn (view : CoinsView) (prevouts : List COutPoint) : Int :=
  exactSum (prevouts.map fun p => ((view.unspent p).map CTxOut.nValue).getD 0)

theorem CoinsView.exactValueIn_cons {rest : List COutPoint} (h : view.unspent p = some out) :
    view.exactValueIn (p :: rest) = out.nValue.toInt + view.exactValueIn rest := by
  simp [CoinsView.exactValueIn, h]

theorem getValueInFrom_tracks (view : CoinsView) (vin : List CTxIn) (acc : CAmount) (x : Int)
    (hacc : Tracks acc x) (h : ∀ txin ∈ vin, (view.unspent txin.prevout).isSome = true) :
    ∃ v, view.getValueInFrom acc vin = .ok v ∧
      Tracks v (x + view.exactValueIn (vin.map CTxIn.prevout)) := by
  induction vin generalizing acc x with
  | nil => exact ⟨acc, rfl, by simpa [CoinsView.exactValueIn] using hacc⟩
  | cons txin rest ih =>
    obtain ⟨out, hout⟩ := Option.isSome_iff_exists.mp (h txin mem_cons_self)
    obtain ⟨v, hv, htracks⟩ := ih (acc + out.nValue) (x + out.nValue.toInt)
      (tracks_add hacc (tracks_self _)) fun t ht => h t (mem_cons_of_mem _ ht)
    refine ⟨v, ?_, ?_⟩
    · simpa [CoinsView.getValueInFrom, CoinsView.getOutputFor, hout] using hv
    · rw [map_cons, exactValueIn_cons hout, ← Int.add_assoc]
      exact htracks

theorem getValueIn_tracks (view : CoinsView) (tx : CTransaction) (hcb : tx.isCoinBase = false)
    (h : view.haveInputs tx = true) :
    ∃ v, view.getValueIn tx = .ok v ∧ Tracks v (view.exactValueIn tx.prevouts) := by
  rw [haveInputs_iff view tx hcb] at h
  obtain ⟨v, hv, ht⟩ := getValueInFrom_tracks view tx.vin 0 0 tracks_zero fun txin ht =>
    h txin.prevout (mem_map_of_mem ht)
  refine ⟨v, ?_, by simpa [CTransaction.prevouts] using ht⟩
  rw [CoinsView.getValueIn, hcb]
  exact hv

theorem p2shSigOps_ok (view : CoinsView) (vin : List CTxIn)
    (h : ∀ txin ∈ vin, (view.unspent txin.prevout).isSome = true) :
    ∃ n, view.p2shSigOps vin = .ok n := by
  induction vin with
  | nil => exact ⟨0, rfl⟩
  | cons txin rest ih =>
    obtain ⟨out, hout⟩ := Option.isSome_iff_exists.mp (h txin mem_cons_self)
    obtain ⟨n, hn⟩ := ih fun t ht => h t (mem_cons_of_mem _ ht)
    exact ⟨_, by simp only [CoinsView.p2shSigOps, CoinsView.getOutputFor, hout, hn]; rfl⟩

theorem getP2SHSigOpCount_ok (view : CoinsView) (tx : CTransaction) (hcb : tx.isCoinBase = false)
    (h : view.haveInputs tx = true) : ∃ n, view.getP2SHSigOpCount tx = .ok n := by
  rw [haveInputs_iff view tx hcb] at h
  rw [CoinsView.getP2SHSigOpCount, hcb]
  exact p2shSigOps_ok view tx.vin fun txin ht => h txin.prevout (mem_map_of_mem ht)

theorem moneyRange_iff (params : CChainParams) (v : CAmount) :
    moneyRange params v = true ↔ 0 ≤ v.toInt ∧ v.toInt ≤ params.nMaxMoneyOut.toInt := by
  simp only [moneyRange, Bool.and_eq_true, decide_eq_true_eq, Int64.le_iff_toInt_le]
  rfl

theorem vout_of_unspent (h : view.unspent p = some out) :
    ∃ coins, view.accessCoins p.hash = some coins ∧ coins.vout[p.n]? = some out := by
  unfold CoinsView.unspent CoinsMap.coins at h
  cases hc : view.coins p.hash with
  | none => simp [hc] at h
  | some s =>
    rw [hc] at h
    exact ⟨s.coins, by simp [CoinsView.accessCoins, hc], ((CCoins.unspent_eq_some_iff ..).mp h).1⟩

def Failure.IsVerdict (e : Failure) : Prop :=
  ∃ verdict, e = .reject verdict ∧ verdict.corruptionPossible = false

theorem isVerdict_dos {α : Type} {n : Nat} {reason : String}
    (h : (dos n reason : Except Failure α) = .error e) : e.IsVerdict :=
  ⟨_, (Except.error.inj h).symm, rfl⟩

theorem checkInputValue_spec (node : Node) (view : CoinsView) (nSpendHeight : Nat) (p : COutPoint)
    (acc : CAmount) (hout : view.unspent p = some out) (hacc : 0 ≤ acc.toInt) :
    (∀ v, checkInputValue node view nSpendHeight p acc = .ok v →
      v.toInt = acc.toInt + out.nValue.toInt ∧ 0 ≤ out.nValue.toInt ∧
        v.toInt ≤ node.params.nMaxMoneyOut.toInt) ∧
    (∀ e, checkInputValue node view nSpendHeight p acc = .error e → e.IsVerdict) := by
  obtain ⟨coins, hcoins, hvout⟩ := vout_of_unspent hout
  unfold checkInputValue
  rw [hcoins]
  dsimp only
  split_ifs with hmature
  · exact ⟨fun v h => (by cases h), fun e h => isVerdict_dos h⟩
  · rw [hvout]
    dsimp only
    split_ifs with hrange
    · exact ⟨fun v h => (by cases h), fun e h => isVerdict_dos h⟩
    · refine ⟨fun v h => ?_, fun e h => by cases h⟩
      cases h
      simp only [Bool.or_eq_true, Bool.not_eq_true', not_or, Bool.not_eq_false,
        moneyRange_iff] at hrange
      obtain ⟨⟨hval, -⟩, hsum0, hsum⟩ := hrange
      -- a sum that is not negative has not wrapped
      have hcongr := tracks_congr (tracks_add (tracks_self acc) (tracks_self out.nValue))
      have hacclt := acc.toInt_lt
      have hvallt := out.nValue.toInt_lt
      have hsumlt := (acc + out.nValue).toInt_lt
      omega

theorem checkInputValues_spec (node : Node) (view : CoinsView) (nSpendHeight : Nat)
    (prevouts : List COutPoint) (acc : CAmount)
    (h : ∀ p ∈ prevouts, (view.unspent p).isSome = true) (hacc : 0 ≤ acc.toInt)
    (hmax : acc.toInt ≤ node.params.nMaxMoneyOut.toInt) :
    (∀ v, checkInputValues node view nSpendHeight prevouts acc = .ok v →
      v.toInt = acc.toInt + view.exactValueIn prevouts ∧ acc.toInt ≤ v.toInt ∧
        v.toInt ≤ node.params.nMaxMoneyOut.toInt) ∧
    (∀ e, checkInputValues node view nSpendHeight prevouts acc = .error e → e.IsVerdict) := by
  induction prevouts generalizing acc with
  | nil =>
    refine ⟨fun v hv => ?_, fun e he => by cases he⟩
    cases hv
    simpa [CoinsView.exactValueIn] using hmax
  | cons p rest ih =>
    obtain ⟨out, hout⟩ := Option.isSome_iff_exists.mp (h p mem_cons_self)
    obtain ⟨hok, herr⟩ := checkInputValue_spec node view nSpendHeight p acc hout hacc
    rw [checkInputValues]
    cases hp : checkInputValue node view nSpendHeight p acc with
    | error e => exact ⟨fun v hv => (by cases hv), fun e' he => herr e' (hp.trans he)⟩
    | ok sum =>
      obtain ⟨hsum, hval, hle⟩ := hok sum hp
      obtain ⟨ihok, iherr⟩ := ih sum (fun q hq => h q (mem_cons_of_mem _ hq)) (by omega) hle
      refine ⟨fun v hv => ?_, iherr⟩
      obtain ⟨h1, h2, h3⟩ := ihok v hv
      rw [exactValueIn_cons hout]
      exact ⟨by omega, by omega, h3⟩

theorem checkFee_spec (node : Node) (tx : CTransaction) (nValueIn : CAmount) :
    (checkFee node tx nValueIn = .ok () → tx.isCoinStake = false →
      tx.ValueOutOk ∧ tx.exactValueOut ≤ nValueIn.toInt) ∧
    (∀ e, checkFee node tx nValueIn = .error e →
      e.IsVerdict ∨ tx.isCoinStake = false ∧ ¬ tx.ValueOutOk) := by
  unfold checkFee
  cases hstake : tx.isCoinStake with
  | true => exact ⟨fun _ h => (by cases h), fun e h => (by cases h)⟩
  | false =>
    simp only [Bool.false_eq_true, if_false]
    cases hv : valueOut tx with
    | error e =>
      have hbad := (valueOut_error_iff tx).mp ⟨e, hv⟩
      exact ⟨fun h => (by cases h), fun _ _ => .inr ⟨trivial, hbad⟩⟩
    | ok v =>
      obtain ⟨hok, hval⟩ := (valueOut_ok_iff tx v).mp hv
      dsimp only
      split_ifs with hlt hneg hrange
      · exact ⟨fun h => (by cases h), fun e h => .inl (isVerdict_dos h)⟩
      · exact ⟨fun h => (by cases h), fun e h => .inl (isVerdict_dos h)⟩
      · exact ⟨fun h => (by cases h), fun e h => .inl (isVerdict_dos h)⟩
      · refine ⟨fun _ _ => ⟨hok, ?_⟩, fun e h => (by cases h)⟩
        rw [Int64.lt_iff_toInt_lt] at hlt
        omega

theorem checkScripts_error (node : Node) (view : CoinsView) (tx : CTransaction) (nIn : Nat)
    (vin : List CTxIn) (h : ∀ txin ∈ vin, (view.unspent txin.prevout).isSome = true)
    (he : checkScripts node view tx nIn vin = .error e) : e.IsVerdict := by
  induction vin generalizing nIn e with
  | nil => cases he
  | cons txin rest ih =>
    obtain ⟨out, hout⟩ := Option.isSome_iff_exists.mp (h txin mem_cons_self)
    rw [checkScripts, hout] at he
    dsimp only at he
    split_ifs at he
    · exact isVerdict_dos he
    · exact isVerdict_dos he
    all_goals cases hrest : checkScripts node view tx (nIn + 1) rest with
      | error e' =>
        rw [hrest] at he
        cases he
        exact ih _ (fun t ht => h t (mem_cons_of_mem _ ht)) hrest
      | ok vChecks =>
        rw [hrest] at he
        cases he

theorem checkInputs_spec (node : Node) (view : CoinsView) (tx : CTransaction) (fScriptChecks : Bool)
    (hmax : 0 ≤ node.params.nMaxMoneyOut.toInt) (hcb : tx.isCoinBase = false)
    (hhave : view.haveInputs tx = true) {pindexPrev : CBlockIndex}
    (hindex : node.mapBlockIndex.lookup view.hashBlock = some pindexPrev) :
    (∀ vChecks, checkInputs node view tx fScriptChecks = .ok vChecks →
      0 ≤ view.exactValueIn tx.prevouts ∧
      view.exactValueIn tx.prevouts ≤ node.params.nMaxMoneyOut.toInt ∧
      (tx.isCoinStake = false → tx.ValueOutOk ∧ tx.exactValueOut ≤ view.exactValueIn tx.prevouts)) ∧
    (∀ e, checkInputs node view tx fScriptChecks = .error e →
      e.IsVerdict ∨ tx.isCoinStake = false ∧ ¬ tx.ValueOutOk) := by
  have hunspent := (haveInputs_iff view tx hcb).mp hhave
  obtain ⟨hok, herr⟩ := checkInputValues_spec node view (pindexPrev.nHeight + 1) tx.prevouts 0
    hunspent (by decide) hmax
  unfold checkInputs
  simp only [hcb, hhave, hindex, Bool.false_eq_true, if_false, Bool.not_true]
  cases hv : checkInputValues node view (pindexPrev.nHeight + 1) tx.prevouts 0 with
  | error e =>
    refine ⟨fun _ h => (by cases h), fun e' h => ?_⟩
    cases h
    exact .inl (herr e hv)
  | ok v =>
    obtain ⟨hsum, hnonneg, hle⟩ := hok v hv
    have hzero : (0 : CAmount).toInt = 0 := rfl
    rw [hzero, Int.zero_add] at hsum
    rw [hzero] at hnonneg
    obtain ⟨hfee, hfeeErr⟩ := checkFee_spec node tx v
    dsimp only
    cases hf : checkFee node tx v with
    | error e =>
      refine ⟨fun _ h => (by cases h), fun e' h => ?_⟩
      cases h
      exact hfeeErr e hf
    | ok u =>
      refine ⟨fun _ _ => ⟨by omega, by omega, fun hs => ?_⟩, fun e h => .inl ?_⟩
      · obtain ⟨h1, h2⟩ := hfee hf hs
        exact ⟨h1, by omega⟩
      · dsimp only at h
        split_ifs at h
        exact checkScripts_error node view tx 0 tx.vin
          (fun txin ht => hunspent txin.prevout (mem_map_of_mem ht)) h

section
variable (node : Node) (fScriptChecks : Bool) {tx : CTransaction} {s s' : ConnectState}

theorem connectInputs_ok (hcb : tx.isCoinBase = false)
    (h : connectInputs node fScriptChecks tx s = .ok s') :
    s.view.haveInputs tx = true ∧ ∃ p2sh valueIn nFees vChecks,
      s.view.getP2SHSigOpCount tx = .ok p2sh ∧ s.nSigOps + p2sh ≤ MAX_BLOCK_SIGOPS_CURRENT ∧
      s.view.getValueIn tx = .ok valueIn ∧ feesAfter tx valueIn s.nFees = .ok nFees ∧
      checkInputs node s.view tx fScriptChecks = .ok vChecks ∧
      s' = { s with
        nFees := nFees
        nValueIn := s.nValueIn + valueIn
        nSigOps := s.nSigOps + p2sh
        vChecks := s.vChecks ++ vChecks } := by
  rw [connectInputs, hcb, if_neg (by simp)] at h
  by_cases hhave : s.view.haveInputs tx = true
  swap
  · rw [if_pos (by simpa using hhave)] at h
    cases h
  rw [if_neg (by simpa using hhave)] at h
  cases hp2sh : s.view.getP2SHSigOpCount tx with
  | error e =>
    rw [hp2sh] at h
    cases h
  | ok p2sh =>
    rw [hp2sh] at h
    dsimp only at h
    by_cases hsig : s.nSigOps + p2sh > MAX_BLOCK_SIGOPS_CURRENT
    · rw [if_pos hsig] at h
      cases h
    rw [if_neg hsig] at h
    obtain ⟨valueIn, hin, h⟩ := bind_ok_iff.mp h
    obtain ⟨nFees, hfees, h⟩ := bind_ok_iff.mp h
    obtain ⟨vChecks, hchecks, h⟩ := bind_ok_iff.mp h
    cases h
    exact ⟨hhave, p2sh, valueIn, nFees, vChecks, rfl, by omega, hin, hfees, hchecks, rfl⟩

theorem beforeUpdateCoins_ok (h : beforeUpdateCoins node fScriptChecks tx s = .ok s') :
    s.view.overwrites tx.hash = false ∧
      s.nSigOps + getLegacySigOpCount tx ≤ MAX_BLOCK_SIGOPS_CURRENT ∧ ∃ mid out,
      connectInputs node fScriptChecks tx
        { s with nSigOps := s.nSigOps + getLegacySigOpCount tx } = .ok mid ∧
      valueOut tx = .ok out ∧ s' = { mid with nValueOut := mid.nValueOut + out } := by
  unfold beforeUpdateCoins at h
  by_cases hover : s.view.overwrites tx.hash = true
  · rw [if_pos hover] at h
    cases h
  rw [if_neg hover] at h
  by_cases hsig : s.nSigOps + getLegacySigOpCount tx > MAX_BLOCK_SIGOPS_CURRENT
  · rw [if_pos hsig] at h
    cases h
  rw [if_neg hsig] at h
  obtain ⟨mid, hmid, h⟩ := bind_ok_iff.mp h
  obtain ⟨out, hout, h⟩ := bind_ok_iff.mp h
  cases h
  exact ⟨by simpa using hover, by omega, mid, out, hmid, hout, rfl⟩

theorem connectTx_ok {nHeight : Nat} {first : Bool}
    (h : connectTx node fScriptChecks nHeight first tx s = .ok s') :
    ∃ mid view txundo, beforeUpdateCoins node fScriptChecks tx s = .ok mid ∧
      mid.view.updateCoins tx nHeight = .ok (view, txundo) ∧
      s' = { mid with
        view := view
        vtxundo := if first then mid.vtxundo else mid.vtxundo ++ [txundo] } := by
  obtain ⟨mid, hmid, h⟩ := bind_ok_iff.mp h
  obtain ⟨⟨view, txundo⟩, hview, h⟩ := bind_ok_iff.mp h
  cases h
  exact ⟨mid, view, txundo, hmid, hview, rfl⟩

theorem beforeUpdateCoins_view (h : beforeUpdateCoins node fScriptChecks tx s = .ok s') :
    s'.view = s.view ∧ s'.vtxundo = s.vtxundo ∧
      ∀ p ∈ tx.spends, (s.view.unspent p).isSome = true := by
  obtain ⟨-, -, mid, out, hmid, -, rfl⟩ := beforeUpdateCoins_ok node fScriptChecks h
  cases hcb : tx.isCoinBase with
  | true =>
    rw [connectInputs, hcb, if_pos rfl] at hmid
    cases hmid
    exact ⟨rfl, rfl, by simp [CTransaction.spends, hcb]⟩
  | false =>
    obtain ⟨hhave, p2sh, valueIn, nFees, vChecks, -, -, -, -, -, rfl⟩ :=
      connectInputs_ok node fScriptChecks hcb hmid
    refine ⟨rfl, rfl, ?_⟩
    rw [CTransaction.spends, hcb]
    exact (haveInputs_iff s.view tx hcb).mp hhave

end

section
variable {Hash : Bytes → uint256} {node : Node} {block : CBlock} {hash : uint256}
  {pindex pprev : CBlockIndex} {view : CoinsView} {fJustCheck fAlreadyChecked : Bool}
  {c : Connected}

/-- What `ConnectBlock` has passed when its loop starts. -/
structure EntersLoop (Hash : Bytes → uint256) (node : Node) (block : CBlock) (hash : uint256)
    (pindex pprev : CBlockIndex) (view : CoinsView) (fJustCheck fAlreadyChecked : Bool) : Prop where
  checked : checkBlockAgain Hash node block fJustCheck fAlreadyChecked = .ok ()
  best : pindex.pprev.getD 0 = view.hashBlock
  notGenesis : block.getHash Hash ≠ node.params.hashGenesisBlock
  notChoked : node.sporkActive .chokeControlMode = false
  passed : checkBeforeConnect node block hash pindex view = .ok ()
  parent : (pindex.pprev.bind fun p => node.mapBlockIndex.lookup p) = some pprev

theorem connectBlock_eq_body
    (h : EntersLoop Hash node block hash pindex pprev view fJustCheck fAlreadyChecked) :
    connectBlock Hash node block hash pindex view fJustCheck fAlreadyChecked =
      connectBlockBody node block hash pindex pprev view fJustCheck := by
  simp only [connectBlock, h.checked, h.best, h.notGenesis, h.notChoked, h.passed, h.parent, ne_eq,
    not_true_eq_false, if_false, Bool.false_eq_true]

theorem connectBlock_ok (hgen : block.getHash Hash ≠ node.params.hashGenesisBlock)
    (h : connectBlock Hash node block hash pindex view fJustCheck fAlreadyChecked = .ok c) :
    ∃ pprev, EntersLoop Hash node block hash pindex pprev view fJustCheck fAlreadyChecked ∧
      connectBlockBody node block hash pindex pprev view fJustCheck = .ok c := by
  unfold connectBlock at h
  cases hcheck : checkBlockAgain Hash node block fJustCheck fAlreadyChecked with
  | error e =>
    rw [hcheck] at h
    cases h
  | ok u =>
    rw [hcheck] at h
    by_cases hbest : pindex.pprev.getD 0 = view.hashBlock
    swap
    · rw [if_pos hbest] at h
      cases h
    rw [if_neg (not_not.mpr hbest), if_neg hgen] at h
    cases hchoke : node.sporkActive .chokeControlMode with
    | true =>
      rw [hchoke] at h
      cases h
    | false =>
      rw [hchoke, if_neg (by simp)] at h
      cases hbefore : checkBeforeConnect node block hash pindex view with
      | error e =>
        rw [hbefore] at h
        cases h
      | ok u =>
        rw [hbefore] at h
        cases hparent : pindex.pprev.bind fun p => node.mapBlockIndex.lookup p with
        | none =>
          rw [hparent] at h
          cases h
        | some pprev =>
          rw [hparent] at h
          exact ⟨pprev, ⟨hcheck, hbest, hgen, hchoke, hbefore, hparent⟩, h⟩

theorem connectBlockBody_ok
    (h : connectBlockBody node block hash pindex pprev view fJustCheck = .ok c) :
    ∃ s, connectVtx node (decide (pindex.nHeight ≥ node.totalBlocksEstimate)) pindex.nHeight
        block.vtx { view := view } = .ok s ∧
      isBlockValueValid node.params node.toPaymentState node.toChainState block.hashPrevBlock
        (expectedMint block pprev.nHeight s.nFees) (pindex.minted pprev.nMoneySupply s).nMint =
          true ∧
      c.view.coins = s.view.coins ∧ c.vtxundo = s.vtxundo ∧
      (fJustCheck = false → c.view.hashBlock = hash ∧
        c.pindex = (pindex.minted pprev.nMoneySupply s).connected node.undoPos) := by
  unfold connectBlockBody at h
  dsimp only at h
  cases hs : connectVtx node (decide (pindex.nHeight ≥ node.totalBlocksEstimate)) pindex.nHeight
      block.vtx { view := view } with
  | error e =>
    rw [hs] at h
    cases h
  | ok s =>
    rw [hs] at h
    dsimp only at h
    by_cases hvalue : isBlockValueValid node.params node.toPaymentState node.toChainState
        block.hashPrevBlock (expectedMint block pprev.nHeight s.nFees)
        (pindex.minted pprev.nMoneySupply s).nMint = true
    swap
    · rw [if_pos (by simpa using hvalue)] at h
      cases h
    rw [if_neg (by simpa using hvalue)] at h
    by_cases hchecks : (s.vChecks.any fun check =>
        !node.verifyScript false check.tx check.nIn check.out) = true
    · rw [if_pos hchecks] at h
      cases h
    rw [if_neg hchecks] at h
    refine ⟨s, rfl, hvalue, ?_⟩
    cases fJustCheck with
    | true =>
      cases h
      exact ⟨rfl, rfl, fun hf => (by cases hf)⟩
    | false =>
      cases h
      exact ⟨rfl, rfl, fun _ => ⟨rfl, rfl⟩⟩

end

end Alqo
