import Alqo.ConnectTx

/-!
# Connecting the next tip (main.cpp)

An exception or a failed assertion inside `ConnectBlock` passes the marking of a failed block by.
Reading the block, flushing the view and the memory pool are left out.
-/

namespace Alqo
open Lib.Fallible

inductive TipOutcome where
  | connected (c : Connected)
  /-- `return false`, with the entry and the candidates as they then are -/
  | failed (pindex : CBlockIndex) (setBlockIndexCandidates : List uint256)
  /-- left by an exception, an assertion or an invalid access -/
  | crashed (failure : Failure)

def CBlockIndex.failedValid (pindex : CBlockIndex) : CBlockIndex :=
  { pindex with nStatus := { pindex.nStatus with fFailedValid := true } }

/- Without the blame of the peer. -/
def invalidBlockFound (verdict : Reject) (hash : uint256) (pindex : CBlockIndex)
    (setBlockIndexCandidates : List uint256) : CBlockIndex × List uint256 :=
  if verdict.corruptionPossible then (pindex, setBlockIndexCandidates)
  else (pindex.failedValid, setBlockIndexCandidates.filter (· ≠ hash))

section
variable (Hash : Bytes → uint256) (node : Node)

/- `view` is a cache over `pcoinsTip`. Under choke
control `ConnectBlock` has called `InvalidateBlock` on the block by the time it
returns. -/
def connectTip (block : CBlock) (hash : uint256) (pindexNew : CBlockIndex) (view : CoinsView)
    (setBlockIndexCandidates : List uint256) (fAlreadyChecked : Bool) : TipOutcome :=
  if pindexNew.pprev ≠ node.chainActive.getLast? then
    .crashed (.assertion "pindexNew->pprev == chainActive.Tip()")
  else
    match connectBlock Hash node block hash pindexNew view false fAlreadyChecked with
    | .ok c => .connected c
    | .error (.reject verdict) =>
      let (pindex, candidates) := invalidBlockFound verdict hash pindexNew setBlockIndexCandidates
      .failed pindex candidates
    | .error .choked => .failed pindexNew.failedValid (setBlockIndexCandidates.filter (· ≠ hash))
    | .error e => .crashed e

end

def TipOutcome.Settled (hash : uint256) : TipOutcome → Prop
  | .connected _ => True
  | .failed pindex candidates => pindex.nStatus.fFailedValid = true ∧ hash ∉ candidates
  | .crashed _ => False

section
variable {node : Node} {fScriptChecks first : Bool} {pindexPrev pindex : CBlockIndex}
  {tx : CTransaction} {s : ConnectState} {e : Failure} {nHeight : Nat} {block : CBlock}
  {view : CoinsView} {hash : uint256}

def inputsFound (tx : CTransaction) (s : ConnectState) : Bool :=
  s.view.haveInputs tx && match s.view.getP2SHSigOpCount tx with
    | .ok p2sh => decide (s.nSigOps + p2sh ≤ MAX_BLOCK_SIGOPS_CURRENT)
    | .error _ => false

/-- The turn gets as far as reading the outputs of the transaction with
`GetValueOut`: for a coinstake that is after `CheckInputs`, for others before. -/
def outputsRead (node : Node) (fScriptChecks : Bool) (tx : CTransaction) (s : ConnectState) :
    Bool :=
  !s.view.overwrites tx.hash &&
    decide (s.nSigOps + getLegacySigOpCount tx ≤ MAX_BLOCK_SIGOPS_CURRENT) &&
    (tx.isCoinBase ||
      inputsFound tx { s with nSigOps := s.nSigOps + getLegacySigOpCount tx } &&
        (!tx.isCoinStake || (checkInputs node s.view tx fScriptChecks).isOk))

def Stuck (node : Node) (fScriptChecks : Bool) (tx : CTransaction) (s : ConnectState) : Prop :=
  (outputsRead node fScriptChecks tx s = true ∧ ¬ tx.ValueOutOk) ∨
    ((∃ s', beforeUpdateCoins node fScriptChecks tx s = .ok s') ∧ ¬ tx.spends.Nodup)

theorem valueOut_eq_throws (h : ¬ tx.ValueOutOk) : ∃ what, valueOut tx = .error (.throws what) := by
  obtain ⟨e, he⟩ := (valueOut_error_iff tx).mpr h
  obtain ⟨what, rfl⟩ := valueOut_error he
  exact ⟨what, he⟩

theorem valueOut_eq_ok (h : tx.ValueOutOk) : ∃ v, valueOut tx = .ok v := by
  cases hv : valueOut tx with
  | ok v => exact ⟨v, rfl⟩
  | error e => exact absurd h ((valueOut_error_iff tx).mp ⟨e, hv⟩)

theorem feesAfter_eq_ok (h : tx.isCoinStake = true ∨ tx.ValueOutOk) (valueIn nFees : CAmount) :
    ∃ v, feesAfter tx valueIn nFees = .ok v := by
  unfold feesAfter
  cases hstake : tx.isCoinStake with
  | true => exact ⟨nFees, rfl⟩
  | false =>
    obtain ⟨out, hout⟩ := valueOut_eq_ok (by simpa [hstake] using h)
    exact ⟨nFees + (valueIn - out), by simp [hout]⟩

theorem exists_verdict {α : Type} {x : Except Failure α} {n : Nat} {reason : String}
    (h : x = dos n reason) : ∃ e, x = .error e ∧ e.IsVerdict :=
  ⟨.reject ⟨n, reason, false⟩, h, _, rfl, rfl⟩

theorem connectInputs_not_found (hcb : tx.isCoinBase = false) (h : inputsFound tx s = false) :
    ∃ e, connectInputs node fScriptChecks tx s = .error e ∧ e.IsVerdict := by
  rw [connectInputs, hcb, if_neg (by simp)]
  by_cases hhave : s.view.haveInputs tx = true
  swap
  · exact exists_verdict (if_pos (by simpa using hhave))
  obtain ⟨p2sh, hp2sh⟩ := getP2SHSigOpCount_ok s.view tx hcb hhave
  rw [if_neg (by simpa using hhave), hp2sh]
  apply exists_verdict
  apply if_pos
  simpa [inputsFound, hhave, hp2sh] using h

theorem connectInputs_found (hcb : tx.isCoinBase = false) (h : inputsFound tx s = true) :
    s.view.haveInputs tx = true ∧ ∃ valueIn p2sh, connectInputs node fScriptChecks tx s = (do
        let nFees ← feesAfter tx valueIn s.nFees
        let vChecks ← checkInputs node s.view tx fScriptChecks
        return { s with
          nFees := nFees
          nValueIn := s.nValueIn + valueIn
          nSigOps := s.nSigOps + p2sh
          vChecks := s.vChecks ++ vChecks }) := by
  have hhave : s.view.haveInputs tx = true := by
    simp only [inputsFound, Bool.and_eq_true] at h
    exact h.1
  obtain ⟨p2sh, hp2sh⟩ := getP2SHSigOpCount_ok s.view tx hcb hhave
  obtain ⟨valueIn, hin, -⟩ := getValueIn_tracks s.view tx hcb hhave
  have hsig : ¬ s.nSigOps + p2sh > MAX_BLOCK_SIGOPS_CURRENT := by
    simpa [inputsFound, hhave, hp2sh] using h
  refine ⟨hhave, valueIn, p2sh, ?_⟩
  rw [connectInputs, hcb, if_neg (by simp), if_neg (by simpa using hhave), hp2sh]
  dsimp only
  rw [if_neg hsig, hin]
  rfl

theorem connectInputs_verdict (hmax : 0 ≤ node.params.nMaxMoneyOut.toInt)
    (hindex : node.mapBlockIndex.lookup s.view.hashBlock = some pindexPrev)
    (hok : tx.isCoinStake = true ∨ tx.ValueOutOk)
    (h : connectInputs node fScriptChecks tx s = .error e) : e.IsVerdict := by
  cases hcb : tx.isCoinBase with
  | true =>
    rw [connectInputs, hcb] at h
    cases h
  | false =>
    cases hfound : inputsFound tx s with
    | false =>
      obtain ⟨e', he', hverdict⟩ := connectInputs_not_found hcb hfound
      rw [h] at he'
      cases he'
      exact hverdict
    | true =>
      obtain ⟨hhave, valueIn, p2sh, heq⟩ := connectInputs_found hcb hfound
      obtain ⟨nFees, hnFees⟩ := feesAfter_eq_ok hok valueIn s.nFees
      rw [heq] at h
      obtain ⟨-, herr⟩ := checkInputs_spec node s.view tx fScriptChecks hmax hcb hhave hindex
      rcases bind_error_iff.mp h with hfees | ⟨_, -, h⟩
      · rw [hnFees] at hfees
        cases hfees
      rcases bind_error_iff.mp h with hchecks | ⟨_, -, hlate⟩
      · rcases herr e hchecks with hverdict | ⟨hstake, hbad⟩
        · exact hverdict
        · simp [hstake, hbad] at hok
      · cases hlate

theorem connectInputs_throws (hcb : tx.isCoinBase = false) (hstake : tx.isCoinStake = false)
    (hbad : ¬ tx.ValueOutOk) (hfound : inputsFound tx s = true) :
    ∃ what, connectInputs node fScriptChecks tx s = .error (.throws what) := by
  obtain ⟨-, valueIn, p2sh, heq⟩ := connectInputs_found hcb hfound
  obtain ⟨what, hwhat⟩ := valueOut_eq_throws hbad
  refine ⟨what, ?_⟩
  rw [heq, feesAfter, hstake, if_neg (by simp), hwhat]
  rfl

theorem beforeUpdateCoins_eq (hover : s.view.overwrites tx.hash = false)
    (hsig : s.nSigOps + getLegacySigOpCount tx ≤ MAX_BLOCK_SIGOPS_CURRENT) :
    beforeUpdateCoins node fScriptChecks tx s = (do
      let s ← connectInputs node fScriptChecks tx
        { s with nSigOps := s.nSigOps + getLegacySigOpCount tx }
      let out ← valueOut tx
      return { s with nValueOut := s.nValueOut + out }) := by
  rw [beforeUpdateCoins, hover, if_neg (by simp), if_neg (by omega)]

theorem beforeUpdateCoins_verdict (hmax : 0 ≤ node.params.nMaxMoneyOut.toInt)
    (hindex : node.mapBlockIndex.lookup s.view.hashBlock = some pindexPrev)
    (hok : tx.ValueOutOk ∨ outputsRead node fScriptChecks tx s = false)
    (h : beforeUpdateCoins node fScriptChecks tx s = .error e) : e.IsVerdict := by
  cases hover : s.view.overwrites tx.hash with
  | true =>
    rw [beforeUpdateCoins, hover, if_pos rfl] at h
    exact isVerdict_dos h
  | false =>
    by_cases hsig : s.nSigOps + getLegacySigOpCount tx ≤ MAX_BLOCK_SIGOPS_CURRENT
    swap
    · rw [beforeUpdateCoins, hover, if_neg (by simp), if_pos (by omega)] at h
      exact isVerdict_dos h
    rw [beforeUpdateCoins_eq hover hsig] at h
    simp only [outputsRead, hover, hsig, Bool.not_false, decide_true, Bool.true_and] at hok
    rcases bind_error_iff.mp h with hinputs | ⟨mid, hmid, h⟩
    · by_cases hgood : tx.isCoinStake = true ∨ tx.ValueOutOk
      · exact connectInputs_verdict
          (s := { s with nSigOps := s.nSigOps + getLegacySigOpCount tx }) hmax hindex hgood hinputs
      · simp only [not_or, Bool.not_eq_true] at hgood
        simp only [hgood, false_or, Bool.not_false, Bool.true_or, Bool.and_true,
          Bool.or_eq_false_iff] at hok
        obtain ⟨e', he', hverdict⟩ := connectInputs_not_found hok.1 hok.2
        rw [hinputs] at he'
        cases he'
        exact hverdict
    · rcases bind_error_iff.mp h with hvalue | ⟨_, -, hlate⟩
      swap
      · cases hlate
      have hbad : ¬ tx.ValueOutOk := (valueOut_error_iff tx).mp ⟨e, hvalue⟩
      simp only [hbad, false_or, Bool.or_eq_false_iff] at hok
      obtain ⟨hcb, hnot⟩ := hok
      obtain ⟨hhave, p2sh, -, -, vChecks, hp2sh, hle, -, -, hchecks, -⟩ :=
        connectInputs_ok node fScriptChecks hcb hmid
      simp [inputsFound, hhave, hp2sh, hle, hchecks, Except.isOk, Except.toBool] at hnot

theorem beforeUpdateCoins_throws (hbad : ¬ tx.ValueOutOk)
    (hread : outputsRead node fScriptChecks tx s = true) :
    ∃ what, beforeUpdateCoins node fScriptChecks tx s = .error (.throws what) := by
  simp only [outputsRead, Bool.and_eq_true, Bool.not_eq_true', decide_eq_true_eq] at hread
  obtain ⟨⟨hover, hsig⟩, hread⟩ := hread
  rw [beforeUpdateCoins_eq hover hsig]
  obtain ⟨what, hwhat⟩ := valueOut_eq_throws hbad
  -- the outputs are read after the inputs at the latest
  have hlate : ∀ mid : ConnectState, (do
      let s ← (Except.ok mid : Except Failure ConnectState)
      let out ← valueOut tx
      return ({ s with nValueOut := s.nValueOut + out } : ConnectState)) =
      .error (.throws what) := by
    intro mid
    rw [hwhat]
    rfl
  cases hcb : tx.isCoinBase with
  | true =>
    rw [connectInputs, hcb, if_pos rfl]
    exact ⟨what, hlate _⟩
  | false =>
    simp only [hcb, Bool.false_or, Bool.and_eq_true] at hread
    obtain ⟨hfound, hread⟩ := hread
    cases hstake : tx.isCoinStake with
    | false =>
      obtain ⟨what', hinputs⟩ := connectInputs_throws hcb hstake hbad hfound
      exact ⟨what', by rw [hinputs]; rfl⟩
    | true =>
      obtain ⟨-, valueIn, p2sh, heq⟩ := connectInputs_found hcb hfound
      cases hchecks : checkInputs node s.view tx fScriptChecks with
      | error e => simp [hstake, hchecks, Except.isOk, Except.toBool] at hread
      | ok vChecks =>
        cases hinputs : connectInputs node fScriptChecks tx
            { s with nSigOps := s.nSigOps + getLegacySigOpCount tx } with
        | ok mid => exact ⟨what, hlate mid⟩
        | error e =>
          rw [heq, feesAfter, hstake, if_pos rfl] at hinputs
          rw [hchecks] at hinputs
          cases hinputs

theorem connectTx_error_iff (hmax : 0 ≤ node.params.nMaxMoneyOut.toInt)
    (hindex : node.mapBlockIndex.lookup s.view.hashBlock = some pindexPrev)
    (h : connectTx node fScriptChecks nHeight first tx s = .error e) :
    (Stuck node fScriptChecks tx s ↔ ¬ e.IsVerdict) ∧
      (Stuck node fScriptChecks tx s → e ≠ .choked ∧ ∀ verdict, e ≠ .reject verdict) := by
  have hnotVerdict : ∀ what, ¬ (Failure.throws what).IsVerdict := by
    rintro what ⟨verdict, hv, -⟩
    cases hv
  rcases bind_error_iff.mp h with hbefore | ⟨mid, hmid, h⟩
  · by_cases hread : outputsRead node fScriptChecks tx s = true ∧ ¬ tx.ValueOutOk
    · obtain ⟨what, hwhat⟩ := beforeUpdateCoins_throws hread.2 hread.1
      rw [hbefore] at hwhat
      cases hwhat
      exact ⟨⟨fun _ => hnotVerdict what, fun _ => .inl hread⟩, fun _ => ⟨by simp, by simp⟩⟩
    · have hverdict : e.IsVerdict := by
        apply beforeUpdateCoins_verdict hmax hindex _ hbefore
        by_contra hc
        simp only [not_or, Bool.not_eq_false] at hc
        exact hread ⟨hc.2, hc.1⟩
      have hnotStuck : ¬ Stuck node fScriptChecks tx s := by
        rintro (hstuck | ⟨⟨s', hs'⟩, -⟩)
        · exact hread hstuck
        · rw [hbefore] at hs'
          cases hs'
      exact ⟨⟨fun hs => absurd hs hnotStuck, fun hn => absurd hverdict hn⟩,
        fun hs => absurd hs hnotStuck⟩
  · rcases bind_error_iff.mp h with hupdate | ⟨_, -, hlate⟩
    swap
    · cases hlate
    obtain ⟨hview, -, hunspent⟩ := beforeUpdateCoins_view node fScriptChecks hmid
    rw [hview] at hupdate
    obtain ⟨hok, herr⟩ := s.view.updateCoins_spec tx nHeight
    obtain rfl := herr e hupdate
    have hdup : ¬ tx.spends.Nodup := by
      intro hnodup
      obtain ⟨r, hr⟩ := hok.mpr ⟨hnodup, hunspent⟩
      rw [hupdate] at hr
      cases hr
    refine ⟨⟨fun _ => ?_, fun _ => .inr ⟨⟨mid, hmid⟩, hdup⟩⟩, fun _ => ⟨by simp, by simp⟩⟩
    rintro ⟨verdict, hv, -⟩
    cases hv

theorem not_stuck_of_connectTx_ok {s' : ConnectState}
    (h : connectTx node fScriptChecks nHeight first tx s = .ok s') :
    ¬ Stuck node fScriptChecks tx s := by
  obtain ⟨mid, view, txundo, hbefore, hupdate, -⟩ := connectTx_ok node fScriptChecks h
  rintro (⟨hread, hbad⟩ | ⟨-, hdup⟩)
  · obtain ⟨what, hwhat⟩ := beforeUpdateCoins_throws hbad hread
    rw [hbefore] at hwhat
    cases hwhat
  · exact hdup (((mid.view.updateCoins_spec tx nHeight).1.mp ⟨_, hupdate⟩).1)

theorem connectVtx_hashBlock {vtx : List CTransaction}
    (h : connectVtx node fScriptChecks nHeight vtx { view := view } = .ok s) :
    s.view.hashBlock = view.hashBlock := by
  refine runFrom_induct (fun _ s => s.view.hashBlock = view.hashBlock) ?_ [] rfl h
  intro seen tx s s' hs hstep
  obtain ⟨mid, view', txundo, hbefore, hupdate, rfl⟩ := connectTx_ok node fScriptChecks hstep
  obtain ⟨hview, -, -⟩ := beforeUpdateCoins_view node fScriptChecks hbefore
  rw [hview] at hupdate
  exact (CoinsView.hashBlock_of_updateCoins hupdate).trans hs

def ReachesStuck (node : Node) (fScriptChecks : Bool) (nHeight : Nat) (block : CBlock)
    (view : CoinsView) : Prop :=
  ∃ before tx after t, block.vtx = before ++ tx :: after ∧
    connectVtx node fScriptChecks nHeight before { view := view } = .ok t ∧
    Stuck node fScriptChecks tx t

theorem ReachesStuck.connectVtx_error (hmax : 0 ≤ node.params.nMaxMoneyOut.toInt)
    (hindex : node.mapBlockIndex.lookup view.hashBlock = some pindexPrev)
    (h : ReachesStuck node fScriptChecks nHeight block view) :
    ∃ e, connectVtx node fScriptChecks nHeight block.vtx { view := view } = .error e ∧
      e ≠ .choked ∧ ∀ verdict, e ≠ .reject verdict := by
  obtain ⟨before, tx, after, t, hvtx, ht, hstuck⟩ := h
  cases hstep : connectTx node fScriptChecks nHeight (0 + before.length == 0) tx t with
  | ok t' => exact absurd hstuck (not_stuck_of_connectTx_ok hstep)
  | error e =>
    rw [← connectVtx_hashBlock ht] at hindex
    exact ⟨e, runFrom_error_iff.mpr ⟨before, tx, after, t, hvtx, ht, hstep⟩,
      (connectTx_error_iff hmax hindex hstep).2 hstuck⟩

theorem connectVtx_verdict (hmax : 0 ≤ node.params.nMaxMoneyOut.toInt)
    (hindex : node.mapBlockIndex.lookup view.hashBlock = some pindexPrev)
    (hnot : ¬ ReachesStuck node fScriptChecks nHeight block view)
    (h : connectVtx node fScriptChecks nHeight block.vtx { view := view } = .error e) :
    e.IsVerdict := by
  obtain ⟨before, tx, after, t, hvtx, ht, hstep⟩ := runFrom_error_iff.mp h
  rw [← connectVtx_hashBlock ht] at hindex
  by_contra hverdict
  exact hnot ⟨before, tx, after, t, hvtx, ht,
    (connectTx_error_iff hmax hindex hstep).1.mpr hverdict⟩

theorem checkBeforeConnect_verdict (h : checkBeforeConnect node block hash pindex view = .error e) :
    e.IsVerdict := by
  unfold checkBeforeConnect at h
  split_ifs at h
  all_goals exact isVerdict_dos h

theorem connectBlockBody_verdict {pprev : CBlockIndex}
    {fJustCheck : Bool} (hmax : 0 ≤ node.params.nMaxMoneyOut.toInt)
    (hindex : node.mapBlockIndex.lookup view.hashBlock = some pindexPrev)
    (hnot : ¬ ReachesStuck node (decide (pindex.nHeight ≥ node.totalBlocksEstimate))
      pindex.nHeight block view)
    (h : connectBlockBody node block hash pindex pprev view fJustCheck = .error e) :
    e.IsVerdict := by
  unfold connectBlockBody at h
  dsimp only at h
  cases hloop : connectVtx node (decide (pindex.nHeight ≥ node.totalBlocksEstimate))
      pindex.nHeight block.vtx { view := view } with
  | error e' =>
    rw [hloop] at h
    cases h
    exact connectVtx_verdict hmax hindex hnot hloop
  | ok s =>
    rw [hloop] at h
    dsimp only at h
    split_ifs at h
    · exact isVerdict_dos h
    · exact isVerdict_dos h

end

section
variable {Hash : Bytes → uint256} {node : Node} {block : CBlock} {hash : uint256}
  {pindex : CBlockIndex} {view : CoinsView} {fAlreadyChecked : Bool}
  {setBlockIndexCandidates : List uint256}

/-- `ConnectBlock` comes to a transaction whose outputs have no value, or that names
one output twice, and everything before lets it. -/
def GetsStuck (Hash : Bytes → uint256) (node : Node) (block : CBlock) (hash : uint256)
    (pindex : CBlockIndex) (view : CoinsView) (fAlreadyChecked : Bool) : Prop :=
  ∃ pprev, EntersLoop Hash node block hash pindex pprev view false fAlreadyChecked ∧
    ReachesStuck node (decide (pindex.nHeight ≥ node.totalBlocksEstimate)) pindex.nHeight block view

theorem lookup_best {pprev : CBlockIndex} {fJustCheck : Bool}
    (h : EntersLoop Hash node block hash pindex pprev view fJustCheck fAlreadyChecked) :
    node.mapBlockIndex.lookup view.hashBlock = some pprev := by
  obtain ⟨p, hp, hlookup⟩ := Option.bind_eq_some_iff.mp h.parent
  have hbest := h.best
  rw [hp] at hbest
  rw [← hbest]
  exact hlookup

/-- A block that passed `CheckBlock` fails in `ConnectBlock` by a verdict or under choke
control, unless it gets stuck. -/
theorem connectBlock_error (hmax : 0 ≤ node.params.nMaxMoneyOut.toInt)
    (hcheck : checkBlockAgain Hash node block false fAlreadyChecked = .ok ())
    (hbest : pindex.pprev.getD 0 = view.hashBlock)
    (hparent : block.getHash Hash = node.params.hashGenesisBlock ∨
      ∃ pprev, (pindex.pprev.bind fun p => node.mapBlockIndex.lookup p) = some pprev)
    (hnot : ¬ GetsStuck Hash node block hash pindex view fAlreadyChecked) {e : Failure}
    (h : connectBlock Hash node block hash pindex view false fAlreadyChecked = .error e) :
    e.IsVerdict ∨ e = .choked := by
  unfold connectBlock at h
  rw [hcheck] at h
  rw [if_neg (not_not.mpr hbest)] at h
  by_cases hgen : block.getHash Hash = node.params.hashGenesisBlock
  · rw [if_pos hgen] at h
    cases h
  rw [if_neg hgen] at h
  obtain ⟨pprev, hpprev⟩ := hparent.resolve_left hgen
  cases hchoke : node.sporkActive .chokeControlMode with
  | true =>
    rw [hchoke] at h
    cases h
    exact .inr rfl
  | false =>
    rw [hchoke, if_neg (by simp)] at h
    left
    cases hbefore : checkBeforeConnect node block hash pindex view with
    | error e' =>
      rw [hbefore] at h
      cases h
      exact checkBeforeConnect_verdict hbefore
    | ok u =>
      rw [hbefore, hpprev] at h
      have henter : EntersLoop Hash node block hash pindex pprev view false fAlreadyChecked :=
        ⟨hcheck, hbest, hgen, hchoke, hbefore, hpprev⟩
      exact connectBlockBody_verdict hmax (lookup_best henter)
        (fun hstuck => hnot ⟨pprev, henter, hstuck⟩) h

theorem checkBlockAgain_of_checkBlock {history : PaymentHistory}
    (h : checkBlock Hash node block true true = .ok history) :
    checkBlockAgain Hash node block false fAlreadyChecked = .ok () := by
  unfold checkBlockAgain
  cases fAlreadyChecked with
  | true => rfl
  | false => simp [h]

theorem not_getsStuck_of_connectBlock_ok {c : Connected} (hmax : 0 ≤ node.params.nMaxMoneyOut.toInt)
    (hc : connectBlock Hash node block hash pindex view false fAlreadyChecked = .ok c) :
    ¬ GetsStuck Hash node block hash pindex view fAlreadyChecked := by
  rintro ⟨pprev, henter, hstuck⟩
  obtain ⟨e, hloop, -⟩ := hstuck.connectVtx_error hmax (lookup_best henter)
  rw [connectBlock_eq_body henter, connectBlockBody] at hc
  simp only [hloop] at hc
  cases hc

end

def negativeBlock : CBlock :=
  { secondHeader with
    hashMerkleRoot := 0x5e8b3a49b4c296329c9fec71fd87e70f4f2ab65924c174f20a2b17c82a8e2bef
    nNonce := 91895
    vtx := [{
      hash := 0x5e8b3a49b4c296329c9fec71fd87e70f4f2ab65924c174f20a2b17c82a8e2bef
      vin := secondCoinBase.vin
      vout := [⟨-5, [0x51], -10⟩] }] }

end Alqo
