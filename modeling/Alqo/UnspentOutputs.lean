import Alqo.UndoRoundTrip
import Alqo.Lib.Holdings
import Alqo.Lib.Runs

/-!
# The unspent outputs as a function of the chain

What a transaction does to the unspent outputs, apart from how `CCoins` stores them.
`DisconnectBlock` takes it back whenever it is clean, whatever became of the flags of the entries
meanwhile.
-/

namespace Alqo
open Lib.Fallible Lib.FixedSum Lib.Holdings Lib.Runs Lib.UndoLog Function List CoinsView Option

abbrev Unspent := COutPoint → Option CTxOut

def CTxOut.kept (out : CTxOut) : Option CTxOut :=
  if isUnspendable out.scriptPubKey then none else some out

def CTransaction.keptOutput (tx : CTransaction) (n : Nat) : Option CTxOut :=
  tx.vout[n]?.bind CTxOut.kept

def CTransaction.unspendableOut (tx : CTransaction) : Int :=
  exactSum ((tx.vout.filter fun out => isUnspendable out.scriptPubKey).map CTxOut.nValue)

namespace Unspent

noncomputable def value (u : Unspent) : Int := total (fun out => out.nValue.toInt) u

def spend (u : Unspent) (prevouts : List COutPoint) : Unspent :=
  fun p => if p ∈ prevouts then none else u p

def create (u : Unspent) (tx : CTransaction) : Unspent :=
  fun p => if p.hash = tx.hash then tx.keptOutput p.n else u p

def connectTx (u : Unspent) (tx : CTransaction) : Unspent := (u.spend tx.spends).create tx

/-- What `ConnectBlock` has made sure of when it updates the coins. -/
structure TxFits (u : Unspent) (tx : CTransaction) : Prop where
  distinct : tx.spends.Nodup
  unspent : ∀ p ∈ tx.spends, ∃ out, u p = some out ∧ out.isNull = false
  fresh : ∀ p : COutPoint, p.hash = tx.hash → u p = none
  valueOut : tx.ValueOutOk

theorem worth_eq (x : Option CTxOut) :
    worth (fun out => out.nValue.toInt) x = ((x.map CTxOut.nValue).getD 0).toInt := by
  cases x with
  | none => rfl
  | some out => rfl

theorem sum_kept (vout : List CTxOut) :
    ((vout.map CTxOut.kept).map (worth fun out => out.nValue.toInt)).sum +
      exactSum ((vout.filter fun out => isUnspendable out.scriptPubKey).map CTxOut.nValue) =
      exactSum (vout.map CTxOut.nValue) := by
  induction vout with
  | nil => rfl
  | cons out rest ih =>
    rw [map_cons, map_cons, sum_cons, map_cons, exactSum_cons, ← ih,
      filter_cons]
    by_cases h : isUnspendable out.scriptPubKey = true
    · rw [if_pos h, CTxOut.kept, if_pos h, worth_none, map_cons, exactSum_cons]
      omega
    · rw [if_neg h, CTxOut.kept, if_neg h, worth_some]
      omega

def outputsOf (tx : CTransaction) : Unspent :=
  fun p => if p.hash = tx.hash then tx.keptOutput p.n else none

theorem outputsOf_numbered (tx : CTransaction) :
    (∀ n, outputsOf tx ⟨tx.hash, n⟩ = (tx.vout.map CTxOut.kept)[n]?.join) ∧
    ∀ p, p ∉ Set.range (fun n => (⟨tx.hash, n⟩ : COutPoint)) → outputsOf tx p = none := by
  constructor
  · intro n
    rw [outputsOf, if_pos rfl, CTransaction.keptOutput, getElem?_map]
    cases tx.vout[n]? with
    | none => rfl
    | some out => rfl
  · intro p hp
    refine if_neg fun hhash => hp ⟨p.n, ?_⟩
    cases p
    simp only at hhash
    rw [hhash]

theorem bounded_outputsOf (tx : CTransaction) : Bounded (outputsOf tx) :=
  bounded_numbered (outputsOf_numbered tx).1 (outputsOf_numbered tx).2

theorem value_outputsOf (tx : CTransaction) :
    value (outputsOf tx) + tx.unspendableOut = tx.exactValueOut := by
  have hkey : Function.Injective fun n => (⟨tx.hash, n⟩ : COutPoint) := by
    intro n m h
    exact congrArg COutPoint.n h
  rw [value, total_numbered hkey (outputsOf_numbered tx).1 (outputsOf_numbered tx).2]
  exact sum_kept tx.vout

variable {u : Unspent} {tx : CTransaction}

theorem bounded_spend (h : Bounded u) (prevouts : List COutPoint) : Bounded (u.spend prevouts) :=
  h.mono fun p hp => by rw [spend, hp, ite_self]

theorem create_eq_or (hfits : TxFits u tx) :
    u.connectTx tx = fun p => ((u.spend tx.spends) p).or (outputsOf tx p) := by
  funext p
  rw [connectTx, create, outputsOf]
  by_cases h : p.hash = tx.hash
  · rw [if_pos h, if_pos h, spend, hfits.fresh p h, ite_self, none_or]
  · rw [if_neg h, if_neg h, or_none]

theorem value_connectTx (h : Bounded u) (hfits : TxFits u tx) :
    (u.connectTx tx).value + tx.unspendableOut = u.value + tx.exactValueOut -
        exactSum (tx.spends.map fun p => ((u p).map CTxOut.nValue).getD 0) := by
  have hdisj : ∀ p, (u.spend tx.spends) p = none ∨ outputsOf tx p = none := by
    intro p
    by_cases hp : p.hash = tx.hash
    · left
      rw [spend, hfits.fresh p hp, ite_self]
    · exact .inr (if_neg hp)
  have hspent : (u.spend tx.spends).value =
      u.value - exactSum (tx.spends.map fun p => ((u p).map CTxOut.nValue).getD 0) := by
    have hsum : (tx.spends.map fun p => worth (fun out => out.nValue.toInt) (u p)).sum =
        exactSum (tx.spends.map fun p => ((u p).map CTxOut.nValue).getD 0) := by
      rw [exactSum, List.map_map]
      exact congrArg List.sum (map_congr_left fun p _ => worth_eq (u p))
    rw [← hsum]
    exact total_remove hfits.distinct h
  have htotal : (u.connectTx tx).value = (u.spend tx.spends).value + value (outputsOf tx) := by
    rw [create_eq_or hfits]
    exact total_or (bounded_spend h tx.spends) (bounded_outputsOf tx) hdisj
  have hout := value_outputsOf tx
  omega

end Unspent

def CTxUndo.outs (txundo : CTxUndo) : List (Option CTxOut) :=
  txundo.vprevout.map fun undo => some undo.txout

def Unspent.spentOuts (u : Unspent) : List CTransaction → List (List (Option CTxOut))
  | [] => []
  | tx :: rest => tx.spends.map u :: spentOuts (u.connectTx tx) rest

theorem Unspent.spentOuts_concat (u : Unspent) (vtx : List CTransaction) (tx : CTransaction) :
    u.spentOuts (vtx ++ [tx]) =
      u.spentOuts vtx ++ [tx.spends.map (run Unspent.connectTx u vtx)] := by
  induction vtx generalizing u with
  | nil => rfl
  | cons t vtx ih =>
    rw [cons_append, spentOuts, ih, run_cons]
    rfl

section
variable {view view' : CoinsView} {tx : CTransaction} {nHeight : Nat}

theorem CoinsView.isNull_of_unspent {p : COutPoint} {out : CTxOut} (h : view.unspent p = some out) :
    out.isNull = false :=
  ((CCoins.unspent_eq_some_iff ..).mp h).2

theorem CCoins.unspent_fromTx (h : tx.ValueOutOk) (n : Nat) :
    (CCoins.fromTx tx nHeight).unspent n = tx.keptOutput n := by
  rw [CCoins.fromTx, CCoins.clearUnspendable, CCoins.unspent_cleanup, CCoins.unspent,
    CTransaction.keptOutput, getElem?_map]
  cases hn : tx.vout[n]? with
  | none => rfl
  | some out =>
    have hnonneg := h.1 out (mem_of_getElem? hn)
    have hnull : out.isNull = false := by
      rw [CTxOut.isNull, beq_eq_false_iff_ne]
      intro hvalue
      rw [hvalue] at hnonneg
      exact absurd hnonneg (by decide)
    rw [map_some, bind_some, CTxOut.kept]
    by_cases hscript : isUnspendable out.scriptPubKey = true
    · rw [if_pos hscript, if_pos hscript]
      rfl
    · rw [if_neg hscript, if_neg hscript, filter_some, hnull]
      rfl

theorem CoinsMap.unspent_modify (m : CoinsMap) (txid x : uint256) (edit : CCoins → CCoins)
    (n : Nat) : ((m.modify txid edit).coins x).unspent n =
      if x = txid then (edit (m.coins txid)).unspent n else (m.coins x).unspent n := by
  by_cases hx : x = txid
  · rw [if_pos hx, hx, CoinsMap.unspent_modify_self]
  · rw [if_neg hx, CoinsMap.coins_modify_of_ne _ _ _ _ hx]

theorem CoinsView.unspent_create (h : tx.ValueOutOk) :
    (view.create tx nHeight).unspent = Unspent.create view.unspent tx := by
  funext p
  show ((view.coins.modify tx.hash fun _ => CCoins.fromTx tx nHeight).coins p.hash).unspent p.n = _
  rw [CoinsMap.unspent_modify, CCoins.unspent_fromTx h]
  rfl

theorem CoinsView.unspent_removeOutputs (p : COutPoint) :
    (view.removeOutputs tx nHeight).1.unspent p =
      if p.hash = tx.hash then none else view.unspent p := by
  show ((view.coins.modify tx.hash fun _ => CCoins.clear).coins p.hash).unspent p.n = _
  rw [CoinsMap.unspent_modify, CCoins.unspent_clear]
  rfl

theorem CoinsView.unspent_spendInputs {prevouts : List COutPoint} {undos : List CTxInUndo}
    (h : view.spendInputs prevouts = .ok (view', undos)) :
    view'.unspent = Unspent.spend view.unspent prevouts ∧
      undos.map (fun undo => some undo.txout) = prevouts.map view.unspent := by
  have hnodup := ((spendInputs_spec view prevouts).1.mp ⟨_, h⟩).1
  induction prevouts generalizing view undos with
  | nil =>
    cases h
    exact ⟨funext fun p => (if_neg not_mem_nil).symm, rfl⟩
  | cons p rest ih =>
    obtain ⟨view₁, undo, us, hp, hrest, rfl⟩ := recordAll_cons_ok_iff.mp h
    obtain ⟨hnot, hnodup⟩ := nodup_cons.mp hnodup
    obtain ⟨hview, hundos⟩ := ih hrest hnodup
    have hrecord : CoinOp.record 0 view (.spend p) = .ok (view₁, undo) := hp
    obtain ⟨txout, hout, -, rfl, -⟩ := CoinOp.record_spend_ok hrecord
    have htxout : ((view.coins.coins p.hash).undoFor txout
        ((view.coins.coins p.hash).spent p.n).isPruned).txout = txout := by
      unfold CCoins.undoFor
      split_ifs <;> rfl
    refine ⟨?_, ?_⟩
    · funext q
      rw [hview, Unspent.spend, Unspent.spend, unspent_of_spendInput hp]
      by_cases hq : q = p
      · rw [if_pos hq, ite_self, if_pos (hq ▸ mem_cons_self)]
      · rw [if_neg hq]
        exact if_congr (mem_cons.trans (or_iff_right hq)).symm rfl rfl
    · rw [map_cons, map_cons, hundos, htxout, ← show view.unspent p = some txout from hout]
      refine congrArg _ (map_congr_left fun q hq => ?_)
      rw [unspent_of_spendInput hp, if_neg fun hqp : q = p => hnot (hqp ▸ hq)]

theorem CoinsView.unspent_updateCoins {txundo : CTxUndo} (hvalue : tx.ValueOutOk)
    (h : view.updateCoins tx nHeight = .ok (view', txundo)) :
    view'.unspent = Unspent.connectTx view.unspent tx ∧
      txundo.outs = tx.spends.map view.unspent := by
  rw [updateCoins_eq] at h
  cases hs : view.spendInputs tx.spends with
  | error e =>
    rw [hs] at h
    cases h
  | ok r =>
    rw [hs] at h
    cases h
    obtain ⟨hview, hundos⟩ := unspent_spendInputs hs
    refine ⟨?_, hundos⟩
    rw [unspent_create hvalue, hview]
    rfl

end

variable {node : Node} {fScriptChecks : Bool} {nHeight : Nat} {s : ConnectState}

theorem connectTx_unspent {first : Bool} {tx : CTransaction} {s' : ConnectState}
    (h : connectTx node fScriptChecks nHeight first tx s = .ok s') :
    Unspent.TxFits s.view.unspent tx ∧ s'.view.unspent = Unspent.connectTx s.view.unspent tx ∧
      ∃ txundo : CTxUndo, txundo.outs = tx.spends.map s.view.unspent ∧
        s'.vtxundo = if first then s.vtxundo else s.vtxundo ++ [txundo] := by
  obtain ⟨mid, view, txundo, hbefore, hupdate, rfl⟩ := connectTx_ok node fScriptChecks h
  obtain ⟨hover, -, -, out, -, hout, -⟩ := beforeUpdateCoins_ok node fScriptChecks hbefore
  obtain ⟨hview, hundo, -⟩ := beforeUpdateCoins_view node fScriptChecks hbefore
  have hvalue := ((valueOut_ok_iff tx out).mp hout).1
  rw [hview] at hupdate
  obtain ⟨hdistinct, hunspent⟩ :=
    (updateCoins_spec s.view tx nHeight).1.mp ⟨_, hupdate⟩
  obtain ⟨hafter, houts⟩ := unspent_updateCoins hvalue hupdate
  refine ⟨⟨hdistinct, ?_, ?_, hvalue⟩, hafter, txundo, houts, ?_⟩
  · intro p hp
    obtain ⟨out, hpout⟩ := isSome_iff_exists.mp (hunspent p hp)
    exact ⟨out, hpout, isNull_of_unspent hpout⟩
  · intro p hp
    rw [CoinsView.unspent, CoinsMap.coins, hp, coins_none_of_not_overwrites hover]
    rfl
  · rw [← hundo]

theorem connectVtx_unspent {vtx : List CTransaction} {view : CoinsView}
    (h : connectVtx node fScriptChecks nHeight vtx { view := view } = .ok s) :
    s.view.unspent = run Unspent.connectTx view.unspent vtx ∧
      Along Unspent.connectTx Unspent.TxFits view.unspent vtx ∧
      s.vtxundo.map CTxUndo.outs = (Unspent.spentOuts view.unspent vtx).tail := by
  refine runFrom_induct (fun seen s => s.view.unspent = run Unspent.connectTx view.unspent seen ∧
    Along Unspent.connectTx Unspent.TxFits view.unspent seen ∧
    s.vtxundo.map CTxUndo.outs = (Unspent.spentOuts view.unspent seen).tail)
    ?_ [] ⟨rfl, trivial, rfl⟩ h
  rintro seen tx s s' ⟨hview, hfits, hundo⟩ hstep
  obtain ⟨hfit, hafter, txundo, houts, hundo'⟩ := connectTx_unspent hstep
  refine ⟨?_, ?_, ?_⟩
  · rw [run_concat, hafter, hview]
  · rw [along_concat]
    exact ⟨hfits, hview ▸ hfit⟩
  · rw [Unspent.spentOuts_concat, hundo', ← hview, ← houts]
    cases seen with
    | nil => exact hundo
    | cons t seen =>
      rw [if_neg (by simp), map_append, hundo]
      rfl

section
variable {view view' : CoinsView} {tx : CTransaction} {nHeight : Nat} {u : Unspent}

theorem CoinsView.unspent_restoreInput {p : COutPoint} {undo : CTxInUndo}
    (hnull : undo.txout.isNull = false) (hclean : (view.restoreInput p undo).2 = true) :
    (view.restoreInput p undo).1.unspent = update view.unspent p (some undo.txout) := by
  have hbase : (undo.base (view.coins.coins p.hash)).unspent =
      (view.coins.coins p.hash).unspent := by
    unfold CTxInUndo.base
    split_ifs with hheight
    · have hpruned : (view.coins.coins p.hash).isPruned = true := by
        have := (Bool.and_eq_true_iff.mp hclean).1
        rwa [if_pos hheight] at this
      exact funext fun n => ((CCoins.isPruned_iff _).mp hpruned n).symm
    · rfl
  funext q
  show ((view.coins.modify p.hash fun c =>
    (undo.base c).restored p.n undo.txout).coins q.hash).unspent q.n = _
  rw [CoinsMap.unspent_modify, CCoins.unspent_restored _ _ hnull, hbase]
  by_cases hq : q = p
  · rw [hq, if_pos rfl, update_self, update_self]
  · rw [update_of_ne hq]
    by_cases hhash : q.hash = p.hash
    · have hn : q.n ≠ p.n := by
        intro hn
        apply hq
        cases q
        cases p
        simp only [COutPoint.mk.injEq]
        exact ⟨hhash, hn⟩
      rw [if_pos hhash, update_of_ne hn, CoinsView.unspent, hhash]
    · rw [if_neg hhash]
      rfl

theorem CoinsView.unspent_restoreInputs {prevouts : List COutPoint} {undos : List CTxInUndo}
    (hlive : ∀ p ∈ prevouts, ∃ out, u p = some out ∧ out.isNull = false)
    (hundos : undos.map (fun undo => some undo.txout) = prevouts.map u)
    (hclean : (undoAll CoinsView.restoreInput view (prevouts.zip undos)).2 = true) :
    (undoAll CoinsView.restoreInput view (prevouts.zip undos)).1.unspent =
      fun p => if p ∈ prevouts then u p else view.unspent p := by
  induction prevouts generalizing undos with
  | nil => exact funext fun p => (if_neg not_mem_nil).symm
  | cons p rest ih =>
    cases undos with
    | nil => cases hundos
    | cons undo undos =>
      rw [forall_mem_cons] at hlive
      obtain ⟨hundo, hundos⟩ := List.cons.inj hundos
      rw [zip_cons_cons, undoAll] at hclean ⊢
      obtain ⟨hlater, hthis⟩ := Bool.and_eq_true_iff.mp hclean
      obtain ⟨out, hout, hnull⟩ := hlive.1
      have htxout : undo.txout = out := Option.some.inj (hundo.trans hout)
      funext q
      dsimp only
      rw [unspent_restoreInput (htxout ▸ hnull) hthis, ih hlive.2 hundos hlater]
      by_cases hq : q = p
      · rw [hq, update_self, if_pos mem_cons_self]
        exact hundo
      · rw [update_of_ne hq]
        exact if_congr (mem_cons.trans (or_iff_right hq)).symm rfl rfl

theorem CoinsView.unspent_disconnectTx {given : Option CTxUndo} (hfits : Unspent.TxFits u tx)
    (hgiven : ∀ txundo, given = some txundo → txundo.outs = tx.spends.map u)
    (hview : view.unspent = Unspent.connectTx u tx)
    (h : view.disconnectTx nHeight tx given = .ok (view', true)) : view'.unspent = u := by
  have hremoved : ∀ p, p ∉ tx.spends → (view.removeOutputs tx nHeight).1.unspent p = u p := by
    intro p hp
    rw [unspent_removeOutputs, hview, Unspent.connectTx, Unspent.create, Unspent.spend]
    by_cases hhash : p.hash = tx.hash
    · rw [if_pos hhash, hfits.fresh p hhash]
    · rw [if_neg hhash, if_neg hhash, if_neg hp]
  unfold CoinsView.disconnectTx at h
  cases hcb : tx.isCoinBase with
  | true =>
    rw [hcb] at h
    have hsame : view.removeOutputs tx nHeight = (view', true) := Except.ok.inj h
    rw [hsame] at hremoved
    have hspends : tx.spends = [] := by rw [CTransaction.spends, hcb, if_pos rfl]
    exact funext fun p => hremoved p (by rw [hspends]; exact not_mem_nil)
  | false =>
    rw [hcb] at h
    have hspends : tx.spends = tx.prevouts := by
      rw [CTransaction.spends, hcb, if_neg (by simp)]
    cases given with
    | none => cases h
    | some txundo =>
      dsimp only at h
      rw [if_neg (by simp)] at h
      split_ifs at h with hlen
      obtain ⟨hview', hclean⟩ := Prod.mk.inj (Except.ok.inj h)
      rw [← hspends] at hview' hclean
      have hinputs := unspent_restoreInputs hfits.unspent
        (hgiven txundo rfl) (Bool.and_eq_true_iff.mp hclean).2
      rw [hview'] at hinputs
      funext p
      refine (congrFun hinputs p).trans ?_
      by_cases hp : p ∈ tx.spends
      · exact if_pos hp
      · exact (if_neg hp).trans (hremoved p hp)

theorem CoinsView.unspent_disconnectVtx {vtx : List CTransaction} {given : List (Option CTxUndo)}
    (hfits : Along Unspent.connectTx Unspent.TxFits u vtx)
    (hgiven : List.Forall₂ (fun d outs => ∀ txundo, d = some txundo → txundo.outs = outs) given
      (Unspent.spentOuts u vtx))
    (hview : view.unspent = run Unspent.connectTx u vtx)
    (h : view.disconnectVtx nHeight (vtx.zip given) = .ok (view', true)) : view'.unspent = u := by
  induction vtx generalizing u given view' with
  | nil =>
    cases h
    exact hview
  | cons tx rest ih =>
    obtain ⟨hfit, hfits⟩ := hfits
    rw [Unspent.spentOuts] at hgiven
    cases hgiven with
    | @cons d _ given _ hd hgiven =>
      rw [zip_cons_cons, CoinsView.disconnectVtx] at h
      cases hrest : view.disconnectVtx nHeight (rest.zip given) with
      | error e =>
        rw [hrest] at h
        cases h
      | ok r =>
        obtain ⟨view₁, fClean₁⟩ := r
        rw [hrest] at h
        dsimp only at h
        cases htx : view₁.disconnectTx nHeight tx d with
        | error e =>
          rw [htx] at h
          cases h
        | ok r =>
          obtain ⟨view₂, fClean₂⟩ := r
          rw [htx] at h
          obtain ⟨hview₂, hclean⟩ := Prod.mk.inj (Except.ok.inj h)
          obtain ⟨hclean₁, hclean₂⟩ := Bool.and_eq_true_iff.mp hclean
          rw [hclean₁] at hrest
          rw [hclean₂, hview₂] at htx
          have hview₁ := ih hfits hgiven hview hrest
          exact unspent_disconnectTx hfit hd hview₁ htx

end

end Alqo
