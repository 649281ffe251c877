import Alqo.Disconnect

/-!
# Undoing a block

A block is a list of operations on the coins. What one undo step restores is shown entry by entry;
the rest is the theory of undo logs.
-/

namespace Alqo
open Lib.Fallible Lib.UndoLog List CCoins CoinsMap Function

variable (m : CoinsMap)

def CoinsMap.content (txid : uint256) : Option UnspentTx :=
  (m txid).map fun s => s.coins.abs

theorem CoinsMap.content_modify_self (txid : uint256) (edit : CCoins → CCoins) :
    (m.modify txid edit).content txid =
      if (edit (m.coins txid)).isPruned then none else some (edit (m.coins txid)).abs := by
  rw [CoinsMap.content, modify_self, store_map_abs]

theorem CoinsMap.content_modify_of_ne (txid x : uint256) (edit : CCoins → CCoins) (h : x ≠ txid) :
    (m.modify txid edit).content x = m.content x := by
  rw [CoinsMap.content, modify_of_ne m txid x edit h, CoinsMap.content]

theorem CoinsMap.content_eq (txid : uint256) :
    m.content txid = if (m.coins txid).isPruned then none else some (m.coins txid).abs := by
  rw [CoinsMap.content, ← coins_store m txid, store_map_abs]

theorem CoinsMap.content_eq_none_iff (txid : uint256) :
    m.content txid = none ↔ (m.coins txid).isPruned = true := by
  rw [content_eq]
  split_ifs with h <;> simp [h]

theorem CoinsMap.content_eq_some_iff (txid : uint256) (u : UnspentTx) :
    m.content txid = some u ↔ (m.coins txid).isPruned = false ∧ (m.coins txid).abs = u := by
  rw [content_eq]
  cases h : (m.coins txid).isPruned with
  | true => simp
  | false => simp

variable {c : CCoins}

theorem CCoins.isPruned_of_unspent {n : Nat} {out : CTxOut} (h : c.unspent n = some out) :
    c.isPruned = false := by
  rw [← Bool.not_eq_true, isPruned_iff]
  intro hall
  rw [hall] at h
  cases h

def CCoins.Canonical (c : CCoins) : Prop := ∀ out ∈ c.vout, out.isNull = true → out = CTxOut.null

theorem CCoins.canonical_cleanup (h : c.Canonical) : c.cleanup.Canonical := by
  intro out hout
  exact h out ((List.rdropWhile_prefix _ _).subset hout)

theorem CCoins.canonical_clear : CCoins.clear.Canonical := by
  intro out hout
  cases hout

theorem CCoins.unspent_last (hclean : c.cleanup = c) (hne : c.vout ≠ []) :
    c.unspent (c.vout.length - 1) ≠ none := by
  have hvout : c.vout.rdropWhile CTxOut.isNull = c.vout := congrArg CCoins.vout hclean
  have hlast : (c.vout.getLast hne).isNull = false := by
    have h := rdropWhile_last_not CTxOut.isNull c.vout (by rwa [hvout])
    simpa [hvout] using h
  have hsome : c.vout[c.vout.length - 1]? = some (c.vout.getLast hne) := by
    rw [← getLast?_eq_getElem?, getLast?_eq_some_getLast hne]
  rw [(unspent_eq_some_iff ..).mpr ⟨hsome, hlast⟩]
  simp

theorem CCoins.length_le_of_unspent_eq {d : CCoins} (hc : c.cleanup = c) (h : c.unspent = d.unspent) :
    c.vout.length ≤ d.vout.length := by
  by_contra hlt
  have hne : c.vout ≠ [] := by
    intro hnil
    simp [hnil] at hlt
  have hsome := unspent_last hc hne
  have hout : d.vout[c.vout.length - 1]? = none := getElem?_eq_none (by omega)
  rw [h, CCoins.unspent, hout] at hsome
  exact hsome rfl

theorem CCoins.eq_of_abs_eq {d : CCoins} (hc : c.cleanup = c) (hd : d.cleanup = d)
    (hcc : c.Canonical) (hcd : d.Canonical) (h : c.abs = d.abs) : c = d := by
  simp only [CCoins.abs, UnspentTx.mk.injEq] at h
  obtain ⟨hbase, hstake, hheight, hversion, hunspent⟩ := h
  have hlen : c.vout.length = d.vout.length :=
    Nat.le_antisymm (length_le_of_unspent_eq hc hunspent)
      (length_le_of_unspent_eq hd hunspent.symm)
  have hvout : c.vout = d.vout := by
    apply ext_getElem hlen
    intro n hn hn'
    have hat := congrFun hunspent n
    simp only [CCoins.unspent, getElem?_eq_getElem hn, getElem?_eq_getElem hn',
      Option.filter_some] at hat
    cases hnull : c.vout[n].isNull with
    | false =>
      rw [hnull] at hat
      simp only [Bool.not_false, if_true] at hat
      split_ifs at hat
      exact Option.some.inj hat
    | true =>
      rw [hnull] at hat
      simp only [Bool.not_true, Bool.false_eq_true, if_false] at hat
      have hnull' : d.vout[n].isNull = true := by
        by_contra hfalse
        simp [hfalse] at hat
      rw [hcc _ (getElem_mem hn) hnull, hcd _ (getElem_mem hn') hnull']
  cases c
  cases d
  simp_all

variable {txout : CTxOut}

theorem CCoins.unspent_restored (c : CCoins) (n : Nat) (h : txout.isNull = false) :
    (c.restored n txout).unspent = Function.update c.unspent n (some txout) := by
  funext m
  simp only [CCoins.unspent, CCoins.restored]
  by_cases hm : m = n
  · subst hm
    have hlt : m < (c.vout ++ List.replicate (m + 1 - c.vout.length) CTxOut.null).length := by
      simp only [length_append, length_replicate]
      omega
    rw [getElem?_set_self hlt, update_self]
    simp [h]
  · rw [getElem?_set_ne (Ne.symm hm), update_of_ne hm, getElem?_append]
    split_ifs with hlt
    · rfl
    · have hnone : c.unspent m = none := by
        rw [CCoins.unspent, getElem?_eq_none (Nat.le_of_not_lt hlt)]
        rfl
      rw [hnone, getElem?_replicate]
      split_ifs <;> rfl

theorem CCoins.canonical_restored (hc : c.Canonical) (n : Nat) (h : txout.isNull = false) :
    (c.restored n txout).Canonical := by
  intro out hout hnull
  rcases mem_or_eq_of_mem_set hout with hmem | rfl
  · rcases mem_append.mp hmem with hmem | hmem
    · exact hc out hmem hnull
    · exact (mem_replicate.mp hmem).2
  · rw [h] at hnull
    cases hnull

theorem CCoins.isPruned_restored (c : CCoins) (n : Nat) (h : txout.isNull = false) :
    (c.restored n txout).isPruned = false := by
  apply isPruned_of_unspent
  rw [unspent_restored c n h, update_self]

theorem CCoins.canonical_spent (h : c.Canonical) (n : Nat) :
    (c.spent n).Canonical := by
  apply canonical_cleanup
  intro out hout hnull
  rcases mem_or_eq_of_mem_set hout with hmem | rfl
  · exact h out hmem hnull
  · rfl

variable {tx : CTransaction}

theorem CCoins.canonical_fromTx (h : tx.ValueOutOk) (nHeight : Nat) :
    (CCoins.fromTx tx nHeight).Canonical := by
  apply canonical_cleanup
  intro out hout hnull
  simp only [mem_map] at hout
  obtain ⟨o, ho, rfl⟩ := hout
  by_cases hspendable : isUnspendable o.scriptPubKey = true
  · rw [if_pos hspendable]
  rw [if_neg hspendable] at hnull
  have hvalue : o.nValue = -1 := by simpa [CTxOut.isNull] using hnull
  have hnonneg := h.1 o ho
  rw [hvalue] at hnonneg
  exact absurd hnonneg (by decide)

theorem CCoins.cleanup_fromTx (tx : CTransaction) (nHeight : Nat) :
    (CCoins.fromTx tx nHeight).cleanup = CCoins.fromTx tx nHeight :=
  cleanup_cleanup _

theorem CCoins.clearUnspendable_fromTx (tx : CTransaction) (nHeight : Nat) :
    (CCoins.fromTx tx nHeight).clearUnspendable = CCoins.fromTx tx nHeight := by
  have hmap : (CCoins.fromTx tx nHeight).vout.map
      (fun out => if isUnspendable out.scriptPubKey then CTxOut.null else out) =
      (CCoins.fromTx tx nHeight).vout := by
    refine (map_congr_left fun out hout => ?_).trans (map_id _)
    have hmem := (List.rdropWhile_prefix _ _).subset hout
    simp only [mem_map] at hmem
    obtain ⟨o, -, rfl⟩ := hmem
    by_cases hspendable : isUnspendable o.scriptPubKey = true
    · rw [if_pos hspendable]
      rfl
    · rw [if_neg hspendable, if_neg hspendable, id_eq]
  rw [CCoins.clearUnspendable, hmap]
  exact cleanup_fromTx tx nHeight

inductive CoinOp where
  | spend (prevout : COutPoint)
  | create (tx : CTransaction)

/-- What `ConnectBlock` does with the coins. It has seen to it that nothing is
overwritten and that the outputs have a value. -/
def CoinOp.record (nHeight : Nat) (view : CoinsView) : CoinOp →
    Except Failure (CoinsView × CTxInUndo)
  | .spend prevout => view.spendInput prevout
  | .create tx =>
    if (view.coins tx.hash).isNone = true ∧ tx.ValueOutOk then
      .ok (view.create tx nHeight, { txout := CTxOut.null })
    else .error .outOfBounds

/-- What `DisconnectBlock` does. -/
def CoinOp.undo (nHeight : Nat) (view : CoinsView) : CoinOp → CTxInUndo → CoinsView × Bool
  | .spend prevout, undo => view.restoreInput prevout undo
  | .create tx, _ => view.removeOutputs tx nHeight

def CoinOp.Kept (view : CoinsView) : CoinOp → Prop
  | .spend prevout =>
    ((view.coins.coins prevout.hash).spent prevout.n).isPruned = true →
      (view.coins.coins prevout.hash).nHeight ≠ 0 ∧
        (view.coins.coins prevout.hash).fCoinStake = false
  | .create _ => True

instance decidableKept (view : CoinsView) (op : CoinOp) : Decidable (op.Kept view) :=
  match op with
  | .spend _ => inferInstanceAs (Decidable (_ → _))
  | .create _ => isTrue trivial

structure Restores (t s : CoinsView) : Prop where
  content : ∀ x, t.coins.content x = s.coins.content x
  canonical : ∀ x, (s.coins.coins x).Canonical → (t.coins.coins x).Canonical

variable {nHeight : Nat} {s s' : CoinsView} {p : COutPoint} {undo : CTxInUndo}

theorem CoinOp.record_spend_ok (h : CoinOp.record nHeight s (.spend p) = .ok (s', undo)) :
    ∃ txout, (s.coins.coins p.hash).unspent p.n = some txout ∧ txout.isNull = false ∧
      undo = (s.coins.coins p.hash).undoFor txout ((s.coins.coins p.hash).spent p.n).isPruned ∧
      s' = { s with coins := s.coins.modify p.hash fun c => c.spent p.n } := by
  simp only [CoinOp.record, CoinsView.spendInput] at h
  cases hs : (s.coins.coins p.hash).spend p with
  | none =>
    rw [hs] at h
    cases h
  | some r =>
    obtain ⟨c, u⟩ := r
    rw [hs] at h
    cases h
    obtain ⟨txout, hout, -, rfl⟩ := (spend_some_iff ..).mp hs
    exact ⟨txout, hout, ((unspent_eq_some_iff ..).mp hout).2, rfl, rfl⟩

theorem CoinOp.record_create_ok (h : CoinOp.record nHeight s (.create tx) = .ok (s', undo)) :
    s.coins tx.hash = none ∧ tx.ValueOutOk ∧ s' = s.create tx nHeight := by
  simp only [CoinOp.record] at h
  split_ifs at h with hcond
  cases h
  exact ⟨by simpa using hcond.1, hcond.2, rfl⟩

theorem content_restoreInput (t : CoinsView) (p : COutPoint) (undo : CTxInUndo)
    (h : undo.txout.isNull = false) :
    (t.restoreInput p undo).1.coins.content p.hash =
      some { (undo.base (t.coins.coins p.hash)).abs with
        out := Function.update (undo.base (t.coins.coins p.hash)).unspent p.n
          (some undo.txout) } := by
  simp only [CoinsView.restoreInput]
  rw [content_modify_self, isPruned_restored _ _ h, if_neg (by simp)]
  simp only [CCoins.abs, unspent_restored _ _ h]
  rfl

variable {t : CoinsView}

theorem restoreInput_kept_rest (hout : (s.coins.coins p.hash).unspent p.n = some txout)
    (hnull : txout.isNull = false) (hleft : ((s.coins.coins p.hash).spent p.n).isPruned = false)
    (hs' : s' = { s with coins := s.coins.modify p.hash fun c => c.spent p.n }) (hR : Restores t s')
    :
    (t.restoreInput p { txout := txout }).1.coins.content p.hash = s.coins.content p.hash ∧
      (t.restoreInput p { txout := txout }).2 = true := by
  have hcontent := hR.content p.hash
  rw [hs', content_modify_self, hleft, if_neg (by simp),
    content_eq_some_iff] at hcontent
  obtain ⟨hpruned, habs⟩ := hcontent
  have hbase : (({ txout := txout } : CTxInUndo).base (t.coins.coins p.hash)) =
      t.coins.coins p.hash := rfl
  have hunspent : (t.coins.coins p.hash).unspent =
      Function.update (s.coins.coins p.hash).unspent p.n none := by
    have := congrArg UnspentTx.out habs
    rwa [abs_spent] at this
  constructor
  · rw [content_restoreInput _ _ _ hnull, hbase, habs, hunspent, abs_spent,
      update_idem, ← hout, update_eq_self, eq_comm,
      content_eq_some_iff]
    exact ⟨isPruned_of_unspent hout, rfl⟩
  · simp only [CoinsView.restoreInput, hbase, hpruned, ne_eq, not_true_eq_false, if_false,
      Bool.not_false, Bool.true_and, Bool.not_eq_true', ← Bool.not_eq_true,
      isAvailable_iff, hunspent, update_self]
    simp

theorem restoreInput_kept_last (hout : (s.coins.coins p.hash).unspent p.n = some txout)
    (hnull : txout.isNull = false) (hlast : ((s.coins.coins p.hash).spent p.n).isPruned = true)
    (hheight : (s.coins.coins p.hash).nHeight ≠ 0)
    (hs' : s' = { s with coins := s.coins.modify p.hash fun c => c.spent p.n }) (hR : Restores t s')
    :
    (t.restoreInput p ((s.coins.coins p.hash).undoFor txout true)).1.coins.content p.hash =
        some { (s.coins.coins p.hash).abs with fCoinStake := false } ∧
      (t.restoreInput p ((s.coins.coins p.hash).undoFor txout true)).2 = true := by
  have hcontent := hR.content p.hash
  rw [hs', content_modify_self, hlast, if_pos rfl, content_eq_none_iff] at hcontent
  have hundo : (s.coins.coins p.hash).undoFor txout true = ⟨txout, (s.coins.coins p.hash).fCoinBase,
      (s.coins.coins p.hash).fCoinStake, (s.coins.coins p.hash).nHeight,
      (s.coins.coins p.hash).nVersion⟩ := rfl
  have hunspent : (s.coins.coins p.hash).unspent =
      Function.update (fun _ => none) p.n (some txout) := by
    funext m
    by_cases hm : m = p.n
    · rw [hm, hout, update_self]
    · have := (isPruned_iff _).mp hlast m
      rw [unspent_spent, update_of_ne hm] at this
      rw [this, update_of_ne hm]
  constructor
  · rw [content_restoreInput _ _ _ (by rw [hundo]; exact hnull)]
    rw [hundo]
    simp only [CTxInUndo.base, hheight, ne_eq, not_false_eq_true, if_true, CCoins.abs, hunspent]
    rfl
  · rw [hundo]
    simp only [CoinsView.restoreInput, CTxInUndo.base, hheight, hcontent, ne_eq, not_false_eq_true,
      if_true, Bool.true_and, Bool.not_eq_true']
    rfl

theorem Restores.of_ne {txid : uint256} (edit edit' : CCoins → CCoins)
    (hs' : s'.coins = s.coins.modify txid edit) (hR : Restores t s')
    (hself : (t.coins.modify txid edit').content txid = s.coins.content txid)
    (hcanonical : (s.coins.coins txid).Canonical →
      ((t.coins.modify txid edit').coins txid).Canonical) (hashBlock : uint256) :
    Restores ⟨t.coins.modify txid edit', hashBlock⟩ s := by
  constructor
  · intro x
    by_cases hx : x = txid
    · subst hx
      exact hself
    · have h := hR.content x
      rw [hs', content_modify_of_ne _ _ _ _ hx] at h
      rw [content_modify_of_ne _ _ _ _ hx, h]
  · intro x
    by_cases hx : x = txid
    · subst hx
      exact hcanonical
    · have h := hR.canonical x
      rw [hs', coins_modify_of_ne _ _ _ _ hx] at h
      rwa [coins_modify_of_ne _ _ _ _ hx]

theorem restoreInput_kept (hkept : CoinOp.Kept s (.spend p))
    (h : CoinOp.record nHeight s (.spend p) = .ok (s', undo)) (hR : Restores t s') :
    Restores (t.restoreInput p undo).1 s ∧ (t.restoreInput p undo).2 = true := by
  obtain ⟨txout, hout, hnull, hundo, hs'⟩ := CoinOp.record_spend_ok h
  have hnotPruned := isPruned_of_unspent hout
  have hfacts : (t.restoreInput p undo).1.coins.content p.hash = s.coins.content p.hash ∧
      (t.restoreInput p undo).2 = true ∧ undo.txout = txout ∧
      ((t.coins.coins p.hash).Canonical → (undo.base (t.coins.coins p.hash)).Canonical) := by
    cases hlast : ((s.coins.coins p.hash).spent p.n).isPruned with
    | false =>
      rw [hlast] at hundo
      subst hundo
      obtain ⟨hcontent, hclean⟩ := restoreInput_kept_rest hout hnull hlast hs' hR
      exact ⟨hcontent, hclean, rfl, fun hc => hc⟩
    | true =>
      rw [hlast] at hundo
      subst hundo
      obtain ⟨hheight, hstake⟩ := hkept hlast
      obtain ⟨hcontent, hclean⟩ := restoreInput_kept_last hout hnull hlast hheight hs' hR
      refine ⟨?_, hclean, rfl, fun _ => ?_⟩
      · rw [hcontent, eq_comm, content_eq_some_iff]
        refine ⟨hnotPruned, ?_⟩
        simp only [CCoins.abs, hstake]
      · have hbase : ((s.coins.coins p.hash).undoFor txout true).nHeight ≠ 0 := hheight
        rw [CTxInUndo.base, if_pos hbase]
        exact canonical_clear
  obtain ⟨hcontent, hclean, htxout, hbase⟩ := hfacts
  refine ⟨Restores.of_ne (fun c => c.spent p.n)
    (fun c => (undo.base c).restored p.n undo.txout) (by rw [hs']) hR hcontent
    (fun hcanonical => ?_) _, hclean⟩
  have hcanon : (t.coins.coins p.hash).Canonical := by
    apply hR.canonical
    rw [hs', coins_modify_self]
    split_ifs
    · exact canonical_clear
    · exact canonical_cleanup (canonical_spent hcanonical _)
  rw [coins_modify_self]
  split_ifs
  · exact canonical_clear
  · rw [htxout]
    exact canonical_cleanup (canonical_restored (hbase hcanon) _ hnull)

theorem matchesOutputs_of_restores (hok : tx.ValueOutOk) (hR : Restores t (s.create tx nHeight)) :
    CoinsView.matchesOutputs (t.coins.coins tx.hash) tx nHeight = true := by
  have hcontent := hR.content tx.hash
  rw [CoinsView.create, content_modify_self] at hcontent
  cases hpruned : (CCoins.fromTx tx nHeight).isPruned with
  | true =>
    rw [hpruned, if_pos rfl] at hcontent
    have hnone : t.coins tx.hash = none := by simpa [CoinsMap.content] using hcontent
    have hclear : t.coins.coins tx.hash = CCoins.clear := by rw [CoinsMap.coins, hnone]
    rw [hclear, CoinsView.matchesOutputs]
    split_ifs
    all_goals
      simp only [CCoins.equal, hpruned, Bool.and_true, Bool.or_eq_true]
      exact .inl rfl
  | false =>
    rw [hpruned, if_neg (by simp)] at hcontent
    obtain ⟨st, hst, habs⟩ : ∃ st, t.coins tx.hash = some st ∧
        st.coins.abs = (CCoins.fromTx tx nHeight).abs := by
      simpa [CoinsMap.content, Option.map_eq_some_iff] using hcontent
    have hcoins : t.coins.coins tx.hash = st.coins := by rw [CoinsMap.coins, hst]
    have hcanon : st.coins.Canonical := by
      rw [← hcoins]
      apply hR.canonical
      rw [CoinsView.create, coins_modify_self, hpruned, if_neg (by simp),
        cleanup_fromTx]
      exact canonical_fromTx hok nHeight
    have heq : t.coins.coins tx.hash = CCoins.fromTx tx nHeight := by
      rw [hcoins]
      exact eq_of_abs_eq st.cleaned (cleanup_fromTx tx nHeight) hcanon
        (canonical_fromTx hok nHeight) habs
    rw [heq, CoinsView.matchesOutputs, clearUnspendable_fromTx]
    split_ifs
    all_goals simp [CCoins.equal]

theorem removeOutputs_kept (h : CoinOp.record nHeight s (.create tx) = .ok (s', undo))
    (hR : Restores t s') :
    Restores (t.removeOutputs tx nHeight).1 s ∧ (t.removeOutputs tx nHeight).2 = true := by
  obtain ⟨hnone, hok, rfl⟩ := CoinOp.record_create_ok h
  have hempty : s.coins.content tx.hash = none := by simp [CoinsMap.content, hnone]
  refine ⟨Restores.of_ne (fun _ => CCoins.fromTx tx nHeight) (fun _ => CCoins.clear) rfl hR ?_
    (fun _ => ?_) _, matchesOutputs_of_restores hok hR⟩
  · rw [content_modify_self, hempty]
    rfl
  · rw [coins_modify_self]
    exact canonical_clear

theorem CoinOp.undo_kept (s : CoinsView) (op : CoinOp) (s' : CoinsView) (undo : CTxInUndo)
    (t : CoinsView) (hkept : op.Kept s) (h : CoinOp.record nHeight s op = .ok (s', undo))
    (hR : Restores t s') :
    Restores (CoinOp.undo nHeight t op undo).1 s ∧ (CoinOp.undo nHeight t op undo).2 = true := by
  cases op with
  | spend p => exact restoreInput_kept hkept h hR
  | create tx => exact removeOutputs_kept h hR

def StakeLost (t s : CoinsView) : Prop :=
  ∃ x was is, s.coins.content x = some was ∧ was.fCoinStake = true ∧
    t.coins.content x = some is ∧ is.fCoinStake = false

theorem CoinOp.undo_not_kept (s : CoinsView) (op : CoinOp) (s' : CoinsView) (undo : CTxInUndo)
    (t : CoinsView) (hkept : ¬ op.Kept s) (h : CoinOp.record nHeight s op = .ok (s', undo))
    (hR : Restores t s') :
    StakeLost (CoinOp.undo nHeight t op undo).1 s ∨ (CoinOp.undo nHeight t op undo).2 = false := by
  cases op with
  | create tx => exact absurd trivial hkept
  | spend p =>
    obtain ⟨txout, hout, hnull, rfl, hs'⟩ := CoinOp.record_spend_ok h
    simp only [CoinOp.Kept, Classical.not_imp, not_and] at hkept
    obtain ⟨hlast, hkept⟩ := hkept
    rw [hlast, CoinOp.undo]
    by_cases hheight : (s.coins.coins p.hash).nHeight = 0
    · right
      have hcontent := hR.content p.hash
      rw [hs', content_modify_self, hlast, if_pos rfl,
        content_eq_none_iff] at hcontent
      have hundo : ((s.coins.coins p.hash).undoFor txout true).nHeight = 0 := hheight
      simp [CoinsView.restoreInput, hundo, hcontent]
    · left
      have hstake : (s.coins.coins p.hash).fCoinStake = true := by simpa using hkept hheight
      obtain ⟨hcontent, -⟩ := restoreInput_kept_last hout hnull hlast hheight hs' hR
      refine ⟨p.hash, (s.coins.coins p.hash).abs, _, ?_, hstake, hcontent, rfl⟩
      rw [content_eq_some_iff]
      exact ⟨isPruned_of_unspent hout, rfl⟩

theorem stakeLost_of_ne {x txid : uint256} {was is : UnspentTx} (edit edit' : CCoins → CCoins)
    (hx : x ≠ txid) (hs' : s'.coins = s.coins.modify txid edit)
    (hwas : s'.coins.content x = some was) (hstake : was.fCoinStake = true)
    (his : t.coins.content x = some is) (hlost : is.fCoinStake = false) (hashBlock : uint256) :
    StakeLost ⟨t.coins.modify txid edit', hashBlock⟩ s := by
  refine ⟨x, was, is, ?_, hstake, ?_, hlost⟩
  · rwa [hs', content_modify_of_ne _ _ _ _ hx] at hwas
  · rwa [content_modify_of_ne _ _ _ _ hx]

/-- A lost flag stays lost, until the transaction itself is undone, and then the
mismatch is reported. -/
theorem CoinOp.undo_stakeLost (s : CoinsView) (op : CoinOp) (s' : CoinsView) (undo : CTxInUndo)
    (t : CoinsView) (h : CoinOp.record nHeight s op = .ok (s', undo)) (hJ : StakeLost t s') :
    StakeLost (CoinOp.undo nHeight t op undo).1 s ∨ (CoinOp.undo nHeight t op undo).2 = false := by
  obtain ⟨x, was, is, hwas, hstake, his, hlost⟩ := hJ
  cases op with
  | spend p =>
    obtain ⟨txout, hout, hnull, hundo, rfl⟩ := CoinOp.record_spend_ok h
    left
    by_cases hx : x = p.hash
    swap
    · exact stakeLost_of_ne (fun c => c.spent p.n)
        (fun c => (undo.base c).restored p.n undo.txout) hx rfl hwas hstake his hlost _
    subst hx
    -- something is left of the entry, so the record has no metadata
    rw [content_modify_self] at hwas
    split_ifs at hwas with hleft
    have hundo' : undo = { txout := txout } := by
      rw [hundo, Bool.eq_false_of_not_eq_true hleft]
      rfl
    subst hundo'
    have hcontent := content_restoreInput t p { txout := txout } hnull
    have hwasStake : (s.coins.coins p.hash).fCoinStake = true := by
      have := congrArg UnspentTx.fCoinStake (Option.some.inj hwas)
      rwa [hstake] at this
    obtain ⟨-, habs⟩ := (content_eq_some_iff ..).mp his
    refine ⟨p.hash, (s.coins.coins p.hash).abs, _, ?_, hwasStake, hcontent, ?_⟩
    · rw [content_eq_some_iff]
      exact ⟨isPruned_of_unspent hout, rfl⟩
    · have := congrArg UnspentTx.fCoinStake habs
      rwa [hlost] at this
  | create tx =>
    obtain ⟨-, -, rfl⟩ := CoinOp.record_create_ok h
    by_cases hx : x = tx.hash
    swap
    · exact .inl (stakeLost_of_ne (fun _ => CCoins.fromTx tx nHeight) (fun _ => CCoins.clear) hx
        rfl hwas hstake his hlost _)
    subst hx
    right
    rw [CoinsView.create, content_modify_self] at hwas
    split_ifs at hwas with hpruned
    have hfrom : (CCoins.fromTx tx nHeight).fCoinStake = true := by
      have := congrArg UnspentTx.fCoinStake (Option.some.inj hwas)
      rwa [hstake] at this
    obtain ⟨-, habs⟩ := (content_eq_some_iff ..).mp his
    have hflag : (t.coins.coins tx.hash).fCoinStake = false := by
      have := congrArg UnspentTx.fCoinStake habs
      rwa [hlost] at this
    have hne : ∀ c : CCoins, c.fCoinStake = false → c.equal (CCoins.fromTx tx nHeight) = false := by
      intro c hc
      have hdiff : c ≠ CCoins.fromTx tx nHeight := by
        intro heq
        rw [heq, hfrom] at hc
        cases hc
      simp [CCoins.equal, hpruned, hdiff]
    rw [CoinOp.undo, CoinsView.removeOutputs, CoinsView.matchesOutputs]
    apply hne
    split_ifs
    · exact hflag
    · exact hflag

end Alqo
