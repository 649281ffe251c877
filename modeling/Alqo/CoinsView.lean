import Alqo.CoinsCache
import Alqo.CheckBlock
import Alqo.Lib.UndoLog

/-!
# Coins as block validation uses them (coins.cpp, main.cpp)

A stack of caches behaves like a plain map for the edits made here (`spend_editOk`,
`create_editOk`), so the view is a plain map with a best block.
-/

namespace Alqo
open Lib.UndoLog

structure CoinsView where
  coins : CoinsMap
  /-- `GetBestBlock` -/
  hashBlock : uint256

namespace CoinsView

section
variable (view : CoinsView) (tx : CTransaction)

def accessCoins (txid : uint256) : Option CCoins :=
  (view.coins txid).map StoredCoins.coins

def available (prevout : COutPoint) : Bool :=
  match view.accessCoins prevout.hash with
  | some coins => coins.isAvailable prevout.n
  | none => false

def haveInputs : Bool :=
  tx.isCoinBase || tx.vin.all fun txin => view.available txin.prevout

def unspent (prevout : COutPoint) : Option CTxOut :=
  (view.coins.coins prevout.hash).unspent prevout.n

def getOutputFor (input : CTxIn) : Except Failure CTxOut :=
  match view.unspent input.prevout with
  | some out => .ok out
  | none => .error (.assertion "coins && coins->IsAvailable(input.prevout.n)")

/-- Loop of `GetValueIn`, entered with the sum so far. -/
def getValueInFrom (view : CoinsView) (nResult : CAmount) : List CTxIn → Except Failure CAmount
  | [] => .ok nResult
  | txin :: rest =>
    match view.getOutputFor txin with
    | .ok out => getValueInFrom view (nResult + out.nValue) rest
    | .error e => .error e

def getValueIn : Except Failure CAmount :=
  if tx.isCoinBase then .ok 0 else view.getValueInFrom 0 tx.vin

/-- Loop of `GetP2SHSigOpCount`. -/
def p2shSigOps (view : CoinsView) : List CTxIn → Except Failure Nat
  | [] => .ok 0
  | txin :: rest => do
    let prevout ← view.getOutputFor txin
    let n ← p2shSigOps view rest
    return (if CScript.isPayToScriptHash prevout.scriptPubKey then
      CScript.getP2SHSigOpCount prevout.scriptPubKey txin.scriptSig else 0) + n

def getP2SHSigOpCount : Except Failure Nat :=
  if tx.isCoinBase then .ok 0 else view.p2shSigOps tx.vin

/-- One turn of the loop of `UpdateCoins`: `Spend` on the
entry of the input. -/
def spendInput (prevout : COutPoint) : Except Failure (CoinsView × CTxInUndo) :=
  match (view.coins.coins prevout.hash).spend prevout with
  | none => .error (.assertion "ret")
  | some (_, undo) =>
    .ok ({ view with coins := view.coins.modify prevout.hash fun c => c.spent prevout.n }, undo)

def spendInputs (prevouts : List COutPoint) : Except Failure (CoinsView × List CTxInUndo) :=
  recordAll spendInput view prevouts

/-- `ModifyCoins(tx.GetHash())->FromTx(tx, nHeight)`. -/
def create (nHeight : Nat) : CoinsView :=
  { view with coins := view.coins.modify tx.hash fun _ => CCoins.fromTx tx nHeight }

def updateCoins (nHeight : Nat) : Except Failure (CoinsView × CTxUndo) :=
  if tx.isCoinBase then .ok (view.create tx nHeight, {})
  else
    match view.spendInputs tx.prevouts with
    | .error e => .error e
    | .ok (view', undos) => .ok (view'.create tx nHeight, ⟨undos⟩)

theorem create_editOk (nHeight : Nat) :
    CoinsStack.EditOk fun _ => CCoins.fromTx tx nHeight := fun _ _ => rfl

theorem spend_editOk (n : Nat) : CoinsStack.EditOk fun c => c.spent n := by
  have hpruned : ∀ c : CCoins, c.vout = [] → (c.spent n).store = none := by
    intro c h
    rw [CCoins.store_eq_none_iff]
    simp [CCoins.spent, CCoins.cleanup, CCoins.isPruned, h]
  intro c h
  rw [hpruned c h, hpruned CCoins.clear rfl]

theorem available_iff (prevout : COutPoint) :
    view.available prevout = true ↔ (view.unspent prevout).isSome = true := by
  unfold available accessCoins unspent CoinsMap.coins
  cases h : view.coins prevout.hash with
  | none => simp
  | some s =>
    simp only [Option.map_some]
    rw [CCoins.isAvailable_iff, Option.isSome_iff_exists]

theorem haveInputs_iff (h : tx.isCoinBase = false) :
    view.haveInputs tx = true ↔ ∀ p ∈ tx.prevouts, (view.unspent p).isSome = true := by
  simp [haveInputs, h, available_iff, CTransaction.prevouts]

theorem spendInput_spec (p : COutPoint) :
    (∀ out, view.unspent p = some out → ∃ view' undo, view.spendInput p = .ok (view', undo)) ∧
    (view.unspent p = none → view.spendInput p = .error (.assertion "ret")) := by
  unfold spendInput
  constructor
  · intro out h
    have hs := (CCoins.spend_some_iff _ _ p _).mpr ⟨out, h, rfl, rfl⟩
    rw [hs]
    exact ⟨_, _, rfl⟩
  · intro h
    have hs : (view.coins.coins p.hash).spend p = none := by
      rw [Option.eq_none_iff_forall_ne_some]
      rintro ⟨c, undo⟩ hc
      obtain ⟨out, hout, -⟩ := (CCoins.spend_some_iff ..).mp hc
      rw [unspent, hout] at h
      cases h
    rw [hs]

end

variable {view view' : CoinsView}

theorem unspent_of_spendInput {p : COutPoint} {undo : CTxInUndo}
    (h : view.spendInput p = .ok (view', undo)) (q : COutPoint) :
    view'.unspent q = if q = p then none else view.unspent q := by
  unfold spendInput at h
  cases hs : (view.coins.coins p.hash).spend p with
  | none =>
    rw [hs] at h
    cases h
  | some r =>
    rw [hs] at h
    cases h
    unfold unspent
    by_cases hhash : q.hash = p.hash
    · rw [hhash, CoinsMap.unspent_modify_self, CCoins.unspent_spent]
      by_cases hn : q.n = p.n
      · have hq : q = p := by
          cases q
          cases p
          simp_all
        rw [hn, Function.update_self, if_pos hq]
      · rw [Function.update_of_ne hn, if_neg fun hq => hn (congrArg COutPoint.n hq)]
    · rw [CoinsMap.coins_modify_of_ne _ _ _ _ hhash,
        if_neg fun hq => hhash (congrArg COutPoint.hash hq)]

/-- The loop of `UpdateCoins` gets through exactly when the inputs name distinct
unspent outputs; otherwise it ends in the assertion. -/
theorem spendInputs_spec (view : CoinsView) (prevouts : List COutPoint) :
    ((∃ r, view.spendInputs prevouts = .ok r) ↔
      prevouts.Nodup ∧ ∀ p ∈ prevouts, (view.unspent p).isSome = true) ∧
    (∀ e, view.spendInputs prevouts = .error e → e = .assertion "ret") := by
  induction prevouts generalizing view with
  | nil => exact ⟨by simp [spendInputs, recordAll], fun e h => by cases h⟩
  | cons p rest ih =>
    unfold spendInputs
    rw [recordAll]
    obtain ⟨hok, herr⟩ := spendInput_spec view p
    cases hp : view.unspent p with
    | none =>
      rw [herr hp]
      refine ⟨by simp [hp], fun e h => ?_⟩
      cases h
      rfl
    | some out =>
      obtain ⟨view', undo, hspend⟩ := hok out hp
      rw [hspend]
      obtain ⟨ihok, iherr⟩ := ih view'
      have hrest : (∀ q ∈ rest, (view'.unspent q).isSome = true) ↔
          p ∉ rest ∧ ∀ q ∈ rest, (view.unspent q).isSome = true := by
        simp only [unspent_of_spendInput hspend]
        constructor
        · intro h
          have hnot : p ∉ rest := fun hmem => by simpa using h p hmem
          refine ⟨hnot, fun q hq => ?_⟩
          have hne : q ≠ p := fun hqp => hnot (hqp ▸ hq)
          simpa [hne] using h q hq
        · rintro ⟨hnot, h⟩ q hq
          have hne : q ≠ p := fun hqp => hnot (hqp ▸ hq)
          rw [if_neg hne]
          exact h q hq
      have hiff : (∃ r, recordAll spendInput view' rest = .ok r) ↔
          (p :: rest).Nodup ∧ ∀ q ∈ p :: rest, (view.unspent q).isSome = true := by
        rw [List.nodup_cons, List.forall_mem_cons, hp]
        have := ihok.trans (and_congr_right fun _ => hrest)
        simp only [spendInputs] at this
        rw [this]
        simp only [Option.isSome_some, true_and]
        tauto
      dsimp only
      cases hr : recordAll spendInput view' rest with
      | error e =>
        rw [← hiff, hr]
        refine ⟨by simp, fun e' h => ?_⟩
        cases h
        exact iherr e hr
      | ok r =>
        rw [← hiff, hr]
        exact ⟨by simp, fun e h => by cases h⟩

theorem updateCoins_eq (view : CoinsView) (tx : CTransaction) (nHeight : Nat) :
    view.updateCoins tx nHeight = match view.spendInputs tx.spends with
      | .error e => .error e
      | .ok (view', undos) => .ok (view'.create tx nHeight, ⟨undos⟩) := by
  unfold updateCoins CTransaction.spends
  cases tx.isCoinBase with
  | true => rfl
  | false => rfl

theorem updateCoins_spec (view : CoinsView) (tx : CTransaction) (nHeight : Nat) :
    ((∃ r, view.updateCoins tx nHeight = .ok r) ↔
      tx.spends.Nodup ∧ ∀ p ∈ tx.spends, (view.unspent p).isSome = true) ∧
    (∀ e, view.updateCoins tx nHeight = .error e → e = .assertion "ret") := by
  obtain ⟨hok, herr⟩ := spendInputs_spec view tx.spends
  rw [updateCoins_eq, ← hok]
  cases h : view.spendInputs tx.spends with
  | error e =>
    refine ⟨by simp, fun e' he => ?_⟩
    cases he
    exact herr e h
  | ok r => exact ⟨by simp, fun e he => by cases he⟩

theorem hashBlock_of_spendInputs {prevouts : List COutPoint} {undos : List CTxInUndo}
    (h : view.spendInputs prevouts = .ok (view', undos)) :
    view'.hashBlock = view.hashBlock := by
  induction prevouts generalizing view undos with
  | nil =>
    cases h
    rfl
  | cons p rest ih =>
    obtain ⟨view₁, u, us, hp, hrest, -⟩ := recordAll_cons_ok_iff.mp h
    have h₁ : view₁.hashBlock = view.hashBlock := by
      unfold spendInput at hp
      split at hp
      · cases hp
      · cases hp
        rfl
    exact (ih hrest).trans h₁

theorem hashBlock_of_updateCoins {tx : CTransaction} {nHeight : Nat} {txundo : CTxUndo}
    (h : view.updateCoins tx nHeight = .ok (view', txundo)) :
    view'.hashBlock = view.hashBlock := by
  rw [updateCoins_eq] at h
  cases hs : view.spendInputs tx.spends with
  | error e =>
    rw [hs] at h
    cases h
  | ok r =>
    rw [hs] at h
    cases h
    change r.1.hashBlock = view.hashBlock
    exact hashBlock_of_spendInputs hs

end CoinsView

end Alqo
