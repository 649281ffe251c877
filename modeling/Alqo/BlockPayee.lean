import Alqo.PaymentVotes
import Alqo.ConnectBlock

/-!
# The masternode payment of a block (masternode-payments.cpp, main.cpp)

`FillBlockPayee` takes reward and payment at the height of the tip, `IsTransactionValid` at the
height of the block itself.
-/

namespace Alqo
open List

def MNPAYMENTS_SIGNATURES_REQUIRED : Int := 2

def roundDouble (n : Nat) : Nat :=
  let e := n.size - 53
  let q := n / 2 ^ e
  let r := n % 2 ^ e
  (if 2 ^ e < 2 * r ∨ (2 * r = 2 ^ e ∧ q % 2 = 1) then q + 1 else q) * 2 ^ e

/-- `blockValue * 0.6` as an `int64_t`; the double 0.6 is 5404319552844595 / 2^53. -/
def sixTenths (blockValue : CAmount) : CAmount :=
  let v := blockValue.toInt
  Int64.ofInt (v.sign * (roundDouble (roundDouble v.natAbs * 5404319552844595) / 2 ^ 53 : Nat))

def getMasternodePayment (params : CChainParams) (nHeight : Nat) (blockValue : CAmount) : CAmount :=
  if nHeight ≤ params.nLastPOWBlock then 0 else sixTenths blockValue

/-- Loop of `GetPayee`. -/
def payeeWithVotes : List CMasternodePayee → (payee : CScript) → (nVotes : Int) → CScript × Int
  | [], payee, nVotes => (payee, nVotes)
  | p :: rest, payee, nVotes =>
    if nVotes < p.nVotes then payeeWithVotes rest p.scriptPubKey p.nVotes
    else payeeWithVotes rest payee nVotes

def getPayee (vecPayments : List CMasternodePayee) : Option CScript :=
  let best := payeeWithVotes vecPayments [] (-1)
  if best.2 > -1 then some best.1 else none

def CMasternodePayments.getBlockPayee (s : CMasternodePayments) (nBlockHeight : Int) :
    Option CScript :=
  (s.mapMasternodeBlocks nBlockHeight).bind getPayee

/-- Loop of `GetCurrentMasterNode`. -/
def currentMasterNodeFrom (Hash : Bytes → uint256) (nBlockHeight minProtocol : Int) :
    ScoreNode → (score : Nat) → (winner : Option CMasternode) → List CMasternode →
      Option CMasternode
  | _, _, winner, [] => winner
  | s, score, winner, mn :: rest =>
    if mn.protocolVersion < minProtocol ∨ mn.fEnabled = false then
      currentMasterNodeFrom Hash nBlockHeight minProtocol s score winner rest
    else
      let n := calculateScore Hash s mn nBlockHeight
      if score < getCompact n.1 then
        currentMasterNodeFrom Hash nBlockHeight minProtocol n.2 (getCompact n.1) (some mn) rest
      else currentMasterNodeFrom Hash nBlockHeight minProtocol n.2 score winner rest

def CMasternodeMan.getCurrentMasterNode (Hash : Bytes → uint256) (s : ScoreNode)
    (m : CMasternodeMan) (nBlockHeight minProtocol : Int) : Option CMasternode :=
  currentMasterNodeFrom Hash nBlockHeight minProtocol s 0 none m.vMasternodes

def CTxOut.minus (out : CTxOut) (amount : CAmount) : CTxOut := { out with nValue := out.nValue - amount }

/-- The payment is taken from the outputs of the stake. -/
def takeFromStake (masternodePayment : CAmount) (vout : List CTxOut) : List CTxOut :=
  if vout.length = 2 then vout.modify 1 fun out => out.minus masternodePayment
  else if 2 < vout.length then
    let outputs := vout.length - 1
    let mnPaymentSplit := masternodePayment / Int64.ofNat outputs
    let mnPaymentRemainder := masternodePayment - mnPaymentSplit * Int64.ofNat outputs
    (vout.mapIdx fun j out => if 1 ≤ j then out.minus mnPaymentSplit else out).modify outputs
      fun out => out.minus mnPaymentRemainder
  else vout

/-- The outputs with the payment. -/
def payMasternode (fProofOfStake : Bool) (payee : CScript) (blockValue masternodePayment : CAmount)
    (vout : List CTxOut) : List CTxOut :=
  if fProofOfStake then
    takeFromStake masternodePayment vout ++
      [{ CTxOut.null with scriptPubKey := payee, nValue := masternodePayment }]
  else
    [{ vout.getD 0 CTxOut.null with nValue := blockValue - masternodePayment },
      { vout.getD 1 CTxOut.null with scriptPubKey := payee, nValue := masternodePayment }]

/-- What `FillBlockPayee` reads of the node. -/
structure PayeeView where
  Hash : Bytes → uint256
  params : CChainParams
  payments : CMasternodePayments
  score : ScoreNode
  mnodeman : CMasternodeMan
  /-- `GetScriptForDestination(pubKeyCollateralAddress.GetID())` -/
  collateralScript : CMasternode → CScript

/- masternode-payments.cpp:345-409 on a tip
at `nTipHeight`: the outputs of the transaction after it. -/
def PayeeView.fillBlockPayee (view : PayeeView) (nTipHeight : Nat) (fProofOfStake : Bool)
    (vout : List CTxOut) : List CTxOut :=
  let payee :=
    match view.payments.getBlockPayee (nTipHeight + 1) with
    | some payee => some payee
    | none =>
      (view.mnodeman.getCurrentMasterNode view.Hash view.score 0 0).map view.collateralScript
  let blockValue := getBlockValue nTipHeight
  let masternodePayment := getMasternodePayment view.params nTipHeight blockValue
  match payee with
  | none => vout
  | some payee => payMasternode fProofOfStake payee blockValue masternodePayment vout

/-- First loop. -/
def maxSignatures : List CMasternodePayee → (nMaxSignatures : Int) → Int
  | [], nMaxSignatures => nMaxSignatures
  | payee :: rest, nMaxSignatures =>
    if nMaxSignatures ≤ payee.nVotes ∧ MNPAYMENTS_SIGNATURES_REQUIRED ≤ payee.nVotes then
      maxSignatures rest payee.nVotes
    else maxSignatures rest nMaxSignatures

def CMasternodePayee.paidBy (payee : CMasternodePayee) (vout : List CTxOut)
    (requiredMasternodePayment : CAmount) : Bool :=
  vout.any fun out =>
    payee.scriptPubKey == out.scriptPubKey && out.nValue == requiredMasternodePayment

/-- `CMasternodeBlockPayees::IsTransactionValid`;
the drift count is computed there and not used. -/
def isPayeeTransactionValid (params : CChainParams) (nBlockHeight : Nat)
    (vecPayments : List CMasternodePayee) (txNew : CTransaction) : Bool :=
  let requiredMasternodePayment :=
    getMasternodePayment params nBlockHeight (getBlockValue nBlockHeight)
  if maxSignatures vecPayments 0 < MNPAYMENTS_SIGNATURES_REQUIRED then true
  else
    vecPayments.any fun payee =>
      payee.paidBy txNew.vout requiredMasternodePayment &&
        decide (MNPAYMENTS_SIGNATURES_REQUIRED ≤ payee.nVotes)

def CMasternodePayments.isTransactionValid (s : CMasternodePayments) (params : CChainParams)
    (txNew : CTransaction) (nBlockHeight : Nat) : Bool :=
  match s.mapMasternodeBlocks nBlockHeight with
  | some vecPayments => isPayeeTransactionValid params nBlockHeight vecPayments txNew
  | none => true

def Supported (vecPayments : List CMasternodePayee) : Prop :=
  ∃ p ∈ vecPayments, MNPAYMENTS_SIGNATURES_REQUIRED ≤ p.nVotes

theorem maxSignatures_lt_iff (vecPayments : List CMasternodePayee) (n : Int) :
    maxSignatures vecPayments n < MNPAYMENTS_SIGNATURES_REQUIRED ↔
      n < MNPAYMENTS_SIGNATURES_REQUIRED ∧ ¬ Supported vecPayments := by
  induction vecPayments generalizing n with
  | nil => simp [maxSignatures, Supported]
  | cons p rest ih =>
    rw [maxSignatures]
    have hsupported : Supported (p :: rest) ↔
        MNPAYMENTS_SIGNATURES_REQUIRED ≤ p.nVotes ∨ Supported rest := by
      simp [Supported]
    rw [hsupported, not_or]
    split_ifs with hp
    · rw [ih]
      exact iff_of_false (fun h => by omega) (fun h => by omega)
    · rw [ih, ← and_assoc]
      refine and_congr_left fun _ => ?_
      omega

theorem payeeWithVotes_spec (vecPayments : List CMasternodePayee) (payee : CScript) (n : Int) :
    n ≤ (payeeWithVotes vecPayments payee n).2 ∧
      (∀ p ∈ vecPayments, p.nVotes ≤ (payeeWithVotes vecPayments payee n).2) ∧
      (payeeWithVotes vecPayments payee n = (payee, n) ∨
        ∃ p ∈ vecPayments, payeeWithVotes vecPayments payee n = (p.scriptPubKey, p.nVotes)) := by
  induction vecPayments generalizing payee n with
  | nil => simp [payeeWithVotes]
  | cons p rest ih =>
    rw [payeeWithVotes]
    split_ifs with hp
    · obtain ⟨hstart, hrest, hfrom⟩ := ih p.scriptPubKey p.nVotes
      refine ⟨by omega, ?_, .inr ?_⟩
      · exact forall_mem_cons.mpr ⟨hstart, hrest⟩
      · rcases hfrom with hfrom | ⟨q, hq, hfrom⟩
        · exact ⟨p, mem_cons_self, hfrom⟩
        · exact ⟨q, mem_cons_of_mem _ hq, hfrom⟩
    · obtain ⟨hstart, hrest, hfrom⟩ := ih payee n
      refine ⟨hstart, ?_, ?_⟩
      · exact forall_mem_cons.mpr ⟨by omega, hrest⟩
      · rcases hfrom with hfrom | ⟨q, hq, hfrom⟩
        · exact .inl hfrom
        · exact .inr ⟨q, mem_cons_of_mem _ hq, hfrom⟩

variable {vecPayments : List CMasternodePayee}

theorem getPayee_of_supported (h : Supported vecPayments) :
    ∃ p ∈ vecPayments, MNPAYMENTS_SIGNATURES_REQUIRED ≤ p.nVotes ∧
      getPayee vecPayments = some p.scriptPubKey := by
  obtain ⟨q, hq, hvotes⟩ := h
  obtain ⟨-, hmost, hfrom⟩ := payeeWithVotes_spec vecPayments [] (-1)
  have hbest := hmost q hq
  have hrequired : MNPAYMENTS_SIGNATURES_REQUIRED = 2 := rfl
  rcases hfrom with hfrom | ⟨p, hp, hfrom⟩
  · rw [hfrom] at hbest
    omega
  · rw [hfrom] at hbest
    refine ⟨p, hp, by omega, ?_⟩
    rw [getPayee, hfrom]
    exact if_pos (by omega)

theorem exists_paid (fProofOfStake : Bool) (payee : CScript) (blockValue masternodePayment : CAmount)
    (vout : List CTxOut) :
    ∃ out ∈ payMasternode fProofOfStake payee blockValue masternodePayment vout,
      out.scriptPubKey = payee ∧ out.nValue = masternodePayment := by
  cases fProofOfStake with
  | true => exact ⟨_, mem_append_right _ mem_cons_self, rfl, rfl⟩
  | false => exact ⟨_, mem_cons_of_mem _ mem_cons_self, rfl, rfl⟩

theorem sixTenths_getBlockValue (nHeight : Nat) :
    sixTenths (getBlockValue nHeight) = if nHeight ≤ 161 then 300000 * COIN else 3 * COIN := by
  unfold getBlockValue
  split_ifs
  · decide +kernel
  · decide +kernel

/-- The payment at the tip is the payment at the block, except where the payments
begin and where the reward changes under way. -/
theorem payments_agree_iff (params : CChainParams) (n : Nat) :
    getMasternodePayment params n (getBlockValue n) =
        getMasternodePayment params (n + 1) (getBlockValue (n + 1)) ↔
      n ≠ params.nLastPOWBlock ∧ (n = 161 → n ≤ params.nLastPOWBlock) := by
  have hcoins : ¬ (300000 * COIN = 3 * COIN) ∧ ¬ ((0 : CAmount) = 300000 * COIN) ∧
      ¬ ((0 : CAmount) = 3 * COIN) := by decide
  unfold getMasternodePayment
  rw [sixTenths_getBlockValue, sixTenths_getBlockValue]
  by_cases hnext : n + 1 ≤ params.nLastPOWBlock
  · rw [if_pos (by omega), if_pos hnext]
    exact iff_of_true rfl ⟨by omega, by omega⟩
  · rw [if_neg hnext]
    by_cases hlast : n ≤ params.nLastPOWBlock
    · rw [if_pos hlast]
      refine iff_of_false ?_ (by omega)
      split_ifs
      · exact hcoins.2.1
      · exact hcoins.2.2
    · rw [if_neg hlast]
      by_cases hlow : n + 1 ≤ 161
      · rw [if_pos hlow, if_pos (by omega)]
        exact iff_of_true rfl ⟨by omega, by omega⟩
      · rw [if_neg hlow]
        split_ifs with hn
        · exact iff_of_false hcoins.1 (by omega)
        · exact iff_of_true rfl ⟨by omega, by omega⟩

theorem isPayeeTransactionValid_iff (params : CChainParams) (nBlockHeight : Nat)
    (h : Supported vecPayments) (txNew : CTransaction) :
    isPayeeTransactionValid params nBlockHeight vecPayments txNew = true ↔
      ∃ p ∈ vecPayments, MNPAYMENTS_SIGNATURES_REQUIRED ≤ p.nVotes ∧ ∃ out ∈ txNew.vout,
        p.scriptPubKey = out.scriptPubKey ∧
        out.nValue = getMasternodePayment params nBlockHeight (getBlockValue nBlockHeight) := by
  have hmax : ¬ maxSignatures vecPayments 0 < MNPAYMENTS_SIGNATURES_REQUIRED := by
    rw [maxSignatures_lt_iff]
    exact fun hlt => hlt.2 h
  rw [isPayeeTransactionValid, if_neg hmax]
  simp only [CMasternodePayee.paidBy, List.any_eq_true, Bool.and_eq_true, beq_iff_eq,
    decide_eq_true_iff]
  exact exists_congr fun p => and_congr_right fun _ => and_comm

theorem isPayeeTransactionValid_of_unsupported (params : CChainParams) (nBlockHeight : Nat)
    (h : ¬ Supported vecPayments) (txNew : CTransaction) :
    isPayeeTransactionValid params nBlockHeight vecPayments txNew = true :=
  if_pos ((maxSignatures_lt_iff vecPayments 0).mpr ⟨by decide, h⟩)

def PayeeView.paymentState (view : PayeeView) (sporkActive : Spork → Bool) (synced : Bool)
    (budget : CBudgetManager) : PaymentState where
  sporkActive := sporkActive
  synced := synced
  budget := budget
  masternodePaymentValid := view.payments.isTransactionValid view.params

def PayeeView.AcceptsOwn (view : PayeeView) (pay : PaymentState) (nTipHeight : Nat) : Prop :=
  ∀ (block : CBlock) (txNew : CTransaction) (vout : List CTxOut),
    let fProofOfStake := decide (nTipHeight + 1 > view.params.nLastPOWBlock)
    block.vtx[if fProofOfStake then 1 else 0]? = some txNew →
    txNew.vout = view.fillBlockPayee nTipHeight fProofOfStake vout →
    ∃ history, isBlockPayeeValid view.params pay block (nTipHeight + 1) = some (true, history)

theorem isBlockPayeeValid_eq {params : CChainParams} {pay : PaymentState} {block : CBlock}
    {nBlockHeight : Nat} {txNew : CTransaction} (hspork : pay.sporkActive .enableSuperblocks = false)
    (hsynced : pay.synced = true)
    (htx : block.vtx[if nBlockHeight > params.nLastPOWBlock then 1 else 0]? = some txNew) :
    isBlockPayeeValid params pay block nBlockHeight =
      some (pay.masternodePaymentValid txNew nBlockHeight ||
        !pay.sporkActive .masternodePaymentEnforcement, pay.budget.history) := by
  simp [isBlockPayeeValid, hsynced, htx, hspork]

section
variable {view : PayeeView} {n : Nat} {vecPayments : List CMasternodePayee} {txNew : CTransaction}

theorem fillBlockPayee_supported
    (hvotes : view.payments.mapMasternodeBlocks ((n + 1 : Nat) : Int) = some vecPayments)
    (h : Supported vecPayments) (fProofOfStake : Bool) (vout : List CTxOut) :
    ∃ p ∈ vecPayments, MNPAYMENTS_SIGNATURES_REQUIRED ≤ p.nVotes ∧
      view.fillBlockPayee n fProofOfStake vout =
        payMasternode fProofOfStake p.scriptPubKey (getBlockValue n)
          (getMasternodePayment view.params n (getBlockValue n)) vout := by
  obtain ⟨p, hp, hrequired, hpayee⟩ := getPayee_of_supported h
  have hblock : view.payments.getBlockPayee ((n : Int) + 1) = some p.scriptPubKey := by
    rw [CMasternodePayments.getBlockPayee, ← Nat.cast_succ, hvotes, Option.bind_some, hpayee]
  refine ⟨p, hp, hrequired, ?_⟩
  simp only [PayeeView.fillBlockPayee, hblock]

theorem isTransactionValid_own (hagree : getMasternodePayment view.params n (getBlockValue n) =
      getMasternodePayment view.params (n + 1) (getBlockValue (n + 1)))
    {fProofOfStake : Bool} {vout : List CTxOut}
    (hfill : txNew.vout = view.fillBlockPayee n fProofOfStake vout) :
    view.payments.isTransactionValid view.params txNew (n + 1) = true := by
  rw [CMasternodePayments.isTransactionValid]
  cases hvotes : view.payments.mapMasternodeBlocks ((n + 1 : Nat) : Int) with
  | none => rfl
  | some vecPayments =>
    by_cases h : Supported vecPayments
    · obtain ⟨p, hp, hrequired, hpaid⟩ := fillBlockPayee_supported hvotes h fProofOfStake vout
      refine (isPayeeTransactionValid_iff view.params (n + 1) h txNew).mpr ⟨p, hp, hrequired, ?_⟩
      rw [hfill, hpaid, ← hagree]
      obtain ⟨out, hout, hscript, hvalue⟩ := exists_paid fProofOfStake p.scriptPubKey
        (getBlockValue n) (getMasternodePayment view.params n (getBlockValue n)) vout
      exact ⟨out, hout, hscript.symm, hvalue⟩
    · exact isPayeeTransactionValid_of_unsupported view.params (n + 1) h txNew

theorem isTransactionValid_unenforced
    (hnone : ∀ vecPayments, view.payments.mapMasternodeBlocks ((n + 1 : Nat) : Int) =
      some vecPayments → ¬ Supported vecPayments) (txNew : CTransaction) :
    view.payments.isTransactionValid view.params txNew (n + 1) = true := by
  rw [CMasternodePayments.isTransactionValid]
  cases hvotes : view.payments.mapMasternodeBlocks ((n + 1 : Nat) : Int) with
  | none => rfl
  | some vecPayments =>
    exact isPayeeTransactionValid_of_unsupported view.params (n + 1) (hnone _ hvotes) txNew

theorem isTransactionValid_loneStake
    (hvotes : view.payments.mapMasternodeBlocks ((n + 1 : Nat) : Int) = some vecPayments)
    (h : Supported vecPayments)
    (hdiffer : getMasternodePayment view.params n (getBlockValue n) ≠
      getMasternodePayment view.params (n + 1) (getBlockValue (n + 1)))
    (hfill : txNew.vout = view.fillBlockPayee n true []) :
    view.payments.isTransactionValid view.params txNew (n + 1) = false := by
  obtain ⟨p, -, -, hpaid⟩ := fillBlockPayee_supported hvotes h true []
  have hout : txNew.vout = [{ CTxOut.null with
      scriptPubKey := p.scriptPubKey
      nValue := getMasternodePayment view.params n (getBlockValue n) }] := by
    rw [hfill, hpaid]
    rfl
  rw [CMasternodePayments.isTransactionValid, hvotes, ← Bool.not_eq_true]
  rw [isPayeeTransactionValid_iff view.params (n + 1) h, hout]
  simp only [mem_singleton, exists_eq_left]
  exact fun ⟨q, _, _, _, hvalue⟩ => hdiffer hvalue

end

/-- Without superblocks a node accepts the payments it fills in if it is not synced,
payments are not enforced, no payee of the height has the votes to be enforced, or
the payment is the same at the tip and at the block. -/
theorem acceptsOwn_iff (view : PayeeView) (sporkActive : Spork → Bool) (synced : Bool)
    (budget : CBudgetManager) (nTipHeight : Nat)
    (hspork : sporkActive .enableSuperblocks = false) :
    view.AcceptsOwn (view.paymentState sporkActive synced budget) nTipHeight ↔
      synced = false ∨ sporkActive .masternodePaymentEnforcement = false ∨
      (∀ vecPayments, view.payments.mapMasternodeBlocks ((nTipHeight + 1 : Nat) : Int) =
        some vecPayments → ¬ Supported vecPayments) ∨
      (nTipHeight ≠ view.params.nLastPOWBlock ∧
        (nTipHeight = 161 → nTipHeight ≤ view.params.nLastPOWBlock)) := by
  rw [← payments_agree_iff]
  cases hsynced : synced with
  | false =>
    refine iff_of_true ?_ (.inl rfl)
    intro block txNew vout fProofOfStake _ _
    exact ⟨budget.history, rfl⟩
  | true =>
    refine ⟨?_, ?_⟩
    · intro haccepts
      by_contra hcond
      simp only [Bool.true_eq_false, false_or, not_or, not_forall, not_not,
        Bool.not_eq_false] at hcond
      obtain ⟨henforced, ⟨vecPayments, hvotes, h⟩, hdiffer⟩ := hcond
      -- the amounts differ above the last proof-of-work block only
      have hstake : nTipHeight + 1 > view.params.nLastPOWBlock := by
        by_contra hle
        exact hdiffer ((payments_agree_iff _ _).mpr ⟨by omega, by omega⟩)
      let txNew : CTransaction :=
        { hash := 0, vin := [], vout := view.fillBlockPayee nTipHeight true [] }
      let block : CBlock := { firstHeader with vtx := [txNew, txNew] }
      have htx : block.vtx[if nTipHeight + 1 > view.params.nLastPOWBlock then 1 else 0]? =
          some txNew := by rw [if_pos hstake]; rfl
      obtain ⟨history, hvalid⟩ := haccepts block txNew []
        (by rw [decide_eq_true hstake]; rfl) (by rw [decide_eq_true hstake])
      rw [isBlockPayeeValid_eq hspork rfl htx] at hvalid
      have hrefused := isTransactionValid_loneStake hvotes h hdiffer
        (show txNew.vout = view.fillBlockPayee nTipHeight true [] from rfl)
      simp only [PayeeView.paymentState, hrefused, henforced, Bool.not_true, Bool.or_false,
        Option.some.injEq, Prod.mk.injEq, Bool.false_eq_true, false_and] at hvalid
    · intro hcond block txNew vout fProofOfStake htx hfill
      refine ⟨budget.history, ?_⟩
      rw [isBlockPayeeValid_eq hspork rfl (by simpa [fProofOfStake] using htx)]
      simp only [PayeeView.paymentState]
      rcases hcond with hcond | hcond | hcond | hcond
      · cases hcond
      · rw [hcond, Bool.not_false, Bool.or_true]
      · rw [isTransactionValid_unenforced hcond txNew, Bool.true_or]
      · rw [isTransactionValid_own hcond hfill, Bool.true_or]

def enforcingView (nHeight : Int) : PayeeView where
  Hash := fun _ => 0
  params := mainParams
  payments := { mapMasternodeBlocks := fun h => if h = nHeight then some [⟨[0x51], 2⟩] else none }
  score := { chainActive := [] }
  mnodeman := { vMasternodes := [] }
  collateralScript := fun _ => []

def enforcingSporks (spork : Spork) : Bool := decide (spork = .masternodePaymentEnforcement)

theorem acceptsOwn_afterSwitch :
    (enforcingView 302).AcceptsOwn ((enforcingView 302).paymentState enforcingSporks true {}) 301 :=
  (acceptsOwn_iff (enforcingView 302) enforcingSporks true {} 301 (by decide)).mpr
    (.inr (.inr (.inr ⟨by decide, by decide⟩)))

/-- On the last proof-of-work block the node pays nothing and asks for three coins:
it refuses the first proof-of-stake block it makes. -/
theorem firstStake_refused :
    let view := enforcingView 301
    let stake : List CTxOut := [⟨0, [], -10⟩, ⟨5 * COIN, [0x52], -10⟩]
    let txNew : CTransaction :=
      { hash := 1, vin := [{ prevout := ⟨2, 0⟩ }], vout := view.fillBlockPayee 300 true stake }
    txNew.vout = [⟨0, [], -10⟩, ⟨5 * COIN, [0x52], -10⟩, ⟨0, [0x51], -10⟩] ∧
      isBlockPayeeValid view.params (view.paymentState enforcingSporks true {})
        { firstHeader with vtx := [secondCoinBase, txNew] } 301 = some (false, []) := by
  decide +kernel

end Alqo
