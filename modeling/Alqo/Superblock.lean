import Alqo.MintBound

/-!
# Superblocks

`IsBlockValueValid` leaves the value to the payee check, which looks for one output that pays the
budget. Neither bounds the other outputs.
-/

namespace Alqo
open Lib.Fallible Lib.FixedSum

section
variable {Hash : Bytes → uint256} {node : Node} {block : CBlock} {hash : uint256}
  {pindex pprev : CBlockIndex} {view : CoinsView} {fJustCheck fAlreadyChecked : Bool}
  {nBlockHeight : Nat} {history : PaymentHistory} {b : CFinalizedBudget}
  {status : TrxValidationStatus} {tx : CTransaction}

structure SuperblockDue (node : Node) (block : CBlock) : Prop where
  synced : node.synced = true
  superblocks : node.sporkActive .enableSuperblocks = true
  enforced : node.sporkActive .masternodeBudgetEnforcement = true
  due : node.budget.isBudgetPaymentBlock (node.heightAfter block.hashPrevBlock) = true

def CFinalizedBudget.PaidBy (b : CFinalizedBudget) (tx : CTransaction) (nHeight : Nat) : Prop :=
  ∃ payment, b.vecBudgetPayments[nHeight - b.nBlockStart]? = some payment ∧
    ∃ out ∈ tx.vout, out.scriptPubKey = payment.payee ∧ out.nValue = payment.nAmount

def PaysBudget (budgets : List CFinalizedBudget) (tx : CTransaction) (nHeight : Nat) : Prop :=
  ∃ b ∈ budgets, b.covers nHeight = true ∧ b.PaidBy tx nHeight

def WithinBudget (node : Node) (block : CBlock) (pprevHeight : Nat) (x : ExactSums) : Prop :=
  x.out - x.inp + x.fees ≤ exactExpectedMint block pprevHeight x +
    (node.budget.budgetPayment (node.heightAfter block.hashPrevBlock)).toInt

theorem isBlockValueValid_superblock (h : SuperblockDue node block)
    (nExpectedValue nMinted : CAmount) :
    isBlockValueValid node.params node.toPaymentState node.toChainState block.hashPrevBlock
      nExpectedValue nMinted = true := by
  unfold isBlockValueValid
  by_cases htip : node.tip.isNone = true
  · rw [if_pos htip]
  · simp [htip, h.synced, h.superblocks, h.due]

theorem matchOutputs_valid {payment : CTxBudgetPayment} {vout : List CTxOut}
    (h : (b.matchOutputs payment nBlockHeight vout status history).1 = .valid) :
    status = .valid ∨ ∃ out ∈ vout, out.scriptPubKey = payment.payee ∧
      out.nValue = payment.nAmount := by
  induction vout generalizing status history with
  | nil => exact .inl h
  | cons out rest ih =>
    rw [CFinalizedBudget.matchOutputs] at h
    by_cases hmatch : payment.payee = out.scriptPubKey ∧ payment.nAmount = out.nValue
    · exact .inr ⟨out, List.mem_cons_self, hmatch.1.symm, hmatch.2.symm⟩
    · rw [if_neg hmatch] at h
      rcases ih h with hs | ⟨o, ho, hpays⟩
      · exact .inl hs
      · exact .inr ⟨o, List.mem_cons_of_mem _ ho, hpays⟩

theorem isTransactionValid_valid (h : (b.isTransactionValid history tx nBlockHeight).1 = .valid) :
    b.PaidBy tx nBlockHeight := by
  unfold CFinalizedBudget.isTransactionValid at h
  split_ifs at h
  cases hp : b.vecBudgetPayments[nBlockHeight - b.nBlockStart]? with
  | none =>
    rw [hp] at h
    cases h
  | some payment =>
    rw [hp] at h
    rcases matchOutputs_valid h with hs | hpays
    · cases hs
    · exact ⟨payment, hp, hpays⟩

theorem checkBudgets_valid {nCountThreshold : Int}
    {budgets : List CFinalizedBudget} {fThreshold : Bool} (hstatus : status ≠ .valid)
    (h : (CBudgetManager.checkBudgets tx nBlockHeight nCountThreshold budgets status fThreshold
      history).1 = .valid) : PaysBudget budgets tx nBlockHeight := by
  induction budgets generalizing status fThreshold history with
  | nil =>
    rw [CBudgetManager.checkBudgets] at h
    split_ifs at h
    exact absurd h hstatus
  | cons b rest ih =>
    -- a budget that does not settle it hands over to the rest
    have hlater : ∀ status' fThreshold' history', status' ≠ .valid →
        (CBudgetManager.checkBudgets tx nBlockHeight nCountThreshold rest status' fThreshold'
          history').1 = .valid → PaysBudget (b :: rest) tx nBlockHeight := by
      intro status' fThreshold' history' hs' h'
      obtain ⟨c, hc, hpays⟩ := ih hs' h'
      exact ⟨c, List.mem_cons_of_mem b hc, hpays⟩
    rw [CBudgetManager.checkBudgets] at h
    by_cases hvotes : nCountThreshold < b.nVoteCount
    swap
    · rw [if_neg hvotes] at h
      exact hlater _ _ _ hstatus h
    rw [if_pos hvotes] at h
    by_cases hcovers : b.covers nBlockHeight = true
    swap
    · rw [if_neg hcovers] at h
      exact hlater _ _ _ hstatus h
    rw [if_pos hcovers] at h
    cases hb : b.isTransactionValid history tx nBlockHeight with
    | mk status' history' =>
      rw [hb] at h
      by_cases hvalid : status' = .valid
      · have hb' : (b.isTransactionValid history tx nBlockHeight).1 = .valid := by rw [hb, hvalid]
        exact ⟨b, List.mem_cons_self, hcovers, isTransactionValid_valid hb'⟩
      · refine hlater status' true history' hvalid ?_
        cases status' with
        | valid => exact absurd rfl hvalid
        | inValid => exact h
        | doublePayment => exact h
        | voteThreshold => exact h

theorem isBlockPayeeValid_superblock (hdue : SuperblockDue node block)
    (h : isBlockPayeeValid node.params node.toPaymentState block
      (node.heightAfter block.hashPrevBlock) = some (true, history)) :
    ∃ tx, block.vtx[if node.heightAfter block.hashPrevBlock > node.params.nLastPOWBlock then 1
        else 0]? = some tx ∧
      (PaysBudget node.budget.mapFinalizedBudgets tx (node.heightAfter block.hashPrevBlock) ∨
        node.masternodePaymentValid tx (node.heightAfter block.hashPrevBlock) = true ∨
        node.sporkActive .masternodePaymentEnforcement = false) := by
  unfold isBlockPayeeValid at h
  rw [hdue.synced, if_neg (by simp)] at h
  cases htx : block.vtx[if node.heightAfter block.hashPrevBlock > node.params.nLastPOWBlock then 1
      else 0]? with
  | none =>
    rw [htx] at h
    cases h
  | some tx =>
    rw [htx] at h
    refine ⟨tx, rfl, ?_⟩
    simp only [hdue.superblocks, hdue.due, Bool.and_self, if_true] at h
    cases hs : node.budget.isTransactionValid tx (node.heightAfter block.hashPrevBlock) with
    | mk status history' =>
      rw [hs] at h
      cases status with
      | valid =>
        left
        unfold CBudgetManager.isTransactionValid at hs
        dsimp only at hs
        split_ifs at hs
        · cases congrArg Prod.fst hs
        · exact checkBudgets_valid (by simp) (congrArg Prod.fst hs)
      | inValid => simp [hdue.enforced] at h
      | doublePayment =>
        right
        simpa using congrArg Prod.fst (Option.some.inj h)
      | voteThreshold =>
        right
        simpa using congrArg Prod.fst (Option.some.inj h)

theorem isBlockPayeeValid_of_checkBlock {fCheckPOW fCheckMerkleRoot : Bool}
    (hibd : node.initialBlockDownload = false) (hheight : node.heightAfter block.hashPrevBlock ≠ 0)
    (h : checkBlock Hash node block fCheckPOW fCheckMerkleRoot = .ok history) :
    ∃ history', isBlockPayeeValid node.params node.toPaymentState block
      (node.heightAfter block.hashPrevBlock) = some (true, history') := by
  obtain ⟨_, -, h⟩ := bind_ok_iff.mp h
  obtain ⟨_, -, h⟩ := bind_ok_iff.mp h
  obtain ⟨_, -, h⟩ := bind_ok_iff.mp h
  obtain ⟨history', hpayee, -⟩ := bind_ok_iff.mp h
  unfold checkPayee at hpayee
  rw [if_pos ⟨hheight, hibd⟩] at hpayee
  cases hv : isBlockPayeeValid node.params node.toPaymentState block
      (node.heightAfter block.hashPrevBlock) with
  | none =>
    rw [hv] at hpayee
    cases hpayee
  | some r =>
    obtain ⟨valid, history''⟩ := r
    rw [hv] at hpayee
    cases valid with
    | false => cases hpayee
    | true => exact ⟨history'', rfl⟩

theorem connectBlock_superblock_iff (hdue : SuperblockDue node block)
    (henter : EntersLoop Hash node block hash pindex pprev view fJustCheck fAlreadyChecked) :
    (∃ c, connectBlock Hash node block hash pindex view fJustCheck fAlreadyChecked = .ok c) ↔
      ∃ s, connectVtx node (decide (pindex.nHeight ≥ node.totalBlocksEstimate)) pindex.nHeight
          block.vtx { view := view } = .ok s ∧
        (s.vChecks.any fun check => !node.verifyScript false check.tx check.nIn check.out) =
          false := by
  rw [connectBlock_eq_body henter]
  unfold connectBlockBody
  simp only [isBlockValueValid_superblock hdue]
  cases connectVtx node (decide (pindex.nHeight ≥ node.totalBlocksEstimate)) pindex.nHeight
      block.vtx { view := view } with
  | error e => simp
  | ok s =>
    simp only [Bool.not_true, Bool.false_eq_true, if_false, Except.ok.injEq, exists_eq_left']
    cases hchecks : s.vChecks.any fun check =>
        !node.verifyScript false check.tx check.nIn check.out with
    | true => simp [dos]
    | false =>
      cases fJustCheck with
      | true => simp
      | false => simp

end

instance (node : Node) (block : CBlock) (pprevHeight : Nat) (x : ExactSums) :
    Decidable (WithinBudget node block pprevHeight x) :=
  inferInstanceAs (Decidable (_ ≤ _))

def Node.withBudget : Node :=
  { Node.afterFirst with
    sporkActive := fun spork => spork == .enableSuperblocks || spork == .masternodeBudgetEnforcement
    budget := {
      mapFinalizedBudgets := [⟨2, [⟨1, [0x52], 100 * COIN⟩], 1⟩]
      countEnabled := 10 } }

def fairBlock : CBlock :=
  { secondHeader with
    hashMerkleRoot := 0x294a0f60de10a8a7d3c8f839f6fb7345b3e6ff1bfbdd27bdc1a109d9066a39d0
    nNonce := 34025
    vtx := [{
      hash := 0x294a0f60de10a8a7d3c8f839f6fb7345b3e6ff1bfbdd27bdc1a109d9066a39d0
      vin := secondCoinBase.vin
      vout := [⟨500000 * COIN, [0x51], -10⟩, ⟨100 * COIN, [0x52], -10⟩] }] }

def greedyBlock : CBlock :=
  { secondHeader with
    hashMerkleRoot := 0xc5d4e1b6d9e36a606d23384788509b8d4f5c32435240a8a69740bbf1af633c91
    nNonce := 267738
    vtx := [{
      hash := 0xc5d4e1b6d9e36a606d23384788509b8d4f5c32435240a8a69740bbf1af633c91
      vin := secondCoinBase.vin
      vout := [⟨500000 * COIN, [0x51], -10⟩, ⟨100 * COIN, [0x52], -10⟩,
        ⟨20000000 * COIN, [0x51], -10⟩] }] }

end Alqo
