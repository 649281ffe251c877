import Alqo.Interpreter
import Alqo.MemPool

/-!
# Lock times (script/interpreter.cpp)

`OP_CHECKLOCKTIMEVERIFY` compares its argument with the lock time of the transaction, and
insists on an input whose sequence number makes the lock time count.
-/

namespace Alqo
open Lib.Checks Lib.Fallible

section
variable (txTo : CTransaction) (nIn : Fin txTo.vin.length)

def checkLockTime (nLockTime : Int) : Bool :=
  if ¬ ((txTo.nLockTime < LOCKTIME_THRESHOLD ∧ nLockTime < LOCKTIME_THRESHOLD) ∨
      (txTo.nLockTime ≥ LOCKTIME_THRESHOLD ∧ nLockTime ≥ LOCKTIME_THRESHOLD)) then false
  else if nLockTime > txTo.nLockTime then false
  else (txTo.vin.get nIn).nSequence != 0xffffffff

/-- `TransactionSignatureChecker`, with any verification of signatures. -/
def transactionSignatureChecker (checkSig : Bytes → Bytes → CScript → Bool) :
    BaseSignatureChecker where
  checkSig := checkSig
  checkLockTime := checkLockTime txTo nIn

end

variable {txTo : CTransaction} {nIn : Fin txTo.vin.length} {nLockTime nBlockHeight nBlockTime : Int}

theorem checkLockTime_iff : checkLockTime txTo nIn nLockTime = true ↔
    (txTo.nLockTime < LOCKTIME_THRESHOLD ↔ nLockTime < LOCKTIME_THRESHOLD) ∧
      nLockTime ≤ txTo.nLockTime ∧ (txTo.vin.get nIn).nSequence ≠ 0xffffffff := by
  unfold checkLockTime
  split
  · refine iff_of_false (by decide) ?_
    omega
  · split
    · refine iff_of_false (by decide) ?_
      omega
    · rw [bne_iff_ne]
      omega

/-- A transaction with an input that is not final waits for its lock time. -/
theorem lockTime_of_isFinalTx (h : isFinalTx txTo nBlockHeight nBlockTime = true)
    (hin : (txTo.vin.get nIn).nSequence ≠ 0xffffffff) :
    txTo.nLockTime = 0 ∨ (txTo.nLockTime : Int) <
      if txTo.nLockTime < LOCKTIME_THRESHOLD then nBlockHeight else nBlockTime := by
  simp only [isFinalTx, Bool.or_eq_true, decide_eq_true_eq, List.all_eq_true, beq_iff_eq] at h
  exact h.resolve_right fun hall => hin (hall _ (List.get_mem txTo.vin nIn))

section
variable {crypto : ScriptCrypto} {checker : BaseSignatureChecker} {flags : ScriptFlags}
  {vchPushValue vch : Bytes} {pc : CScript} {s s' : ScriptState} {stack : Stack}

theorem checkLockTime_of_evalStep (hexec : s.fExec = true)
    (henabled : flags.has SCRIPT_VERIFY_CHECKLOCKTIMEVERIFY = true)
    (hstack : s.stack = vch :: stack) (hnumber : flags.number vch 5 = .ok nLockTime)
    (h : evalStep crypto checker flags OP_CHECKLOCKTIMEVERIFY vchPushValue pc s = .ok s') :
    0 ≤ nLockTime ∧ checker.checkLockTime nLockTime = true := by
  obtain ⟨_, -, h⟩ := bind_ok_iff.mp h
  obtain ⟨_, -, h⟩ := bind_ok_iff.mp h
  obtain ⟨_, -, h⟩ := bind_ok_iff.mp h
  obtain ⟨t, h, -⟩ := bind_ok_iff.mp h
  have hop : execInstruction crypto checker flags OP_CHECKLOCKTIMEVERIFY vchPushValue pc
      { s with nOpCount := s.nOpCount + 1 } = (do
        checkLockTimeVerify checker flags s.stack
        return { s with nOpCount := s.nOpCount + 1 }) := by
    rw [execInstruction]
    simp only [show ScriptState.fExec { s with nOpCount := s.nOpCount + 1 } = true from hexec]
    rfl
  obtain ⟨_, h, -⟩ := bind_ok_iff.mp (hop.symm.trans h)
  rw [checkLockTimeVerify.eq_def, henabled, hstack] at h
  obtain ⟨n, hn, h⟩ := bind_ok_iff.mp (show _ >>= _ = _ from h)
  cases hnumber.symm.trans hn
  obtain ⟨_, hpos, h⟩ := bind_ok_iff.mp h
  exact ⟨by simpa using ensure_ok_iff.mp hpos, ensure_ok_iff.mp h⟩

theorem lockTime_respected (checkSig : Bytes → Bytes → CScript → Bool) (hexec : s.fExec = true)
    (henabled : flags.has SCRIPT_VERIFY_CHECKLOCKTIMEVERIFY = true)
    (hstack : s.stack = vch :: stack) (hnumber : flags.number vch 5 = .ok nLockTime)
    (h : evalStep crypto (transactionSignatureChecker txTo nIn checkSig) flags
      OP_CHECKLOCKTIMEVERIFY vchPushValue pc s = .ok s')
    (hfinal : isFinalTx txTo nBlockHeight nBlockTime = true) :
    nLockTime = 0 ∨ nLockTime < LOCKTIME_THRESHOLD ∧ nLockTime < nBlockHeight ∨
      LOCKTIME_THRESHOLD ≤ nLockTime ∧ nLockTime < nBlockTime := by
  obtain ⟨hpos, hcheck⟩ := checkLockTime_of_evalStep hexec henabled hstack hnumber h
  obtain ⟨htypes, hle, hin⟩ := checkLockTime_iff.mp hcheck
  have hlater := lockTime_of_isFinalTx hfinal hin
  split_ifs at hlater
  · omega
  · omega

end

def lockedTx : CTransaction where
  hash := 1
  vin := [{ prevout := ⟨7, 0⟩, nSequence := 0 }]
  vout := []
  nLockTime := 100

theorem lockedTx_lockTime_respected : isFinalTx lockedTx 101 1 = true ∧
    ((10 : Int) = 0 ∨ (10 : Int) < LOCKTIME_THRESHOLD ∧ (10 : Int) < 101 ∨
      LOCKTIME_THRESHOLD ≤ (10 : Int) ∧ (10 : Int) < 1) :=
  ⟨by decide, @lockTime_respected lockedTx ⟨0, by decide⟩ 10 101 1 ⟨id, id, id, fun _ => true⟩
    SCRIPT_VERIFY_CHECKLOCKTIMEVERIFY [] [10] [] { stack := [[10]], codehash := [] } _ []
    (fun _ _ _ => false) rfl (by decide) rfl rfl rfl (by decide)⟩

end Alqo
