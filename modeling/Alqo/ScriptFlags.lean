import Alqo.Interpreter

/-!
# Flags only reject

Two runs on one script, under more and under fewer flags, in lock step. The one flag that also takes
a check away is `CHECKLOCKTIMEVERIFY`.
-/

namespace Alqo
open Lib.Checks

/-- The masks that are tested for, but for `CHECKLOCKTIMEVERIFY`. -/
def testedFlags : List ScriptFlags :=
  [SCRIPT_VERIFY_P2SH, SCRIPT_VERIFY_STRICTENC, SCRIPT_VERIFY_LOW_S, SCRIPT_VERIFY_NULLDUMMY,
    SCRIPT_VERIFY_SIGPUSHONLY, SCRIPT_VERIFY_MINIMALDATA, SCRIPT_VERIFY_DISCOURAGE_UPGRADABLE_NOPS,
    SCRIPT_VERIFY_DERSIG ||| SCRIPT_VERIFY_LOW_S ||| SCRIPT_VERIFY_STRICTENC]

/-- `F` demands no more than `G`. -/
structure Relaxes (F G : ScriptFlags) : Prop where
  keeps : ∀ x ∈ testedFlags, F.has x = true → G.has x = true
  /-- a lock time is checked under `G` as well, or the instruction is refused there -/
  lockTime : F.has SCRIPT_VERIFY_CHECKLOCKTIMEVERIFY = true →
    G.has SCRIPT_VERIFY_CHECKLOCKTIMEVERIFY = true ∨
      G.has SCRIPT_VERIFY_DISCOURAGE_UPGRADABLE_NOPS = true
  /-- where `F` refuses the instruction, so does `G` -/
  nop : F.has SCRIPT_VERIFY_DISCOURAGE_UPGRADABLE_NOPS = true →
    F.has SCRIPT_VERIFY_CHECKLOCKTIMEVERIFY = true ∨ G.has SCRIPT_VERIFY_CHECKLOCKTIMEVERIFY = false

theorem ScriptFlags.has_of_subset {F G x : ScriptFlags} (h : F &&& G = F) (hx : F.has x = true) :
    G.has x = true := by
  rw [ScriptFlags.has, bne_iff_ne] at hx ⊢
  intro hzero
  apply hx
  rw [← h, BitVec.and_assoc, hzero]
  exact BitVec.and_zero

namespace Relaxes
variable {F G : ScriptFlags} {crypto : ScriptCrypto} {checker : BaseSignatureChecker}

theorem of_subset (h : F &&& G = F) (hnop : F.has SCRIPT_VERIFY_DISCOURAGE_UPGRADABLE_NOPS = true →
      F.has SCRIPT_VERIFY_CHECKLOCKTIMEVERIFY = true ∨
        G.has SCRIPT_VERIFY_CHECKLOCKTIMEVERIFY = false) : Relaxes F G where
  keeps _ _ := ScriptFlags.has_of_subset h
  lockTime hF := .inl (ScriptFlags.has_of_subset h hF)
  nop := hnop

theorem check (h : Relaxes F G) {x : ScriptFlags} (hx : x ∈ testedFlags) (c : Bool)
    (hG : (!G.has x || c) = true) : (!F.has x || c) = true := by
  cases hF : F.has x with
  | false => rfl
  | true =>
    rw [h.keeps x hx hF] at hG
    exact hG

theorem number (h : Relaxes F G) (vch : Bytes) (nMaxNumSize : Nat) :
    Stricter (G.number vch nMaxNumSize) (F.number vch nMaxNumSize) := by
  refine (Stricter.refl _).bind fun _ => Stricter.bind (Stricter.ensure ?_) fun _ => .refl _
  have hcheck := h.check (x := SCRIPT_VERIFY_MINIMALDATA) (by decide) (!CScriptNum.overlong vch)
  simpa only [Bool.not_and] using hcheck

theorem checkSignatureEncoding (h : Relaxes F G) (vchSig : Bytes) :
    Stricter (checkSignatureEncoding crypto G vchSig) (checkSignatureEncoding crypto F vchSig) := by
  refine Stricter.ite (.refl _) ?_
  refine Stricter.bind (.ensure (h.check (by decide) _)) fun _ => ?_
  refine Stricter.bind (.ensure (h.check (by decide) _)) fun _ => ?_
  refine Stricter.bind (.ensure (h.check (by decide) _)) fun _ => ?_
  exact .ensure (h.check (by decide) _)

theorem checkPubKeyEncoding (h : Relaxes F G) (vchPubKey : Bytes) :
    Stricter (checkPubKeyEncoding G vchPubKey) (checkPubKeyEncoding F vchPubKey) :=
  .ensure (h.check (by decide) _)

theorem checkLockTimeVerify (h : Relaxes F G) (stack : Stack) :
    Stricter (checkLockTimeVerify checker G stack) (checkLockTimeVerify checker F stack) := by
  unfold Alqo.checkLockTimeVerify
  cases hF : F.has SCRIPT_VERIFY_CHECKLOCKTIMEVERIFY with
  | false =>
    cases hnops : F.has SCRIPT_VERIFY_DISCOURAGE_UPGRADABLE_NOPS with
    | false => exact Stricter.of_unit _
    | true =>
      -- `F` refuses the instruction; `G` has the same flag and does not know it either
      have hG : G.has SCRIPT_VERIFY_CHECKLOCKTIMEVERIFY = false :=
        (h.nop hnops).resolve_left (by rw [hF]; simp)
      rw [hG, h.keeps _ (by decide) hnops]
      exact Stricter.of_error _ _
  | true =>
    cases hG : G.has SCRIPT_VERIFY_CHECKLOCKTIMEVERIFY with
    | false =>
      have hnops := (h.lockTime hF).resolve_left (by rw [hG]; simp)
      rw [hnops]
      exact Stricter.of_error _ _
    | true =>
      cases stack with
      | nil => exact Stricter.of_error _ _
      | cons vch rest => exact (h.number vch 5).bind fun _ => .refl _

theorem pickOrRoll (h : Relaxes F G) (fRoll : Bool) (stack : Stack) :
    Stricter (pickOrRoll G fRoll stack) (pickOrRoll F fRoll stack) := by
  match stack with
  | [] => exact .refl _
  | [_] => exact .refl _
  | vch :: x :: rest => exact (h.number vch 4).bind fun _ => .refl _

theorem numericOp (h : Relaxes F G) (opcode : UInt8) (stack : Stack) :
    Stricter (numericOp G opcode stack) (numericOp F opcode stack) := by
  refine Stricter.ite ?_ (Stricter.ite ?_ ?_)
  · match stack with
    | [] => exact .refl _
    | vch :: rest => exact (h.number vch 4).bind fun _ => .refl _
  · match stack with
    | [] => exact .refl _
    | [_] => exact .refl _
    | vch2 :: vch1 :: rest =>
      refine (h.number vch1 4).bind fun _ => ?_
      exact (h.number vch2 4).bind fun _ => .refl _
  · match stack with
    | [] => exact .refl _
    | [_] => exact .refl _
    | [_, _] => exact .refl _
    | vch3 :: vch2 :: vch1 :: rest =>
      refine (h.number vch1 4).bind fun _ => ?_
      refine (h.number vch2 4).bind fun _ => ?_
      exact (h.number vch3 4).bind fun _ => .refl _

theorem checkSigOp (h : Relaxes F G) (fVerify : Bool) (codehash : CScript) (stack : Stack) :
    Stricter (checkSigOp crypto checker G fVerify codehash stack)
      (checkSigOp crypto checker F fVerify codehash stack) := by
  match stack with
  | [] => exact .refl _
  | [_] => exact .refl _
  | vchPubKey :: vchSig :: rest =>
    refine (h.checkSignatureEncoding vchSig).bind fun _ => ?_
    exact (h.checkPubKeyEncoding vchPubKey).bind fun _ => .refl _

theorem matchSigs (h : Relaxes F G) (scriptCode : CScript) (sigs keys : List Bytes) :
    Stricter (matchSigs crypto checker G scriptCode sigs keys)
      (matchSigs crypto checker F scriptCode sigs keys) := by
  induction keys generalizing sigs with
  | nil =>
    cases sigs with
    | nil => exact .refl _
    | cons vchSig sigs => exact .refl _
  | cons vchPubKey keys ih =>
    cases sigs with
    | nil => exact .refl _
    | cons vchSig sigs =>
      rw [Alqo.matchSigs, Alqo.matchSigs]
      refine (h.checkSignatureEncoding vchSig).bind fun _ => ?_
      refine (h.checkPubKeyEncoding vchPubKey).bind fun _ => ?_
      exact Stricter.ite (.refl _) (ih _)

theorem checkMultiSigOp (h : Relaxes F G) (fVerify : Bool) (s : ScriptState) :
    Stricter (checkMultiSigOp crypto checker G fVerify s)
      (checkMultiSigOp crypto checker F fVerify s) := by
  unfold Alqo.checkMultiSigOp
  cases s.stack with
  | nil => exact .refl _
  | cons vchKeys stack =>
  refine (h.number vchKeys 4).bind fun nKeys => (Stricter.refl _).bind fun _ =>
    (Stricter.refl _).bind fun _ => ?_
  cases stack.drop (CScriptNum.getint nKeys).toNat with
  | nil => exact .refl _
  | cons vchSigs rest =>
  refine (h.number vchSigs 4).bind fun nSigs => (Stricter.refl _).bind fun _ =>
    (Stricter.refl _).bind fun _ => (h.matchSigs _ _ _).bind fun fSuccess => ?_
  cases rest.drop (CScriptNum.getint nSigs).toNat with
  | nil => exact .refl _
  | cons dummy rest => exact (Stricter.ensure (h.check (by decide) _)).bind fun _ => .refl _

theorem onStack {s : ScriptState} {x y : Except ScriptError Stack} (hxy : Stricter x y) :
    Stricter (s.onStack x) (s.onStack y) :=
  hxy.bind fun _ => .refl _

theorem execOp (h : Relaxes F G) (opcode : UInt8) (pc : CScript) (s : ScriptState) :
    Stricter (execOp crypto checker G opcode pc s) (execOp crypto checker F opcode pc s) := by
  refine Stricter.ite (.refl _) (Stricter.ite (.refl _) (Stricter.ite ?lockTime
    (Stricter.ite ?nops (Stricter.ite (.refl _) (Stricter.ite ?pick (Stricter.ite ?numeric
      (Stricter.ite (.refl _) (Stricter.ite (.refl _) (Stricter.ite ?checkSig
        (Stricter.ite ?checkMultiSig (.refl _)))))))))))
  case lockTime => exact (h.checkLockTimeVerify s.stack).bind fun _ => .refl _
  case nops =>
    refine (Stricter.ensure ?_).bind fun _ => .refl _
    have hcheck := h.check (x := SCRIPT_VERIFY_DISCOURAGE_UPGRADABLE_NOPS) (by decide) false
    simpa only [Bool.or_false] using hcheck
  case pick => exact onStack (h.pickOrRoll _ _)
  case numeric => exact onStack (h.numericOp _ _)
  case checkSig => exact onStack (h.checkSigOp _ _ _)
  case checkMultiSig => exact h.checkMultiSigOp _ _

theorem execInstruction (h : Relaxes F G) (opcode : UInt8) (vchPushValue : Bytes) (pc : CScript)
    (s : ScriptState) : Stricter (execInstruction crypto checker G opcode vchPushValue pc s)
      (execInstruction crypto checker F opcode vchPushValue pc s) := by
  refine Stricter.ite ?_ (Stricter.ite (h.execOp opcode pc s) (.refl _))
  exact (Stricter.ensure (h.check (by decide) _)).bind fun _ => .refl _

theorem evalStep (h : Relaxes F G) (opcode : UInt8) (vchPushValue : Bytes) (pc : CScript)
    (s : ScriptState) : Stricter (evalStep crypto checker G opcode vchPushValue pc s)
      (evalStep crypto checker F opcode vchPushValue pc s) := by
  refine (Stricter.refl _).bind fun _ => (Stricter.refl _).bind fun _ =>
    (Stricter.refl _).bind fun _ => ?_
  exact (h.execInstruction opcode vchPushValue pc _).bind fun _ => .refl _

theorem evalFrom (h : Relaxes F G) (turns : Nat) (pc : CScript) (s : ScriptState) :
    Stricter (evalFrom crypto checker G turns pc s) (evalFrom crypto checker F turns pc s) := by
  induction turns generalizing pc s with
  | zero =>
    cases pc with
    | nil => exact .refl _
    | cons b pc => exact .refl _
  | succ turns ih =>
    cases pc with
    | nil => exact .refl _
    | cons b pc =>
      rw [Alqo.evalFrom, Alqo.evalFrom]
      cases CScript.getOp (b :: pc) with
      | none => exact .refl _
      | some op => exact (h.evalStep _ _ _ s).bind fun s' => ih _ s'

theorem evalScript (h : Relaxes F G) (stack : Stack) (script : CScript) :
    Stricter (evalScript crypto checker G stack script) (evalScript crypto checker F stack script) := by
  refine (Stricter.refl _).bind fun _ => ?_
  exact (h.evalFrom _ _ _).bind fun _ => .refl _

theorem verifyRedeem (h : Relaxes F G) (scriptSig : CScript) (stackCopy : Stack) :
    Stricter (verifyRedeem crypto checker G scriptSig stackCopy)
      (verifyRedeem crypto checker F scriptSig stackCopy) := by
  refine (Stricter.refl _).bind fun _ => ?_
  cases stackCopy with
  | nil => exact .refl _
  | cons pubKey2 stackCopy =>
    exact ((h.evalScript stackCopy pubKey2).mapError _).bind fun _ => .refl _

theorem verifyScript (h : Relaxes F G) (scriptSig scriptPubKey : CScript) :
    Stricter (verifyScript crypto checker G scriptSig scriptPubKey)
      (verifyScript crypto checker F scriptSig scriptPubKey) := by
  refine ((Stricter.ensure (h.check (by decide) _)).mapError _).bind fun _ => ?_
  refine ((h.evalScript [] scriptSig).mapError _).bind fun stackCopy => ?_
  refine ((h.evalScript stackCopy scriptPubKey).mapError _).bind fun stack => ?_
  refine (Stricter.refl _).bind fun _ => ?_
  cases hF : F.has SCRIPT_VERIFY_P2SH with
  | false => exact Stricter.of_unit _
  | true =>
    rw [h.keeps _ (by decide) hF]
    exact Stricter.ite (h.verifyRedeem scriptSig stackCopy) (.refl _)

end Relaxes

/-- The flags of `AcceptToMemoryPool`. -/
def acceptFlags (fCLTVHasMajority : Bool) : ScriptFlags :=
  if fCLTVHasMajority then STANDARD_SCRIPT_VERIFY_FLAGS ||| SCRIPT_VERIFY_CHECKLOCKTIMEVERIFY
  else STANDARD_SCRIPT_VERIFY_FLAGS

/-- The flags of `ConnectBlock`. -/
def connectFlags (fCLTVHasMajority : Bool) : ScriptFlags :=
  if fCLTVHasMajority then
    SCRIPT_VERIFY_P2SH ||| SCRIPT_VERIFY_DERSIG ||| SCRIPT_VERIFY_CHECKLOCKTIMEVERIFY
  else SCRIPT_VERIFY_P2SH ||| SCRIPT_VERIFY_DERSIG

/-- Whether or not lock times had a majority when the transaction came in, and whether or
not they have one when the block does: without one the instruction is refused by the pool. -/
theorem relaxes_connectFlags (fPool fBlock : Bool) :
    Relaxes (connectFlags fBlock) (acceptFlags fPool) where
  keeps := by
    rw [← List.forall_iff_forall_mem]
    revert fPool fBlock
    decide +kernel
  lockTime := by revert fPool fBlock; decide
  nop := by revert fPool fBlock; decide

/-- With fewer flags, and with `DISCOURAGE_UPGRADABLE_NOPS` only where both sides read
`OP_CHECKLOCKTIMEVERIFY` the same way, what passes keeps passing. So do the spends that the
memory pool takes when a block with them is connected. -/
theorem verifyScript_relaxed (crypto : ScriptCrypto) (checker : BaseSignatureChecker)
    (scriptSig scriptPubKey : CScript) :
    (∀ F G : ScriptFlags, F &&& G = F → (F.has SCRIPT_VERIFY_DISCOURAGE_UPGRADABLE_NOPS = true →
        F.has SCRIPT_VERIFY_CHECKLOCKTIMEVERIFY = true ∨
          G.has SCRIPT_VERIFY_CHECKLOCKTIMEVERIFY = false) →
      verifyScript crypto checker G scriptSig scriptPubKey = .ok () →
      verifyScript crypto checker F scriptSig scriptPubKey = .ok ()) ∧
    ∀ fPool fBlock : Bool,
      verifyScript crypto checker (acceptFlags fPool) scriptSig scriptPubKey = .ok () →
      verifyScript crypto checker (connectFlags fBlock) scriptSig scriptPubKey = .ok () := by
  refine ⟨?_, ?_⟩
  · intro F G hsub hnop hG
    exact (Relaxes.of_subset hsub hnop).verifyScript scriptSig scriptPubKey () hG
  · intro fPool fBlock hG
    exact (relaxes_connectFlags fPool fBlock).verifyScript scriptSig scriptPubKey () hG

def fixedCrypto : ScriptCrypto where
  ripemd160 _ := List.replicate 20 0
  sha1 _ := List.replicate 20 0
  sha256 _ := List.replicate 32 0
  checkLowS _ := true

def lockTimeFive : BaseSignatureChecker where
  checkSig _ _ _ := false
  checkLockTime nLockTime := nLockTime ≤ 5

/-- A pay-to-script-hash output and the push of the script `1 OP_CHECKLOCKTIMEVERIFY`. -/
def hashOutput : CScript := [OP_HASH160, 0x14] ++ List.replicate 20 0 ++ [OP_EQUAL]

def lockTimeSpend : CScript := [0x02, OP_1, OP_CHECKLOCKTIMEVERIFY]

theorem lockTimeSpend_relaxed :
    verifyScript fixedCrypto lockTimeFive (acceptFlags true) lockTimeSpend hashOutput = .ok () ∧
      verifyScript fixedCrypto lockTimeFive SCRIPT_VERIFY_P2SH lockTimeSpend hashOutput = .ok () ∧
      verifyScript fixedCrypto lockTimeFive (connectFlags true) lockTimeSpend hashOutput = .ok () := by
  have hpool : verifyScript fixedCrypto lockTimeFive (acceptFlags true) lockTimeSpend hashOutput =
      .ok () := by decide +kernel
  have h := verifyScript_relaxed fixedCrypto lockTimeFive lockTimeSpend hashOutput
  exact ⟨hpool, h.1 SCRIPT_VERIFY_P2SH (acceptFlags true) (by decide) (by decide) hpool,
    h.2 true true hpool⟩

/-- Without the condition on `DISCOURAGE_UPGRADABLE_NOPS` fewer flags can refuse more. -/
example : verifyScript fixedCrypto lockTimeFive (acceptFlags true) lockTimeSpend hashOutput =
      .ok () ∧
    verifyScript fixedCrypto lockTimeFive (acceptFlags false) lockTimeSpend hashOutput =
      .error (.error .discourageUpgradableNops) := by
  decide +kernel

end Alqo
