import Alqo.Interpreter

/-!
# Matching signatures with keys (script/interpreter.cpp)

`OP_CHECKMULTISIG` tries each key once, in order. A key that verifies the signature at hand is the
best one for it: what the later keys can verify does not shrink.
-/

namespace Alqo
open Lib.Checks Lib.Fallible

section
variable {crypto : ScriptCrypto} {checker : BaseSignatureChecker} {flags : ScriptFlags}
  {scriptCode : CScript} {vchSig vchPubKey : Bytes} {sigs keys : List Bytes}

/-- Keys among the given ones, in their order, that verify the signatures one by one. -/
def Assigned (checker : BaseSignatureChecker) (scriptCode : CScript) (sigs keys : List Bytes) :
    Prop :=
  ∃ chosen, chosen.Sublist keys ∧
    List.Forall₂ (fun vchSig vchPubKey => checker.checkSig vchSig vchPubKey scriptCode = true)
      sigs chosen

theorem Assigned.length_le (h : Assigned checker scriptCode sigs keys) :
    sigs.length ≤ keys.length := by
  obtain ⟨chosen, hsub, hall⟩ := h
  rw [hall.length_eq]
  exact hsub.length_le

theorem assigned_cons_of_verifies (h : checker.checkSig vchSig vchPubKey scriptCode = true) :
    Assigned checker scriptCode (vchSig :: sigs) (vchPubKey :: keys) ↔
      Assigned checker scriptCode sigs keys := by
  constructor
  · rintro ⟨chosen, hsub, hall⟩
    cases hall with
    | cons hfirst hrest => exact ⟨_, hsub.of_cons_cons, hrest⟩
  · rintro ⟨chosen, hsub, hall⟩
    exact ⟨vchPubKey :: chosen, hsub.cons_cons vchPubKey, .cons h hall⟩

theorem assigned_cons_of_fails (h : checker.checkSig vchSig vchPubKey scriptCode = false) :
    Assigned checker scriptCode (vchSig :: sigs) (vchPubKey :: keys) ↔
      Assigned checker scriptCode (vchSig :: sigs) keys := by
  constructor
  · rintro ⟨chosen, hsub, hall⟩
    cases hsub with
    | cons _ hsub => exact ⟨chosen, hsub, hall⟩
    | cons_cons _ hsub =>
      cases hall with
      | cons hfirst _ =>
        rw [h] at hfirst
        cases hfirst
  · rintro ⟨chosen, hsub, hall⟩
    exact ⟨chosen, hsub.cons vchPubKey, hall⟩

/-- `DERSIG`, `LOW_S` and `STRICTENC`. -/
def encodingFlags : ScriptFlags :=
  SCRIPT_VERIFY_DERSIG ||| SCRIPT_VERIFY_LOW_S ||| SCRIPT_VERIFY_STRICTENC

theorem has_of_encodingFlags (h : flags.has encodingFlags = false) {x : ScriptFlags}
    (hx : encodingFlags &&& x = x) : flags.has x = false := by
  simp only [ScriptFlags.has, bne_eq_false_iff_eq] at h ⊢
  rw [← hx, ← BitVec.and_assoc, h]
  exact BitVec.zero_and

theorem encodings_ok (crypto : ScriptCrypto) (h : flags.has encodingFlags = false)
    (vchSig vchPubKey : Bytes) :
    checkSignatureEncoding crypto flags vchSig = .ok () ∧
      checkPubKeyEncoding flags vchPubKey = .ok () := by
  have hlow : flags.has SCRIPT_VERIFY_LOW_S = false := has_of_encodingFlags h (by decide)
  have hstrict : flags.has SCRIPT_VERIFY_STRICTENC = false := has_of_encodingFlags h (by decide)
  have hany : flags.has (SCRIPT_VERIFY_DERSIG ||| SCRIPT_VERIFY_LOW_S |||
      SCRIPT_VERIFY_STRICTENC) = false := h
  constructor
  · unfold checkSignatureEncoding
    split
    · rfl
    · simp only [hlow, hstrict, hany, ensure, Bool.not_false, Bool.true_or, if_true]
      rfl
  · simp [checkPubKeyEncoding, hstrict, ensure]

theorem matchSigs_ok (crypto : ScriptCrypto) (h : flags.has encodingFlags = false)
    (sigs keys : List Bytes) (hle : sigs.length ≤ keys.length) :
    ∃ fSuccess, matchSigs crypto checker flags scriptCode sigs keys = .ok fSuccess ∧
      (fSuccess = true ↔ Assigned checker scriptCode sigs keys) := by
  induction keys generalizing sigs with
  | nil =>
    obtain rfl := List.length_eq_zero_iff.mp (Nat.le_zero.mp hle)
    exact ⟨true, rfl, iff_of_true rfl ⟨[], List.Sublist.refl _, .nil⟩⟩
  | cons vchPubKey keys ih =>
    cases sigs with
    | nil => exact ⟨true, rfl, iff_of_true rfl ⟨[], List.nil_sublist _, .nil⟩⟩
    | cons vchSig sigs =>
      obtain ⟨hsig, hkey⟩ := encodings_ok crypto h vchSig vchPubKey
      rw [matchSigs, hsig, hkey]
      simp only [bind, Except.bind]
      rw [List.length_cons, List.length_cons] at hle
      cases hcheck : checker.checkSig vchSig vchPubKey scriptCode with
      | true =>
        rw [if_pos rfl, if_neg (by omega)]
        obtain ⟨fSuccess, hmatch, hiff⟩ := ih sigs (by omega)
        exact ⟨fSuccess, hmatch, hiff.trans (assigned_cons_of_verifies hcheck).symm⟩
      | false =>
        simp only [Bool.false_eq_true, if_false]
        rw [assigned_cons_of_fails hcheck]
        split_ifs with hlong
        · refine ⟨false, rfl, iff_of_false (by decide) fun hassigned => ?_⟩
          have hshort := hassigned.length_le
          omega
        · exact ih (vchSig :: sigs) (by omega)

theorem execOp_checkMultiSig (henc : flags.has encodingFlags = false) (pc : CScript)
    (s : ScriptState) (vchKeys vchSigs dummy : Bytes) (rest : Stack)
    (hstack : s.stack = vchKeys :: (keys ++ vchSigs :: (sigs ++ dummy :: rest)))
    (hkeys : flags.number vchKeys = .ok keys.length)
    (hsigs : flags.number vchSigs = .ok sigs.length)
    (hcounts : sigs.length ≤ keys.length ∧ keys.length ≤ 20 ∧ s.nOpCount + keys.length ≤ 201)
    (hdummy : flags.has SCRIPT_VERIFY_NULLDUMMY = true → dummy = []) :
    ∃ fSuccess, execOp crypto checker flags OP_CHECKMULTISIG pc s =
        .ok { s with stack := vchBool fSuccess :: rest, nOpCount := s.nOpCount + keys.length } ∧
      (fSuccess = true ↔ Assigned checker (sigs.foldl (fun code vchSig =>
        code.findAndDelete (CScript.pushing vchSig)) s.codehash) sigs keys) := by
  obtain ⟨hle, htwenty, hops⟩ := hcounts
  obtain ⟨fSuccess, hmatch, hiff⟩ := matchSigs_ok crypto henc sigs keys hle
  refine ⟨fSuccess, ?_, hiff⟩
  have hgetint : ∀ n : Nat, n ≤ 20 → CScriptNum.getint n = n := by
    intro n hn
    unfold CScriptNum.getint
    omega
  have hexec : execOp crypto checker flags OP_CHECKMULTISIG pc s =
      checkMultiSigOp crypto checker flags false s := rfl
  have hnull : (!flags.has SCRIPT_VERIFY_NULLDUMMY || dummy.isEmpty) = true := by
    cases hflag : flags.has SCRIPT_VERIFY_NULLDUMMY with
    | false => rfl
    | true => simp [hdummy hflag]
  rw [hexec, checkMultiSigOp, hstack]
  simp only [hkeys, hsigs, hgetint _ htwenty, hgetint _ (hle.trans htwenty), bind, Except.bind,
    ensure, Int.toNat_natCast, List.drop_left, List.take_left]
  rw [if_pos (by simp [htwenty]), if_pos (by simpa using hops), if_pos (by simp [hle]),
    if_pos (by simp), hmatch]
  simp only [if_pos hnull]
  rfl

end

/-- A key verifies the signature that repeats it. -/
def equalChecker : BaseSignatureChecker := ⟨fun vchSig vchPubKey _ => vchSig == vchPubKey, fun _ => true⟩

theorem oneOfTwo_checkMultiSig : ∃ fSuccess, execOp ⟨id, id, id, fun _ => true⟩ equalChecker 0
      OP_CHECKMULTISIG [] { stack := [[2], [5], [7], [1], [7], []], codehash := [] } =
        .ok { stack := [vchBool fSuccess], codehash := [], nOpCount := 2 } ∧
      (fSuccess = true ↔ Assigned equalChecker [] [[7]] [[5], [7]]) :=
  @execOp_checkMultiSig ⟨id, id, id, fun _ => true⟩ equalChecker 0 [[7]] [[5], [7]] (by decide) [] _
    [2] [1] [] [] rfl rfl rfl (by decide) fun _ => rfl

end Alqo
