import Alqo.Primitives

/-!
# Reading scripts (script/script.h, script/script.cpp)

The instruction decoder and the counting of signature operations. Every instruction takes at least
one byte, so the length of the script bounds the number of turns of each loop.
-/

namespace Alqo

def OP_PUSHDATA1 : UInt8 := 0x4c
def OP_PUSHDATA2 : UInt8 := 0x4d
def OP_PUSHDATA4 : UInt8 := 0x4e
def OP_1 : UInt8 := 0x51
def OP_16 : UInt8 := 0x60
def OP_DUP : UInt8 := 0x76
def OP_EQUAL : UInt8 := 0x87
def OP_EQUALVERIFY : UInt8 := 0x88
def OP_HASH160 : UInt8 := 0xa9
def OP_CHECKSIG : UInt8 := 0xac
def OP_CHECKSIGVERIFY : UInt8 := 0xad
def OP_CHECKMULTISIG : UInt8 := 0xae
def OP_CHECKMULTISIGVERIFY : UInt8 := 0xaf
def OP_INVALIDOPCODE : UInt8 := 0xff

namespace CScript

def operandWidth (opcode : UInt8) : Nat :=
  if opcode = OP_PUSHDATA1 then 1 else if opcode = OP_PUSHDATA2 then 2 else 4

/-- `nSize` of a push instruction and what follows it. -/
def operandSize (opcode : UInt8) (pc : CScript) : Option (Nat × CScript) :=
  if opcode < OP_PUSHDATA1 then some (opcode.toNat, pc)
  else if pc.length < operandWidth opcode then none
  else some (leValue (pc.take (operandWidth opcode)), pc.drop (operandWidth opcode))

/-- `GetOp2`: opcode, operand and the rest of the
script; `none` is the `false` return. -/
def getOp : CScript → Option (UInt8 × Bytes × CScript)
  | [] => none
  | opcode :: pc =>
    if opcode ≤ OP_PUSHDATA4 then
      match operandSize opcode pc with
      | none => none
      | some (nSize, pc) =>
        if pc.length < nSize then none else some (opcode, pc.take nSize, pc.drop nSize)
    else some (opcode, [], pc)

/-- The signature operations one instruction counts for. -/
def opSigOps (fAccurate : Bool) (lastOpcode opcode : UInt8) : Nat :=
  if opcode = OP_CHECKSIG || opcode = OP_CHECKSIGVERIFY then 1
  else if opcode = OP_CHECKMULTISIG || opcode = OP_CHECKMULTISIGVERIFY then
    if fAccurate && decide (OP_1 ≤ lastOpcode) && decide (lastOpcode ≤ OP_16) then
      lastOpcode.toNat - (OP_1.toNat - 1)
    else 20
  else 0

/-- Loop of `GetSigOpCount(bool)`. -/
def sigOpsFrom (fAccurate : Bool) : Nat → UInt8 → CScript → Nat
  | 0, _, _ => 0
  | fuel + 1, lastOpcode, pc =>
    match getOp pc with
    | none => 0
    | some (opcode, _, rest) =>
      opSigOps fAccurate lastOpcode opcode + sigOpsFrom fAccurate fuel opcode rest

def getSigOpCount (fAccurate : Bool) (script : CScript) : Nat :=
  sigOpsFrom fAccurate script.length OP_INVALIDOPCODE script

def isPayToScriptHash (script : CScript) : Bool :=
  script.length == 23 && script[0]? == some OP_HASH160 && script[1]? == some 0x14 &&
    script[22]? == some OP_EQUAL

/-- Loop of `GetSigOpCount(scriptSig)`: the last operand, if all instructions push. -/
def lastPush : Nat → Bytes → CScript → Option Bytes
  | 0, data, _ => some data
  | _ + 1, data, [] => some data
  | fuel + 1, _, pc =>
    match getOp pc with
    | none => none
    | some (opcode, data, rest) => if opcode > OP_16 then none else lastPush fuel data rest

/-- `GetSigOpCount(scriptSig)`. -/
def getP2SHSigOpCount (script scriptSig : CScript) : Nat :=
  if !script.isPayToScriptHash then script.getSigOpCount true
  else
    match lastPush scriptSig.length [] scriptSig with
    | none => 0
    | some data => getSigOpCount true data

variable {opcode : UInt8} {pc rest : CScript}

theorem operandSize_length {n : Nat} (h : operandSize opcode pc = some (n, rest)) :
    rest.length ≤ pc.length := by
  unfold operandSize at h
  split_ifs at h
  all_goals
    obtain ⟨-, rfl⟩ := Prod.mk.inj (Option.some.inj h)
    simp

theorem getOp_length {data : Bytes} (h : getOp pc = some (opcode, data, rest)) :
    rest.length < pc.length := by
  cases pc with
  | nil => cases h
  | cons first pc =>
    rw [getOp] at h
    split_ifs at h
    · cases hsize : operandSize first pc with
      | none => simp [hsize] at h
      | some operand =>
        obtain ⟨n, pc'⟩ := operand
        have hle := operandSize_length hsize
        rw [hsize] at h
        simp only at h
        split_ifs at h
        obtain ⟨-, -, rfl⟩ := by simpa using h
        simp only [List.length_drop, List.length_cons]
        omega
    · obtain ⟨-, -, rfl⟩ := by simpa using h
      simp

theorem sigOpsFrom_fuel (fAccurate : Bool) (fuel : Nat) (lastOpcode : UInt8) (pc : CScript)
    (h : pc.length ≤ fuel) :
    sigOpsFrom fAccurate fuel lastOpcode pc = sigOpsFrom fAccurate pc.length lastOpcode pc := by
  induction fuel using Nat.strong_induction_on generalizing lastOpcode pc with
  | _ fuel ih =>
    cases pc with
    | nil => cases fuel <;> simp [sigOpsFrom, getOp]
    | cons first pc =>
      obtain ⟨fuel, rfl⟩ : ∃ n, fuel = n + 1 := ⟨fuel - 1, by simp at h; omega⟩
      rw [List.length_cons, sigOpsFrom, sigOpsFrom]
      cases hop : getOp (first :: pc) with
      | none => rfl
      | some op =>
        obtain ⟨opcode, data, rest⟩ := op
        have hlt := getOp_length hop
        simp only [List.length_cons] at h hlt
        have hfuel := ih fuel (by omega) opcode rest (by omega)
        have hexact := ih pc.length (by omega) opcode rest (by omega)
        simp only [hfuel, hexact]

end CScript

end Alqo
