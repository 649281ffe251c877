import Alqo.Script
import Alqo.Lib.Checks

/-!
# The script interpreter (script/interpreter.cpp, script/script.h)

Stacks are lists with the top in front, so a `match` is the check of the stack's size. What
`EvalScript` throws it catches. Numbers in arithmetic have at most four bytes, so `int64_t` is `Int`
here. Hash functions and the test for a low S value are parameters.
-/

namespace Alqo
open Lib.Checks Lib.Fallible

/-! ### Verification flags (script/interpreter.h, script/standard.h) -/

/-- `unsigned int flags` -/
abbrev ScriptFlags := BitVec 32

def SCRIPT_VERIFY_P2SH : ScriptFlags := 1 <<< 0
def SCRIPT_VERIFY_STRICTENC : ScriptFlags := 1 <<< 1
def SCRIPT_VERIFY_DERSIG : ScriptFlags := 1 <<< 2
def SCRIPT_VERIFY_LOW_S : ScriptFlags := 1 <<< 3
def SCRIPT_VERIFY_NULLDUMMY : ScriptFlags := 1 <<< 4
def SCRIPT_VERIFY_SIGPUSHONLY : ScriptFlags := 1 <<< 5
def SCRIPT_VERIFY_MINIMALDATA : ScriptFlags := 1 <<< 6
def SCRIPT_VERIFY_DISCOURAGE_UPGRADABLE_NOPS : ScriptFlags := 1 <<< 7
def SCRIPT_VERIFY_CHECKLOCKTIMEVERIFY : ScriptFlags := 1 <<< 9

def MANDATORY_SCRIPT_VERIFY_FLAGS : ScriptFlags := SCRIPT_VERIFY_P2SH

def STANDARD_SCRIPT_VERIFY_FLAGS : ScriptFlags :=
  MANDATORY_SCRIPT_VERIFY_FLAGS ||| SCRIPT_VERIFY_DERSIG ||| SCRIPT_VERIFY_STRICTENC |||
    SCRIPT_VERIFY_MINIMALDATA ||| SCRIPT_VERIFY_NULLDUMMY |||
    SCRIPT_VERIFY_DISCOURAGE_UPGRADABLE_NOPS

def STANDARD_NOT_MANDATORY_VERIFY_FLAGS : ScriptFlags :=
  STANDARD_SCRIPT_VERIFY_FLAGS &&& ~~~MANDATORY_SCRIPT_VERIFY_FLAGS

/-- `flags & x` as a condition. -/
def ScriptFlags.has (flags x : ScriptFlags) : Bool := flags &&& x != 0

/-- The errors of `script/script_error.h` that a script can end with. -/
inductive ScriptError where
  | unknownError | evalFalse | opReturn
  | scriptSize | pushSize | opCount | stackSize | sigCount | pubkeyCount
  | verify | equalVerify | checkMultiSigVerify | checkSigVerify | numEqualVerify
  | badOpcode | disabledOpcode | invalidStackOperation | invalidAltStackOperation
  | unbalancedConditional | negativeLockTime | unsatisfiedLockTime
  | sigHashType | sigDer | minimalData | sigPushOnly | sigHighS | sigNullDummy | pubkeyType
  | discourageUpgradableNops
deriving DecidableEq, Repr

/-! ### Numbers (script/script.h) -/

def castToBool : Bytes → Bool
  | [] => false
  | b :: rest => if b ≠ 0 then !(rest.isEmpty && b == 0x80) else castToBool rest

namespace CScriptNum

/- The sign bit is set where it is taken away. -/
def setVch (vch : Bytes) : Int :=
  match vch.getLast? with
  | none => 0
  | some back =>
    if back &&& 0x80 ≠ 0 then -((leValue vch - 0x80 * 256 ^ (vch.length - 1) : Nat) : Int)
    else leValue vch

/-- Whether fewer bytes would do. -/
def overlong (vch : Bytes) : Bool :=
  match vch.reverse with
  | [] => false
  | [back] => back &&& 0x7f == 0
  | back :: next :: _ => back &&& 0x7f == 0 && next &&& 0x80 == 0

/-- The constructor from bytes. -/
def read (fRequireMinimal : Bool) (vch : Bytes) (nMaxNumSize : Nat := 4) :
    Except ScriptError Int := do
  ensure (vch.length ≤ nMaxNumSize) .unknownError
  ensure (!(fRequireMinimal && overlong vch)) .unknownError
  return setVch vch

def getint (n : Int) : Int := max (-2 ^ 31) (min n (2 ^ 31 - 1))

/-- The loop over `absvalue`, a `uint64_t`. -/
def absBytes : Nat → Nat → Bytes
  | 0, _ => []
  | _ + 1, 0 => []
  | turns + 1, n => UInt8.ofNat n :: absBytes turns (n / 256)

def serialize (value : Int) : Bytes :=
  let result := absBytes 8 value.natAbs
  match result.getLast? with
  | none => []
  | some back =>
    if back &&& 0x80 ≠ 0 then result ++ [if value < 0 then 0x80 else 0]
    else if value < 0 then result.dropLast ++ [back ||| 0x80]
    else result

def ofBool (b : Bool) : Int := if b then 1 else 0

end CScriptNum

def vchFalse : Bytes := []
def vchTrue : Bytes := [1]
def vchBool (b : Bool) : Bytes := if b then vchTrue else vchFalse

/-! ### Encodings (script/interpreter.cpp) -/

def isCompressedOrUncompressedPubKey (vchPubKey : Bytes) : Bool :=
  let first := vchPubKey.headD 0
  decide (33 ≤ vchPubKey.length) && if first = 0x04 then vchPubKey.length == 65
    else if first = 0x02 ∨ first = 0x03 then vchPubKey.length == 33
    else false

/- Each check keeps the
positions that the next ones read inside the signature. -/
def isValidSignatureEncoding (sig : Bytes) : Bool :=
  let byte := fun i => (sig.getD i 0).toNat
  let lenR := byte 3
  let lenS := byte (5 + lenR)
  decide (9 ≤ sig.length) && decide (sig.length ≤ 73) &&
    byte 0 == 0x30 && byte 1 == sig.length - 3 &&
    decide (5 + lenR < sig.length) && lenR + lenS + 7 == sig.length &&
    byte 2 == 0x02 && lenR != 0 && byte 4 &&& 0x80 == 0 &&
    !(decide (lenR > 1) && byte 4 == 0 && byte 5 &&& 0x80 == 0) &&
    byte (lenR + 4) == 0x02 && lenS != 0 && byte (lenR + 6) &&& 0x80 == 0 &&
    !(decide (lenS > 1) && byte (lenR + 6) == 0 && byte (lenR + 7) &&& 0x80 == 0)

def isDefinedHashtypeSignature (vchSig : Bytes) : Bool :=
  match vchSig.getLast? with
  | none => false
  | some back => let nHashType := back &&& ~~~0x80; decide (1 ≤ nHashType) && decide (nHashType ≤ 3)

def checkMinimalPush (data : Bytes) (opcode : UInt8) : Bool :=
  match data with
  | [] => opcode == 0
  | [b] =>
    if 1 ≤ b ∧ b ≤ 16 then opcode == OP_1 + (b - 1)
    else if b = 0x81 then opcode == 0x4f
    else opcode == 1
  | _ =>
    if data.length ≤ 75 then opcode.toNat == data.length
    else if data.length ≤ 255 then opcode == OP_PUSHDATA1
    else if data.length ≤ 65535 then opcode == OP_PUSHDATA2
    else true

structure ScriptCrypto where
  ripemd160 : Bytes → Bytes
  sha1 : Bytes → Bytes
  sha256 : Bytes → Bytes
  /-- `CPubKey::CheckLowS` -/
  checkLowS : Bytes → Bool

structure BaseSignatureChecker where
  checkSig : (scriptSig vchPubKey : Bytes) → (scriptCode : CScript) → Bool
  checkLockTime : (nLockTime : Int) → Bool

section
variable (crypto : ScriptCrypto) (flags : ScriptFlags)

/- With
`IsLowDERSignature`. -/
def checkSignatureEncoding (vchSig : Bytes) : Except ScriptError Unit :=
  if vchSig.isEmpty then .ok ()
  else do
    ensure (!flags.has (SCRIPT_VERIFY_DERSIG ||| SCRIPT_VERIFY_LOW_S ||| SCRIPT_VERIFY_STRICTENC) ||
      isValidSignatureEncoding vchSig) .sigDer
    ensure (!flags.has SCRIPT_VERIFY_LOW_S || isValidSignatureEncoding vchSig) .sigDer
    ensure (!flags.has SCRIPT_VERIFY_LOW_S || crypto.checkLowS vchSig.dropLast) .sigHighS
    ensure (!flags.has SCRIPT_VERIFY_STRICTENC || isDefinedHashtypeSignature vchSig) .sigHashType

def checkPubKeyEncoding (vchPubKey : Bytes) : Except ScriptError Unit :=
  ensure (!flags.has SCRIPT_VERIFY_STRICTENC || isCompressedOrUncompressedPubKey vchPubKey)
    .pubkeyType

end

/-! ### Scripts that are signed (script/script.h) -/

namespace CScript

/-- `CScript(vch)`: one push. -/
def pushing (b : Bytes) : CScript :=
  (if b.length < OP_PUSHDATA1.toNat then [UInt8.ofNat b.length]
  else if b.length ≤ 0xff then [OP_PUSHDATA1, UInt8.ofNat b.length]
  else if b.length ≤ 0xffff then OP_PUSHDATA2 :: leBytes 2 b.length
  else OP_PUSHDATA4 :: leBytes 4 b.length) ++ b

/-- The inner loop of `FindAndDelete`: erase `b` as long as it stands here. -/
def eraseHere (b : CScript) : Nat → CScript → CScript
  | 0, pc => pc
  | turns + 1, pc => if b.isPrefixOf pc then eraseHere b turns (pc.drop b.length) else pc

def findAndDeleteFrom (b : CScript) : Nat → CScript → CScript
  | 0, pc => pc
  | turns + 1, pc =>
    let pc := eraseHere b pc.length pc
    match getOp pc with
    | none => pc
    | some (_, _, rest) => pc.take (pc.length - rest.length) ++ findAndDeleteFrom b turns rest

def findAndDelete (script b : CScript) : CScript :=
  if b.isEmpty then script else findAndDeleteFrom b (script.length + 1) script

/-- Loop of `IsPushOnly`. -/
def isPushOnlyFrom : Nat → CScript → Bool
  | _, [] => true
  | 0, _ => false
  | turns + 1, pc =>
    match getOp pc with
    | none => false
    | some (opcode, _, rest) => decide (opcode ≤ OP_16) && isPushOnlyFrom turns rest

def isPushOnly (script : CScript) : Bool := isPushOnlyFrom script.length script

end CScript

/-! ### Opcodes (script/script.h) -/

def OP_1NEGATE : UInt8 := 0x4f
def OP_NOP : UInt8 := 0x61
def OP_IF : UInt8 := 0x63
def OP_NOTIF : UInt8 := 0x64
def OP_ELSE : UInt8 := 0x67
def OP_ENDIF : UInt8 := 0x68
def OP_VERIFY : UInt8 := 0x69
def OP_TOALTSTACK : UInt8 := 0x6b
def OP_FROMALTSTACK : UInt8 := 0x6c
def OP_2DROP : UInt8 := 0x6d
def OP_2DUP : UInt8 := 0x6e
def OP_3DUP : UInt8 := 0x6f
def OP_2OVER : UInt8 := 0x70
def OP_2ROT : UInt8 := 0x71
def OP_2SWAP : UInt8 := 0x72
def OP_IFDUP : UInt8 := 0x73
def OP_DEPTH : UInt8 := 0x74
def OP_DROP : UInt8 := 0x75
def OP_NIP : UInt8 := 0x77
def OP_OVER : UInt8 := 0x78
def OP_PICK : UInt8 := 0x79
def OP_ROLL : UInt8 := 0x7a
def OP_ROT : UInt8 := 0x7b
def OP_SWAP : UInt8 := 0x7c
def OP_TUCK : UInt8 := 0x7d
def OP_SIZE : UInt8 := 0x82
def OP_1ADD : UInt8 := 0x8b
def OP_1SUB : UInt8 := 0x8c
def OP_NEGATE : UInt8 := 0x8f
def OP_ABS : UInt8 := 0x90
def OP_NOT : UInt8 := 0x91
def OP_0NOTEQUAL : UInt8 := 0x92
def OP_ADD : UInt8 := 0x93
def OP_SUB : UInt8 := 0x94
def OP_BOOLAND : UInt8 := 0x9a
def OP_BOOLOR : UInt8 := 0x9b
def OP_NUMEQUAL : UInt8 := 0x9c
def OP_NUMEQUALVERIFY : UInt8 := 0x9d
def OP_NUMNOTEQUAL : UInt8 := 0x9e
def OP_LESSTHAN : UInt8 := 0x9f
def OP_GREATERTHAN : UInt8 := 0xa0
def OP_LESSTHANOREQUAL : UInt8 := 0xa1
def OP_GREATERTHANOREQUAL : UInt8 := 0xa2
def OP_MIN : UInt8 := 0xa3
def OP_MAX : UInt8 := 0xa4
def OP_WITHIN : UInt8 := 0xa5
def OP_RIPEMD160 : UInt8 := 0xa6
def OP_SHA1 : UInt8 := 0xa7
def OP_SHA256 : UInt8 := 0xa8
def OP_HASH256 : UInt8 := 0xaa
def OP_CODESEPARATOR : UInt8 := 0xab
def OP_NOP1 : UInt8 := 0xb0
def OP_CHECKLOCKTIMEVERIFY : UInt8 := 0xb1
def OP_NOP10 : UInt8 := 0xb9

/-- `OP_CAT` to `OP_RIGHT`, `OP_INVERT` to `OP_XOR`, `OP_2MUL`, `OP_2DIV`, `OP_MUL` to
`OP_RSHIFT`. -/
def disabledOpcodes : List UInt8 :=
  [0x7e, 0x7f, 0x80, 0x81, 0x83, 0x84, 0x85, 0x86, 0x8d, 0x8e, 0x95, 0x96, 0x97, 0x98, 0x99]

abbrev Stack := List Bytes

structure ScriptState where
  stack : Stack
  altstack : Stack := []
  /-- the innermost conditional first -/
  vfExec : List Bool := []
  nOpCount : Nat := 0
  /-- the script from `pbegincodehash` on -/
  codehash : CScript

/-- `fExec`: no enclosing branch is skipped. -/
def ScriptState.fExec (s : ScriptState) : Bool := !s.vfExec.contains false

/-- `SCRIPT_ERR_INVALID_STACK_OPERATION` -/
def tooFew {α : Type} : Except ScriptError α := .error .invalidStackOperation

/-- The end of an instruction that puts a truth value on the stack, or with `fVerify`
demands it. -/
def pushBool (fVerify : Bool) (e : ScriptError) (b : Bool) (stack : Stack) :
    Except ScriptError Stack := do
  ensure (!fVerify || b) e
  return if fVerify then stack else vchBool b :: stack

/-- `OP_2DROP` to `OP_TUCK` but for `OP_PICK` and `OP_ROLL`, `OP_SIZE`, `OP_EQUAL` and
`OP_EQUALVERIFY`. -/
def stackOp (opcode : UInt8) (stack : Stack) : Except ScriptError Stack :=
  if opcode = OP_2DROP then
    match stack with
    | _ :: _ :: rest => .ok rest
    | _ => tooFew
  else if opcode = OP_2DUP then
    match stack with
    | x2 :: x1 :: rest => .ok (x2 :: x1 :: x2 :: x1 :: rest)
    | _ => tooFew
  else if opcode = OP_3DUP then
    match stack with
    | x3 :: x2 :: x1 :: rest => .ok (x3 :: x2 :: x1 :: x3 :: x2 :: x1 :: rest)
    | _ => tooFew
  else if opcode = OP_2OVER then
    match stack with
    | x4 :: x3 :: x2 :: x1 :: rest => .ok (x2 :: x1 :: x4 :: x3 :: x2 :: x1 :: rest)
    | _ => tooFew
  else if opcode = OP_2ROT then
    match stack with
    | x6 :: x5 :: x4 :: x3 :: x2 :: x1 :: rest => .ok (x2 :: x1 :: x6 :: x5 :: x4 :: x3 :: rest)
    | _ => tooFew
  else if opcode = OP_2SWAP then
    match stack with
    | x4 :: x3 :: x2 :: x1 :: rest => .ok (x2 :: x1 :: x4 :: x3 :: rest)
    | _ => tooFew
  else if opcode = OP_IFDUP then
    match stack with
    | x :: rest => .ok (if castToBool x then x :: x :: rest else x :: rest)
    | _ => tooFew
  else if opcode = OP_DEPTH then .ok (CScriptNum.serialize stack.length :: stack)
  else if opcode = OP_DROP then
    match stack with
    | _ :: rest => .ok rest
    | _ => tooFew
  else if opcode = OP_DUP then
    match stack with
    | x :: rest => .ok (x :: x :: rest)
    | _ => tooFew
  else if opcode = OP_NIP then
    match stack with
    | x2 :: _ :: rest => .ok (x2 :: rest)
    | _ => tooFew
  else if opcode = OP_OVER then
    match stack with
    | x2 :: x1 :: rest => .ok (x1 :: x2 :: x1 :: rest)
    | _ => tooFew
  else if opcode = OP_ROT then
    match stack with
    | x3 :: x2 :: x1 :: rest => .ok (x1 :: x3 :: x2 :: rest)
    | _ => tooFew
  else if opcode = OP_SWAP then
    match stack with
    | x2 :: x1 :: rest => .ok (x1 :: x2 :: rest)
    | _ => tooFew
  else if opcode = OP_TUCK then
    match stack with
    | x2 :: x1 :: rest => .ok (x2 :: x1 :: x2 :: rest)
    | _ => tooFew
  else if opcode = OP_SIZE then
    match stack with
    | x :: rest => .ok (CScriptNum.serialize x.length :: x :: rest)
    | _ => tooFew
  else
    match stack with
    | vch2 :: vch1 :: rest => pushBool (opcode == OP_EQUALVERIFY) .equalVerify (vch1 == vch2) rest
    | _ => tooFew

def isStackOp (opcode : UInt8) : Bool :=
  (decide (OP_2DROP ≤ opcode) && decide (opcode ≤ OP_TUCK) && opcode != OP_PICK &&
    opcode != OP_ROLL) || opcode == OP_SIZE || opcode == OP_EQUAL || opcode == OP_EQUALVERIFY

/-- `OP_1ADD` to `OP_0NOTEQUAL`. -/
def unaryNum (opcode : UInt8) (bn : Int) : Int :=
  if opcode = OP_1ADD then bn + 1
  else if opcode = OP_1SUB then bn - 1
  else if opcode = OP_NEGATE then -bn
  else if opcode = OP_ABS then if bn < 0 then -bn else bn
  else if opcode = OP_NOT then CScriptNum.ofBool (bn == 0)
  else CScriptNum.ofBool (bn != 0)

/-- `OP_ADD` to `OP_MAX`. -/
def binaryNum (opcode : UInt8) (bn1 bn2 : Int) : Int :=
  if opcode = OP_ADD then bn1 + bn2
  else if opcode = OP_SUB then bn1 - bn2
  else if opcode = OP_BOOLAND then CScriptNum.ofBool (bn1 != 0 && bn2 != 0)
  else if opcode = OP_BOOLOR then CScriptNum.ofBool (bn1 != 0 || bn2 != 0)
  else if opcode = OP_NUMEQUAL then CScriptNum.ofBool (bn1 == bn2)
  else if opcode = OP_NUMEQUALVERIFY then CScriptNum.ofBool (bn1 == bn2)
  else if opcode = OP_NUMNOTEQUAL then CScriptNum.ofBool (bn1 != bn2)
  else if opcode = OP_LESSTHAN then CScriptNum.ofBool (bn1 < bn2)
  else if opcode = OP_GREATERTHAN then CScriptNum.ofBool (bn1 > bn2)
  else if opcode = OP_LESSTHANOREQUAL then CScriptNum.ofBool (bn1 ≤ bn2)
  else if opcode = OP_GREATERTHANOREQUAL then CScriptNum.ofBool (bn1 ≥ bn2)
  else if opcode = OP_MIN then if bn1 < bn2 then bn1 else bn2
  else if bn1 > bn2 then bn1 else bn2

def isUnaryNum (opcode : UInt8) : Bool :=
  opcode == OP_1ADD || opcode == OP_1SUB ||
    (decide (OP_NEGATE ≤ opcode) && decide (opcode ≤ OP_0NOTEQUAL))

def isBinaryNum (opcode : UInt8) : Bool :=
  opcode == OP_ADD || opcode == OP_SUB || (decide (OP_BOOLAND ≤ opcode) && decide (opcode ≤ OP_MAX))

/-- `OP_RIPEMD160` to `OP_HASH256`. -/
def ScriptCrypto.hashOp (crypto : ScriptCrypto) (opcode : UInt8) (vch : Bytes) : Bytes :=
  if opcode = OP_RIPEMD160 then crypto.ripemd160 vch
  else if opcode = OP_SHA1 then crypto.sha1 vch
  else if opcode = OP_SHA256 then crypto.sha256 vch
  else if opcode = OP_HASH160 then crypto.ripemd160 (crypto.sha256 vch)
  else crypto.sha256 (crypto.sha256 vch)

/-- `OP_IF` to `OP_RETURN` and the alternative stack, which read no flag. -/
def controlOp (opcode : UInt8) (s : ScriptState) : Except ScriptError ScriptState :=
  if opcode = OP_IF ∨ opcode = OP_NOTIF then
    if s.fExec then
      match s.stack with
      | vch :: rest =>
        .ok { s with stack := rest, vfExec := (castToBool vch != (opcode == OP_NOTIF)) :: s.vfExec }
      | [] => .error .unbalancedConditional
    else .ok { s with vfExec := false :: s.vfExec }
  else if opcode = OP_ELSE then
    match s.vfExec with
    | fValue :: rest => .ok { s with vfExec := (!fValue) :: rest }
    | [] => .error .unbalancedConditional
  else if opcode = OP_ENDIF then
    match s.vfExec with
    | _ :: rest => .ok { s with vfExec := rest }
    | [] => .error .unbalancedConditional
  else if opcode = OP_VERIFY then
    match s.stack with
    | vch :: rest => if castToBool vch then .ok { s with stack := rest } else .error .verify
    | [] => tooFew
  else if opcode = OP_TOALTSTACK then
    match s.stack with
    | vch :: rest => .ok { s with stack := rest, altstack := vch :: s.altstack }
    | [] => tooFew
  else if opcode = OP_FROMALTSTACK then
    match s.altstack with
    | vch :: rest => .ok { s with stack := vch :: s.stack, altstack := rest }
    | [] => .error .invalidAltStackOperation
  else if opcode = OP_RETURN then .error .opReturn
  else .error .badOpcode

section
variable (crypto : ScriptCrypto) (checker : BaseSignatureChecker) (flags : ScriptFlags)

/-- `CScriptNum(vch, fRequireMinimal)`. -/
def ScriptFlags.number (vch : Bytes) (nMaxNumSize : Nat := 4) : Except ScriptError Int :=
  CScriptNum.read (flags.has SCRIPT_VERIFY_MINIMALDATA) vch nMaxNumSize

def checkLockTimeVerify (stack : Stack) : Except ScriptError Unit :=
  if !flags.has SCRIPT_VERIFY_CHECKLOCKTIMEVERIFY then
    ensure (!flags.has SCRIPT_VERIFY_DISCOURAGE_UPGRADABLE_NOPS) .discourageUpgradableNops
  else
    match stack with
    | [] => tooFew
    | vch :: _ => do
      let nLockTime ← flags.number vch 5
      ensure (0 ≤ nLockTime) .negativeLockTime
      ensure (checker.checkLockTime nLockTime) .unsatisfiedLockTime

/-- `OP_PICK` and `OP_ROLL`. -/
def pickOrRoll (fRoll : Bool) (stack : Stack) : Except ScriptError Stack :=
  match stack with
  | vch :: x :: rest => do
    let n ← flags.number vch
    let n := CScriptNum.getint n
    ensure (0 ≤ n && n < (x :: rest).length) .invalidStackOperation
    let picked := (x :: rest).getD n.toNat []
    return picked :: if fRoll then (x :: rest).eraseIdx n.toNat else x :: rest
  | _ => tooFew

/-- The numeric instructions. -/
def numericOp (opcode : UInt8) (stack : Stack) : Except ScriptError Stack :=
  if isUnaryNum opcode then
    match stack with
    | vch :: rest => do
      let bn ← flags.number vch
      return CScriptNum.serialize (unaryNum opcode bn) :: rest
    | [] => tooFew
  else if isBinaryNum opcode then
    match stack with
    | vch2 :: vch1 :: rest => do
      let bn1 ← flags.number vch1
      let bn2 ← flags.number vch2
      let vch := CScriptNum.serialize (binaryNum opcode bn1 bn2)
      if opcode = OP_NUMEQUALVERIFY then
        ensure (castToBool vch) .numEqualVerify
        return rest
      else return vch :: rest
    | _ => tooFew
  else
    match stack with
    | vch3 :: vch2 :: vch1 :: rest => do
      let bn1 ← flags.number vch1
      let bn2 ← flags.number vch2
      let bn3 ← flags.number vch3
      return vchBool (bn2 ≤ bn1 && bn1 < bn3) :: rest
    | _ => tooFew

/-- `OP_CHECKSIG` and `OP_CHECKSIGVERIFY`. -/
def checkSigOp (fVerify : Bool) (codehash : CScript) (stack : Stack) : Except ScriptError Stack :=
  match stack with
  | vchPubKey :: vchSig :: rest => do
    checkSignatureEncoding crypto flags vchSig
    checkPubKeyEncoding flags vchPubKey
    let scriptCode := codehash.findAndDelete (CScript.pushing vchSig)
    pushBool fVerify .checkSigVerify (checker.checkSig vchSig vchPubKey scriptCode) rest
  | _ => tooFew

/-- The loop over signatures and keys. There are no
more signatures than keys whenever it turns. -/
def matchSigs (scriptCode : CScript) : (sigs keys : List Bytes) → Except ScriptError Bool
  | [], _ => .ok true
  | _ :: _, [] => .ok false
  | vchSig :: sigs, vchPubKey :: keys => do
    checkSignatureEncoding crypto flags vchSig
    checkPubKeyEncoding flags vchPubKey
    let sigs := if checker.checkSig vchSig vchPubKey scriptCode then sigs else vchSig :: sigs
    if sigs.length > keys.length then return false
    matchSigs scriptCode sigs keys

/-- `OP_CHECKMULTISIG` and `OP_CHECKMULTISIGVERIFY`. -/
def checkMultiSigOp (fVerify : Bool) (s : ScriptState) : Except ScriptError ScriptState :=
  match s.stack with
  | [] => tooFew
  | vchKeys :: stack => do
    let nKeysCount := CScriptNum.getint (← flags.number vchKeys)
    ensure (0 ≤ nKeysCount && nKeysCount ≤ 20) .pubkeyCount
    let nOpCount := s.nOpCount + nKeysCount.toNat
    ensure (nOpCount ≤ 201) .opCount
    match stack.drop nKeysCount.toNat with
    | [] => tooFew
    | vchSigs :: rest => do
      let nSigsCount := CScriptNum.getint (← flags.number vchSigs)
      ensure (0 ≤ nSigsCount && nSigsCount ≤ nKeysCount) .sigCount
      ensure (nSigsCount < rest.length) .invalidStackOperation
      let sigs := rest.take nSigsCount.toNat
      let scriptCode := sigs.foldl (fun code vchSig => code.findAndDelete (CScript.pushing vchSig))
        s.codehash
      let fSuccess ← matchSigs crypto checker flags scriptCode sigs (stack.take nKeysCount.toNat)
      match rest.drop nSigsCount.toNat with
      | [] => tooFew
      | dummy :: rest => do
        ensure (!flags.has SCRIPT_VERIFY_NULLDUMMY || dummy.isEmpty) .sigNullDummy
        let stack ← pushBool fVerify .checkMultiSigVerify fSuccess rest
        return { s with stack := stack, nOpCount := nOpCount }

def ScriptState.onStack (s : ScriptState) (result : Except ScriptError Stack) :
    Except ScriptError ScriptState := do
  let stack ← result
  return { s with stack := stack }

/-- The `switch`; `pc` is what follows the
instruction. -/
def execOp (opcode : UInt8) (pc : CScript) (s : ScriptState) : Except ScriptError ScriptState :=
  if opcode = OP_1NEGATE ∨ (OP_1 ≤ opcode ∧ opcode ≤ OP_16) then
    .ok { s with stack := CScriptNum.serialize (opcode.toNat - (OP_1.toNat - 1 : Int)) :: s.stack }
  else if opcode = OP_NOP then .ok s
  else if opcode = OP_CHECKLOCKTIMEVERIFY then do
    checkLockTimeVerify checker flags s.stack
    return s
  else if OP_NOP1 ≤ opcode ∧ opcode ≤ OP_NOP10 then do
    ensure (!flags.has SCRIPT_VERIFY_DISCOURAGE_UPGRADABLE_NOPS) .discourageUpgradableNops
    return s
  else if isStackOp opcode then s.onStack (stackOp opcode s.stack)
  else if opcode = OP_PICK ∨ opcode = OP_ROLL then
    s.onStack (pickOrRoll flags (opcode == OP_ROLL) s.stack)
  else if isUnaryNum opcode || isBinaryNum opcode || opcode == OP_WITHIN then
    s.onStack (numericOp flags opcode s.stack)
  else if OP_RIPEMD160 ≤ opcode ∧ opcode ≤ OP_HASH256 then
    match s.stack with
    | vch :: rest => .ok { s with stack := crypto.hashOp opcode vch :: rest }
    | [] => tooFew
  else if opcode = OP_CODESEPARATOR then .ok { s with codehash := pc }
  else if opcode = OP_CHECKSIG ∨ opcode = OP_CHECKSIGVERIFY then
    s.onStack (checkSigOp crypto checker flags (opcode == OP_CHECKSIGVERIFY) s.codehash s.stack)
  else if opcode = OP_CHECKMULTISIG ∨ opcode = OP_CHECKMULTISIGVERIFY then
    checkMultiSigOp crypto checker flags (opcode == OP_CHECKMULTISIGVERIFY) s
  else controlOp opcode s

def MAX_SCRIPT_ELEMENT_SIZE : Nat := 520

/-- A push, an instruction or, in a skipped branch, neither. -/
def execInstruction (opcode : UInt8) (vchPushValue : Bytes) (pc : CScript) (s : ScriptState) :
    Except ScriptError ScriptState :=
  if s.fExec && decide (opcode ≤ OP_PUSHDATA4) then do
    ensure (!flags.has SCRIPT_VERIFY_MINIMALDATA || checkMinimalPush vchPushValue opcode)
      .minimalData
    return { s with stack := vchPushValue :: s.stack }
  else if s.fExec || (decide (OP_IF ≤ opcode) && decide (opcode ≤ OP_ENDIF)) then
    execOp crypto checker flags opcode pc s
  else .ok s

/-- One turn of the loop. -/
def evalStep (opcode : UInt8) (vchPushValue : Bytes) (pc : CScript) (s : ScriptState) :
    Except ScriptError ScriptState := do
  ensure (vchPushValue.length ≤ MAX_SCRIPT_ELEMENT_SIZE) .pushSize
  let nOpCount := if OP_16 < opcode then s.nOpCount + 1 else s.nOpCount
  ensure (opcode ≤ OP_16 || nOpCount ≤ 201) .opCount
  ensure (!disabledOpcodes.contains opcode) .disabledOpcode
  let s ← execInstruction crypto checker flags opcode vchPushValue pc { s with nOpCount := nOpCount }
  ensure (s.stack.length + s.altstack.length ≤ 1000) .stackSize
  return s

/-- The loop; every turn takes at least one byte. -/
def evalFrom : Nat → CScript → ScriptState → Except ScriptError ScriptState
  | _, [], s => .ok s
  | 0, _ :: _, _ => .error .unknownError
  | turns + 1, b :: pc, s =>
    match CScript.getOp (b :: pc) with
    | none => .error .badOpcode
    | some (opcode, vchPushValue, rest) => do
      let s ← evalStep crypto checker flags opcode vchPushValue rest s
      evalFrom turns rest s

/- The stack, if it returns true. -/
def evalScript (stack : Stack) (script : CScript) : Except ScriptError Stack := do
  ensure (script.length ≤ MAX_SCRIPT_SIZE) .scriptSize
  let s ← evalFrom crypto checker flags script.length script { stack := stack, codehash := script }
  ensure s.vfExec.isEmpty .unbalancedConditional
  return s.stack

/-- An error of `VerifyScript`, or its assertion that a script was pushed. -/
inductive VerifyFailure where
  | error (e : ScriptError)
  | assertion (condition : String)
deriving DecidableEq, Repr

def Stack.accept (stack : Stack) : Except ScriptError Unit :=
  ensure ((stack.head?.map castToBool).getD false) .evalFalse

/-- The redeem script of a pay-to-script-hash output, run on the rest of `stackCopy`. -/
def verifyRedeem (scriptSig : CScript) (stackCopy : Stack) : Except VerifyFailure Unit := do
  (ensure scriptSig.isPushOnly ScriptError.sigPushOnly).mapError .error
  match stackCopy with
  | [] => .error (.assertion "!stackCopy.empty()")
  | pubKey2 :: stackCopy => do
    let stack ← (evalScript crypto checker flags stackCopy pubKey2).mapError .error
    (Stack.accept stack).mapError .error

def verifyScript (scriptSig scriptPubKey : CScript) : Except VerifyFailure Unit := do
  (ensure (!flags.has SCRIPT_VERIFY_SIGPUSHONLY || scriptSig.isPushOnly)
    ScriptError.sigPushOnly).mapError .error
  let stackCopy ← (evalScript crypto checker flags [] scriptSig).mapError .error
  let stack ← (evalScript crypto checker flags stackCopy scriptPubKey).mapError .error
  (Stack.accept stack).mapError .error
  if flags.has SCRIPT_VERIFY_P2SH && scriptPubKey.isPayToScriptHash then
    verifyRedeem crypto checker flags scriptSig stackCopy

end

end Alqo
