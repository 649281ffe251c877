import Alqo.Lib.FixedSum

/-!
# Transactions and blocks (primitives/transaction.h, primitives/block.h)

`CTransaction` caches its hash, as the C++ class does; the double SHA-256 is the parameter `Hash`.
Amounts are signed 64-bit words, so the additions below wrap where the source's do.
`CTxIn::prevPubKey` and `CBlock::payee` are unread by the functions modelled here.
-/

namespace Alqo
open Lib.FixedSum

abbrev uint256 := BitVec 256
abbrev CAmount := Int64
abbrev CScript := List UInt8
abbrev Bytes := List UInt8

def COIN : CAmount := 100000000

/-! ### Scripts as seen by the coins database (script/script.h) -/

def OP_RETURN : UInt8 := 0x6a
def MAX_SCRIPT_SIZE : Nat := 10000

def isUnspendable (s : CScript) : Bool :=
  s.head? == some OP_RETURN || s.length > MAX_SCRIPT_SIZE

structure COutPoint where
  hash : uint256
  n : Nat
deriving DecidableEq, Repr

namespace COutPoint

def null : COutPoint := ⟨0, 0xffffffff⟩

def isNull (o : COutPoint) : Bool := o.hash == 0 && o.n == 0xffffffff

end COutPoint

structure CTxIn where
  prevout : COutPoint
  scriptSig : CScript := []
  nSequence : Nat := 0xffffffff
deriving DecidableEq, Repr

structure CTxOut where
  nValue : CAmount
  scriptPubKey : CScript
  nRounds : Int := -10
deriving DecidableEq, Repr

namespace CTxOut

/-- The value `SetNull` leaves behind. -/
def null : CTxOut := ⟨-1, [], -10⟩

/-- `IsNull` looks at the amount only. -/
def isNull (o : CTxOut) : Bool := o.nValue == -1

def isEmpty (o : CTxOut) : Bool := o.nValue == 0 && o.scriptPubKey.isEmpty

@[simp] theorem null_isNull : null.isNull = true := rfl

end CTxOut

structure CTransaction where
  hash : uint256
  nVersion : Int := 1
  vin : List CTxIn
  vout : List CTxOut
  nLockTime : Nat := 0
deriving DecidableEq, Repr

namespace CTransaction

variable (tx : CTransaction)

def isCoinBase : Bool :=
  match tx.vin with
  | [txin] => txin.prevout.isNull
  | _ => false

/- The
first output is empty. Nothing here looks at the position in the block. -/
def isCoinStake : Bool :=
  match tx.vin, tx.vout with
  | [], _ => false
  | txin :: _, out0 :: _ :: _ => !txin.prevout.isNull && out0.isEmpty
  | _ :: _, _ => false

def prevouts : List COutPoint := tx.vin.map CTxIn.prevout

def spends : List COutPoint := if tx.isCoinBase then [] else tx.prevouts

def lessThanZero : String :=
  "CTransaction::GetValueOut() : value out of range : less than 0"

def wrapsBoundary : String :=
  "CTransaction::GetValueOut() : value out of range : wraps the int64_t boundary"

/-- Loop of `GetValueOut`, entered with the sum of the outputs already seen. -/
def getValueOutFrom (nValueOut : CAmount) : List CTxOut → Except String CAmount
  | [] => .ok nValueOut
  | out :: rest =>
    if out.nValue < 0 then .error lessThanZero
    else if nValueOut + out.nValue < nValueOut then .error wrapsBoundary
    else getValueOutFrom (nValueOut + out.nValue) rest

/- An
`error` is the `std::runtime_error` the source throws. -/
def getValueOut : Except String CAmount := getValueOutFrom 0 tx.vout

def exactValueOut : Int := exactSum (tx.vout.map CTxOut.nValue)

def ValueOutOk : Prop :=
  (∀ out ∈ tx.vout, 0 ≤ out.nValue.toInt) ∧ tx.exactValueOut < 2 ^ 63

instance (tx : CTransaction) : Decidable tx.ValueOutOk :=
  inferInstanceAs (Decidable (_ ∧ _))

theorem getValueOutFrom_spec (vout : List CTxOut) (acc : CAmount) (hacc : 0 ≤ acc.toInt) :
    ((∀ out ∈ vout, 0 ≤ out.nValue.toInt) ∧ acc.toInt + exactSum (vout.map CTxOut.nValue) < 2 ^ 63 →
      ∃ v, getValueOutFrom acc vout = .ok v ∧
        v.toInt = acc.toInt + exactSum (vout.map CTxOut.nValue)) ∧
    (∀ v, getValueOutFrom acc vout = .ok v → (∀ out ∈ vout, 0 ≤ out.nValue.toInt) ∧
        acc.toInt + exactSum (vout.map CTxOut.nValue) < 2 ^ 63) := by
  induction vout generalizing acc with
  | nil =>
    have hlt := acc.toInt_lt
    simp [getValueOutFrom]
    omega
  | cons out rest ih =>
    have hneg : out.nValue < 0 ↔ out.nValue.toInt < 0 := by
      rw [Int64.lt_iff_toInt_lt]
      rfl
    simp only [getValueOutFrom, hneg, List.map_cons, exactSum_cons, List.forall_mem_cons]
    by_cases h0 : out.nValue.toInt < 0
    · simp only [h0, if_true]
      refine ⟨fun h => ?_, fun v hv => by simp at hv⟩
      omega
    · have hpos : 0 ≤ out.nValue.toInt := by omega
      simp only [h0, if_false]
      have hwrap := add_lt_left_iff acc out.nValue hacc hpos
      by_cases hw : acc + out.nValue < acc
      · rw [if_pos hw]
        rw [hwrap] at hw
        refine ⟨fun h => ?_, fun v hv => by simp at hv⟩
        have hrest : 0 ≤ exactSum (rest.map CTxOut.nValue) := by
          apply exactSum_nonneg
          simpa using h.1.2
        omega
      · rw [if_neg hw]
        rw [hwrap] at hw
        have hadd := toInt_add_of_lt acc out.nValue hacc hpos (by omega)
        obtain ⟨hok, hinv⟩ := ih (acc + out.nValue) (by omega)
        constructor
        · intro h
          obtain ⟨v, hv, hval⟩ := hok ⟨h.1.2, by omega⟩
          exact ⟨v, hv, by omega⟩
        · intro v hv
          have h := hinv v hv
          exact ⟨⟨hpos, h.1⟩, by omega⟩

theorem getValueOut_ok_iff (v : CAmount) :
    tx.getValueOut = .ok v ↔ tx.ValueOutOk ∧ v.toInt = tx.exactValueOut := by
  obtain ⟨hok, hinv⟩ := getValueOutFrom_spec tx.vout 0 (by decide)
  have hz : (0 : CAmount).toInt = 0 := rfl
  simp only [hz, zero_add] at hok hinv
  constructor
  · intro h
    have hc := hinv v h
    obtain ⟨w, hw, hval⟩ := hok hc
    have hvw : v = w := by
      have hvw' : getValueOutFrom 0 tx.vout = .ok v := h
      rw [hw] at hvw'
      exact (Except.ok.inj hvw').symm
    exact ⟨hc, by rw [hvw]; exact hval⟩
  · rintro ⟨hc, hval⟩
    obtain ⟨w, hw, hwval⟩ := hok hc
    have hvw : w = v := Int64.toInt_inj.mp (hwval.trans hval.symm)
    rw [← hvw]
    exact hw

theorem getValueOut_error_iff : (∃ e, tx.getValueOut = .error e) ↔ ¬ tx.ValueOutOk := by
  cases h : tx.getValueOut with
  | ok v => simpa using ((getValueOut_ok_iff tx v).mp h).1
  | error e =>
    simp only [Except.error.injEq, exists_eq', true_iff]
    intro hc
    obtain ⟨v, hv, -⟩ :=
      (getValueOutFrom_spec tx.vout 0 (by decide)).1 ⟨hc.1, by simpa [exactValueOut] using hc.2⟩
    have hv' : tx.getValueOut = .ok v := hv
    rw [h] at hv'
    cases hv'

end CTransaction

/-! ### Serialised sizes (serialize.h) -/

def compactSizeLen (n : Nat) : Nat :=
  if n < 253 then 1 else if n ≤ 0xffff then 3 else if n ≤ 0xffffffff then 5 else 9

def scriptSize (s : CScript) : Nat := compactSizeLen s.length + s.length

def CTransaction.getSerializeSize (tx : CTransaction) : Nat :=
  4 + compactSizeLen tx.vin.length +
    (tx.vin.map fun txin => 36 + scriptSize txin.scriptSig + 4).sum +
    compactSizeLen tx.vout.length +
    (tx.vout.map fun out => 8 + scriptSize out.scriptPubKey).sum + 4

structure CBlockHeader where
  nVersion : Int := 4
  hashPrevBlock : uint256
  hashMerkleRoot : uint256
  nTime : Nat
  nBits : BitVec 32
  nNonce : Nat
deriving DecidableEq, Repr

structure CBlock extends CBlockHeader where
  vtx : List CTransaction
  vchBlockSig : Bytes := []
deriving DecidableEq, Repr

def leBytes : Nat → Nat → Bytes
  | 0, _ => []
  | w + 1, n => UInt8.ofNat n :: leBytes w (n / 256)

/-- `WriteCompactSize`. -/
def compactSize (n : Nat) : Bytes :=
  if n < 253 then leBytes 1 n
  else if n ≤ 0xffff then leBytes 1 253 ++ leBytes 2 n
  else if n ≤ 0xffffffff then leBytes 1 254 ++ leBytes 4 n
  else leBytes 1 255 ++ leBytes 8 n

def leValue : Bytes → Nat
  | [] => 0
  | b :: rest => b.toNat + 256 * leValue rest

theorem length_leBytes (w n : Nat) : (leBytes w n).length = w := by
  induction w generalizing n with
  | zero => rfl
  | succ w ih => simp [leBytes, ih]

theorem leValue_leBytes (w n : Nat) (h : n < 256 ^ w) : leValue (leBytes w n) = n := by
  induction w generalizing n with
  | zero =>
    rw [Nat.pow_zero] at h
    simp only [leBytes, leValue]
    omega
  | succ w ih =>
    rw [Nat.pow_succ] at h
    have hdiv := ih (n / 256) (Nat.div_lt_of_lt_mul (by omega))
    simp only [leBytes, leValue, hdiv, UInt8.toNat_ofNat']
    omega

theorem leBytes_injective (w a b : Nat) (ha : a < 256 ^ w) (hb : b < 256 ^ w)
    (h : leBytes w a = leBytes w b) : a = b := by
  rw [← leValue_leBytes w a ha, h, leValue_leBytes w b hb]

/-- The 80 bytes from `nVersion` to `nNonce`. -/
def CBlockHeader.bytes (h : CBlockHeader) : Bytes :=
  leBytes 4 (h.nVersion % 2 ^ 32).toNat ++ leBytes 32 h.hashPrevBlock.toNat ++
    leBytes 32 h.hashMerkleRoot.toNat ++ leBytes 4 h.nTime ++ leBytes 4 h.nBits.toNat ++
    leBytes 4 h.nNonce

def CBlockHeader.getHash (Hash : Bytes → uint256) (h : CBlockHeader) : uint256 := Hash h.bytes

namespace CBlock

def isProofOfStake (block : CBlock) : Bool :=
  match block.vtx with
  | _ :: tx1 :: _ => tx1.isCoinStake
  | _ => false

def isProofOfWork (block : CBlock) : Bool := !block.isProofOfStake

def getSerializeSize (block : CBlock) : Nat :=
  80 + compactSizeLen block.vtx.length + (block.vtx.map CTransaction.getSerializeSize).sum +
    if block.isProofOfStake then scriptSize block.vchBlockSig else 0

end CBlock

end Alqo
