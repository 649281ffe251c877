import Alqo.Compressor
import Alqo.UndoBlock

/-!
# Unspent outputs as they are written to disk (coins.h, coins.cpp)

The mask ends with its last byte that is not null, and the code counts the bytes that are not.
-/

namespace Alqo
open Lib.Codec List

namespace CCoins

section
variable (c : CCoins) (f : Nat → Bool) (K : KeyRules)

def packBits : UInt8 :=
  (List.range 8).foldl (fun chAvail i => if f i then chAvail ||| (1 <<< UInt8.ofNat i) else chAvail) 0

def maskBit (b i : Nat) : Bool := c.isAvailable (2 + b * 8 + i)

def fZero (b : Nat) : Bool := (List.range 8).all fun i => !c.maskBit b i

/- One turn of the loop of `CalcMaskSize`. -/
def countByte (size : Nat × Nat) (b : Nat) : Nat × Nat :=
  if c.fZero b then size else (b + 1, size.2 + 1)

/- With `nBytes` and `nNonzeroBytes`; the bytes are those with 2 + b * 8 < size -/
def calcMaskSize : Nat × Nat :=
  (List.range ((c.vout.length - 2 + 7) / 8)).foldl c.countByte (0, 0)

def flagCode : Nat :=
  (if c.fCoinBase then 1 else 0) + (if c.fCoinStake then 2 else 0) +
    (if c.isAvailable 0 then 4 else 0) + (if c.isAvailable 1 then 8 else 0)

def maskCode : Nat :=
  c.calcMaskSize.2 - if c.isAvailable 0 || c.isAvailable 1 then 0 else 1

/- The assertion of `Serialize` and of `GetSerializeSize`. -/
def serializable : Bool :=
  c.isAvailable 0 || c.isAvailable 1 || c.calcMaskSize.2 != 0

def headerCode : Nat := (16 * c.maskCode + c.flagCode) % 2 ^ 32

def serialize (c : CCoins) : Option Bytes := do
  guard c.serializable
  return writeVarInt32 c.nVersion ++ (writeVarInt32 c.headerCode ++
    ((List.range c.calcMaskSize.1).map (fun b => packBits (c.maskBit b)) ++
      (c.vout.flatMap (fun out => if out.isNull then [] else writeTxOut K out) ++
        writeVarInt32 c.nHeight)))

def unpackBits (chAvail : UInt8) : List Bool :=
  (List.range 8).map fun p => chAvail &&& (1 <<< UInt8.ofNat p) ≠ 0

def readMaskFrom : Bytes → (nMaskCode : Nat) → (vAvail : List Bool) → Option (List Bool × Bytes)
  | l, 0, vAvail => some (vAvail, l)
  | [], _ + 1, _ => none
  | chAvail :: l, nMaskCode + 1, vAvail =>
    readMaskFrom l (if chAvail ≠ 0 then nMaskCode else nMaskCode + 1) (vAvail ++ unpackBits chAvail)

def readMask (nMaskCode : Nat) (vAvail : List Bool) : Reader UInt8 (List Bool) :=
  fun l => readMaskFrom l nMaskCode vAvail

def readOut (fAvail : Bool) : Reader UInt8 CTxOut :=
  if fAvail then readTxOut K CTxOut.null else pure CTxOut.null

def readOuts (K : KeyRules) : List Bool → Reader UInt8 (List CTxOut)
  | [] => pure []
  | fAvail :: vAvail => do
    let out ← readOut K fAvail
    let vout ← readOuts K vAvail
    return out :: vout

/- The flags are the bits 1, 2, 4 and 8 of the code. A height that is read is not
negative. -/
def unserialize : Reader UInt8 CCoins := do
  let nVersion ← Lib.VarInt.read asInt
  let nCode ← Int.toNat <$> Lib.VarInt.read asUInt32
  let vAvail := [nCode.testBit 2, nCode.testBit 3]
  let nMaskCode := nCode / 16 + if nCode.testBit 2 || nCode.testBit 3 then 0 else 1
  let vAvail ← readMask nMaskCode vAvail
  let vout ← readOuts K vAvail
  let nHeight ← Lib.VarInt.read asInt
  return cleanup
    { fCoinBase := nCode.testBit 0
      fCoinStake := nCode.testBit 1
      vout := vout
      nHeight := nHeight.toNat
      nVersion := nVersion }

theorem unpackBits_packBits : unpackBits (packBits f) = (List.range 8).map f := by
  simp only [unpackBits, packBits, List.range, List.range.loop, List.foldl, List.map]
  generalize f 0 = b0, f 1 = b1, f 2 = b2, f 3 = b3, f 4 = b4, f 5 = b5, f 6 = b6, f 7 = b7
  revert b0 b1 b2 b3 b4 b5 b6 b7
  decide +kernel

theorem packBits_eq_zero_iff : packBits f = 0 ↔ (List.range 8).all (fun i => !f i) = true := by
  simp only [packBits, List.range, List.range.loop, List.foldl, List.all]
  generalize f 0 = b0, f 1 = b1, f 2 = b2, f 3 = b3, f 4 = b4, f 5 = b5, f 6 = b6, f 7 = b7
  revert b0 b1 b2 b3 b4 b5 b6 b7
  decide +kernel

/- What `CalcMaskSize` knows after `n` bytes: the last that is not null, and how many are not. -/
structure MaskSize (c : CCoins) (n : Nat) (size : Nat × Nat) : Prop where
  le : size.1 ≤ n
  count : size.2 = (List.range size.1).countP fun b => !c.fZero b
  last : ∀ b, size.1 = b + 1 → c.fZero b = false
  after : ∀ b, size.1 ≤ b → b < n → c.fZero b = true

theorem maskSize_range (n : Nat) : MaskSize c n ((List.range n).foldl c.countByte (0, 0)) := by
  induction n with
  | zero => exact ⟨Nat.le_refl _, rfl, fun b hb => absurd hb (by simp), fun b _ hlt => by omega⟩
  | succ n ih =>
    rw [range_succ, foldl_append]
    generalize (List.range n).foldl c.countByte (0, 0) = size at ih
    show MaskSize c (n + 1) (c.countByte size n)
    rw [countByte]
    cases hzero : c.fZero n with
    | true =>
      refine ⟨Nat.le_succ_of_le ih.le, ih.count, ih.last, fun b hle hlt => ?_⟩
      rcases Nat.lt_or_eq_of_le (Nat.le_of_lt_succ hlt) with hlt' | rfl
      · exact ih.after b hle hlt'
      · exact hzero
    | false =>
      refine ⟨Nat.le_refl _, ?_, fun b hb => ?_, fun b hle hlt => ?_⟩
      · -- the bytes between the last one and this one are null
        have hbetween : (List.range n).countP (fun b => !c.fZero b) =
            (List.range size.1).countP fun b => !c.fZero b := by
          obtain ⟨k, rfl⟩ := Nat.exists_eq_add_of_le ih.le
          rw [range_add, countP_append, Nat.add_eq_left, countP_eq_zero]
          intro b hb
          obtain ⟨j, hj, rfl⟩ := List.mem_map.mp hb
          rw [ih.after _ (Nat.le_add_right _ _) (by have := mem_range.mp hj; omega)]
          decide
        show size.2 + 1 = (List.range (n + 1)).countP _
        rw [range_succ, countP_append, hbetween, ← ih.count, countP_singleton, hzero]
        rfl
      · have hb' : b = n := by
          have hsucc : n + 1 = b + 1 := hb
          omega
        rw [hb']
        exact hzero
      · have hle' : n + 1 ≤ b := hle
        omega

theorem maskSize : MaskSize c ((c.vout.length - 2 + 7) / 8) c.calcMaskSize :=
  maskSize_range c _

def mask : Bytes := (List.range c.calcMaskSize.1).map fun b => packBits (c.maskBit b)

theorem packBits_ne_zero_iff (b : Nat) : packBits (c.maskBit b) ≠ 0 ↔ c.fZero b = false := by
  rw [ne_eq, packBits_eq_zero_iff, Bool.not_eq_true]
  rfl

theorem reads_mask (bytes : Bytes) (nMaskCode : Nat) (vAvail : List Bool)
    (hcount : bytes.countP (fun ch => ch ≠ 0) = nMaskCode)
    (hlast : ∀ ch, bytes.getLast? = some ch → ch ≠ 0) :
    Reads (readMask nMaskCode vAvail) bytes (vAvail ++ bytes.flatMap unpackBits) := by
  intro rest
  show readMaskFrom (bytes ++ rest) nMaskCode vAvail = _
  induction bytes generalizing nMaskCode vAvail with
  | nil =>
    subst hcount
    rw [flatMap_nil, append_nil]
    cases rest with
    | nil => rfl
    | cons ch rest => rfl
  | cons ch bytes ih =>
    have hlast' : ∀ ch, bytes.getLast? = some ch → ch ≠ 0 := fun ch' hch' =>
      hlast ch' (by rw [getLast?_cons, hch']; rfl)
    obtain ⟨n, rfl⟩ : ∃ n, nMaskCode = n + 1 := by
      have hmem : ∃ b ∈ ch :: bytes, b ≠ 0 := by
        have hsome : (ch :: bytes).getLast? = some ((ch :: bytes).getLast (by simp)) :=
          getLast?_eq_some_getLast _
        exact ⟨_, getLast_mem _, hlast _ hsome⟩
      obtain ⟨b, hb, hne⟩ := hmem
      have hpos : 0 < (ch :: bytes).countP (fun ch => ch ≠ 0) :=
        countP_pos_iff.mpr ⟨b, hb, by simpa using hne⟩
      exact ⟨nMaskCode - 1, by omega⟩
    rw [cons_append, readMaskFrom, flatMap_cons, ← append_assoc]
    by_cases hne : ch ≠ 0
    · rw [if_pos hne]
      rw [countP_cons_of_pos (by simpa using hne)] at hcount
      exact ih n _ (by omega) hlast'
    · rw [if_neg hne]
      rw [countP_cons_of_neg (by simpa using hne)] at hcount
      exact ih (n + 1) _ hcount hlast'

theorem countP_mask : c.mask.countP (fun ch => ch ≠ 0) = c.calcMaskSize.2 := by
  rw [c.maskSize.count, mask, countP_map]
  refine countP_congr fun b _ => ?_
  simp [packBits_ne_zero_iff]

theorem mask_last (ch : UInt8) (h : c.mask.getLast? = some ch) : ch ≠ 0 := by
  rw [mask, getLast?_map] at h
  obtain ⟨b, hb, rfl⟩ := Option.map_eq_some_iff.mp h
  rw [getLast?_range] at hb
  split at hb
  · cases hb
  · cases hb
    exact (packBits_ne_zero_iff c _).mpr (c.maskSize.last _ (by omega))

theorem flatMap_unpackBits (n : Nat) :
    ((List.range n).map fun b => packBits fun i => f (b * 8 + i)).flatMap unpackBits =
      (List.range (n * 8)).map f := by
  induction n with
  | zero => rfl
  | succ n ih =>
    rw [range_succ, map_append, flatMap_append, ih, Nat.succ_mul, range_add,
      map_append, map_singleton, flatMap_singleton, unpackBits_packBits,
      List.map_map]
    rfl

theorem mask_unpacked (n : Nat) :
    [c.isAvailable 0, c.isAvailable 1] ++
        ((List.range n).map fun b => packBits (c.maskBit b)).flatMap unpackBits =
      (List.range (2 + 8 * n)).map c.isAvailable := by
  have hbits := flatMap_unpackBits (fun p => c.isAvailable (2 + p)) n
  simp only [← Nat.add_assoc] at hbits
  rw [Nat.mul_comm 8 n, range_add, map_append, List.map_map]
  exact congrArg _ hbits

end

def kept (out : CTxOut) : CTxOut :=
  if out.isNull then CTxOut.null
  else { CTxOut.null with nValue := out.nValue, scriptPubKey := out.scriptPubKey }

theorem kept_isNull (out : CTxOut) : (kept out).isNull = out.isNull := by
  rw [kept]
  split
  · rename_i hnull
    rw [hnull]
    rfl
  · rfl

structure Storable (out : CTxOut) : Prop where
  value : moneyRange mainParams out.nValue = true
  script : out.scriptPubKey.length ≤ MAX_SCRIPT_SIZE

variable {K : KeyRules}

theorem reads_out (hK : K.Inverts) {out : CTxOut} (h : out.isNull = false → Storable out) :
    Reads (readOut K (!out.isNull)) (if out.isNull then [] else writeTxOut K out) (kept out) := by
  cases hnull : out.isNull with
  | true =>
    rw [kept, if_pos hnull]
    exact Reads.pure _
  | false =>
    have hkept : kept out = { CTxOut.null with
        nValue := out.nValue, scriptPubKey := out.scriptPubKey } := by
      rw [kept, hnull]
      rfl
    rw [hkept]
    exact reads_txOut hK (h hnull).value (h hnull).script CTxOut.null

theorem readOuts_false (K : KeyRules) (n : Nat) :
    readOuts K (List.replicate n false) = pure (List.replicate n CTxOut.null) := by
  induction n with
  | zero => rfl
  | succ n ih =>
    rw [replicate_succ, readOuts, ih]
    rfl

theorem reads_outs (hK : K.Inverts) (vout : List CTxOut) (n : Nat)
    (h : ∀ out ∈ vout, out.isNull = false → Storable out) :
    Reads (readOuts K (vout.map (fun out => !out.isNull) ++ List.replicate n false))
      (vout.flatMap fun out => if out.isNull then [] else writeTxOut K out)
      (vout.map kept ++ List.replicate n CTxOut.null) := by
  induction vout with
  | nil =>
    show Reads (readOuts K (List.replicate n false)) [] _
    rw [readOuts_false]
    exact Reads.pure _
  | cons out vout ih =>
    exact (reads_out hK (h out mem_cons_self)).bind
      ((ih fun out' hout' => h out' (mem_cons_of_mem _ hout')).bind_last rfl)

variable (c : CCoins)

theorem map_isAvailable {n : Nat} (h : c.vout.length ≤ n) :
    (List.range n).map c.isAvailable =
      c.vout.map (fun out => !out.isNull) ++ List.replicate (n - c.vout.length) false := by
  refine ext_getElem? fun i => ?_
  rw [getElem?_map]
  rcases Nat.lt_or_ge i c.vout.length with hlt | hge
  · rw [getElem?_append_left (by rwa [length_map]), getElem?_map,
      getElem?_range (by omega), getElem?_eq_getElem hlt, Option.map_some, Option.map_some,
      isAvailable, getElem?_eq_getElem hlt]
  · rw [getElem?_append_right (by rwa [length_map]), length_map,
      getElem?_replicate]
    by_cases hi : i < n
    · rw [getElem?_range hi, if_pos (by omega), Option.map_some, isAvailable,
        getElem?_eq_none hge]
    · rw [getElem?_eq_none (by rw [length_range]; omega), if_neg (by omega),
        Option.map_none]

theorem length_le_mask (s : StoredCoins) :
    s.coins.vout.length ≤ 2 + 8 * s.coins.calcMaskSize.1 := by
  by_contra hlt
  have hlast := unspent_last s.cleaned s.nonempty
  have havail : s.coins.isAvailable (s.coins.vout.length - 1) = true :=
    (isAvailable_iff _ _).mpr (Option.ne_none_iff_exists'.mp hlast)
  have hzero := s.coins.maskSize.after ((s.coins.vout.length - 3) / 8) (by omega) (by omega)
  have hbit := List.all_eq_true.mp hzero ((s.coins.vout.length - 3) % 8)
    (mem_range.mpr (Nat.mod_lt _ (by decide)))
  have hposition : 2 + (s.coins.vout.length - 3) / 8 * 8 + (s.coins.vout.length - 3) % 8 =
      s.coins.vout.length - 1 := by omega
  rw [maskBit, hposition, havail] at hbit
  cases hbit

theorem rdropWhile_append_replicate (l : List CTxOut) (n : Nat) :
    (l ++ List.replicate n CTxOut.null).rdropWhile CTxOut.isNull = l.rdropWhile CTxOut.isNull := by
  induction n with
  | zero => rw [replicate_zero, append_nil]
  | succ n ih =>
    rw [replicate_succ', ← append_assoc, rdropWhile_concat_pos _ _ _ rfl, ih]

theorem cleanup_kept (s : StoredCoins) (n : Nat) :
    (s.coins.vout.map kept ++ List.replicate n CTxOut.null).rdropWhile CTxOut.isNull =
      s.coins.vout.map kept := by
  have hclean : s.coins.vout.rdropWhile CTxOut.isNull = s.coins.vout :=
    congrArg CCoins.vout s.cleaned
  rw [rdropWhile_append_replicate, rdropWhile_eq_self_iff] at *
  intro hne
  rw [getLast_map, kept_isNull]
  exact hclean s.nonempty

theorem testBit_flags (m : Nat) :
    (16 * m + c.flagCode).testBit 0 = c.fCoinBase ∧ (16 * m + c.flagCode).testBit 1 = c.fCoinStake ∧
      (16 * m + c.flagCode).testBit 2 = c.isAvailable 0 ∧
      (16 * m + c.flagCode).testBit 3 = c.isAvailable 1 ∧ (16 * m + c.flagCode) / 16 = m := by
  rw [flagCode]
  generalize c.fCoinBase = b0, c.fCoinStake = b1, c.isAvailable 0 = b2, c.isAvailable 1 = b3
  simp only [Nat.testBit_eq_decide_div_mod_eq]
  cases b0 <;> cases b1 <;> cases b2 <;> cases b3 <;>
    simp only [Bool.false_eq_true, if_true, if_false, decide_eq_true_eq, decide_eq_false_iff_not] <;>
    omega

theorem maskSize_ne_zero_iff : c.calcMaskSize.2 ≠ 0 ↔ ∃ n, 2 ≤ n ∧ c.isAvailable n = true := by
  have hsize := c.maskSize
  rw [hsize.count]
  constructor
  · intro hne
    obtain ⟨b, -, hb⟩ := countP_pos_iff.mp (Nat.pos_of_ne_zero hne)
    rw [fZero, Bool.not_eq_true', List.all_eq_false] at hb
    obtain ⟨i, -, hi⟩ := hb
    exact ⟨2 + b * 8 + i, by omega, by simpa [maskBit] using hi⟩
  · intro hex
    obtain ⟨n, hn, havail⟩ := hex
    have hlt : n < c.vout.length := by
      by_contra hge
      rw [isAvailable, getElem?_eq_none (by omega)] at havail
      cases havail
    have hbyte : c.fZero ((n - 2) / 8) = false := by
      rw [fZero, List.all_eq_false]
      refine ⟨(n - 2) % 8, mem_range.mpr (Nat.mod_lt _ (by decide)), ?_⟩
      have hposition : 2 + (n - 2) / 8 * 8 + (n - 2) % 8 = n := by omega
      rw [maskBit, hposition, havail]
      decide
    have hinside : (n - 2) / 8 < c.calcMaskSize.1 := by
      by_contra hge
      rw [hsize.after _ (by omega) (by omega)] at hbyte
      cases hbyte
    exact (countP_pos_iff.mpr ⟨_, mem_range.mpr hinside, by rw [hbyte]; rfl⟩).ne'

theorem serializable_iff : c.serializable = true ↔ c.isPruned = false := by
  have hpruned : c.isPruned = false ↔ ∃ n, c.isAvailable n = true := by
    rw [← Bool.not_eq_true, isPruned_iff, not_forall]
    exact exists_congr fun n => by rw [isAvailable_iff, ← ne_eq, Option.ne_none_iff_exists']
  rw [hpruned, serializable, Bool.or_eq_true, Bool.or_eq_true, bne_iff_ne, maskSize_ne_zero_iff]
  constructor
  · intro hcases
    rcases hcases with (hfirst | hsecond) | ⟨n, -, hn⟩
    · exact ⟨0, hfirst⟩
    · exact ⟨1, hsecond⟩
    · exact ⟨n, hn⟩
  · intro hex
    obtain ⟨n, hn⟩ := hex
    rcases Nat.lt_or_ge n 2 with hlt | hge
    · rcases (by omega : n = 0 ∨ n = 1) with rfl | rfl
      · exact .inl (.inl hn)
      · exact .inl (.inr hn)
    · exact .inr ⟨n, hge, hn⟩

theorem maskCode_add (h : c.serializable = true) :
    c.maskCode + (if c.isAvailable 0 || c.isAvailable 1 then 0 else 1) = c.calcMaskSize.2 := by
  rw [maskCode]
  cases hfirst : c.isAvailable 0 || c.isAvailable 1 with
  | true => rfl
  | false =>
    rw [serializable, hfirst, Bool.false_or, bne_iff_ne] at h
    simp only [Bool.false_eq_true, if_false]
    omega

theorem flagCode_lt : c.flagCode < 16 := by
  rw [flagCode]
  split_ifs <;> omega

theorem reads_coins (hK : K.Inverts) (s : StoredCoins)
    (hversion : 0 ≤ s.coins.nVersion ∧ s.coins.nVersion < 2 ^ 31)
    (hheight : s.coins.nHeight < 2 ^ 31) (hcode : s.coins.maskCode < 2 ^ 28)
    (houts : ∀ out ∈ s.coins.vout, out.isNull = false → Storable out) :
    ∃ written, s.coins.serialize K = some written ∧
      Reads (unserialize K) written { s.coins with vout := s.coins.vout.map kept } := by
  have hserial := s.coins.serializable_iff.mpr s.isPruned_coins
  have hflags := s.coins.flagCode_lt
  have hheader : s.coins.headerCode = 16 * s.coins.maskCode + s.coins.flagCode :=
    Nat.mod_eq_of_lt (by omega)
  obtain ⟨hbase, hstake, hfirst, hsecond, hcount⟩ := s.coins.testBit_flags s.coins.maskCode
  have hcodeRead := (reads_uint32 (n := s.coins.headerCode) (by omega) (by omega)).map Int.toNat
  rw [Int.toNat_natCast, hheader] at hcodeRead
  have hmask := reads_mask s.coins.mask _ [s.coins.isAvailable 0, s.coins.isAvailable 1]
    (countP_mask s.coins) (mask_last s.coins)
  rw [mask, mask_unpacked, map_isAvailable s.coins (length_le_mask s)] at hmask
  have hreadHeight := reads_int (n := s.coins.nHeight) (by omega) (by omega)
  refine ⟨_, by rw [serialize, guard, if_pos hserial]; rfl, ?_⟩
  rw [unserialize, hheader]
  refine (reads_int hversion.1 hversion.2).bind (hcodeRead.bind ?_)
  rw [hbase, hstake, hfirst, hsecond, hcount, maskCode_add s.coins hserial]
  refine hmask.bind ((reads_outs hK s.coins.vout _ houts).bind (hreadHeight.bind_last ?_))
  rw [cleanup, cleanup_kept, Int.toNat_natCast]

def Plain (out : CTxOut) : Prop := out.nRounds = -10 ∧ (out.isNull = true → out.scriptPubKey = [])

theorem kept_eq_iff (out : CTxOut) : kept out = out ↔ Plain out := by
  obtain ⟨nValue, scriptPubKey, nRounds⟩ := out
  rw [kept, Plain]
  by_cases hnull : (CTxOut.mk nValue scriptPubKey nRounds).isNull = true
  · have hvalue : nValue = -1 := eq_of_beq hnull
    rw [if_pos hnull, CTxOut.null, CTxOut.mk.injEq, hvalue]
    constructor
    · intro h
      exact ⟨h.2.2.symm, fun _ => h.2.1.symm⟩
    · intro h
      exact ⟨rfl, (h.2 (hvalue ▸ hnull)).symm, h.1.symm⟩
  · rw [if_neg hnull, CTxOut.null, CTxOut.mk.injEq]
    constructor
    · intro h
      exact ⟨h.2.2.symm, fun hnull' => absurd hnull' hnull⟩
    · intro h
      exact ⟨rfl, rfl, h.1.symm⟩

theorem map_kept_eq_iff (vout : List CTxOut) : vout.map kept = vout ↔ ∀ out ∈ vout, Plain out := by
  have hmap := map_inj_left (l := vout) (f := kept) (g := id)
  rw [List.map_id] at hmap
  exact hmap.trans (forall₂_congr fun out _ => kept_eq_iff out)

def plainCoins : StoredCoins where
  coins := { fCoinStake := true, vout := [CTxOut.null, ⟨50, [0x51], -10⟩], nHeight := 7, nVersion := 1 }
  cleaned := by decide
  nonempty := by decide

/- The code from which the size is computed. -/
def sizeCode : Nat := (8 * c.maskCode + c.flagCode) % 2 ^ 32

/- The size of an output is what is written of it, as the size computer counts. -/
def getSerializeSize (K : KeyRules) (c : CCoins) : Option Nat := do
  guard c.serializable
  return (sizeOfVarInt32 c.nVersion + sizeOfVarInt32 c.sizeCode + c.calcMaskSize.1 +
    (c.vout.map fun out => if out.isNull then 0 else (writeTxOut K out).length).sum +
    sizeOfVarInt32 c.nHeight) % 2 ^ 32

theorem length_outs (K : KeyRules) (vout : List CTxOut) :
    (vout.flatMap fun out => if out.isNull then [] else writeTxOut K out).length =
      (vout.map fun out => if out.isNull then 0 else (writeTxOut K out).length).sum := by
  rw [length_flatMap]
  congr 1
  refine map_congr_left fun out _ => ?_
  split
  · rfl
  · rfl

def digitBounds : List Nat := [128, 16512, 2113664, 270549120]

theorem sizeOfVarInt32_eq (n : Nat) (h : n < 2 ^ 32) :
    sizeOfVarInt32 n = 1 + digitBounds.countP fun bound => bound ≤ n := by
  simp only [sizeOfVarInt32, Lib.VarInt.size, digitBounds, countP_cons, countP_nil,
    decide_eq_true_eq]
  split_ifs <;> omega

theorem countP_eq_iff_of_imp {α : Type} {p q : α → Bool} (h : ∀ a, p a = true → q a = true)
    (l : List α) : l.countP p = l.countP q ↔ ∀ a ∈ l, q a = true → p a = true := by
  induction l with
  | nil => simp
  | cons a l ih =>
    have hle : l.countP p ≤ l.countP q := countP_mono_left fun b _ => h b
    rw [forall_mem_cons, ← ih, countP_cons, countP_cons]
    have ha := h a
    cases hp : p a with
    | true => simp [ha hp]
    | false =>
      cases hq : q a with
      | true =>
        rw [if_neg Bool.false_ne_true, if_pos rfl]
        exact iff_of_false (by omega) fun hall => Bool.false_ne_true (hall.1 rfl)
      | false => simp

theorem sizeOfVarInt32_eq_iff {a b : Nat} (ha : a < 2 ^ 32) (hb : b < 2 ^ 32) :
    sizeOfVarInt32 a = sizeOfVarInt32 b ↔ ∀ bound ∈ digitBounds, bound ≤ a ↔ bound ≤ b := by
  have hcase : ∀ {a b : Nat}, a ≤ b →
      (digitBounds.countP (fun bound => decide (bound ≤ a)) =
        digitBounds.countP (fun bound => decide (bound ≤ b)) ↔
          ∀ bound ∈ digitBounds, bound ≤ a ↔ bound ≤ b) := fun {a b} hab => by
    rw [countP_eq_iff_of_imp fun bound hbound =>
      decide_eq_true ((of_decide_eq_true hbound).trans hab)]
    refine forall₂_congr fun bound _ => ?_
    rw [decide_eq_true_eq, decide_eq_true_eq]
    exact ⟨fun h => ⟨fun hle => hle.trans hab, h⟩, fun h => h.mpr⟩
  rw [sizeOfVarInt32_eq a ha, sizeOfVarInt32_eq b hb, Nat.add_left_cancel_iff]
  rcases Nat.le_total a b with hab | hba
  · exact hcase hab
  · rw [eq_comm, hcase hba]
    exact forall₂_congr fun bound _ => Iff.comm

/- The size is that of what is written exactly if no bound lies between the two codes (and it fits
the result). -/
theorem getSerializeSize_iff (K : KeyRules) (c : CCoins) (h : c.isPruned = false) :
    ∃ written, c.serialize K = some written ∧
      (c.getSerializeSize K = some written.length ↔
        (∀ bound ∈ digitBounds, bound ≤ c.sizeCode ↔ bound ≤ c.headerCode) ∧
          written.length < 2 ^ 32) := by
  have hserial := c.serializable_iff.mpr h
  have hheader : c.headerCode < 2 ^ 32 := Nat.mod_lt _ (by decide)
  have hsize : c.sizeCode < 2 ^ 32 := Nat.mod_lt _ (by decide)
  refine ⟨_, by rw [serialize, guard, if_pos hserial]; rfl, ?_⟩
  rw [getSerializeSize, guard, if_pos hserial, ← sizeOfVarInt32_eq_iff hsize hheader]
  simp only [length_append, length_map, length_range, length_outs]
  rw [writeVarInt32, writeVarInt32, writeVarInt32, Lib.VarInt.length_write,
    Lib.VarInt.length_write, Lib.VarInt.length_write]
  have hle := Lib.VarInt.size_le 5 c.sizeCode
  have hle' := Lib.VarInt.size_le 5 c.headerCode
  show some (_ % _) = some _ ↔ _
  rw [Option.some.injEq]
  simp only [sizeOfVarInt32]
  omega

def wideCoins : CCoins where
  vout := (List.range 66).map fun i => if i = 0 ∨ (9 ≤ i ∧ i % 8 = 1) then ⟨1, [], -10⟩ else CTxOut.null
  nHeight := 1
  nVersion := 1

theorem wideCoins_short : wideCoins.isPruned = false ∧
    ∃ written, wideCoins.serialize soleRules = some written ∧
      wideCoins.getSerializeSize soleRules = some (written.length - 1) ∧ written.length = 30 := by
  refine ⟨by decide, _, rfl, ?_, ?_⟩
  · decide +kernel
  · decide +kernel

theorem getSerializeSize_plain : plainCoins.coins.isPruned = false ∧
    ∃ written, plainCoins.coins.serialize soleRules = some written ∧
      plainCoins.coins.getSerializeSize soleRules = some written.length := by
  obtain ⟨written, hwritten, hsize⟩ := getSerializeSize_iff soleRules plainCoins.coins (by decide)
  refine ⟨by decide, written, hwritten, hsize.mpr ⟨by decide, ?_⟩⟩
  have hlength : (plainCoins.coins.serialize soleRules).map List.length = some 6 := by decide +kernel
  rw [hwritten] at hlength
  have hsix := Option.some.inj hlength
  omega

end CCoins

end Alqo
