import Alqo.ConnectTx
import Alqo.Lib.VarInt

/-!
# Outputs as they are written to disk (compressor.h, compressor.cpp, serialize.h)

A key written in full in a script is only compressed if it is valid, so that it can be computed from
its x coordinate.
-/

namespace Alqo
open Lib.Codec List

/- `int`, `unsigned int` and `uint64_t` -/
def asInt (n : Int) : Int := n.bmod (2 ^ 32)
def asUInt32 (n : Int) : Int := n % 2 ^ 32
def asUInt64 (n : Int) : Int := n % 2 ^ 64

/- `tmp` has (sizeof(n) * 8 + 6) / 7 bytes -/
def writeVarInt32 (n : Int) : Bytes := Lib.VarInt.write 5 n
def writeVarInt64 (n : Int) : Bytes := Lib.VarInt.write 10 n

/- `GetSizeOfVarInt` -/
def sizeOfVarInt32 (n : Int) : Nat := Lib.VarInt.size 5 n
def sizeOfVarInt64 (n : Int) : Nat := Lib.VarInt.size 10 n

variable {n : Int} {K : KeyRules} {script : CScript} {l pubkey : Bytes}

theorem reads_int (hpos : 0 ≤ n) (hlt : n < 2 ^ 31) :
    Reads (Lib.VarInt.read asInt) (writeVarInt32 n) n := by
  refine Lib.VarInt.reads_write 4 hpos (by omega) fun m hm hle => ?_
  exact Int.bmod_eq_of_le (by omega) (by omega)

theorem reads_uint32 (hpos : 0 ≤ n) (hlt : n < 2 ^ 32) :
    Reads (Lib.VarInt.read asUInt32) (writeVarInt32 n) n := by
  refine Lib.VarInt.reads_write 4 hpos (by omega) fun m hm hle => ?_
  exact Int.emod_eq_of_lt hm (by omega)

theorem reads_uint64 (hpos : 0 ≤ n) (hlt : n < 2 ^ 64) :
    Reads (Lib.VarInt.read asUInt64) (writeVarInt64 n) n := by
  refine Lib.VarInt.reads_write 9 hpos (by omega) fun m hm hle => ?_
  exact Int.emod_eq_of_lt hm (by omega)

/- The bytes stand for a number that the type can hold. -/
def NumberBelow (bound : Int) (bs : Bytes) : Prop :=
  ∃ v < bound, Lib.VarInt.read id bs = some (v, [])

/- What is written is read back. Bytes that are read as one number are those written for it exactly
if no digit was lost. -/
theorem varInt_oneForm_iff (bs : Bytes) (n : Int) :
    (0 ≤ n → n < 2 ^ 32 → Reads (Lib.VarInt.read asUInt32) (writeVarInt32 n) n ∧
      (writeVarInt32 n).length = sizeOfVarInt32 n) ∧
    (0 ≤ n → n < 2 ^ 64 → Reads (Lib.VarInt.read asUInt64) (writeVarInt64 n) n ∧
      (writeVarInt64 n).length = sizeOfVarInt64 n) ∧
    (Lib.VarInt.read asUInt32 bs = some (n, []) →
      (bs = writeVarInt32 n ↔ NumberBelow (2 ^ 32) bs)) ∧
    (Lib.VarInt.read asUInt64 bs = some (n, []) →
      (bs = writeVarInt64 n ↔ NumberBelow (2 ^ 64) bs)) := by
  refine ⟨fun hpos hlt => ?_, fun hpos hlt => ?_, fun h => ?_, fun h => ?_⟩
  · exact ⟨reads_uint32 hpos hlt, Lib.VarInt.length_write 5 n⟩
  · exact ⟨reads_uint64 hpos hlt, Lib.VarInt.length_write 10 n⟩
  · exact Lib.VarInt.eq_write_iff (by decide) (by decide) h
  · exact Lib.VarInt.eq_write_iff (by decide) (by decide) h

/- The number 2 ^ 32 is read as zero. -/
theorem readVarInt_loses_digits :
    Lib.VarInt.read asUInt32 [0x8e, 0xfe, 0xfe, 0xff, 0x00] = some (0, []) ∧
      writeVarInt32 0 = [0x00] := by decide

/- The loop that divides by ten, with the turns that are left. -/
def stripZeros : (turns : Nat) → (n : Nat) → Nat × Nat
  | 0, n => (n, 0)
  | turns + 1, n =>
    if n % 10 = 0 then
      let (m, e) := stripZeros turns (n / 10)
      (m, e + 1)
    else (n, 0)

def compressAmount (n : Nat) : Nat :=
  if n = 0 then 0
  else
    let (n, e) := stripZeros 9 n
    if e < 9 then (1 + (n / 10 * 9 + n % 10 - 1) * 10 + e) % 2 ^ 64
    else (1 + (n - 1) * 10 + 9) % 2 ^ 64

def decompressAmount (x : Nat) : Nat :=
  if x = 0 then 0
  else
    let x := x - 1
    let e := x % 10
    let x := x / 10
    let n := if e < 9 then x / 9 * 10 + (x % 9 + 1) else x + 1
    n * 10 ^ e % 2 ^ 64

theorem stripZeros_spec (turns n : Nat) (hpos : 0 < n) :
    n = (stripZeros turns n).1 * 10 ^ (stripZeros turns n).2 ∧ 0 < (stripZeros turns n).1 ∧
      (stripZeros turns n).2 ≤ turns ∧
      ((stripZeros turns n).2 < turns → (stripZeros turns n).1 % 10 ≠ 0) := by
  induction turns generalizing n with
  | zero => exact ⟨(Nat.mul_one n).symm, hpos, Nat.le_refl _, fun h => absurd h (Nat.lt_irrefl _)⟩
  | succ turns ih =>
    by_cases hzero : n % 10 = 0
    · obtain ⟨heq, hpos', hle, hlast⟩ := ih (n / 10) (by omega)
      simp only [stripZeros, if_pos hzero]
      refine ⟨?_, hpos', by omega, fun hlt => hlast (by omega)⟩
      rw [Nat.pow_succ, ← Nat.mul_assoc, ← heq]
      omega
    · simp only [stripZeros, if_neg hzero]
      exact ⟨(Nat.mul_one n).symm, hpos, Nat.zero_le _, fun _ => hzero⟩

def compressExact (n : Nat) : Nat :=
  if n = 0 then 0
  else
    let (n, e) := stripZeros 9 n
    if e < 9 then 1 + (n / 10 * 9 + n % 10 - 1) * 10 + e else 1 + (n - 1) * 10 + 9

def decompressExact (x : Nat) : Nat :=
  if x = 0 then 0
  else
    let x := x - 1
    let e := x % 10
    let x := x / 10
    let n := if e < 9 then x / 9 * 10 + (x % 9 + 1) else x + 1
    n * 10 ^ e

theorem compressAmount_eq (n : Nat) : compressAmount n = compressExact n % 2 ^ 64 := by
  rw [compressAmount, compressExact]
  dsimp only
  split
  · rfl
  · split
    · rfl
    · rfl

theorem decompressAmount_eq (x : Nat) : decompressAmount x = decompressExact x % 2 ^ 64 := by
  rw [decompressAmount, decompressExact]
  split
  · rfl
  · rfl

theorem compressExact_le (n : Nat) : compressExact n ≤ 10 * n := by
  by_cases hzero : n = 0
  · rw [hzero]
    decide
  · obtain ⟨heq, hpos, hle, hlast⟩ := stripZeros_spec 9 n (by omega)
    rw [compressExact, if_neg hzero]
    generalize stripZeros 9 n = stripped at heq hpos hle hlast
    obtain ⟨m, e⟩ := stripped
    dsimp only at heq hpos hle hlast ⊢
    have hten : 0 < 10 ^ e := Nat.pow_pos (by decide)
    have hm : m ≤ n := heq ▸ Nat.le_mul_of_pos_right m hten
    split
    · omega
    · omega

theorem decompressExact_compressExact (n : Nat) : decompressExact (compressExact n) = n := by
  by_cases hzero : n = 0
  · rw [hzero]
    decide
  · obtain ⟨heq, hpos, hle, hlast⟩ := stripZeros_spec 9 n (by omega)
    rw [compressExact, if_neg hzero]
    generalize stripZeros 9 n = stripped at heq hpos hle hlast
    obtain ⟨m, e⟩ := stripped
    dsimp only at heq hpos hle hlast ⊢
    by_cases he : e < 9
    · have hdigit := hlast he
      rw [if_pos he, decompressExact, if_neg (by omega)]
      dsimp only
      have hexp : (1 + (m / 10 * 9 + m % 10 - 1) * 10 + e - 1) % 10 = e := by omega
      have hrest : (1 + (m / 10 * 9 + m % 10 - 1) * 10 + e - 1) / 10 = m / 10 * 9 + m % 10 - 1 := by
        omega
      have hnumber : (m / 10 * 9 + m % 10 - 1) / 9 * 10 + ((m / 10 * 9 + m % 10 - 1) % 9 + 1) = m := by
        omega
      rw [hexp, hrest, if_pos he, hnumber, ← heq]
    · have hnine : e = 9 := by omega
      subst hnine
      rw [if_neg he, decompressExact, if_neg (by omega)]
      dsimp only
      have hexp : (1 + (m - 1) * 10 + 9 - 1) % 10 = 9 := by omega
      have hrest : (1 + (m - 1) * 10 + 9 - 1) / 10 + 1 = m := by omega
      rw [hexp, if_neg he, hrest, ← heq]

theorem decompressAmount_compressAmount (n : Nat) (h : n < 2 ^ 60) :
    compressAmount n < 2 ^ 64 ∧ decompressAmount (compressAmount n) = n := by
  have hle := compressExact_le n
  rw [compressAmount_eq, Nat.mod_eq_of_lt (by omega), decompressAmount_eq,
    decompressExact_compressExact]
  exact ⟨by omega, Nat.mod_eq_of_lt (by omega)⟩

theorem stripZeros_mul {turns e m : Nat} (hle : e ≤ turns) (hlast : e < turns → m % 10 ≠ 0) :
    stripZeros turns (m * 10 ^ e) = (m, e) := by
  induction e generalizing turns with
  | zero =>
    rw [Nat.pow_zero, Nat.mul_one]
    cases turns with
    | zero => rfl
    | succ turns => rw [stripZeros, if_neg (hlast (Nat.succ_pos _))]
  | succ e ih =>
    cases turns with
    | zero => omega
    | succ turns =>
      have hten : m * 10 ^ (e + 1) = m * 10 ^ e * 10 := by rw [Nat.pow_succ, Nat.mul_assoc]
      rw [stripZeros, hten, if_pos (Nat.mul_mod_left _ _), Nat.mul_div_cancel _ (by decide),
        ih (by omega) fun hlt => hlast (by omega)]

theorem compressExact_decompressExact (x : Nat) : compressExact (decompressExact x) = x := by
  by_cases hzero : x = 0
  · rw [hzero]
    decide
  · rw [decompressExact, if_neg hzero]
    dsimp only
    have hpos : ∀ e m : Nat, 0 < m → m * 10 ^ e ≠ 0 := fun e m hm =>
      (Nat.mul_pos hm (Nat.pow_pos (by decide))).ne'
    by_cases he : (x - 1) % 10 < 9
    · rw [if_pos he, compressExact, if_neg (hpos _ _ (by omega)),
        stripZeros_mul (by omega) fun _ => by omega]
      dsimp only
      rw [if_pos he]
      omega
    · rw [if_neg he, compressExact, if_neg (hpos _ _ (by omega)),
        stripZeros_mul (by omega) fun hlt => absurd hlt he]
      dsimp only
      rw [if_neg he]
      omega

/- Amounts of the money range survive without a wrap, and so does every code whose amount fits. -/
theorem amount_round_trips : (∀ n : Nat, n ≤ mainParams.nMaxMoneyOut.toInt.toNat →
      compressAmount n = compressExact n ∧
        decompressAmount (compressAmount n) = decompressExact (compressAmount n) ∧
        decompressAmount (compressAmount n) = n) ∧
    ∀ x : Nat, x < 2 ^ 64 → decompressExact x < 2 ^ 64 →
      compressAmount (decompressAmount x) = x := by
  have hmax : mainParams.nMaxMoneyOut.toInt.toNat = 2100000000000000 := by decide
  refine ⟨fun n hn => ?_, fun x hx hfits => ?_⟩
  · have hle := compressExact_le n
    have hcode : compressAmount n = compressExact n := by
      rw [compressAmount_eq, Nat.mod_eq_of_lt (by omega)]
    have hback := decompressExact_compressExact n
    have hamount : decompressAmount (compressAmount n) = n :=
      (decompressAmount_compressAmount n (by omega)).2
    refine ⟨hcode, ?_, hamount⟩
    rw [hamount, hcode, hback]
  · rw [decompressAmount_eq, Nat.mod_eq_of_lt hfits, compressAmount_eq,
      compressExact_decompressExact, Nat.mod_eq_of_lt hx]

/- `CPubKey::IsFullyValid` and `CPubKey::Decompress` on the bytes of a key -/
structure KeyRules where
  isFullyValid : Bytes → Bool
  decompress : Bytes → Option Bytes

def KeyRules.Inverts (K : KeyRules) : Prop :=
  ∀ x y : Bytes, ∀ last : UInt8, x.length = 32 → y.length = 31 →
    K.isFullyValid (0x04 :: (x ++ (y ++ [last]))) = true →
    K.decompress ((0x02 ||| (last &&& 0x01)) :: x) = some (0x04 :: (x ++ (y ++ [last])))

def slice (script : CScript) (from_ size : Nat) : Bytes := (script.drop from_).take size

def isToKeyID (script : CScript) : Option Bytes :=
  if script.length = 25 ∧ script[0]? = some OP_DUP ∧ script[1]? = some OP_HASH160 ∧
      script[2]? = some 20 ∧ script[23]? = some OP_EQUALVERIFY ∧ script[24]? = some OP_CHECKSIG then
    some (slice script 3 20)
  else none

def isToScriptID (script : CScript) : Option Bytes :=
  if script.length = 23 ∧ script[0]? = some OP_HASH160 ∧ script[1]? = some 20 ∧
      script[22]? = some OP_EQUAL then
    some (slice script 2 20)
  else none

def isToPubKey (K : KeyRules) (script : CScript) : Option Bytes :=
  if script.length = 35 ∧ script[0]? = some 33 ∧ script[34]? = some OP_CHECKSIG ∧
      (script[1]? = some 0x02 ∨ script[1]? = some 0x03) then
    some (slice script 1 33)
  else if script.length = 67 ∧ script[0]? = some 65 ∧ script[66]? = some OP_CHECKSIG ∧
      script[1]? = some 0x04 then
    if K.isFullyValid (slice script 1 65) then some (slice script 1 65) else none
  else none

/- The last part of `Compress`. -/
def compressKey (pubkey : Bytes) : Option Bytes :=
  match pubkey[0]? with
  | none => none
  | some b =>
    if b = 0x02 ∨ b = 0x03 then some (b :: slice pubkey 1 32)
    else if b = 0x04 then some ((0x04 ||| (pubkey.getD 64 0 &&& 0x01)) :: slice pubkey 1 32)
    else none

def compress (K : KeyRules) (script : CScript) : Option Bytes :=
  match isToKeyID script with
  | some keyID => some (0x00 :: keyID)
  | none =>
    match isToScriptID script with
    | some scriptID => some (0x01 :: scriptID)
    | none => (isToPubKey K script).bind compressKey

def getSpecialSize (nSize : Nat) : Nat :=
  if nSize = 0 ∨ nSize = 1 then 20
  else if nSize = 2 ∨ nSize = 3 ∨ nSize = 4 ∨ nSize = 5 then 32
  else 0

/- `none` is the failed assertion. A script that is not made stays as it
is. -/
def decompress (K : KeyRules) (script : CScript) (nSize : Nat) (vch : Bytes) : Option CScript :=
  if nSize = 0 then
    some ([OP_DUP, OP_HASH160, 20] ++ (vch ++ [OP_EQUALVERIFY, OP_CHECKSIG]))
  else if nSize = 1 then some ([OP_HASH160, 20] ++ (vch ++ [OP_EQUAL]))
  else if nSize = 2 ∨ nSize = 3 then some ([33, UInt8.ofNat nSize] ++ (vch ++ [OP_CHECKSIG]))
  else if nSize = 4 ∨ nSize = 5 then
    match K.decompress (UInt8.ofNat (nSize - 2) :: vch) with
    | none => some script
    | some pubkey => if pubkey.length = 65 then some ([65] ++ (pubkey ++ [OP_CHECKSIG])) else none
  else some script

def nSpecialScripts : Nat := 6

def writeScript (K : KeyRules) (script : CScript) : Bytes :=
  match compress K script with
  | some compr => compr
  | none => writeVarInt32 (asUInt32 (script.length + nSpecialScripts)) ++ script

def readScript (K : KeyRules) (script : CScript) : Reader UInt8 CScript := do
  let nSize ← Int.toNat <$> Lib.VarInt.read asUInt32
  if nSize < nSpecialScripts then do
    let vch ← take (getSpecialSize nSize)
    lift (decompress K script nSize vch)
  else do
    let nSize := nSize - nSpecialScripts
    let vch ← take nSize
    return if nSize > MAX_SCRIPT_SIZE then script ++ [OP_RETURN] else vch

theorem drop_eq_cons {n : Nat} {b : UInt8} (h : l[n]? = some b) :
    l.drop n = b :: l.drop (n + 1) := by
  obtain ⟨hlt, hb⟩ := List.getElem?_eq_some_iff.mp h
  rw [drop_eq_getElem_cons hlt, hb]

theorem drop_eq_slice (l : Bytes) (from_ size : Nat) :
    l.drop from_ = slice l from_ size ++ l.drop (from_ + size) := by
  rw [slice, ← drop_drop, take_append_drop]

theorem slice_add (l : Bytes) (from_ size more : Nat) :
    slice l from_ (size + more) = slice l from_ size ++ slice l (from_ + size) more := by
  rw [slice, slice, slice, take_add, drop_drop]

theorem length_slice {from_ size : Nat} (h : from_ + size ≤ l.length) :
    (slice l from_ size).length = size := by
  rw [slice, length_take, length_drop]
  omega

theorem isToKeyID_eq {keyID : Bytes} (h : isToKeyID script = some keyID) : keyID.length = 20 ∧
      script = [OP_DUP, OP_HASH160, 20] ++ (keyID ++ [OP_EQUALVERIFY, OP_CHECKSIG]) := by
  rw [isToKeyID] at h
  split at h
  · rename_i hform
    obtain ⟨hlength, h0, h1, h2, h23, h24⟩ := hform
    cases h
    refine ⟨length_slice (by omega), ?_⟩
    calc script = script.drop 0 := rfl
      _ = OP_DUP :: OP_HASH160 :: 20 :: script.drop 3 := by
        rw [drop_eq_cons h0, drop_eq_cons h1, drop_eq_cons h2]
      _ = OP_DUP :: OP_HASH160 :: 20 :: (slice script 3 20 ++ script.drop 23) := by
        rw [drop_eq_slice script 3 20]
      _ = _ := by
        rw [drop_eq_cons h23, drop_eq_cons h24, drop_eq_nil_of_le (by omega)]
        rfl
  · cases h

theorem isToScriptID_eq {scriptID : Bytes} (h : isToScriptID script = some scriptID) :
    scriptID.length = 20 ∧ script = [OP_HASH160, 20] ++ (scriptID ++ [OP_EQUAL]) := by
  rw [isToScriptID] at h
  split at h
  · rename_i hform
    obtain ⟨hlength, h0, h1, h22⟩ := hform
    cases h
    refine ⟨length_slice (by omega), ?_⟩
    calc script = script.drop 0 := rfl
      _ = OP_HASH160 :: 20 :: script.drop 2 := by rw [drop_eq_cons h0, drop_eq_cons h1]
      _ = OP_HASH160 :: 20 :: (slice script 2 20 ++ script.drop 22) := by
        rw [drop_eq_slice script 2 20]
      _ = _ := by
        rw [drop_eq_cons h22, drop_eq_nil_of_le (by omega)]
        rfl
  · cases h

theorem isToPubKey_cases (h : isToPubKey K script = some pubkey) :
    (∃ b x, (b = 0x02 ∨ b = 0x03) ∧ x.length = 32 ∧ pubkey = b :: x ∧
      script = [33, b] ++ (x ++ [OP_CHECKSIG])) ∨
    (∃ x y last, x.length = 32 ∧ y.length = 31 ∧ pubkey = 0x04 :: (x ++ (y ++ [last])) ∧
      K.isFullyValid pubkey = true ∧ script = [65] ++ (pubkey ++ [OP_CHECKSIG])) := by
  rw [isToPubKey] at h
  split at h
  · rename_i hform
    obtain ⟨hlength, h0, h34, h1⟩ := hform
    cases h
    obtain ⟨b, hb, hb1⟩ : ∃ b : UInt8, (b = 0x02 ∨ b = 0x03) ∧ script[1]? = some b :=
      h1.elim (fun h => ⟨_, .inl rfl, h⟩) fun h => ⟨_, .inr rfl, h⟩
    refine .inl ⟨b, slice script 2 32, hb, length_slice (by omega), ?_, ?_⟩
    · rw [slice, drop_eq_cons hb1, take_succ_cons]
      rfl
    · calc script = script.drop 0 := rfl
        _ = 33 :: b :: script.drop 2 := by rw [drop_eq_cons h0, drop_eq_cons hb1]
        _ = 33 :: b :: (slice script 2 32 ++ script.drop 34) := by rw [drop_eq_slice script 2 32]
        _ = _ := by
          rw [drop_eq_cons h34, drop_eq_nil_of_le (by omega)]
          rfl
  · split at h
    · rename_i hform
      obtain ⟨hlength, h0, h66, h1⟩ := hform
      split at h
      · rename_i hvalid
        cases h
        have hlast : 65 < script.length := by omega
        refine .inr ⟨slice script 2 32, slice script 34 31, script[65], length_slice (by omega),
          length_slice (by omega), ?_, hvalid, ?_⟩
        · calc slice script 1 65 = slice script 1 (1 + (32 + (31 + 1))) := rfl
            _ = slice script 1 1 ++ (slice script 2 32 ++ (slice script 34 31 ++
                slice script 65 1)) := by rw [slice_add, slice_add, slice_add]
            _ = _ := by
              rw [slice, drop_eq_cons h1, slice.eq_1 script 65 1, drop_eq_getElem_cons hlast]
              rfl
        · calc script = script.drop 0 := rfl
            _ = 65 :: script.drop 1 := by rw [drop_eq_cons h0]
            _ = 65 :: (slice script 1 65 ++ script.drop 66) := by rw [drop_eq_slice script 1 65]
            _ = _ := by
              rw [drop_eq_cons h66, drop_eq_nil_of_le (by omega)]
              rfl
      · cases h
    · cases h

theorem decompress_key {vch : Bytes} {nSize : Nat} (hsize : nSize = 4 ∨ nSize = 5)
    (hkey : K.decompress (UInt8.ofNat (nSize - 2) :: vch) = some pubkey)
    (hlength : pubkey.length = 65) (base : CScript) :
    decompress K base nSize vch = some ([65] ++ (pubkey ++ [OP_CHECKSIG])) := by
  rw [decompress, if_neg (by omega), if_neg (by omega), if_neg (by omega), if_pos hsize, hkey]
  exact if_pos hlength

theorem and_one_cases (b : UInt8) : b &&& 1 = 0 ∨ b &&& 1 = 1 := by
  have hmod : (b &&& 1).toNat = b.toNat % 2 := by
    rw [UInt8.toNat_and]
    exact Nat.and_one_is_mod _
  rcases Nat.mod_two_eq_zero_or_one b.toNat with hzero | hone
  · exact .inl (UInt8.toNat_inj.mp (hmod.trans hzero))
  · exact .inr (UInt8.toNat_inj.mp (hmod.trans hone))

theorem compress_cases {compr : Bytes} (h : compress K script = some compr) (hK : K.Inverts)
    (base : CScript) : ∃ nSize vch, nSize < nSpecialScripts ∧ compr = UInt8.ofNat nSize :: vch ∧
      vch.length = getSpecialSize nSize ∧ decompress K base nSize vch = some script := by
  rw [compress] at h
  cases hkey : isToKeyID script with
  | some keyID =>
    rw [hkey] at h
    cases h
    obtain ⟨hlength, hscript⟩ := isToKeyID_eq hkey
    exact ⟨0, keyID, by decide, rfl, hlength, by rw [decompress, if_pos rfl, ← hscript]⟩
  | none =>
    rw [hkey] at h
    cases hid : isToScriptID script with
    | some scriptID =>
      rw [hid] at h
      cases h
      obtain ⟨hlength, hscript⟩ := isToScriptID_eq hid
      refine ⟨1, scriptID, by decide, rfl, hlength, ?_⟩
      rw [decompress, if_neg (by decide), if_pos rfl, ← hscript]
    | none =>
      rw [hid] at h
      obtain ⟨pubkey, hpubkey, hcompr⟩ := Option.bind_eq_some_iff.mp h
      rcases isToPubKey_cases hpubkey with ⟨b, x, hb, hx, rfl, hscript⟩ |
        ⟨x, y, last, hx, hy, rfl, hvalid, hscript⟩
      · have hslice : slice (b :: x) 1 32 = x := take_of_length_le hx.le
        rw [compressKey, getElem?_cons_zero] at hcompr
        dsimp only at hcompr
        rw [if_pos hb, hslice] at hcompr
        cases hcompr
        refine ⟨b.toNat, x, ?_, by rw [UInt8.ofNat_toNat], ?_, ?_⟩
        · rcases hb with rfl | rfl <;> decide
        · rcases hb with rfl | rfl <;> exact hx
        · rw [hscript]
          rcases hb with rfl | rfl <;> rfl
      · have hslice : slice (0x04 :: (x ++ (y ++ [last]))) 1 32 = x := by
          rw [slice, drop_succ_cons, drop_zero, take_left' hx]
        have hparity : (0x04 :: (x ++ (y ++ [last]))).getD 64 0 = last := by
          simp [hx, hy]
        have hkeyLength : (0x04 :: (x ++ (y ++ [last]))).length = 65 := by
          simp [hx, hy]
        have hback := hK x y last hx hy hvalid
        rw [compressKey, getElem?_cons_zero] at hcompr
        dsimp only at hcompr
        rw [if_neg (by decide), if_pos rfl, hslice, hparity] at hcompr
        cases hcompr
        rw [hscript]
        rcases and_one_cases last with hbit | hbit
        · rw [hbit] at hback ⊢
          exact ⟨4, x, by decide, rfl, hx, decompress_key (.inl rfl) hback hkeyLength base⟩
        · rw [hbit] at hback ⊢
          exact ⟨5, x, by decide, rfl, hx, decompress_key (.inr rfl) hback hkeyLength base⟩

theorem reads_script (hK : K.Inverts) (hsize : script.length ≤ MAX_SCRIPT_SIZE) (base : CScript) :
    Reads (readScript K base) (writeScript K script) script := by
  rw [writeScript]
  cases hcompr : compress K script with
  | some compr =>
    obtain ⟨nSize, vch, hspecial, rfl, hlength, hback⟩ := compress_cases hcompr hK base
    have hsmall : nSize < 6 := hspecial
    have hread := (reads_uint32 (n := nSize) (by omega) (by omega)).map Int.toNat
    rw [writeVarInt32, Lib.VarInt.write_small 4 (by omega) (by omega), Int.toNat_natCast] at hread
    refine hread.bind ?_
    rw [if_pos hspecial]
    exact (reads_take hlength).bind_last (by rw [hback]; rfl)
  | none =>
    rw [MAX_SCRIPT_SIZE] at hsize
    have hvalue : asUInt32 (script.length + nSpecialScripts) = (script.length + 6 : Nat) := by
      rw [asUInt32, nSpecialScripts]
      omega
    have hread := (reads_uint32 (n := (script.length + 6 : Nat)) (by omega) (by omega)).map
      Int.toNat
    rw [Int.toNat_natCast] at hread
    rw [hvalue]
    refine hread.bind ?_
    rw [if_neg (by rw [nSpecialScripts]; omega), nSpecialScripts, Nat.add_sub_cancel]
    refine (reads_take rfl).bind_last ?_
    rw [if_neg (by rw [MAX_SCRIPT_SIZE]; omega)]

/- A script is read back byte for byte, whatever stood there before. -/
theorem readScript_writeScript (K : KeyRules) (hK : K.Inverts) (script base : CScript)
    (hsize : script.length ≤ MAX_SCRIPT_SIZE) :
    (readScript K base).run (writeScript K script) = some (script, []) := by
  have hrun := reads_script hK hsize base []
  rwa [append_nil] at hrun

def soleX : Bytes := List.replicate 32 0x11
def soleY : Bytes := List.replicate 31 0x22
def soleKey : Bytes := 0x04 :: (soleX ++ (soleY ++ [0x33]))

def soleRules : KeyRules where
  isFullyValid key := key = soleKey
  decompress key := if key = 0x03 :: soleX then some soleKey else none

theorem soleRules_inverts : soleRules.Inverts := by
  intro x y last hx hy hvalid
  have hkey : 0x04 :: (x ++ (y ++ [last])) = 0x04 :: (soleX ++ (soleY ++ [0x33])) :=
    of_decide_eq_true hvalid
  rw [List.cons.injEq] at hkey
  obtain ⟨rfl, hrest⟩ := append_inj hkey.2 hx
  obtain ⟨rfl, hlast⟩ := append_inj hrest hy
  cases hlast
  decide

theorem readScript_writeScript_key : ([65] ++ (soleKey ++ [OP_CHECKSIG])).length ≤ MAX_SCRIPT_SIZE ∧
      (writeScript soleRules ([65] ++ (soleKey ++ [OP_CHECKSIG]))).length = 33 ∧
      (readScript soleRules []).run (writeScript soleRules ([65] ++ (soleKey ++ [OP_CHECKSIG]))) =
        some ([65] ++ (soleKey ++ [OP_CHECKSIG]), []) :=
  ⟨by decide, by decide, readScript_writeScript _ soleRules_inverts _ _ (by decide)⟩

def writeTxOut (K : KeyRules) (txout : CTxOut) : Bytes :=
  writeVarInt64 (compressAmount txout.nValue.toUInt64.toNat) ++ writeScript K txout.scriptPubKey

def readTxOut (K : KeyRules) (txout : CTxOut) : Reader UInt8 CTxOut := do
  let nVal ← Int.toNat <$> Lib.VarInt.read asUInt64
  let scriptPubKey ← readScript K txout.scriptPubKey
  return { txout with
    nValue := (UInt64.ofNat (decompressAmount nVal)).toInt64
    scriptPubKey := scriptPubKey }

theorem toUInt64_lt_of_moneyRange {v : CAmount} (h : moneyRange mainParams v = true) :
    v.toUInt64.toNat < 2 ^ 60 := by
  obtain ⟨hpos, hle⟩ := (moneyRange_iff mainParams v).mp h
  have hmax : mainParams.nMaxMoneyOut.toInt = 2100000000000000 := by decide
  have hvalue : v.toUInt64.toNat = v.toInt.toNat :=
    Int64.toNat_toUInt64_of_le (Int64.le_iff_toInt_le.mpr hpos)
  omega

theorem reads_txOut (hK : K.Inverts) {txout : CTxOut}
    (hvalue : moneyRange mainParams txout.nValue = true)
    (hsize : txout.scriptPubKey.length ≤ MAX_SCRIPT_SIZE) (base : CTxOut) :
    Reads (readTxOut K base) (writeTxOut K txout)
      { base with nValue := txout.nValue, scriptPubKey := txout.scriptPubKey } := by
  obtain ⟨hlt, hback⟩ := decompressAmount_compressAmount _ (toUInt64_lt_of_moneyRange hvalue)
  have hread := (reads_uint64 (n := compressAmount txout.nValue.toUInt64.toNat) (by omega)
    (by omega)).map Int.toNat
  rw [Int.toNat_natCast] at hread
  refine hread.bind ((reads_script hK hsize _).bind_last ?_)
  rw [hback, UInt64.ofNat_toNat]
  rfl

end Alqo
