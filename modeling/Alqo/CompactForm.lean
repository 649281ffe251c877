import Alqo.Target

/-!
# The compact form of a target (uint256.cpp)

What `SetCompact` makes of `GetCompact` is never negative and never overflows: it is the number
rounded down to a mantissa of 23 bits.
-/

namespace Alqo
open BitVec

/-- `uint256::GetCompact` of a non-negative number. -/
def getCompact (n : uint256) : Nat :=
  let nSize := (n.toNat.size + 7) / 8
  let nCompact :=
    if nSize ≤ 3 then n.toNat % 2 ^ 64 * 2 ^ (8 * (3 - nSize)) % 2 ^ 32
    else n.toNat / 2 ^ (8 * (nSize - 3)) % 2 ^ 32
  if nCompact.testBit 23 then nCompact / 256 ||| (nSize + 1) * 2 ^ 24
  else nCompact ||| nSize * 2 ^ 24

/-- The number of bytes, and the three leading ones. -/
def nBytes (n : uint256) : Nat := (n.toNat.size + 7) / 8

def leadingBytes (n : uint256) : Nat :=
  if nBytes n ≤ 3 then n.toNat % 2 ^ 64 * 2 ^ (8 * (3 - nBytes n)) % 2 ^ 32
  else n.toNat / 2 ^ (8 * (nBytes n - 3)) % 2 ^ 32

/-- Mantissa and size of the compact form. -/
def compactParts (n : uint256) : Nat × Nat :=
  if (leadingBytes n).testBit 23 then (leadingBytes n / 2 ^ 8, nBytes n + 1)
  else (leadingBytes n, nBytes n)

/-- `GetCompact` with its assertions; `none` when one fails. -/
def getCompactChecked (n : uint256) : Option (BitVec 32) :=
  if (compactParts n).1 >>> 23 ≠ 0 then none
  else if ¬ (compactParts n).2 < 256 then none
  else some (BitVec.ofNat 32 (getCompact n))

theorem getCompact_eq (n : uint256) :
    getCompact n = (compactParts n).1 ||| (compactParts n).2 * 2 ^ 24 := by
  unfold compactParts
  by_cases h : (leadingBytes n).testBit 23 = true
  · rw [if_pos h]
    exact if_pos h
  · rw [if_neg h]
    exact if_neg h

theorem nBytes_le (n : uint256) : nBytes n ≤ 32 := by
  have hsize : n.toNat.size ≤ 256 := Nat.size_le.mpr n.isLt
  unfold nBytes
  omega

theorem lt_pow_nBytes (n : uint256) : n.toNat < 2 ^ (8 * nBytes n) := by
  apply lt_of_lt_of_le n.toNat.lt_size_self
  apply Nat.pow_le_pow_right (by omega)
  unfold nBytes
  omega

variable {x : uint256} {nCompact nSize : Nat}

theorem pow_nBytes_le (h : 0 < nBytes x) : 2 ^ (8 * (nBytes x - 1)) ≤ x.toNat := by
  rw [← Nat.lt_size]
  unfold nBytes at h ⊢
  omega

theorem leadingBytes_small (h : nBytes x ≤ 3) :
    leadingBytes x = x.toNat * 2 ^ (8 * (3 - nBytes x)) ∧ leadingBytes x < 2 ^ 24 := by
  have hlt := lt_pow_nBytes x
  have hprod : x.toNat * 2 ^ (8 * (3 - nBytes x)) < 2 ^ 24 := by
    calc x.toNat * 2 ^ (8 * (3 - nBytes x))
        < 2 ^ (8 * (nBytes x)) * 2 ^ (8 * (3 - nBytes x)) :=
          Nat.mul_lt_mul_of_pos_right hlt (by positivity)
      _ = 2 ^ 24 := by
          rw [← Nat.pow_add]
          congr 1
          omega
  have hx : x.toNat < 2 ^ 24 :=
    lt_of_lt_of_le hlt (Nat.pow_le_pow_right (by omega) (by omega))
  have heq : leadingBytes x = x.toNat * 2 ^ (8 * (3 - nBytes x)) := by
    simp only [leadingBytes, if_pos h]
    rw [Nat.mod_eq_of_lt (by omega : x.toNat < 2 ^ 64), Nat.mod_eq_of_lt (by omega)]
  exact ⟨heq, by rw [heq]; exact hprod⟩

theorem leadingBytes_large (h : ¬ nBytes x ≤ 3) :
    leadingBytes x = x.toNat / 2 ^ (8 * (nBytes x - 3)) ∧ leadingBytes x < 2 ^ 24 := by
  have hlt := lt_pow_nBytes x
  have hquot : x.toNat / 2 ^ (8 * (nBytes x - 3)) < 2 ^ 24 := by
    apply Nat.div_lt_of_lt_mul
    rw [← Nat.pow_add]
    have hsum : 8 * (nBytes x - 3) + 24 = 8 * (nBytes x) := by omega
    rw [hsum]
    exact hlt
  have heq : leadingBytes x = x.toNat / 2 ^ (8 * (nBytes x - 3)) := by
    simp only [leadingBytes, if_neg h]
    rw [Nat.mod_eq_of_lt (lt_trans hquot (by omega))]
  exact ⟨heq, by rw [heq]; exact hquot⟩

theorem leadingBytes_lt (x : uint256) : leadingBytes x < 2 ^ 24 := by
  by_cases h : nBytes x ≤ 3
  · exact (leadingBytes_small h).2
  · exact (leadingBytes_large h).2

theorem testBit_iff {c : Nat} (h : c < 2 ^ 24) : c.testBit 23 = true ↔ 2 ^ 23 ≤ c := by
  rw [Nat.testBit_eq_decide_div_mod_eq, decide_eq_true_eq]
  omega

def compactValue (nCompact nSize : Nat) : Nat :=
  if nSize ≤ 3 then nCompact / 2 ^ (8 * (3 - nSize)) else nCompact * 2 ^ (8 * (nSize - 3))

structure CompactOk (x : uint256) (nCompact nSize : Nat) : Prop where
  mantissa : nCompact < 2 ^ 23
  size : nSize ≤ 33
  short : 32 < nSize → nCompact < 2 ^ 16
  value : compactValue nCompact nSize ≤ x.toNat

/- A number of three bytes is kept as it is, and of a longer one at least the 16 leading bits. -/
theorem compactParts_value (x : uint256) :
    compactValue (compactParts x).1 (compactParts x).2 = x.toNat ∨
      3 < (compactParts x).2 ∧ 2 ^ 15 ≤ (compactParts x).1 ∧
        (compactParts x).1 = x.toNat / 2 ^ (8 * ((compactParts x).2 - 3)) := by
  have hsign := testBit_iff (leadingBytes_lt x)
  unfold compactParts compactValue
  by_cases hbit : (leadingBytes x).testBit 23 = true
  · have hlow := hsign.mp hbit
    simp only [hbit, if_true]
    by_cases h : nBytes x + 1 ≤ 3
    · left
      have hexp : 8 + 8 * (3 - (nBytes x + 1)) = 8 * (3 - nBytes x) := by omega
      rw [if_pos h, Nat.div_div_eq_div_mul, ← Nat.pow_add, hexp, (leadingBytes_small (by omega)).1,
        Nat.mul_div_cancel _ (by positivity)]
    · right
      refine ⟨by omega, by omega, ?_⟩
      by_cases hthree : nBytes x ≤ 3
      · have hbytes : nBytes x = 3 := by omega
        simp [(leadingBytes_small hthree).1, hbytes]
      · have hexp : 8 * (nBytes x - 3) + 8 = 8 * (nBytes x + 1 - 3) := by omega
        rw [(leadingBytes_large hthree).1, Nat.div_div_eq_div_mul, ← Nat.pow_add, hexp]
  · simp only [hbit, Bool.false_eq_true, if_false]
    by_cases h : nBytes x ≤ 3
    · left
      rw [if_pos h, (leadingBytes_small h).1, Nat.mul_div_cancel _ (by positivity)]
    · right
      refine ⟨by omega, ?_, (leadingBytes_large h).1⟩
      have hexp : 15 + 8 * (nBytes x - 3) ≤ 8 * (nBytes x - 1) := by omega
      rw [(leadingBytes_large h).1, Nat.le_div_iff_mul_le (by positivity), ← Nat.pow_add]
      exact (Nat.pow_le_pow_right (by omega) hexp).trans (pow_nBytes_le (by omega))

theorem compactParts_ok (x : uint256) : CompactOk x (compactParts x).1 (compactParts x).2 := by
  have hbytes := nBytes_le x
  have hlt := leadingBytes_lt x
  have hsign := testBit_iff hlt
  have hvalue : compactValue (compactParts x).1 (compactParts x).2 ≤ x.toNat := by
    obtain hexact | ⟨hsize, -, hquot⟩ := compactParts_value x
    · exact hexact.le
    · rw [compactValue, if_neg (by omega), hquot]
      exact Nat.div_mul_le_self _ _
  unfold compactParts at hvalue ⊢
  by_cases hbit : (leadingBytes x).testBit 23 = true
  · simp only [hbit, if_true] at hvalue ⊢
    exact ⟨by omega, by omega, fun _ => by omega, hvalue⟩
  · have hlow : leadingBytes x < 2 ^ 23 := by
      rw [hsign] at hbit
      omega
    simp only [hbit, Bool.false_eq_true, if_false] at hvalue ⊢
    exact ⟨hlow, by omega, fun hbig => by omega, hvalue⟩

theorem toNat_compact (hm : nCompact < 2 ^ 23) (hs : nSize < 256) :
    (BitVec.ofNat 32 (nCompact ||| nSize * 2 ^ 24)).toNat = nSize * 2 ^ 24 + nCompact := by
  rw [Nat.or_comm, ← Nat.shiftLeft_eq,
    ← Nat.shiftLeft_add_eq_or_of_lt (by omega : nCompact < 2 ^ 24), toNat_ofNat,
    Nat.shiftLeft_eq]
  omega

theorem setCompact_compact (hm : nCompact < 2 ^ 23) (hs : nSize ≤ 33)
    (hshort : 32 < nSize → nCompact < 2 ^ 16) (hx : compactValue nCompact nSize ≤ x.toNat) :
    (setCompact (BitVec.ofNat 32 (nCompact ||| nSize * 2 ^ 24))).bnTarget.toNat =
        compactValue nCompact nSize ∧
      (setCompact (BitVec.ofNat 32 (nCompact ||| nSize * 2 ^ 24))).fNegative = false ∧
      (setCompact (BitVec.ofNat 32 (nCompact ||| nSize * 2 ^ 24))).fOverflow = false := by
  have hword := toNat_compact hm (by omega : nSize < 256)
  have hsize : (BitVec.ofNat 32 (nCompact ||| nSize * 2 ^ 24)).toNat / 2 ^ 24 = nSize := by
    rw [hword]
    omega
  have hmantissa : (BitVec.ofNat 32 (nCompact ||| nSize * 2 ^ 24)).toNat % 2 ^ 23 = nCompact := by
    rw [hword]
    omega
  have hsign : (BitVec.ofNat 32 (nCompact ||| nSize * 2 ^ 24)).getLsbD 23 = false := by
    rw [← testBit_toNat, hword, Nat.testBit_eq_decide_div_mod_eq, decide_eq_false_iff_not]
    omega
  have hxlt := x.isLt
  simp only [setCompact, hsize, hmantissa, hsign, Bool.and_false, true_and]
  unfold compactValue at hx ⊢
  by_cases h : nSize ≤ 3
  · simp only [h, if_true, Nat.shiftRight_eq_div_pow] at hx ⊢
    constructor
    · rw [toNat_ofNat, Nat.mod_eq_of_lt (by omega)]
    · have h34 : ¬ nSize > 34 := by omega
      have h33 : ¬ nSize > 33 := by omega
      have h32 : ¬ nSize > 32 := by omega
      simp [h34, h33, h32]
  · simp only [h, if_false] at hx ⊢
    constructor
    · rw [toNat_shiftLeft, toNat_ofNat, Nat.shiftLeft_eq,
        Nat.mod_eq_of_lt (by omega : nCompact < 2 ^ 256), Nat.mod_eq_of_lt (by omega)]
    · have h34 : ¬ nSize > 34 := by omega
      have h33 : ¬ nSize > 33 := by omega
      have h32 : ¬ (nCompact > 0xffff ∧ nSize > 32) := by
        intro hboth
        have hlow := hshort hboth.2
        omega
      simp only [h34, h33, decide_false, Bool.and_false, Bool.false_or, Bool.and_eq_false_imp,
        decide_eq_true_eq, decide_eq_false_iff_not]
      intro _ hlarge hover
      exact h32 ⟨hlarge, hover⟩

/- What a mantissa of 23 bits and a number of bytes can express. -/
def Representable (v : uint256) : Prop := ∃ nWord < 2 ^ 23, ∃ k, v.toNat = nWord * 2 ^ (8 * k)

theorem le_compactValue {nWord k : Nat} (hword : nWord < 2 ^ 23)
    (hle : nWord * 2 ^ (8 * k) ≤ x.toNat) :
    nWord * 2 ^ (8 * k) ≤ compactValue (compactParts x).1 (compactParts x).2 := by
  obtain hexact | ⟨hsize, hlow, hquot⟩ := compactParts_value x
  · rwa [hexact]
  · rw [compactValue, if_neg (by omega)]
    generalize (compactParts x).2 - 3 = s at hquot ⊢
    by_cases hk : s ≤ k
    · obtain ⟨d, rfl⟩ := Nat.exists_eq_add_of_le hk
      rw [Nat.mul_add, Nat.add_comm, Nat.pow_add, ← Nat.mul_assoc] at hle ⊢
      rw [hquot]
      exact Nat.mul_le_mul_right _ ((Nat.le_div_iff_mul_le (by positivity)).mpr hle)
    · -- a shorter form has fewer leading bits than the mantissa
      calc nWord * 2 ^ (8 * k) ≤ 2 ^ 23 * 2 ^ (8 * k) := Nat.mul_le_mul_right _ hword.le
        _ = 2 ^ 15 * 2 ^ (8 * (k + 1)) := by ring
        _ ≤ 2 ^ 15 * 2 ^ (8 * s) :=
          Nat.mul_le_mul_left _ (Nat.pow_le_pow_right (by omega) (by omega))
        _ ≤ (compactParts x).1 * 2 ^ (8 * s) := Nat.mul_le_mul_right _ hlow

theorem representable_setCompact {c : BitVec 32} (h : (setCompact c).fOverflow = false) :
    Representable (setCompact c).bnTarget := by
  have hm : c.toNat % 2 ^ 23 < 2 ^ 23 := Nat.mod_lt _ (by omega)
  simp only [setCompact] at h ⊢
  generalize c.toNat % 2 ^ 23 = m at hm h ⊢
  generalize c.toNat / 2 ^ 24 = nSize at h ⊢
  by_cases hsize : nSize ≤ 3
  · have hshift : m >>> (8 * (3 - nSize)) ≤ m := Nat.shiftRight_le m _
    refine ⟨m >>> (8 * (3 - nSize)), by omega, 0, ?_⟩
    rw [if_pos hsize, if_pos hsize, toNat_ofNat, Nat.mod_eq_of_lt (by omega)]
    omega
  · refine ⟨m, hm, nSize - 3, ?_⟩
    simp only [if_neg hsize, Bool.and_eq_false_iff, bne_eq_false_iff_eq, Bool.or_eq_false_iff,
      decide_eq_false_iff_not] at h ⊢
    rw [toNat_shiftLeft, toNat_ofNat, Nat.shiftLeft_eq,
      Nat.mod_eq_of_lt (by omega : m < 2 ^ 256)]
    apply Nat.mod_eq_of_lt
    rcases h with rfl | h
    · omega
    · obtain ⟨b, hb, hfit⟩ : ∃ b, m < 2 ^ b ∧ b + 8 * (nSize - 3) ≤ 256 := by
        by_cases h33 : nSize ≤ 32
        · exact ⟨23, hm, by omega⟩
        · by_cases h34 : nSize ≤ 33
          · exact ⟨16, by omega, by omega⟩
          · exact ⟨8, by omega, by omega⟩
      calc m * 2 ^ (8 * (nSize - 3)) < 2 ^ b * 2 ^ (8 * (nSize - 3)) :=
            Nat.mul_lt_mul_of_pos_right hb (by positivity)
        _ = 2 ^ (b + 8 * (nSize - 3)) := (Nat.pow_add ..).symm
        _ ≤ 2 ^ 256 := Nat.pow_le_pow_right (by omega) hfit

theorem getCompactChecked_spec (x : uint256) :
    ∃ nBits, getCompactChecked x = some nBits ∧ (setCompact nBits).fNegative = false ∧
      (setCompact nBits).fOverflow = false ∧
      IsGreatest {v | v ≤ x ∧ Representable v} (setCompact nBits).bnTarget := by
  obtain ⟨hm, hs, hshort, hvalue⟩ := compactParts_ok x
  have hzero : (compactParts x).1 >>> 23 = 0 := by
    rw [Nat.shiftRight_eq_div_pow]
    exact Nat.div_eq_of_lt hm
  have hcompact : getCompactChecked x =
      some (BitVec.ofNat 32 ((compactParts x).1 ||| (compactParts x).2 * 2 ^ 24)) := by
    rw [getCompactChecked, if_neg (not_not.mpr hzero), if_neg (by omega), getCompact_eq]
  obtain ⟨htarget, hnegative, hoverflow⟩ := setCompact_compact hm hs hshort hvalue
  refine ⟨_, hcompact, hnegative, hoverflow, ⟨?_, representable_setCompact hoverflow⟩, ?_⟩
  · rwa [le_def, htarget]
  · rintro v ⟨hle, nWord, hword, k, hv⟩
    rw [le_def, hv] at hle ⊢
    rw [htarget]
    exact le_compactValue hword hle

/- The two functions round down to the mantissa; what `SetCompact` decodes they keep. -/
theorem setCompact_getCompact :
    (∀ x, ∃ nBits, getCompactChecked x = some nBits ∧ (setCompact nBits).fNegative = false ∧
      (setCompact nBits).fOverflow = false ∧
      IsGreatest {v | v ≤ x ∧ Representable v} (setCompact nBits).bnTarget) ∧
    (∀ x y nBits nBits', x ≤ y → getCompactChecked x = some nBits →
      getCompactChecked y = some nBits' →
      (setCompact nBits).bnTarget ≤ (setCompact nBits').bnTarget) ∧
    ∀ c, (setCompact c).fNegative = false → (setCompact c).fOverflow = false →
      ∃ nBits, getCompactChecked (setCompact c).bnTarget = some nBits ∧
        (setCompact nBits).bnTarget = (setCompact c).bnTarget := by
  refine ⟨getCompactChecked_spec, ?_, ?_⟩
  · intro x y nBits nBits' hxy hx hy
    obtain ⟨_, hx', -, -, hleft⟩ := getCompactChecked_spec x
    obtain ⟨_, hy', -, -, hright⟩ := getCompactChecked_spec y
    obtain rfl := Option.some.inj (hx'.symm.trans hx)
    obtain rfl := Option.some.inj (hy'.symm.trans hy)
    exact hright.2 ⟨BitVec.le_trans hleft.1.1 hxy, hleft.1.2⟩
  · intro c _ hoverflow
    obtain ⟨nBits, hbits, -, -, hgreatest⟩ := getCompactChecked_spec (setCompact c).bnTarget
    refine ⟨nBits, hbits, ?_⟩
    have hself := hgreatest.2 ⟨BitVec.le_refl _, representable_setCompact hoverflow⟩
    exact BitVec.le_antisymm hgreatest.1.1 hself

end Alqo
