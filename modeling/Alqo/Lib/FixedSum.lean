import Mathlib

/-!
# Signed 64-bit accumulators against exact sums

`Tracks a x`: the accumulator is the exact sum modulo `2^64`, so the two are equal as soon as the
exact value is in range.
-/

namespace Lib.FixedSum

/-- The accumulator `a` is the exact value `x` reduced to 64 bits. -/
def Tracks (a : Int64) (x : Int) : Prop := a = Int64.ofInt x

theorem tracks_self (a : Int64) : Tracks a a.toInt := by
  simp [Tracks]

theorem tracks_zero : Tracks 0 0 := by
  rfl

variable {a b : Int64} {x y : Int}

theorem tracks_add (ha : Tracks a x) (hb : Tracks b y) : Tracks (a + b) (x + y) := by
  unfold Tracks at *
  rw [ha, hb, Int64.ofInt_add]

theorem tracks_sub (ha : Tracks a x) (hb : Tracks b y) : Tracks (a - b) (x - y) := by
  unfold Tracks at *
  rw [ha, hb, Int64.ofInt_sub]

theorem tracks_mul (ha : Tracks a x) (hb : Tracks b y) : Tracks (a * b) (x * y) := by
  unfold Tracks at *
  rw [ha, hb, Int64.ofInt_mul]

theorem toInt_of_tracks (h : Tracks a x) (hlo : -2 ^ 63 ≤ x) (hhi : x < 2 ^ 63) : a.toInt = x := by
  rw [h]
  exact Int64.toInt_ofInt_of_le hlo hhi

theorem tracks_congr (h : Tracks a x) : (2 ^ 64 : Int) ∣ x - a.toInt := by
  rw [h, Int64.toInt_ofInt]
  exact Int.dvd_self_sub_bmod

theorem le_of_tracks (ha : Tracks a x) (hb : Tracks b y) (h : a ≤ b) (hy : 0 ≤ y) (hx : x < 2 ^ 63) :
    x ≤ y := by
  by_cases hlow : -2 ^ 63 ≤ x
  · by_cases hhigh : y < 2 ^ 63
    · rw [Int64.le_iff_toInt_le, toInt_of_tracks ha hlow hx,
        toInt_of_tracks hb (by omega) hhigh] at h
      exact h
    · omega
  · omega

theorem add_lt_left_iff (a b : Int64) (ha : 0 ≤ a.toInt) (hb : 0 ≤ b.toInt) :
    a + b < a ↔ 2 ^ 63 ≤ a.toInt + b.toInt := by
  have hah := a.toInt_lt
  have hbh := b.toInt_lt
  rw [Int64.lt_iff_toInt_lt, Int64.toInt_add, Int.bmod_def]
  constructor
  · intro h
    split at h <;> omega
  · intro h
    split <;> omega

theorem toInt_add_of_lt (a b : Int64) (ha : 0 ≤ a.toInt) (hb : 0 ≤ b.toInt)
    (h : a.toInt + b.toInt < 2 ^ 63) : (a + b).toInt = a.toInt + b.toInt := by
  apply toInt_of_tracks (tracks_add (tracks_self a) (tracks_self b)) _ h
  omega

theorem toInt_div_of_nonneg (a b : Int64) (ha : 0 ≤ a.toInt) (hb : 0 < b.toInt) :
    (a / b).toInt = a.toInt / b.toInt := by
  have hah := a.toInt_lt
  have hle : a.toInt / b.toInt ≤ a.toInt := Int.ediv_le_self _ ha
  have hge : 0 ≤ a.toInt / b.toInt := Int.ediv_nonneg ha hb.le
  rw [Int64.toInt_div, Int.tdiv_eq_ediv_of_nonneg ha]
  exact Int.bmod_eq_of_le (by omega) (by omega)

theorem toNat_toBitVec (a : Int64) (ha : 0 ≤ a.toInt) : (a.toBitVec.toNat : Int) = a.toInt := by
  have h : a.toInt = a.toBitVec.toInt := rfl
  have hlt := a.toBitVec.isLt
  rw [h, BitVec.toInt_eq_toNat_bmod, Int.bmod_def] at ha ⊢
  split at ha <;> split <;> omega

def exactSum (l : List Int64) : Int := (l.map Int64.toInt).sum

@[simp] theorem exactSum_nil : exactSum [] = 0 := rfl

@[simp] theorem exactSum_cons (a : Int64) (l : List Int64) :
    exactSum (a :: l) = a.toInt + exactSum l := by
  simp [exactSum]

theorem exactSum_nonneg (l : List Int64) (h : ∀ a ∈ l, 0 ≤ a.toInt) : 0 ≤ exactSum l := by
  induction l with
  | nil => simp
  | cons a l ih =>
    have hl : 0 ≤ exactSum l := ih fun b hb => h b (List.mem_cons_of_mem a hb)
    have ha : 0 ≤ a.toInt := h a List.mem_cons_self
    rw [exactSum_cons]
    omega

end Lib.FixedSum
