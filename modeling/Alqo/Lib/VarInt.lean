import Alqo.Lib.Codec

/-!
# Numbers of variable length

A number is written in base 128, the most significant digit first; every digit but the last is one
less than it counts, so that each number has one form. The reader computes in a type that keeps the
numbers on which `wrap` is the identity.
-/

namespace Lib.VarInt
open Lib.Codec List

def digits : (room : Nat) → (n : Int) → (more : Bool) → List UInt8
  | 0, _, _ => []
  | room + 1, n, more =>
    UInt8.ofNat ((n % 128).toNat + if more then 128 else 0) ::
      if n ≤ 127 then [] else digits room (n / 128 - 1) true

def write (room : Nat) (n : Int) : List UInt8 := (digits room n false).reverse

def size : (room : Nat) → (n : Int) → Nat
  | 0, _ => 0
  | room + 1, n => 1 + if n ≤ 127 then 0 else size room (n / 128 - 1)

def readFrom (wrap : Int → Int) : (n : Int) → List UInt8 → Option (Int × List UInt8)
  | _, [] => none
  | n, b :: rest =>
    let n := wrap (n * 128 + (b.toNat % 128 : Nat))
    if 128 ≤ b.toNat then readFrom wrap (wrap (n + 1)) rest else some (n, rest)

def read (wrap : Int → Int) : Reader UInt8 Int := fun l => readFrom wrap 0 l

variable {wrap : Int → Int} {n : Int}

theorem length_digits (room : Nat) (n : Int) (more : Bool) :
    (digits room n more).length = size room n := by
  induction room generalizing n more with
  | zero => rfl
  | succ room ih =>
    rw [digits, size, length_cons]
    split
    · rfl
    · rw [ih]
      omega

theorem size_le (room : Nat) (n : Int) : size room n ≤ room := by
  induction room generalizing n with
  | zero => exact Nat.le_refl _
  | succ room ih =>
    have hrest := ih (n / 128 - 1)
    rw [size]
    split
    · omega
    · omega

theorem length_write (room : Nat) (n : Int) : (write room n).length = size room n := by
  rw [write, length_reverse, length_digits]

theorem toNat_digit (n : Int) (more : Bool) :
    (UInt8.ofNat ((n % 128).toNat + if more then 128 else 0)).toNat =
      (n % 128).toNat + if more then 128 else 0 := by
  rw [UInt8.toNat_ofNat']
  refine Nat.mod_eq_of_lt ?_
  split
  · omega
  · omega

theorem readFrom_digit (a n : Int) (more : Bool) (rest : List UInt8)
    (hwrap : ∀ m, a * 128 + n % 128 ≤ m → m ≤ a * 128 + n % 128 + more.toNat → wrap m = m) :
    readFrom wrap a (UInt8.ofNat ((n % 128).toNat + if more then 128 else 0) :: rest) =
      if more then readFrom wrap (a * 128 + n % 128 + 1) rest
      else some (a * 128 + n % 128, rest) := by
  have hsum := hwrap _ (Int.le_refl _)
  rw [readFrom, toNat_digit]
  cases more with
  | false =>
    have hvalue : (((n % 128).toNat + 0) % 128 : Nat) = n % 128 := by omega
    simp only [Bool.false_eq_true, if_false, hvalue]
    rw [hsum (by simp), if_neg (by omega)]
  | true =>
    have hvalue : (((n % 128).toNat + 128) % 128 : Nat) = n % 128 := by omega
    simp only [if_true, hvalue]
    rw [hsum (by simp), if_pos (by omega), hwrap _ (by omega) (by simp)]

section
variable (more : Bool) (hpos : 0 ≤ n) (hwrap : ∀ m, 0 ≤ m → m ≤ n + more.toNat → wrap m = m)
include hpos hwrap

theorem readFrom_single (room : Nat) (hsmall : n ≤ 127) (rest : List UInt8) :
    readFrom wrap 0 ((digits (room + 1) n more).reverse ++ rest) =
      if more then readFrom wrap (n + 1) rest else some (n, rest) := by
  have hdigit : 0 * 128 + n % 128 = n := by omega
  rw [digits, if_pos hsmall, reverse_singleton, singleton_append, readFrom_digit, hdigit]
  exact fun m hm hle => hwrap m (by omega) (by omega)

theorem readFrom_digits (room : Nat) (hroom : n < 128 ^ (room + 1)) (rest : List UInt8) :
    readFrom wrap 0 ((digits (room + 1) n more).reverse ++ rest) =
      if more then readFrom wrap (n + 1) rest else some (n, rest) := by
  induction room generalizing n more rest with
  | zero => exact readFrom_single more hpos hwrap 0 (by omega) rest
  | succ room ih =>
    by_cases hsmall : n ≤ 127
    · exact readFrom_single more hpos hwrap (room + 1) hsmall rest
    · have hfront : n / 128 - 1 < 128 ^ (room + 1) := by
        rw [Int.pow_succ] at hroom
        omega
      have hdigit : (n / 128 - 1 + 1) * 128 + n % 128 = n := by omega
      rw [digits, if_neg hsmall, reverse_cons, append_assoc, singleton_append,
        ih true (by omega) (fun m hm hle => hwrap m hm (by simp at hle; omega)) hfront, if_pos rfl,
        readFrom_digit, hdigit]
      exact fun m hm hle => hwrap m (by omega) (by omega)

end

theorem reads_write (room : Nat) (hpos : 0 ≤ n) (hroom : n < 128 ^ (room + 1))
    (hwrap : ∀ m, 0 ≤ m → m ≤ n → wrap m = m) : Reads (read wrap) (write (room + 1) n) n :=
  readFrom_digits false hpos (by simpa using hwrap) room hroom

theorem write_small (room : Nat) (hsmall : n ≤ 127) (hpos : 0 ≤ n) :
    write (room + 1) n = [UInt8.ofNat n.toNat] := by
  have hdigit : n % 128 = n := by omega
  rw [write, digits, if_pos hsmall, hdigit]
  rfl

theorem size_le_of_lt (room k : Nat) (h : n < 128 ^ (k + 1)) : size room n ≤ k + 1 := by
  induction k generalizing room n with
  | zero =>
    cases room with
    | zero => exact Nat.zero_le _
    | succ room => rw [size, if_pos (by omega)]
  | succ k ih =>
    cases room with
    | zero => exact Nat.zero_le _
    | succ room =>
      have hrest : size room (n / 128 - 1) ≤ k + 1 := by
        apply ih
        rw [Int.pow_succ] at h
        omega
      rw [size]
      split
      · omega
      · omega

/- The digits before the next one, which were read as `a`. -/
def Front (a : Int) (front : List UInt8) : Prop :=
  ∀ room, front.length ≤ room → (if a ≤ 0 then [] else digits room (a - 1) true) = front

theorem Front.push {a : Int} {front : List UInt8} (h : Front a front) (ha : 0 ≤ a) (b : UInt8)
    (room : Nat) (hroom : front.length + 1 ≤ room) :
    digits room (a * 128 + (b.toNat % 128 : Nat)) (128 ≤ b.toNat) = b :: front := by
  obtain ⟨room, rfl⟩ := Nat.exists_eq_add_of_le' (Nat.one_le_of_lt hroom)
  have hb := b.toNat_lt
  have hdigit : ((a * 128 + (b.toNat % 128 : Nat)) % 128).toNat +
      (if 128 ≤ b.toNat then 128 else 0) = b.toNat := by
    split
    · omega
    · omega
  have hsmall : a * 128 + (b.toNat % 128 : Nat) ≤ 127 ↔ a ≤ 0 := by omega
  have hquot : (a * 128 + (b.toNat % 128 : Nat)) / 128 - 1 = a - 1 := by omega
  simp only [digits, decide_eq_true_eq, hdigit, hsmall, hquot, UInt8.ofNat_toNat]
  rw [h room (by omega)]

theorem digits_of_readFrom {a v : Int} {front bs : List UInt8} (hfront : Front a front) (ha : 0 ≤ a)
    (h : readFrom id a bs = some (v, [])) :
    0 ≤ v ∧ ∀ room, front.length + bs.length ≤ room → digits room v false = bs.reverse ++ front := by
  induction bs generalizing a front with
  | nil => cases h
  | cons b bs ih =>
    have hpush := hfront.push ha b
    simp only [readFrom, id] at h
    simp only [length_cons, reverse_cons, append_assoc, singleton_append]
    by_cases hmore : 128 ≤ b.toNat
    · rw [if_pos hmore] at h
      simp only [hmore, decide_true] at hpush
      have hnext : Front (a * 128 + (b.toNat % 128 : Nat) + 1) (b :: front) := by
        intro room hroom
        rw [if_neg (by omega), Int.add_sub_cancel]
        exact hpush room hroom
      obtain ⟨hpos, hdigits⟩ := ih hnext (by omega) h
      refine ⟨hpos, fun room hroom => hdigits room ?_⟩
      rw [length_cons]
      omega
    · rw [if_neg hmore] at h
      simp only [hmore, decide_false] at hpush
      cases h
      exact ⟨by omega, fun room hroom => hpush room hroom⟩

/- The reader computes modulo `M` what it would compute without a bound. -/
theorem readFrom_emod (M a : Int) (bs : List UInt8) :
    readFrom (· % M) (a % M) bs = (readFrom id a bs).map fun p => (p.1 % M, p.2) := by
  induction bs generalizing a with
  | nil => rfl
  | cons b bs ih =>
    have hsum : (a % M * 128 + (b.toNat % 128 : Nat)) % M = (a * 128 + (b.toNat % 128 : Nat)) % M := by
      rw [Int.add_emod, Int.mul_emod, Int.emod_emod, ← Int.mul_emod, ← Int.add_emod]
    simp only [readFrom, id, hsum]
    split
    · rw [Int.emod_add_emod, ih]
    · rfl

/- Bytes are the form of the number that is read from them unless a digit was lost. -/
theorem eq_write_iff {room : Nat} {M : Int} {bs : List UInt8} (hM : 0 < M)
    (hroom : M ≤ 128 ^ (room + 1)) (h : read (· % M) bs = some (n, [])) :
    bs = write (room + 1) n ↔ ∃ v < M, read id bs = some (v, []) := by
  have hmod := readFrom_emod M 0 bs
  rw [Int.zero_emod] at hmod
  obtain ⟨⟨v, rest⟩, hv, hn⟩ := Option.map_eq_some_iff.mp (hmod.symm.trans h)
  obtain ⟨rfl, rfl⟩ := Prod.mk.inj hn
  constructor
  · intro hwrite
    have hlt := Int.emod_lt_of_pos v hM
    have hread := reads_write room (Int.emod_nonneg v hM.ne') (hlt.trans_le hroom)
      (fun m _ _ => id_eq m) []
    rw [append_nil, ← hwrite] at hread
    exact ⟨v % M, hlt, hread⟩
  · rintro ⟨v', hlt, hv'⟩
    obtain rfl : v = v' := congrArg Prod.fst (Option.some.inj (hv.symm.trans hv'))
    obtain ⟨hpos, hdigits⟩ := digits_of_readFrom (fun _ _ => if_pos (Int.le_refl 0)) (Int.le_refl 0) hv
    rw [append_nil] at hdigits
    have hlength : bs.length ≤ room + 1 := by
      rw [← length_reverse, ← hdigits bs.length (by rw [length_nil]; omega), length_digits]
      exact size_le_of_lt _ _ (hlt.trans_le hroom)
    dsimp only
    rw [Int.emod_eq_of_lt hpos hlt, write, hdigits (room + 1) (by rw [length_nil]; omega),
      reverse_reverse]

end Lib.VarInt
