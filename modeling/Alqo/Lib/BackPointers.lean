import Mathlib

/-!
# A list of keys, each of which knows its place

The keys of a map stand in a list, each with the position it has there, so that a key is taken out
by swapping it with the last one.
-/

namespace Lib.BackPointers
open Function List

variable {K : Type} [DecidableEq K]

def Inverse (pos : K → Option Nat) (l : List K) : Prop := ∀ k i, pos k = some i ↔ l[i]? = some k

def swap (l : List K) (i j : Nat) (a b : K) : List K := (l.set i b).set j a

variable {pos : K → Option Nat} {l : List K} {i j : Nat} {a b k : K}

omit [DecidableEq K] in
theorem Inverse.lt (h : Inverse pos l) (hk : pos k = some i) : i < l.length := by
  obtain ⟨hi, -⟩ := List.getElem?_eq_some_iff.mp ((h k i).mp hk)
  exact hi

omit [DecidableEq K] in
theorem Inverse.mem_iff (h : Inverse pos l) : k ∈ l ↔ ∃ i, pos k = some i := by
  rw [mem_iff_getElem?]
  exact exists_congr fun i => (h k i).symm

omit [DecidableEq K] in
theorem Inverse.nodup (h : Inverse pos l) : l.Nodup := by
  rw [nodup_iff_injective_getElem]
  intro i j hij
  have hi := (h _ i).mpr (getElem?_eq_getElem i.2)
  have hj := (h _ j).mpr (getElem?_eq_getElem j.2)
  rw [show l[i.1] = l[j.1] from hij, hj] at hi
  exact Fin.ext (Option.some.inj hi).symm

theorem Inverse.push (h : Inverse pos l) (hk : pos k = none) :
    Inverse (update pos k (some l.length)) (l ++ [k]) := by
  intro x i
  rw [update_apply]
  by_cases hx : x = k
  · subst hx
    rw [if_pos rfl]
    constructor
    · intro hi
      cases hi
      rw [getElem?_append_right (Nat.le_refl _), Nat.sub_self]
      rfl
    · intro hi
      rcases Nat.lt_or_ge i l.length with hlt | hge
      · rw [getElem?_append_left hlt, ← h, hk] at hi
        cases hi
      · rw [getElem?_append_right hge] at hi
        have hzero : i - l.length = 0 := by
          obtain ⟨hlt, -⟩ := List.getElem?_eq_some_iff.mp hi
          rw [length_singleton] at hlt
          omega
        rw [show i = l.length by omega]
  · rw [if_neg hx, h]
    rcases Nat.lt_or_ge i l.length with hlt | hge
    · rw [getElem?_append_left hlt]
    · rw [getElem?_append_right hge, getElem?_eq_none hge]
      refine iff_of_false (by simp) fun hi => hx ?_
      exact mem_singleton.mp (mem_of_getElem? hi)

theorem Inverse.swap (h : Inverse pos l) (ha : pos a = some i) (hb : pos b = some j) (hij : i ≠ j) :
    Inverse (update (update pos a (some j)) b (some i)) (swap l i j a b) := by
  have hi : i < l.length := h.lt ha
  have hj : j < l.length := h.lt hb
  have hab : a ≠ b := by
    rintro rfl
    exact hij (Option.some.inj (ha.symm.trans hb))
  intro x n
  rw [BackPointers.swap, getElem?_set, getElem?_set, length_set,
    update_apply, update_apply]
  by_cases hxb : x = b
  · subst hxb
    rw [if_pos rfl]
    by_cases hjn : j = n
    · rw [if_pos hjn, if_pos hj]
      refine iff_of_false (fun hn => hij ?_) (fun hn => hab (Option.some.inj hn))
      rw [Option.some.inj hn, hjn]
    · rw [if_neg hjn]
      by_cases hin : i = n
      · rw [if_pos hin, if_pos hi, hin]
        exact iff_of_true rfl rfl
      · rw [if_neg hin, ← h, hb]
        refine iff_of_false (fun hn => hin (Option.some.inj hn)) (fun hn => hjn (Option.some.inj hn))
  · rw [if_neg hxb]
    by_cases hxa : x = a
    · subst hxa
      rw [if_pos rfl]
      by_cases hjn : j = n
      · rw [if_pos hjn, if_pos hj, hjn]
        exact iff_of_true rfl rfl
      · rw [if_neg hjn]
        refine iff_of_false (fun hn => hjn (Option.some.inj hn)) ?_
        by_cases hin : i = n
        · rw [if_pos hin, if_pos hi]
          exact fun hn => hxb (Option.some.inj hn).symm
        · rw [if_neg hin, ← h, ha]
          exact fun hn => hin (Option.some.inj hn)
    · rw [if_neg hxa, h]
      by_cases hjn : j = n
      · rw [if_pos hjn, if_pos hj, ← hjn]
        refine iff_of_false (fun hn => hxb ?_) (fun hn => hxa (Option.some.inj hn).symm)
        rw [(h b j).mp hb] at hn
        exact (Option.some.inj hn).symm
      · rw [if_neg hjn]
        by_cases hin : i = n
        · rw [if_pos hin, if_pos hi, ← hin]
          refine iff_of_false (fun hn => hxa ?_) (fun hn => hxb (Option.some.inj hn).symm)
          rw [(h a i).mp ha] at hn
          exact (Option.some.inj hn).symm
        · rw [if_neg hin]

theorem Inverse.pop (h : Inverse pos l) (hk : pos k = some (l.length - 1)) :
    Inverse (update pos k none) l.dropLast := by
  have hlt := h.lt hk
  intro x n
  rw [update_apply, getElem?_dropLast]
  by_cases hx : x = k
  · subst hx
    rw [if_pos rfl]
    refine iff_of_false (by simp) fun hn => ?_
    split_ifs at hn with hlast
    rw [← h, hk] at hn
    have := Option.some.inj hn
    omega
  · rw [if_neg hx, h]
    split_ifs with hlast
    · rfl
    · refine iff_of_false (fun hn => hx ?_) (by simp)
      rw [← h] at hn
      have hlast' : n = l.length - 1 := by
        have := h.lt hn
        omega
      subst hlast'
      rw [h] at hn hk
      rw [hk] at hn
      exact (Option.some.inj hn).symm

end Lib.BackPointers
