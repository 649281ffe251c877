import Mathlib

/-!
# Tables of slots

How often a key stands in the table is what counts its references.
-/

namespace Lib.SlotTable
open Function Finset List

variable {S K : Type} [Fintype S] [DecidableEq S] [DecidableEq K]

def slotsOf (t : S → Option K) (k : K) : Finset S := Finset.univ.filter fun s => t s = some k

variable {t : S → Option K} {s x : S} {k j : K}

omit [DecidableEq S] in
theorem mem_slotsOf : s ∈ slotsOf t k ↔ t s = some k := by
  rw [slotsOf, Finset.mem_filter]
  exact and_iff_right (Finset.mem_univ s)

omit [DecidableEq S] in
theorem card_slotsOf_eq_zero : (slotsOf t k).card = 0 ↔ ∀ s, t s ≠ some k := by
  rw [card_eq_zero, eq_empty_iff_forall_notMem]
  exact forall_congr' fun s => not_congr mem_slotsOf

omit [DecidableEq S] in
theorem card_slotsOf_lt {t' : S → Option K} (hsub : ∀ x, t x = some k → t' x = some j)
    (hmore : t' s = some j) (hnot : t s ≠ some k) :
    (slotsOf t k).card < (slotsOf t' j).card := by
  refine card_lt_card (ssubset_iff_of_subset (fun x hx => ?_) |>.mpr ⟨s, ?_, ?_⟩)
  · exact mem_slotsOf.mpr (hsub x (mem_slotsOf.mp hx))
  · exact mem_slotsOf.mpr hmore
  · exact fun hmem => hnot (mem_slotsOf.mp hmem)

theorem slotsOf_clear (t : S → Option K) (s : S) (k : K) :
    slotsOf (update t s none) k = (slotsOf t k).erase s := by
  ext x
  rw [mem_slotsOf, mem_erase, mem_slotsOf, update_apply]
  by_cases hx : x = s
  · simp [hx]
  · simp [hx]

theorem card_slotsOf_clear (h : t s = some k) :
    (slotsOf (update t s none) k).card + 1 = (slotsOf t k).card := by
  rw [slotsOf_clear, card_erase_add_one (mem_slotsOf.mpr h)]

theorem slotsOf_clear_ne (h : t s = some k) (hne : j ≠ k) :
    slotsOf (update t s none) j = slotsOf t j := by
  rw [slotsOf_clear, erase_eq_of_notMem]
  rw [mem_slotsOf, h]
  exact fun heq => hne (Option.some.inj heq).symm

theorem card_slotsOf_put (h : t s = none) :
    (slotsOf (update t s (some k)) k).card = (slotsOf t k).card + 1 := by
  have hinsert : slotsOf (update t s (some k)) k = insert s (slotsOf t k) := by
    ext x
    rw [mem_slotsOf, mem_insert, mem_slotsOf, update_apply]
    by_cases hx : x = s
    · simp [hx]
    · simp [hx]
  have hnot : s ∉ slotsOf t k := by
    rw [mem_slotsOf, h]
    exact nofun
  rw [hinsert, card_insert_of_notMem hnot]

theorem slotsOf_put_ne (h : t s = none) (hne : j ≠ k) :
    slotsOf (update t s (some k)) j = slotsOf t j := by
  ext x
  rw [mem_slotsOf, mem_slotsOf, update_apply]
  by_cases hx : x = s
  · rw [if_pos hx, hx, h]
    exact iff_of_false (fun heq => hne (Option.some.inj heq).symm) nofun
  · rw [if_neg hx]

def remaining (t : S → Option K) (l : List S) (k : K) : Nat := l.countP fun s => t s = some k

variable {l : List S}

omit [Fintype S] [DecidableEq S] in
theorem remaining_cons_eq (h : t s = some k) : remaining t (s :: l) k = remaining t l k + 1 :=
  countP_cons_of_pos (decide_eq_true h)

omit [Fintype S] [DecidableEq S] in
theorem remaining_cons_ne (h : t s ≠ some k) : remaining t (s :: l) k = remaining t l k :=
  countP_cons_of_neg (by simpa using h)

omit [Fintype S] [DecidableEq S] in
theorem remaining_concat_eq (h : t s = some k) : remaining t (l ++ [s]) k = remaining t l k + 1 := by
  rw [remaining, countP_append, countP_singleton, if_pos (decide_eq_true h), remaining]

omit [Fintype S] [DecidableEq S] in
theorem remaining_concat_ne (h : t s ≠ some k) : remaining t (l ++ [s]) k = remaining t l k := by
  rw [remaining, countP_append, countP_singleton, if_neg (by simpa using h), remaining,
    Nat.add_zero]

theorem remaining_all (hnodup : l.Nodup) (hall : ∀ s, s ∈ l) (t : S → Option K) (k : K) :
    remaining t l k = (slotsOf t k).card := by
  have hslots : slotsOf t k = (l.filter fun s => t s = some k).toFinset := by
    ext s
    simp [mem_slotsOf, hall s]
  rw [hslots, toFinset_card_of_nodup (hnodup.filter _), remaining,
    countP_eq_length_filter]

omit [DecidableEq S] in
theorem length_le_card {ks : List K} (hnodup : ks.Nodup) (hheld : ∀ k ∈ ks, ∃ s, t s = some k) :
    ks.length ≤ Fintype.card S := by
  classical
  have hslot : ∀ k : { k // k ∈ ks }, ∃ s, t s = some k.1 := fun k => hheld k.1 k.2
  choose slot hslot using hslot
  have hinj : Function.Injective slot := fun a b hab => by
    have ha := hslot a
    rw [hab, hslot b] at ha
    exact Subtype.ext (Option.some.inj ha).symm
  rw [← toFinset_card_of_nodup hnodup]
  have hcard := Fintype.card_le_of_injective slot hinj
  rwa [Fintype.card_of_subtype ks.toFinset fun k => mem_toFinset] at hcard

end Lib.SlotTable
