import Mathlib

/-!
# Values held under keys

Emptying slots takes their worth from the total, and filling empty ones adds to it.
-/

namespace Lib.Holdings
open List

variable {κ α : Type*} {v : α → Int} {f d : κ → Option α}

def worth (v : α → Int) (x : Option α) : Int := x.elim 0 v

@[simp] theorem worth_none : worth v none = 0 := rfl

@[simp] theorem worth_some (a : α) : worth v (some a) = v a := rfl

noncomputable def total (v : α → Int) (f : κ → Option α) : Int := ∑ᶠ k, worth v (f k)

def Bounded (f : κ → Option α) : Prop := {k | f k ≠ none}.Finite

theorem total_empty : total v (fun _ : κ => none) = 0 := by
  simp [total]

theorem Bounded.mono (h : Bounded f) (hd : ∀ k, f k = none → d k = none) : Bounded d :=
  h.subset fun k hk hf => hk (hd k hf)

theorem Bounded.support (h : Bounded f) : (Function.support fun k => worth v (f k)).Finite := by
  refine Set.Finite.subset h ?_
  intro k hk hnone
  refine hk ?_
  show worth v (f k) = 0
  rw [hnone, worth_none]

theorem total_or (hf : Bounded f) (hd : Bounded d) (hdisj : ∀ k, f k = none ∨ d k = none) :
    total v (fun k => (f k).or (d k)) = total v f + total v d := by
  rw [total, total, total, ← finsum_add_distrib hf.support hd.support]
  refine finsum_congr fun k => ?_
  rcases hdisj k with h | h
  · rw [h, Option.none_or, worth_none, Int.zero_add]
  · rw [h, Option.or_none, worth_none, Int.add_zero]

variable {ks : List κ}

theorem total_listed [DecidableEq κ] (hks : ks.Nodup) :
    total v (fun k => if k ∈ ks then f k else none) = (ks.map fun k => worth v (f k)).sum := by
  have hsub : (Function.support fun k => worth v (if k ∈ ks then f k else none)) ⊆
      (ks.toFinset : Set κ) := by
    intro k hk
    by_contra hnot
    have hout : k ∉ ks := fun hmem => hnot (Finset.mem_coe.mpr (List.mem_toFinset.mpr hmem))
    refine hk ?_
    show worth v (if k ∈ ks then f k else none) = 0
    rw [if_neg hout, worth_none]
  rw [total, finsum_eq_sum_of_support_subset _ hsub, ← sum_toFinset _ hks]
  refine Finset.sum_congr rfl fun k hk => ?_
  rw [if_pos (List.mem_toFinset.mp hk)]

theorem total_remove [DecidableEq κ] (hks : ks.Nodup) (hf : Bounded f) :
    total v (fun k => if k ∈ ks then none else f k) =
      total v f - (ks.map fun k => worth v (f k)).sum := by
  have hleft : Bounded fun k => if k ∈ ks then none else f k := hf.mono fun k h => by
    rw [h, ite_self]
  have htaken : Bounded fun k => if k ∈ ks then f k else none := hf.mono fun k h => by
    rw [h, ite_self]
  have hsum := total_or (v := v) hleft htaken fun k => by
    by_cases h : k ∈ ks
    · exact .inl (if_pos h)
    · exact .inr (if_neg h)
  have hwhole : (fun k => (if k ∈ ks then none else f k).or (if k ∈ ks then f k else none)) = f := by
    funext k
    by_cases h : k ∈ ks
    · rw [if_pos h, if_pos h, Option.none_or]
    · rw [if_neg h, if_neg h, Option.or_none]
  rw [hwhole, total_listed hks] at hsum
  omega

theorem sum_slots (slots : List (Option α)) :
    ∑ n ∈ Finset.range slots.length, worth v (slots[n]?.join) = (slots.map (worth v)).sum := by
  induction slots using List.reverseRecOn with
  | nil => rfl
  | append_singleton slots x ih =>
    rw [length_append, length_singleton, Finset.sum_range_succ, map_append,
      sum_append, ← ih]
    have hlast : (slots ++ [x])[slots.length]?.join = x := by simp
    rw [hlast, map_singleton, sum_singleton]
    congr 1
    refine Finset.sum_congr rfl fun n hn => ?_
    rw [getElem?_append_left (Finset.mem_range.mp hn)]

section
variable {key : ℕ → κ} {slots : List (Option α)}

theorem bounded_numbered (hon : ∀ n, d (key n) = slots[n]?.join)
    (hoff : ∀ k, k ∉ Set.range key → d k = none) : Bounded d := by
  refine ((Finset.range slots.length).finite_toSet.image key).subset ?_
  intro k hk
  by_cases hrange : k ∈ Set.range key
  · obtain ⟨n, rfl⟩ := hrange
    refine ⟨n, ?_, rfl⟩
    by_contra hnot
    refine hk ?_
    rw [hon, getElem?_eq_none (by simpa using hnot)]
    rfl
  · exact absurd (hoff k hrange) hk

theorem total_numbered (hkey : Function.Injective key) (hon : ∀ n, d (key n) = slots[n]?.join)
    (hoff : ∀ k, k ∉ Set.range key → d k = none) :
    total v d = (slots.map (worth v)).sum := by
  classical
  have hsub : (Function.support fun k => worth v (d k)) ⊆
      ((Finset.range slots.length).image key : Set κ) := by
    intro k hk
    have hne : d k ≠ none := fun hnone => hk (by simp [hnone])
    by_cases hrange : k ∈ Set.range key
    · obtain ⟨n, rfl⟩ := hrange
      refine Finset.mem_coe.mpr (Finset.mem_image_of_mem key (Finset.mem_range.mpr ?_))
      by_contra hnot
      rw [hon, getElem?_eq_none (by omega)] at hne
      exact hne rfl
    · exact absurd (hoff k hrange) hne
  rw [total, finsum_eq_sum_of_support_subset _ hsub, Finset.sum_image hkey.injOn, ← sum_slots]
  exact Finset.sum_congr rfl fun n _ => by rw [hon]

end

end Lib.Holdings
