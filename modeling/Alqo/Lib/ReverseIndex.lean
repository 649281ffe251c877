import Mathlib

/-!
# Reverse indexes

An item stands under each of its keys, which may repeat, and a set that becomes empty goes.
-/

namespace Lib.ReverseIndex
open AList

variable {κ ι : Type} [DecidableEq κ] [DecidableEq ι]

abbrev Index (κ ι : Type) := AList fun _ : κ => Finset ι

def under (m : Index κ ι) (k : κ) : Finset ι := (m.lookup k).getD ∅

def add (x : ι) (m : Index κ ι) (k : κ) : Index κ ι := m.insert k (insert x (under m k))

def remove (x : ι) (m : Index κ ι) (k : κ) : Index κ ι :=
  match m.lookup k with
  | none => m
  | some set => if set.erase x = ∅ then m.erase k else m.insert k (set.erase x)

def NoEmpty (m : Index κ ι) : Prop := ∀ k, m.lookup k ≠ some ∅

variable {m : Index κ ι} {x y : ι} {k k' : κ}

theorem mem_under_add : y ∈ under (add x m k') k ↔ y ∈ under m k ∨ (y = x ∧ k = k') := by
  unfold under add
  by_cases hk : k = k'
  · subst hk
    rw [lookup_insert, Option.getD_some, Finset.mem_insert]
    simp [under, or_comm]
  · rw [lookup_insert_ne hk]
    simp [hk]

theorem mem_under_remove : y ∈ under (remove x m k') k ↔ y ∈ under m k ∧ ¬ (y = x ∧ k = k') := by
  unfold remove
  cases hset : m.lookup k' with
  | none =>
    have hempty : under m k' = ∅ := by rw [under, hset]; rfl
    constructor
    · intro hy
      refine ⟨hy, ?_⟩
      rintro ⟨-, rfl⟩
      rw [hempty] at hy
      cases hy
    · exact fun hy => hy.1
  | some set =>
    have hunder : under m k' = set := by rw [under, hset]; rfl
    by_cases hk : k = k'
    · subst hk
      have hafter : under (if set.erase x = ∅ then m.erase k else m.insert k (set.erase x)) k =
          set.erase x := by
        split_ifs with hempty
        · rw [under, lookup_erase, hempty]
          rfl
        · rw [under, lookup_insert]
          rfl
      rw [hafter, hunder, Finset.mem_erase]
      simp [and_comm]
    · have hafter : under (if set.erase x = ∅ then m.erase k' else m.insert k' (set.erase x)) k =
          under m k := by
        split_ifs
        · rw [under, lookup_erase_ne hk, under]
        · rw [under, lookup_insert_ne hk, under]
      rw [hafter]
      simp [hk]

theorem NoEmpty.add (h : NoEmpty m) : NoEmpty (add x m k) := by
  intro k'
  unfold ReverseIndex.add
  by_cases hk : k' = k
  · rw [hk, lookup_insert]
    intro hnone
    exact Finset.insert_ne_empty x _ (Option.some.inj hnone)
  · rw [lookup_insert_ne hk]
    exact h k'

theorem NoEmpty.remove (h : NoEmpty m) : NoEmpty (remove x m k) := by
  intro k'
  unfold ReverseIndex.remove
  cases hset : m.lookup k with
  | none => exact h k'
  | some set =>
    dsimp only
    split_ifs with hempty
    · by_cases hk : k' = k
      · rw [hk, lookup_erase]
        exact nofun
      · rw [lookup_erase_ne hk]
        exact h k'
    · by_cases hk : k' = k
      · rw [hk, lookup_insert]
        intro hnone
        exact hempty (Option.some.inj hnone)
      · rw [lookup_insert_ne hk]
        exact h k'

theorem mem_under_addAll (ks : List κ) :
    y ∈ under (ks.foldl (add x) m) k ↔ y ∈ under m k ∨ (y = x ∧ k ∈ ks) := by
  induction ks generalizing m with
  | nil => simp
  | cons k' ks ih =>
    rw [List.foldl_cons, ih, mem_under_add, List.mem_cons, and_or_left, or_assoc]

theorem mem_under_removeAll (ks : List κ) :
    y ∈ under (ks.foldl (remove x) m) k ↔ y ∈ under m k ∧ ¬ (y = x ∧ k ∈ ks) := by
  induction ks generalizing m with
  | nil => simp
  | cons k' ks ih =>
    rw [List.foldl_cons, ih, mem_under_remove, List.mem_cons, and_or_left, not_or, and_assoc]

theorem NoEmpty.addAll (ks : List κ) (h : NoEmpty m) : NoEmpty (ks.foldl (ReverseIndex.add x) m) := by
  induction ks generalizing m with
  | nil => exact h
  | cons k ks ih => exact ih h.add

theorem NoEmpty.removeAll (ks : List κ) (h : NoEmpty m) :
    NoEmpty (ks.foldl (ReverseIndex.remove x) m) := by
  induction ks generalizing m with
  | nil => exact h
  | cons k ks ih => exact ih h.remove

end Lib.ReverseIndex
