import Mathlib

/-!
# Branches of a tree given by parent pointers

The branch of a node lists the node, its parent and so on down to the root.
-/

namespace Lib.Branches
open List

variable {K : Type*}

def down (parent : K → Option K) : Nat → K → List K
  | 0, k => [k]
  | n + 1, k => k :: (parent k).elim [] (down parent n)

def branch (parent : K → Option K) (height : K → Nat) (k : K) : List K :=
  down parent (height k) k

def Graded (parent : K → Option K) (height : K → Nat) : Prop :=
  ∀ k p, parent k = some p → height k = height p + 1

variable {parent parent' : K → Option K} {k : K}

theorem down_congr {n : Nat} (h : ∀ a ∈ down parent n k, parent' a = parent a) :
    down parent' n k = down parent n k := by
  induction n generalizing k with
  | zero => rfl
  | succ n ih =>
    have hk : parent' k = parent k := h k mem_cons_self
    simp only [down, hk]
    cases hp : parent k with
    | none => rfl
    | some p =>
      have hrest : ∀ a ∈ down parent n p, parent' a = parent a := by
        intro a ha
        apply h a
        rw [down, hp]
        exact mem_cons_of_mem k ha
      simp only [Option.elim_some, ih hrest]

theorem branch_congr {height height' : K → Nat}
    (hp : ∀ a ∈ branch parent height k, parent' a = parent a) (hh : height' k = height k) :
    branch parent' height' k = branch parent height k := by
  unfold branch
  rw [hh]
  exact down_congr hp

section Graded

variable {parent : K → Option K} {height : K → Nat}

variable {k : K}

theorem branch_of_root (hk : parent k = none) : branch parent height k = [k] := by
  unfold branch
  cases height k with
  | zero => rfl
  | succ n => rw [down, hk, Option.elim_none]

theorem branch_eq_cons (k : K) : ∃ tail, branch parent height k = k :: tail := by
  unfold branch
  cases height k with
  | zero => exact ⟨[], rfl⟩
  | succ n => exact ⟨_, rfl⟩

theorem self_mem_branch (k : K) : k ∈ branch parent height k := by
  obtain ⟨tail, htail⟩ := branch_eq_cons k
  rw [htail]
  exact mem_cons_self

variable (h : Graded parent height)
include h

theorem branch_of_parent {p : K} (hp : parent k = some p) :
    branch parent height k = k :: branch parent height p := by
  unfold branch
  rw [h k p hp, down, hp, Option.elim_some]

variable {P : K → Prop}

theorem branch_induction (step : ∀ k, (∀ p, parent k = some p → P p) → P k) (k : K) : P k := by
  induction hn : height k using Nat.strong_induction_on generalizing k with
  | _ n ih =>
    apply step
    intro p hp
    have hlt : height p < n := by
      have := h k p hp
      omega
    exact ih (height p) hlt p rfl

variable {a : K}

theorem mem_branch_iff : a ∈ branch parent height k ↔
      a = k ∨ ∃ p, parent k = some p ∧ a ∈ branch parent height p := by
  cases hp : parent k with
  | none => simp [branch_of_root hp]
  | some p => simp [branch_of_parent h hp]

theorem forall_branch_iff : (∀ a ∈ branch parent height k, P a) ↔
      P k ∧ ∀ p, parent k = some p → ∀ a ∈ branch parent height p, P a := by
  cases hp : parent k with
  | none => simp [branch_of_root hp]
  | some p => simp [branch_of_parent h hp]

variable {b : K}

theorem mem_branch_trans {c : K} (hab : a ∈ branch parent height b)
    (hbc : b ∈ branch parent height c) : a ∈ branch parent height c := by
  induction c using branch_induction h with
  | step c ih =>
    rcases (mem_branch_iff h).mp hbc with rfl | ⟨p, hp, hbp⟩
    · exact hab
    · exact (mem_branch_iff h).mpr (.inr ⟨p, hp, ih p hp hbp⟩)

theorem branch_pairwise (k : K) :
    (branch parent height k).Pairwise fun b a => a ∈ branch parent height b := by
  induction k using branch_induction h with
  | step k ih =>
    cases hp : parent k with
    | none =>
      rw [branch_of_root hp]
      exact pairwise_singleton _ k
    | some p =>
      rw [branch_of_parent h hp]
      refine pairwise_cons.mpr ⟨fun a ha => ?_, ih p hp⟩
      exact (mem_branch_iff h).mpr (.inr ⟨p, hp, ha⟩)

theorem mem_branch_of_append {above below : List K}
    (hk : branch parent height k = above ++ a :: below) (hb : b ∈ above) :
    a ∈ branch parent height b := by
  have hpw := branch_pairwise h k
  rw [hk] at hpw
  exact (pairwise_append.mp hpw).2.2 b hb a mem_cons_self

theorem getElem?_branch_height {i : Nat} (ha : (branch parent height k)[i]? = some a) :
    height a + i = height k := by
  induction k using branch_induction h generalizing i with
  | step k ih =>
    cases i with
    | zero =>
      have hak : a = k := by
        cases hp : parent k with
        | none => simpa [branch_of_root hp] using ha.symm
        | some p => simpa [branch_of_parent h hp] using ha.symm
      rw [hak, Nat.add_zero]
    | succ i =>
      cases hp : parent k with
      | none => simp [branch_of_root hp] at ha
      | some p =>
        rw [branch_of_parent h hp, getElem?_cons_succ] at ha
        have hp' := ih p hp ha
        have hk := h k p hp
        omega

theorem height_le_of_mem (ha : a ∈ branch parent height k) : height a ≤ height k := by
  obtain ⟨i, hi⟩ := mem_iff_getElem?.mp ha
  have := getElem?_branch_height h hi
  omega

theorem getElem?_branch_eq_iff (hle : height a ≤ height k) :
    (branch parent height k)[height k - height a]? = some a ↔ a ∈ branch parent height k := by
  constructor
  · intro ha
    exact mem_iff_getElem?.mpr ⟨_, ha⟩
  · intro ha
    obtain ⟨i, hi⟩ := mem_iff_getElem?.mp ha
    have hheight := getElem?_branch_height h hi
    have hsub : height k - height a = i := by omega
    rw [hsub]
    exact hi

end Graded

end Lib.Branches
