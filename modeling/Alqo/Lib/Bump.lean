import Mathlib

/-!
# Handing out ranges by counters

Ranges of one file do not overlap as long as counters only move past what they hand out.
-/

namespace Lib.Bump

structure Range (F : Type) where
  file : F
  start : Nat
  size : Nat

variable {F : Type}

def Apart (r q : Range F) : Prop :=
  r.file = q.file → r.start + r.size ≤ q.start ∨ q.start + q.size ≤ r.start

structure Handed (used : F → Nat) (l : List (Range F)) : Prop where
  below : ∀ r ∈ l, r.start + r.size ≤ used r.file
  apart : l.Pairwise Apart

variable {used used' : F → Nat} {l : List (Range F)}

theorem handed_nil (used : F → Nat) : Handed used [] :=
  ⟨fun r hr => (by cases hr), List.Pairwise.nil⟩

theorem Handed.mono (h : Handed used l) (hle : ∀ f, used f ≤ used' f) : Handed used' l :=
  ⟨fun r hr => (h.below r hr).trans (hle r.file), h.apart⟩

theorem Handed.push (h : Handed used l) {f : F} {size : Nat} (hle : ∀ g, used g ≤ used' g)
    (hroom : used f + size ≤ used' f) : Handed used' (l ++ [⟨f, used f, size⟩]) := by
  constructor
  · intro r hr
    rcases List.mem_append.mp hr with hr | hr
    · exact (h.below r hr).trans (hle r.file)
    · rw [List.mem_singleton.mp hr]
      exact hroom
  · refine List.pairwise_append.mpr ⟨h.apart, List.pairwise_singleton _ _, fun r hr q hq => ?_⟩
    rw [List.mem_singleton.mp hq]
    intro hfile
    have hbelow := h.below r hr
    rw [hfile] at hbelow
    exact .inl hbelow

end Lib.Bump
