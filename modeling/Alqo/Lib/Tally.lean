import Mathlib

/-!
# Totals over association lists

A counter kept beside a map is the sum of a weight over the entries; the rules say how the sum
changes with the map.
-/

namespace Lib.Tally
open List

variable {α β : Type} {f g : α → β → Int}

def tally (f : α → β → Int) (m : AList fun _ : α => β) : Int :=
  (m.entries.map fun e => f e.1 e.2).sum

theorem tally_empty (f : α → β → Int) : tally f ∅ = 0 := rfl

variable [DecidableEq α] {m : AList fun _ : α => β} {a : α} {b : β}

theorem sum_kerase {l : List (Sigma fun _ : α => β)} (h : l.dlookup a = some b) :
    (l.map fun e => f e.1 e.2).sum = f a b + ((l.kerase a).map fun e => f e.1 e.2).sum := by
  induction l with
  | nil => cases h
  | cons e l ih =>
    obtain ⟨k, v⟩ := e
    by_cases hk : a = k
    · subst hk
      rw [dlookup_cons_eq] at h
      cases h
      have hrest : (⟨a, b⟩ :: l : List (Sigma fun _ : α => β)).kerase a = l := kerase_cons_eq rfl
      rw [hrest, map_cons, sum_cons]
    · rw [dlookup_cons_ne l ⟨k, v⟩ hk] at h
      rw [kerase_cons_ne hk, map_cons, map_cons, sum_cons, sum_cons, ih h]
      omega

theorem tally_erase (h : m.lookup a = some b) : tally f m = f a b + tally f (m.erase a) :=
  sum_kerase h

theorem tally_insert_new (h : m.lookup a = none) : tally f (m.insert a b) = f a b + tally f m := by
  rw [AList.lookup_eq_none] at h
  rw [tally, AList.entries_insert_of_notMem h, map_cons, sum_cons, tally]

variable {c : β}

theorem tally_insert (h : m.lookup a = some b) :
    tally f (m.insert a c) = f a c - f a b + tally f m := by
  have hsum := sum_kerase (f := f) h
  rw [tally, AList.entries_insert, map_cons, sum_cons, tally, hsum]
  dsimp only
  omega

/-- An entry that is missing counts as one of no weight. -/
theorem tally_insert_getD {d : β} (hd : f a d = 0) :
    tally f (m.insert a c) = f a c - f a ((m.lookup a).getD d) + tally f m := by
  cases h : m.lookup a with
  | none => rw [tally_insert_new h, Option.getD_none, hd, Int.sub_zero]
  | some b => exact tally_insert h

theorem tally_insert_same (h : m.lookup a = some b) (hf : f a c = f a b) :
    tally f (m.insert a c) = tally f m := by
  rw [tally_insert h, hf, Int.sub_self, Int.zero_add]

end Lib.Tally
