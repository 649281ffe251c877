import Mathlib

/-!
# Lists searched by a key

The list is searched from the front; an entry is changed in place.
-/

namespace Lib.KeyedList
open List

variable {α κ : Type*} [DecidableEq κ] (key : α → κ)

def find (k : κ) (l : List α) : Option α := l.find? fun a => decide (key a = k)

def modify (k : κ) (f : α → α) : List α → List α
  | [] => []
  | a :: l => if key a = k then f a :: l else a :: modify k f l

variable {key} {k : κ} {f : α → α} {l : List α} {a b : α}

theorem mem_of_find (h : find key k l = some a) : a ∈ l := mem_of_find?_eq_some h

theorem key_of_find (h : find key k l = some a) : key a = k := by
  simpa using find?_some h

theorem find_eq_none : find key k l = none ↔ k ∉ l.map key := by
  simp only [find, find?_eq_none, decide_eq_true_eq, mem_map, not_exists, not_and]

theorem find_of_mem (hnodup : (l.map key).Nodup) (ha : a ∈ l) : find key (key a) l = some a := by
  cases hfind : find key (key a) l with
  | none => exact absurd (mem_map_of_mem ha) (find_eq_none.mp hfind)
  | some b =>
    have hinj := inj_on_of_nodup_map hnodup (mem_of_find hfind) ha (key_of_find hfind)
    rw [hinj]

theorem map_key_modify (hf : ∀ a, key a = k → key (f a) = k) :
    (modify key k f l).map key = l.map key := by
  induction l with
  | nil => rfl
  | cons a l ih =>
    rw [modify]
    split_ifs with h
    · rw [map_cons, hf a h, map_cons, h]
    · rw [map_cons, ih, map_cons]

theorem find_modify (hf : ∀ a, key a = k → key (f a) = k) :
    find key k (modify key k f l) = (find key k l).map f := by
  induction l with
  | nil => rfl
  | cons a l ih =>
    rw [modify]
    split_ifs with h
    · simp only [find, find?_cons, hf a h, h, decide_true, Option.map_some]
    · simp only [find, find?_cons, h, decide_false]
      exact ih

theorem mem_modify (h : b ∈ modify key k f l) : b ∈ l ∨ ∃ a, find key k l = some a ∧ b = f a := by
  induction l with
  | nil => cases h
  | cons a l ih =>
    rw [modify] at h
    split_ifs at h with hk
    · rcases mem_cons.mp h with rfl | h
      · exact .inr ⟨a, by simp only [find, find?_cons, hk, decide_true], rfl⟩
      · exact .inl (mem_cons_of_mem _ h)
    · have hfind : find key k (a :: l) = find key k l := by
        simp only [find, find?_cons, hk, decide_false]
      rw [hfind]
      rcases mem_cons.mp h with rfl | h
      · exact .inl mem_cons_self
      · exact (ih h).imp (mem_cons_of_mem _) id

theorem perm_remove (hnodup : (l.map key).Nodup) (ha : a ∈ l) :
    l.Perm (a :: l.filter fun b => key b ≠ key a) := by
  induction l with
  | nil => cases ha
  | cons b l ih =>
    rw [map_cons, nodup_cons] at hnodup
    rcases mem_cons.mp ha with rfl | ha
    · have hrest : l.filter (fun b => key b ≠ key a) = l := by
        rw [filter_eq_self]
        intro b hb
        rw [decide_eq_true_eq]
        intro hkey
        exact hnodup.1 (hkey ▸ mem_map_of_mem hb)
      rw [filter_cons_of_neg (by simp), hrest]
    · have hne : key b ≠ key a := by
        intro hkey
        exact hnodup.1 (hkey ▸ mem_map_of_mem ha)
      rw [filter_cons_of_pos (by simpa using hne)]
      exact ((ih hnodup.2 ha).cons b).trans (List.Perm.swap _ _ _)

end Lib.KeyedList
