import Alqo.Lib.Runs

/-!
# Messages that count once

A receiver remembers the key of each message before it looks whether the message is any good. What
it has from a run is what the good ones among the first under their keys make of it.
-/

namespace Lib.FirstSeen
open Lib.Runs List

variable {M K : Type} [DecidableEq K] (key : M → Option K) (good : M → Bool)

def fresh (seen : K → Bool) (m : M) : Bool :=
  match key m with
  | none => true
  | some k => !seen k

def mark (seen : K → Bool) (m : M) : K → Bool := fun k => seen k || decide (key m = some k)

def counted (seen : K → Bool) : List M → List M
  | [] => []
  | m :: ms =>
    if fresh key seen m && good m then m :: counted (mark key seen m) ms
    else counted (mark key seen m) ms

def Unshadowed (seen : K → Bool) (ms : List M) : Prop :=
  ∀ m ∈ ms, good m = true → ∀ k, key m = some k → seen k = false →
    ∀ first, ms.find? (fun m => decide (key m = some k)) = some first → good first = true

section
variable {key good} {seen base : K → Bool} {ms : List M} {m : M} {k : K}

theorem mark_of_key (h : key m = some k) : mark key seen m k = true := by
  simp [mark, h]

theorem mark_of_ne (h : key m ≠ some k) : mark key seen m k = seen k := by
  simp [mark, h]

omit [DecidableEq K] in
theorem fresh_congr (h : ∀ k, key m = some k → seen k = base k) :
    fresh key seen m = fresh key base m := by
  unfold fresh
  cases hm : key m with
  | none => rfl
  | some k =>
    dsimp only
    rw [h k hm]

theorem first_of_mem_counted (hm : m ∈ counted key good seen ms) (hk : key m = some k) :
    seen k = false ∧ ms.find? (fun m => decide (key m = some k)) = some m ∧ good m = true := by
  induction ms generalizing seen with
  | nil => cases hm
  | cons a ms ih =>
    rw [counted] at hm
    have hrest : m ∈ counted key good (mark key seen a) ms → seen k = false ∧
        (a :: ms).find? (fun m => decide (key m = some k)) = some m ∧ good m = true := by
      intro hm
      obtain ⟨hseen, hfirst, hgood⟩ := ih hm
      by_cases ha : key a = some k
      · rw [mark_of_key ha] at hseen
        cases hseen
      · rw [mark_of_ne ha] at hseen
        rw [find?_cons_of_neg (by simpa using ha)]
        exact ⟨hseen, hfirst, hgood⟩
    split_ifs at hm with hact
    · rw [Bool.and_eq_true] at hact
      rcases mem_cons.mp hm with rfl | hm
      · have hfresh := hact.1
        rw [fresh, hk] at hfresh
        rw [find?_cons_of_pos (by simpa using hk)]
        exact ⟨by simpa using hfresh, rfl, hact.2⟩
      · exact hrest hm
    · exact hrest hm

theorem exists_counted (hall : ∀ m ∈ ms, good m = true) (hm : m ∈ ms) (hk : key m = some k)
    (hseen : seen k = false) : ∃ m' ∈ counted key good seen ms, key m' = some k := by
  induction ms generalizing seen with
  | nil => cases hm
  | cons a ms ih =>
    rw [counted]
    by_cases ha : key a = some k
    · have hact : (fresh key seen a && good a) = true := by
        rw [fresh, ha, hall a mem_cons_self]
        simp [hseen]
      rw [if_pos hact]
      exact ⟨a, mem_cons_self, ha⟩
    · have hm' : m ∈ ms := by
        rcases mem_cons.mp hm with rfl | hm
        · exact absurd hk ha
        · exact hm
      obtain ⟨m', hmem, hk'⟩ := ih
        (fun m hm => hall m (mem_cons_of_mem _ hm)) hm' ((mark_of_ne ha).trans hseen)
      split_ifs
      · exact ⟨m', mem_cons_of_mem _ hmem, hk'⟩
      · exact ⟨m', hmem, hk'⟩

theorem exists_lost (h : ¬ Unshadowed key good seen ms) :
    ∃ k, (∃ m ∈ counted key good seen (ms.filter good), key m = some k) ∧
      ∀ m ∈ counted key good seen ms, key m ≠ some k := by
  unfold Unshadowed at h
  push Not at h
  obtain ⟨m, hm, hgood, k, hk, hseen, first, hfirst, hbad⟩ := h
  refine ⟨k, ?_, ?_⟩
  · refine exists_counted (m := m) ?_ (mem_filter.mpr ⟨hm, hgood⟩) hk hseen
    intro m hm
    exact (mem_filter.mp hm).2
  · intro m' hm' hk'
    obtain ⟨-, hfirst', hgood'⟩ := first_of_mem_counted hm' hk'
    rw [hfirst] at hfirst'
    cases hfirst'
    exact hbad hgood'

/- The bad messages can be left out as long as the two scans agree on the keys of the good
messages still to come, and each of them is then the first under its key. -/
theorem counted_filter (h : ∀ m ∈ ms, good m = true → ∀ k, key m = some k → seen k = base k ∧
      (seen k = false → ∀ first, ms.find? (fun m => decide (key m = some k)) = some first →
        good first = true)) :
    counted key good seen ms = counted key good base (ms.filter good) := by
  induction ms generalizing seen base with
  | nil => rfl
  | cons a ms ih =>
    have hrest : ∀ m ∈ ms, good m = true → ∀ k, key m = some k → key a ≠ some k →
        seen k = base k ∧ (seen k = false → ∀ first,
          ms.find? (fun m => decide (key m = some k)) = some first → good first = true) := by
      intro m hm hgood k hk ha
      obtain ⟨hsame, hfirst⟩ := h m (mem_cons_of_mem _ hm) hgood k hk
      rw [find?_cons_of_neg (by simpa using ha)] at hfirst
      exact ⟨hsame, hfirst⟩
    rw [counted]
    cases hgood : good a with
    | false =>
      rw [filter_cons_of_neg (by simp [hgood]), Bool.and_false, if_neg (by decide)]
      apply ih
      intro m hm hm' k hk
      by_cases ha : key a = some k
      · rw [mark_of_key ha]
        obtain ⟨hsame, hfirst⟩ := h m (mem_cons_of_mem _ hm) hm' k hk
        refine ⟨?_, fun hfalse => by cases hfalse⟩
        rw [find?_cons_of_pos (by simpa using ha)] at hfirst
        cases hseen : seen k with
        | true => exact hseen.symm.trans hsame
        | false => exact absurd (hfirst hseen a rfl) (by simp [hgood])
      · rw [mark_of_ne ha]
        exact hrest m hm hm' k hk ha
    | true =>
      have hkey : fresh key seen a = fresh key base a :=
        fresh_congr fun k hk => (h a mem_cons_self hgood k hk).1
      have hnext : counted key good (mark key seen a) ms =
          counted key good (mark key base a) (ms.filter good) := by
        apply ih
        intro m hm hm' k hk
        by_cases ha : key a = some k
        · rw [mark_of_key ha, mark_of_key ha]
          exact ⟨rfl, fun hfalse => by cases hfalse⟩
        · rw [mark_of_ne ha, mark_of_ne ha]
          exact hrest m hm hm' k hk ha
      rw [filter_cons_of_pos hgood, counted, hgood, hkey, hnext]

theorem counted_counted (h : ∀ k, base k = true → seen k = true) :
    counted key good base (counted key good seen ms) = counted key good seen ms := by
  induction ms generalizing seen base with
  | nil => rfl
  | cons a ms ih =>
    have hmark : ∀ k, mark key base a k = true → mark key seen a k = true := by
      intro k hk
      simp only [mark, Bool.or_eq_true] at hk ⊢
      exact hk.imp_left (h k)
    rw [counted]
    split_ifs with hact
    · rw [Bool.and_eq_true] at hact
      have hfresh : fresh key base a = true := by
        have hfresh := hact.1
        unfold fresh at hfresh ⊢
        cases ha : key a with
        | none => rfl
        | some k =>
          rw [ha] at hfresh
          cases hbase : base k with
          | false => simp [hbase]
          | true => simp [h k hbase] at hfresh
      rw [counted, hfresh, hact.2, Bool.true_and, if_pos rfl, ih hmark]
    · refine ih fun k hk => ?_
      rw [mark, h k hk, Bool.true_or]

theorem counted_filter_iff : counted key good seen ms = counted key good seen (ms.filter good) ↔
      Unshadowed key good seen ms := by
  constructor
  · intro heq
    by_contra hlost
    obtain ⟨k, ⟨m, hm, hk⟩, hnone⟩ := exists_lost hlost
    rw [← heq] at hm
    exact hnone m hm hk
  · intro h
    exact counted_filter fun m hm hgood k hk => ⟨rfl, h m hm hgood k hk⟩

end

/- A receiver with a table of keys; `obs` is what it has apart from the table. -/
structure Screens {S O : Type} (step : S → M → S) (obs : S → O) (seen : S → K → Bool)
    (act : O → M → O) : Prop where
  marks : ∀ s m k, seen (step s m) k = mark key (seen s) m k
  stale : ∀ s m, fresh key (seen s) m = false → obs (step s m) = obs s
  bad : ∀ s m, good m = false → obs (step s m) = obs s
  acts : ∀ s m, fresh key (seen s) m = true → good m = true → obs (step s m) = act (obs s) m

variable {key good}

variable {S O : Type} {step : S → M → S} {obs : S → O} {seen : S → K → Bool} {act : O → M → O}

theorem Screens.run (h : Screens key good step obs seen act) (s : S) (ms : List M) :
    obs (run step s ms) = (counted key good (seen s) ms).foldl act (obs s) := by
  induction ms generalizing s with
  | nil => rfl
  | cons m ms ih =>
    have hseen : seen (step s m) = mark key (seen s) m := funext (h.marks s m)
    rw [run_cons, ih, hseen, counted]
    split_ifs with hact
    · rw [Bool.and_eq_true] at hact
      rw [h.acts s m hact.1 hact.2, foldl_cons]
    · rw [Bool.and_eq_true, not_and_or, Bool.not_eq_true, Bool.not_eq_true] at hact
      rcases hact with hstale | hbad
      · rw [h.stale s m hstale]
      · rw [h.bad s m hbad]

theorem Screens.run_counted (h : Screens key good step obs seen act) (s : S) (ms : List M) :
    obs (Lib.Runs.run step s ms) = obs (Lib.Runs.run step s (counted key good (seen s) ms)) := by
  rw [h.run, h.run, counted_counted fun _ => id]

end Lib.FirstSeen
