import Mathlib

/-!
# Runs of fallible steps

What a successful run of a fallible step did, what its steps preserve, and where a failed run
stopped.
-/

namespace Lib.Fallible

universe u

variable {ε S A : Type*} {α β : Type u}

variable {x : Except ε α} {f : α → Except ε β}

theorem bind_ok_iff {r : β} : (x >>= f) = .ok r ↔ ∃ a, x = .ok a ∧ f a = .ok r := by
  cases x with
  | error e => simp [bind, Except.bind]
  | ok a => simp [bind, Except.bind]

variable {e : ε}

theorem bind_error_iff : (x >>= f) = .error e ↔ x = .error e ∨ ∃ a, x = .ok a ∧ f a = .error e := by
  cases x with
  | error e => simp [bind, Except.bind]
  | ok a => simp [bind, Except.bind]

instance decidableEqError [DecidableEq ε] {A : Type*} (x : Except ε A) (e : ε) :
    Decidable (x = .error e) :=
  match x with
  | .error e' => decidable_of_iff (e' = e) (by simp)
  | .ok a => isFalse (by simp)

instance decidableExistsOk {A : Type*} (x : Except ε A) : Decidable (∃ a, x = .ok a) :=
  match x with
  | .error e => isFalse (by simp)
  | .ok a => isTrue ⟨a, rfl⟩

instance decidableExistsOkAnd {A : Type*} (x : Except ε A) (P : A → Prop) [DecidablePred P] :
    Decidable (∃ a, x = .ok a ∧ P a) :=
  match x with
  | .error e => isFalse (by simp)
  | .ok a => decidable_of_iff (P a) (by simp)

/-- A run from position `i` on; a step knows its position and may stop the run. -/
def runFrom (step : Nat → A → S → Except ε S) : Nat → List A → S → Except ε S
  | _, [], s => .ok s
  | i, a :: l, s =>
    match step i a s with
    | .error e => .error e
    | .ok s' => runFrom step (i + 1) l s'

variable {step : Nat → A → S → Except ε S}

variable {i : Nat} {l : List A} {s : S}

variable {t : S}

theorem runFrom_cons_ok_iff {a : A} : runFrom step i (a :: l) s = .ok t ↔
      ∃ s', step i a s = .ok s' ∧ runFrom step (i + 1) l s' = .ok t := by
  rw [runFrom]
  cases step i a s with
  | error e => simp
  | ok s' => simp

theorem runFrom_induct (R : List A → S → Prop)
    (hstep : ∀ seen a s s', R seen s → step seen.length a s = .ok s' → R (seen ++ [a]) s')
    (seen : List A) (h0 : R seen s) (h : runFrom step seen.length l s = .ok t) :
    R (seen ++ l) t := by
  induction l generalizing seen s with
  | nil =>
    cases h
    simpa using h0
  | cons a l ih =>
    obtain ⟨s', ha, hl⟩ := runFrom_cons_ok_iff.mp h
    have hlen : (seen ++ [a]).length = seen.length + 1 := by simp
    rw [← hlen] at hl
    have := ih (seen ++ [a]) (hstep seen a s s' h0 ha) hl
    simpa using this

theorem runFrom_total (R : List A → S → Prop)
    (hstep : ∀ i a rest s, R (a :: rest) s → ∃ s', step i a s = .ok s' ∧ R rest s')
    (i : Nat) (l : List A) (s : S) (h : R l s) : ∃ t, runFrom step i l s = .ok t ∧ R [] t := by
  induction l generalizing i s with
  | nil => exact ⟨s, rfl, h⟩
  | cons a l ih =>
    obtain ⟨s', ha, hrest⟩ := hstep i a l s h
    obtain ⟨t, ht, hend⟩ := ih (i + 1) s' hrest
    exact ⟨t, runFrom_cons_ok_iff.mpr ⟨s', ha, ht⟩, hend⟩

theorem runFrom_append {before after : List A} {s' : S} (h : runFrom step i before s = .ok s') :
    runFrom step i (before ++ after) s = runFrom step (i + before.length) after s' := by
  induction before generalizing i s with
  | nil =>
    cases h
    simp
  | cons a before ih =>
    obtain ⟨t, ha, hrest⟩ := runFrom_cons_ok_iff.mp h
    rw [List.cons_append, runFrom, ha]
    dsimp only
    rw [ih hrest, List.length_cons, Nat.add_right_comm, Nat.add_assoc]

theorem runFrom_error_iff : runFrom step i l s = .error e ↔
      ∃ before a after s', l = before ++ a :: after ∧ runFrom step i before s = .ok s' ∧
        step (i + before.length) a s' = .error e := by
  constructor
  · intro h
    induction l generalizing i s with
    | nil => cases h
    | cons a l ih =>
      rw [runFrom] at h
      cases ha : step i a s with
      | error e' =>
        rw [ha] at h
        cases h
        exact ⟨[], a, l, s, rfl, rfl, ha⟩
      | ok t =>
        rw [ha] at h
        obtain ⟨before, b, after, s', rfl, hbefore, hb⟩ := ih h
        refine ⟨a :: before, b, after, s', rfl, runFrom_cons_ok_iff.mpr ⟨t, ha, hbefore⟩, ?_⟩
        rwa [List.length_cons, Nat.add_comm before.length, ← Nat.add_assoc]
  · rintro ⟨before, a, after, s', rfl, hbefore, ha⟩
    rw [runFrom_append hbefore, runFrom, ha]

end Lib.Fallible
