import Mathlib

/-!
# Runs of a partial step function against a total specification

A step may fail (`none`). The rule `run_simulates` turns one simulation square into a statement
about whole runs.
-/

namespace Lib.Simulation

variable {σ τ ι ω : Type*}

def run (step : σ → ι → Option (σ × ω)) : σ → List ι → Option (σ × List ω)
  | s, [] => some (s, [])
  | s, i :: is =>
    match step s i with
    | none => none
    | some (s', o) =>
      match run step s' is with
      | none => none
      | some (s'', os) => some (s'', o :: os)

def specRun (spec : τ → ι → τ × ω) : τ → List ι → τ × List ω
  | t, [] => (t, [])
  | t, i :: is =>
    let rest := specRun spec (spec t i).1 is
    (rest.1, (spec t i).2 :: rest.2)

def Admitted (step : σ → ι → Option (σ × ω)) (ok : σ → ι → Prop) : σ → List ι → Prop
  | _, [] => True
  | s, i :: is => ok s i ∧
    match step s i with
    | none => True
    | some (s', _) => Admitted step ok s' is

instance decidableAdmitted (step : σ → ι → Option (σ × ω)) (ok : σ → ι → Prop)
    [∀ s i, Decidable (ok s i)] : ∀ s is, Decidable (Admitted step ok s is)
  | _, [] => inferInstanceAs (Decidable True)
  | s, i :: is =>
    have : Decidable (match step s i with
        | none => True
        | some (s', _) => Admitted step ok s' is) :=
      match step s i with
      | none => inferInstanceAs (Decidable True)
      | some (s', _) => decidableAdmitted step ok s' is
    inferInstanceAs (Decidable (_ ∧ _))

theorem admitted_cons {step : σ → ι → Option (σ × ω)} {ok : σ → ι → Prop} {s s' : σ} {i : ι}
    {is : List ι} {o : ω} (hi : ok s i) (hstep : step s i = some (s', o))
    (his : Admitted step ok s' is) : Admitted step ok s (i :: is) := by
  refine ⟨hi, ?_⟩
  rw [hstep]
  exact his

def Agree (compared : ι → Prop) : List ι → List ω → List ω → Prop
  | [], [], [] => True
  | i :: is, o :: os, p :: ps => (compared i → o = p) ∧ Agree compared is os ps
  | _, _, _ => False

instance decidableAgree (compared : ι → Prop) [DecidablePred compared] [DecidableEq ω] :
    ∀ (is : List ι) (os ps : List ω), Decidable (Agree compared is os ps)
  | [], [], [] => inferInstanceAs (Decidable True)
  | _ :: is, _ :: os, _ :: ps =>
    have := decidableAgree compared is os ps
    inferInstanceAs (Decidable ((_ → _) ∧ _))
  | [], _ :: _, _ => inferInstanceAs (Decidable False)
  | [], [], _ :: _ => inferInstanceAs (Decidable False)
  | _ :: _, [], _ => inferInstanceAs (Decidable False)
  | _ :: _, _ :: _, [] => inferInstanceAs (Decidable False)

/-- One simulation square gives the run: the machine never fails, its compared
outputs are those of the specification, and the final states are related. -/
theorem run_simulates (step : σ → ι → Option (σ × ω)) (spec : τ → ι → τ × ω)
    (ok : σ → ι → Prop) (compared : ι → Prop) (R : σ → τ → Prop)
    (square : ∀ s t i, R s t → ok s i →
      ∃ s' o, step s i = some (s', o) ∧ R s' (spec t i).1 ∧ (compared i → o = (spec t i).2))
    (s : σ) (t : τ) (is : List ι) (hR : R s t) (hok : Admitted step ok s is) :
    ∃ s' os, run step s is = some (s', os) ∧ R s' (specRun spec t is).1 ∧
      Agree compared is os (specRun spec t is).2 := by
  induction is generalizing s t with
  | nil => exact ⟨s, [], rfl, hR, trivial⟩
  | cons i is ih =>
    obtain ⟨hi, hrest⟩ := hok
    obtain ⟨s₁, o, hstep, hR₁, ho⟩ := square s t i hR hi
    rw [hstep] at hrest
    obtain ⟨s₂, os, hrun, hR₂, hos⟩ := ih s₁ (spec t i).1 hR₁ hrest
    exact ⟨s₂, o :: os, by simp only [run, hstep, hrun], hR₂, ho, hos⟩

end Lib.Simulation
