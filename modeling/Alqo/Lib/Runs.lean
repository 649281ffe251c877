import Mathlib

/-!
# Runs of a total step function

`Along` asks something of every event in the state that it meets, `Always` something of every state
of the run.
-/

namespace Lib.Runs

variable {S E : Type*}

def run (step : S → E → S) (s : S) (es : List E) : S := es.foldl step s

def Along (step : S → E → S) (ok : S → E → Prop) : S → List E → Prop
  | _, [] => True
  | s, e :: es => ok s e ∧ Along step ok (step s e) es

/-- Every state of the run, the first and the last included, satisfies `inv`. -/
def Always (step : S → E → S) (inv : S → Prop) : S → List E → Prop
  | s, [] => inv s
  | s, e :: es => inv s ∧ Always step inv (step s e) es

variable {step : S → E → S} {inv base : S → Prop} {ok : S → E → Prop}

instance decidableAlong [∀ s e, Decidable (ok s e)] :
    (s : S) → (es : List E) → Decidable (Along step ok s es)
  | _, [] => inferInstanceAs (Decidable True)
  | s, e :: es =>
    have := decidableAlong (step s e) es
    inferInstanceAs (Decidable (_ ∧ _))

instance decidableAlways [∀ s, Decidable (inv s)] :
    (s : S) → (es : List E) → Decidable (Always step inv s es)
  | s, [] => inferInstanceAs (Decidable (inv s))
  | s, e :: es =>
    have := decidableAlways (step s e) es
    inferInstanceAs (Decidable (_ ∧ _))

@[simp] theorem run_nil (s : S) : run step s [] = s := rfl

@[simp] theorem run_cons (s : S) (e : E) (es : List E) :
    run step s (e :: es) = run step (step s e) es := rfl

theorem run_append (s : S) (es fs : List E) :
    run step s (es ++ fs) = run step (run step s es) fs := List.foldl_append

theorem run_concat (s : S) (es : List E) (e : E) :
    run step s (es ++ [e]) = step (run step s es) e := by
  rw [run_append, run_cons, run_nil]

theorem run_induct (hstep : ∀ s e, inv s → inv (step s e)) (s : S) (es : List E) (h : inv s) :
    inv (run step s es) := by
  induction es generalizing s with
  | nil => exact h
  | cons e es ih => exact ih (step s e) (hstep s e h)

variable {s : S}

theorem run_history {R : List E → S → Prop} (h0 : R [] s)
    (hstep : ∀ seen s e, R seen s → R (seen ++ [e]) (step s e)) (es : List E) :
    R es (run step s es) := by
  induction es using List.reverseRecOn with
  | nil => exact h0
  | append_singleton es e ih =>
    rw [run_concat]
    exact hstep es (run step s es) e ih

variable {es : List E}

theorem along_concat {e : E} :
    Along step ok s (es ++ [e]) ↔ Along step ok s es ∧ ok (run step s es) e := by
  induction es generalizing s with
  | nil => exact ⟨fun h => ⟨trivial, h.1⟩, fun h => ⟨h.2, trivial⟩⟩
  | cons a es ih =>
    show ok s a ∧ Along step ok (step s a) (es ++ [e]) ↔
      (ok s a ∧ Along step ok (step s a) es) ∧ ok (run step (step s a) es) e
    rw [ih, and_assoc]

theorem Always.first (h : Always step inv s es) : inv s := by
  cases es with
  | nil => exact h
  | cons e es => exact h.1

theorem Always.last (h : Always step inv s es) : inv (run step s es) := by
  induction es generalizing s with
  | nil => exact h
  | cons e es ih => exact ih h.2

variable {ok' : S → E → Prop}

theorem Along.mono (h : ∀ s e, ok s e → ok' s e) (ha : Along step ok s es) :
    Along step ok' s es := by
  induction es generalizing s with
  | nil => trivial
  | cons e es ih => exact ⟨h s e ha.1, ih ha.2⟩

theorem Along.mono_of_step (hstep : ∀ s e, inv s → ok s e → inv (step s e))
    (h : ∀ s e, inv s → ok s e → ok' s e) (hs : inv s) (ha : Along step ok s es) :
    Along step ok' s es := by
  induction es generalizing s with
  | nil => trivial
  | cons e es ih => exact ⟨h s e hs ha.1, ih (hstep s e hs ha.1) ha.2⟩

theorem along_congr (hbase : ∀ s e, base s → base (step s e))
    (h : ∀ s e, base s → (ok s e ↔ ok' s e)) (hs : base s) :
    Along step ok s es ↔ Along step ok' s es := by
  induction es generalizing s with
  | nil => exact Iff.rfl
  | cons e es ih => exact and_congr (h s e hs) (ih (hbase s e hs))

theorem Always.next (h : Always step inv s es) : Along step (fun s e => inv (step s e)) s es := by
  induction es generalizing s with
  | nil => trivial
  | cons e es ih => exact ⟨h.2.first, ih h.2⟩

theorem always_of_step (hstep : ∀ s e, inv s → inv (step s e)) (s : S) (es : List E) (h : inv s) :
    Always step inv s es := by
  induction es generalizing s with
  | nil => exact h
  | cons e es ih => exact ⟨h, ih (step s e) (hstep s e h)⟩

variable {inv' : S → Prop}

theorem always_and :
    Always step (fun s => inv s ∧ inv' s) s es ↔ Always step inv s es ∧ Always step inv' s es := by
  induction es generalizing s with
  | nil => exact Iff.rfl
  | cons e es ih =>
    show (inv s ∧ inv' s) ∧ Always step (fun s => inv s ∧ inv' s) (step s e) es ↔ _
    rw [ih]
    exact and_and_and_comm

theorem always_iff_along (hbase : ∀ s e, base s → base (step s e))
    (hstep : ∀ s e, base s → inv s → (inv (step s e) ↔ ok s e)) (s : S) (es : List E)
    (hb : base s) (hi : inv s) : Always step inv s es ↔ Along step ok s es := by
  induction es generalizing s with
  | nil => exact iff_of_true hi trivial
  | cons e es ih =>
    have hb' : base (step s e) := hbase s e hb
    constructor
    · intro h
      have hnext : inv (step s e) := h.2.first
      exact ⟨(hstep s e hb hi).mp hnext, (ih (step s e) hb' hnext).mp h.2⟩
    · intro h
      have hnext : inv (step s e) := (hstep s e hb hi).mpr h.1
      exact ⟨hi, (ih (step s e) hb' hnext).mpr h.2⟩

variable {strong : S → Prop}

theorem Along.always (hstep : ∀ s e, strong s → ok s e → strong (step s e)) (hs : strong s)
    (h : Along step ok s es) : Always step strong s es := by
  induction es generalizing s with
  | nil => exact hs
  | cons e es ih => exact ⟨hs, ih (hstep s e hs h.1) h.2⟩

theorem Always.mono (h : ∀ s, inv s → inv' s) (ha : Always step inv s es) :
    Always step inv' s es := by
  induction es generalizing s with
  | nil => exact h s ha
  | cons e es ih => exact ⟨h s ha.1, ih ha.2⟩

theorem Always.along (hstep : ∀ s e, strong s → ok s e → strong (step s e))
    (hok : ∀ s e, strong s → inv (step s e) → ok s e) (hs : strong s) (h : Always step inv s es) :
    Along step ok s es := by
  induction es generalizing s with
  | nil => trivial
  | cons e es ih =>
    have hallowed : ok s e := hok s e hs h.2.first
    exact ⟨hallowed, ih (hstep s e hs hallowed) h.2⟩

theorem last_iff_along (hback : ∀ s e, inv (step s e) → inv s)
    (hstep : ∀ s e, inv s → (inv (step s e) ↔ ok s e)) (s : S) (es : List E) (hi : inv s) :
    inv (run step s es) ↔ Along step ok s es := by
  have hfirst : ∀ es s, inv (run step s es) → inv s := by
    intro es
    induction es with
    | nil => exact fun s h => h
    | cons e es ih => exact fun s h => hback s e (ih (step s e) h)
  induction es generalizing s with
  | nil => exact iff_of_true hi trivial
  | cons e es ih =>
    constructor
    · intro h
      have hnext : inv (step s e) := hfirst es (step s e) h
      exact ⟨(hstep s e hi).mp hnext, (ih (step s e) hnext).mp h⟩
    · intro h
      exact (ih (step s e) ((hstep s e hi).mpr h.1)).mpr h.2

end Lib.Runs
