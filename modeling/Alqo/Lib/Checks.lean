import Alqo.Lib.Fallible

/-!
# Stricter computations

Of two fallible computations one is stricter if it gives the other's result or fails. The rules
follow the shape of the program.
-/

namespace Lib.Checks
open Lib.Fallible

variable {ε : Type*} {α β : Type}

def ensure (c : Bool) (e : ε) : Except ε Unit := if c then .ok () else .error e

variable {c : Bool} {e : ε}

theorem ensure_ok_iff {u : Unit} : ensure c e = .ok u ↔ c = true := by
  cases c with
  | false => simp [ensure]
  | true => simp [ensure]

def Stricter (x y : Except ε α) : Prop := ∀ a, x = .ok a → y = .ok a

variable {x y : Except ε α} {f g : α → Except ε β}

theorem Stricter.refl (x : Except ε α) : Stricter x x := fun _ h => h

theorem Stricter.of_error (e : ε) (y : Except ε α) : Stricter (.error e) y := by
  intro a h
  cases h

theorem Stricter.bind (hx : Stricter x y) (hf : ∀ a, Stricter (f a) (g a)) :
    Stricter (x >>= f) (y >>= g) := by
  intro b h
  obtain ⟨a, ha, hb⟩ := bind_ok_iff.mp h
  exact bind_ok_iff.mpr ⟨a, hx a ha, hf a b hb⟩

theorem Stricter.ite {c : Prop} [Decidable c] {x' y' : Except ε α} (hx : Stricter x y)
    (hx' : Stricter x' y') : Stricter (if c then x else x') (if c then y else y') := by
  by_cases h : c
  · rw [if_pos h, if_pos h]
    exact hx
  · rw [if_neg h, if_neg h]
    exact hx'

theorem Stricter.ensure {c' : Bool} {e' : ε} (h : c = true → c' = true) :
    Stricter (ensure c e) (ensure c' e') := by
  intro u hu
  exact ensure_ok_iff.mpr (h (ensure_ok_iff.mp hu))

theorem Stricter.mapError {ε' : Type*} (f : ε → ε') (h : Stricter x y) :
    Stricter (x.mapError f) (y.mapError f) := by
  intro a ha
  cases x with
  | error e => cases ha
  | ok a' =>
    cases ha
    rw [h a rfl]
    rfl

theorem Stricter.of_unit (x : Except ε Unit) : Stricter x (.ok ()) := fun _ _ => rfl

end Lib.Checks
