import Mathlib

/-!
# Reading back what was written

`Reads r w a` says that `r` gives `a` back from what was written as `w`, whatever follows. The rules
are those of the program text.
-/

namespace Lib.Codec

abbrev Reader (B A : Type) := StateT (List B) Option A

variable {B A A' S T : Type}

def Reads (r : Reader B A) (written : List B) (a : A) : Prop :=
  ∀ rest, r.run (written ++ rest) = some (a, rest)

variable {r : Reader B A} {f : A → Reader B A'} {w w' : List B} {a : A} {b : A'}

theorem Reads.pure (a : A) : Reads (pure a : Reader B A) [] a := fun _ => rfl

theorem Reads.bind (h : Reads r w a) (hf : Reads (f a) w' b) : Reads (r >>= f) (w ++ w') b := by
  intro rest
  rw [List.append_assoc, StateT.run_bind, h]
  exact hf rest

theorem Reads.bind_first (h : Reads r [] a) (hf : Reads (f a) w b) : Reads (r >>= f) w b :=
  h.bind hf

theorem Reads.bind_last (h : Reads r w a) (hf : f a = Pure.pure b) : Reads (r >>= f) w b := by
  have hlast : Reads (f a) [] b := by
    rw [hf]
    exact Reads.pure b
  have hall := h.bind hlast
  rwa [List.append_nil] at hall

theorem Reads.map (g : A → A') (h : Reads r w a) : Reads (g <$> r) w (g a) := by
  rw [← bind_pure_comp]
  exact h.bind_last rfl

theorem Reads.of_eq {a' : A} (h : Reads r w a) (ha : a = a') : Reads r w a' := ha ▸ h

theorem Reads.ite {c : Prop} [Decidable c] {r' : Reader B A} (h : c → Reads r w a)
    (h' : ¬ c → Reads r' w' a) : Reads (if c then r else r') (if c then w else w') a := by
  by_cases hc : c
  · rw [if_pos hc, if_pos hc]
    exact h hc
  · rw [if_neg hc, if_neg hc]
    exact h' hc

def take (n : Nat) : Reader B (List B) := fun l =>
  if n ≤ l.length then some (l.take n, l.drop n) else none

theorem reads_take {n : Nat} (h : w.length = n) : Reads (take n) w w := by
  intro rest
  have hle : n ≤ (w ++ rest).length := by
    rw [List.length_append]
    omega
  show (if n ≤ (w ++ rest).length then _ else _) = _
  rw [if_pos hle, List.take_left' h, List.drop_left' h]

def check (c : Bool) : Reader B Unit := if c then Pure.pure () else fun _ => none

theorem reads_check {c : Bool} (h : c = true) : Reads (B := B) (check c) [] () := by
  rw [check, if_pos h]
  exact Reads.pure ()

def lift (x : Option A) : Reader B A := fun l => x.map fun a => (a, l)

def loop (step : Nat → S → Reader B S) : (turns i : Nat) → S → Reader B S
  | 0, _, s => Pure.pure s
  | turns + 1, i, s => do
    let s ← step i s
    loop step turns (i + 1) s

theorem reads_loop {step : Nat → S → Reader B S} (write : T → List B) (R : Nat → List T → S → Prop)
    (hstep : ∀ i x rest s, R i (x :: rest) s →
      ∃ s', Reads (step i s) (write x) s' ∧ R (i + 1) rest s')
    (i : Nat) (l : List T) (s : S) (h : R i l s) :
    ∃ t, Reads (loop step l.length i s) (l.flatMap write) t ∧ R (i + l.length) [] t := by
  induction l generalizing i s with
  | nil => exact ⟨s, Reads.pure s, h⟩
  | cons x l ih =>
    obtain ⟨s', hread, hnext⟩ := hstep i x l s h
    obtain ⟨t, hrest, hend⟩ := ih (i + 1) s' hnext
    rw [Nat.add_assoc, Nat.add_comm 1] at hend
    exact ⟨t, hread.bind hrest, hend⟩

end Lib.Codec
