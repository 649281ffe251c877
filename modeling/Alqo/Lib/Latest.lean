import Mathlib

/-!
# Registers that keep the latest offer

A register gives its item up only for a strictly later one, so it does not depend on the order of
the offers exactly as long as no two different offers are latest together.
-/

namespace Lib.Latest
open List

variable {M T : Type*} [LinearOrder T] (time : M → T)

def offer : Option M → M → Option M
  | none, m => some m
  | some held, m => if time held < time m then some m else some held

def offerAll (held : Option M) (l : List M) : Option M := l.foldl (offer time) held

def Newer (held : Option M) (m : M) : Prop := ∀ h, held = some h → time h < time m

def UniqueLatest (held : Option M) (P : M → Prop) : Prop :=
  ∀ a b, P a → P b → Newer time held a → Newer time held b →
    (∀ m, P m → time m ≤ time a) → (∀ m, P m → time m ≤ time b) → a = b

variable {time} {held : Option M} {l l' : List M}

@[simp] theorem offerAll_nil : offerAll time held [] = held := rfl

@[simp] theorem offerAll_cons (m : M) :
    offerAll time held (m :: l) = offerAll time (offer time held m) l := rfl

variable {m : M}

theorem offer_of_newer (h : Newer time held m) : offer time held m = some m := by
  cases held with
  | none => rfl
  | some c => exact if_pos (h c rfl)

variable {c : M}

theorem offer_of_le (h : time m ≤ time c) : offer time (some c) m = some c :=
  if_neg (not_lt.mpr h)

theorem offer_cases (time : M → T) (held : Option M) (m : M) :
    (offer time held m = some m ∧ Newer time held m) ∨
      ∃ c, held = some c ∧ time m ≤ time c ∧ offer time held m = some c := by
  cases held with
  | none => exact .inl ⟨rfl, fun h hh => by cases hh⟩
  | some c =>
    by_cases h : time c < time m
    · exact .inl ⟨if_pos h, fun h' hh => by cases hh; exact h⟩
    · exact .inr ⟨c, rfl, not_lt.mp h, if_neg h⟩

theorem offerAll_of_le (h : ∀ m ∈ l, time m ≤ time c) : offerAll time (some c) l = some c := by
  induction l with
  | nil => rfl
  | cons m l ih =>
    rw [offerAll_cons, offer_of_le (h m mem_cons_self)]
    exact ih fun m' hm' => h m' (mem_cons_of_mem m hm')

theorem offerAll_held_le (time : M → T) (c : M) (l : List M) :
    ∃ r, offerAll time (some c) l = some r ∧ time c ≤ time r := by
  induction l generalizing c with
  | nil => exact ⟨c, rfl, le_refl _⟩
  | cons m l ih =>
    rcases offer_cases time (some c) m with ⟨hoffer, hnew⟩ | ⟨c', hc', -, hoffer⟩
    · obtain ⟨r, hr, hle⟩ := ih m
      exact ⟨r, by rw [offerAll_cons, hoffer, hr], le_of_lt (lt_of_lt_of_le (hnew c rfl) hle)⟩
    · cases hc'
      obtain ⟨r, hr, hle⟩ := ih c
      exact ⟨r, by rw [offerAll_cons, hoffer, hr], hle⟩

theorem offerAll_le (time : M → T) (held : Option M) (hm : m ∈ l) :
    ∃ r, offerAll time held l = some r ∧ time m ≤ time r := by
  induction l generalizing held with
  | nil => cases hm
  | cons a l ih =>
    rcases mem_cons.mp hm with rfl | hm
    · rcases offer_cases time held m with ⟨hoffer, -⟩ | ⟨c, -, hle, hoffer⟩
      · rw [offerAll_cons, hoffer]
        exact offerAll_held_le time m l
      · obtain ⟨r, hr, hcr⟩ := offerAll_held_le time c l
        exact ⟨r, by rw [offerAll_cons, hoffer, hr], le_trans hle hcr⟩
    · rw [offerAll_cons]
      exact ih (offer time held a) hm

theorem offerAll_mem {r : M} (h : offerAll time held l = some r) :
    held = some r ∨ (r ∈ l ∧ Newer time held r) := by
  induction l generalizing held with
  | nil => exact .inl h
  | cons m l ih =>
    rw [offerAll_cons] at h
    rcases offer_cases time held m with ⟨hoffer, hnew⟩ | ⟨c, hc, -, hoffer⟩
    · rw [hoffer] at h
      rcases ih h with heq | ⟨hin, hnew'⟩
      · cases heq
        exact .inr ⟨mem_cons_self, hnew⟩
      · exact .inr ⟨mem_cons_of_mem m hin, fun c hc => lt_trans (hnew c hc) (hnew' m rfl)⟩
    · rw [hoffer, ← hc] at h
      rcases ih h with heq | ⟨hin, hnew'⟩
      · exact .inl heq
      · exact .inr ⟨mem_cons_of_mem m hin, hnew'⟩

theorem offerAll_eq_none (h : offerAll time held l = none) : held = none ∧ l = [] := by
  cases l with
  | nil => exact ⟨h, rfl⟩
  | cons m l =>
    obtain ⟨r, hr, -⟩ := offerAll_le time held (mem_cons_self (a := m) (l := l))
    rw [h] at hr
    cases hr

/-- One latest offer: order and repetition do not matter. -/
theorem offerAll_eq_of_mem_iff (hsame : ∀ m, m ∈ l ↔ m ∈ l')
    (hunique : UniqueLatest time held (· ∈ l)) :
    offerAll time held l = offerAll time held l' := by
  have hmax : ∀ {l : List M} {r : M}, offerAll time held l = some r → ∀ m ∈ l, time m ≤ time r := by
    intro l r hr m hm
    obtain ⟨r', hr', hle⟩ := offerAll_le time held hm
    rw [hr] at hr'
    cases hr'
    exact hle
  cases hx : offerAll time held l with
  | none =>
    obtain ⟨rfl, rfl⟩ := offerAll_eq_none hx
    have hnil : l' = [] := eq_nil_iff_forall_not_mem.mpr fun m hm => by
      have := (hsame m).mpr hm
      cases this
    rw [hnil]
    rfl
  | some r =>
    cases hy : offerAll time held l' with
    | none =>
      obtain ⟨rfl, rfl⟩ := offerAll_eq_none hy
      rcases offerAll_mem hx with hheld | ⟨hin, -⟩
      · cases hheld
      · have := (hsame r).mp hin
        cases this
    | some r' =>
      rcases offerAll_mem hx with hheld | ⟨hin, hnew⟩
      · rcases offerAll_mem hy with hheld' | ⟨hin', hnew'⟩
        · rw [← hheld, hheld']
        · have hle := hmax hx r' ((hsame r').mpr hin')
          exact absurd (hnew' r hheld) (not_lt.mpr hle)
      · rcases offerAll_mem hy with hheld' | ⟨hin', hnew'⟩
        · have hle := hmax hy r ((hsame r).mp hin)
          exact absurd (hnew r' hheld') (not_lt.mpr hle)
        · rw [hunique r r' hin ((hsame r').mpr hin') hnew hnew' (hmax hx)
            fun m hm => hmax hy m ((hsame m).mp hm)]

theorem exists_offerAll_ne (h : ¬ UniqueLatest time held (· ∈ l)) :
    ∃ a ∈ l, ∃ b ∈ l, offerAll time held (a :: l) ≠ offerAll time held (b :: l) := by
  unfold UniqueLatest at h
  push Not at h
  obtain ⟨a, b, ha, hb, hna, hnb, hmaxa, hmaxb, hne⟩ := h
  refine ⟨a, ha, b, hb, ?_⟩
  rw [offerAll_cons, offerAll_cons, offer_of_newer hna, offer_of_newer hnb,
    offerAll_of_le hmaxa, offerAll_of_le hmaxb]
  exact fun heq => hne (Option.some.inj heq)

def IsLatest (time : M → T) (P : M → Prop) : Option M → Prop
  | none => ∀ m, ¬ P m
  | some a => P a ∧ ∀ m, P m → time m ≤ time a

variable {P : M → Prop}

theorem IsLatest.congr {Q : M → Prop} {o : Option M} (h : IsLatest time P o) (hPQ : ∀ m, P m ↔ Q m) :
    IsLatest time Q o := by
  have heq : P = Q := funext fun m => propext (hPQ m)
  exact heq ▸ h

theorem IsLatest.unique {a b : Option M} (ha : IsLatest time P a) (hb : IsLatest time P b)
    (hinj : ∀ m m', P m → P m' → time m = time m' → m = m') :
    a = b := by
  cases a with
  | none =>
    cases b with
    | none => rfl
    | some y => exact absurd hb.1 (ha y)
  | some x =>
    cases b with
    | none => exact absurd ha.1 (hb x)
    | some y =>
      have htime : time x = time y := le_antisymm (hb.2 x ha.1) (ha.2 y hb.1)
      rw [hinj x y ha.1 hb.1 htime]

end Lib.Latest
