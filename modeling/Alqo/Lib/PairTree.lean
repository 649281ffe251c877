import Mathlib.Data.List.Basic
import Mathlib.Data.Set.Function

/-!
# Trees that pair up a list level by level

Neighbours of a level are combined, a last element without neighbour with itself, until one element
is left.
-/

namespace Lib.PairTree
open List

variable {α : Type*}

def pairs : List α → List (α × α)
  | [] => []
  | [a] => [(a, a)]
  | a :: b :: rest => (a, b) :: pairs rest

def repeatsLast [DecidableEq α] : List α → Bool
  | [] => false
  | [_] => false
  | [a, b] => a == b
  | _ :: _ :: rest => repeatsLast rest

variable {l : List α}

theorem pairs_ne_nil (h : l ≠ []) : pairs l ≠ [] := by
  cases l with
  | nil => exact absurd rfl h
  | cons a l => cases l <;> simp [pairs]

theorem length_pairs (l : List α) : (pairs l).length = (l.length + 1) / 2 := by
  induction l using pairs.induct with
  | case1 => simp [pairs]
  | case2 a => simp [pairs]
  | case3 a b rest ih =>
    simp only [pairs, length_cons, ih]
    omega

variable {m : List α}

theorem pairs_injective [DecidableEq α] (hl : repeatsLast l = false) (hm : repeatsLast m = false)
    (h : pairs l = pairs m) : l = m := by
  induction l using pairs.induct generalizing m with
  | case1 =>
    cases m with
    | nil => rfl
    | cons c m => exact absurd h.symm (pairs_ne_nil (cons_ne_nil c m))
  | case2 a =>
    match m, hm, h with
    | [c], _, h => simpa [pairs] using h
    | [c, d], hm, h =>
      simp only [pairs, List.cons.injEq, Prod.mk.injEq, and_true] at h
      simp [repeatsLast, ← h.1, ← h.2] at hm
    | c :: d :: e :: m, _, h =>
      simp only [pairs, List.cons.injEq] at h
      exact absurd h.2.symm (pairs_ne_nil (cons_ne_nil e m))
  | case3 a b rest ih =>
    match m, hm, h with
    | [c], _, h =>
      simp only [pairs, List.cons.injEq, Prod.mk.injEq] at h
      cases rest with
      | nil => simp [repeatsLast, h.1.1, h.1.2] at hl
      | cons r rest => exact absurd h.2 (pairs_ne_nil (cons_ne_nil r rest))
    | c :: d :: m, hm, h =>
      simp only [pairs, List.cons.injEq, Prod.mk.injEq] at h
      have hrest : repeatsLast rest = false := by
        cases rest with
        | nil => rfl
        | cons r rest => simpa only [repeatsLast] using hl
      have hm' : repeatsLast m = false := by
        cases m with
        | nil => rfl
        | cons r m => simpa only [repeatsLast] using hm
      rw [h.1.1, h.1.2, ih hrest hm' h.2]

variable (f : α × α → α)

def above (l : List α) : List α := (pairs l).map f

/-- The levels that are combined, the lowest first; a level halves, so `fuel` is
enough from the length of the lowest on. -/
def levels : (fuel : Nat) → List α → List (List α)
  | _, [] => []
  | _, [_] => []
  | 0, _ :: _ :: _ => []
  | fuel + 1, a :: b :: rest => (a :: b :: rest) :: levels fuel (above f (a :: b :: rest))

def root : (fuel : Nat) → List α → Option α
  | _, [] => none
  | _, [a] => some a
  | 0, a :: _ :: _ => some a
  | fuel + 1, a :: b :: rest => root fuel (above f (a :: b :: rest))

theorem length_above (l : List α) : (above f l).length = (l.length + 1) / 2 := by
  rw [above, length_map, length_pairs]

theorem above_ne_nil (h : l ≠ []) : above f l ≠ [] := by
  rw [above, Ne, map_eq_nil_iff]
  exact pairs_ne_nil h

/-- The element above a pair; the last of an odd number is its own neighbour. -/
theorem getElem?_above {k : Nat} {a b : α} (ha : l[2 * k]? = some a)
    (hb : l[min (2 * k + 1) (l.length - 1)]? = some b) : (above f l)[k]? = some (f (a, b)) := by
  induction l using pairs.induct generalizing k with
  | case1 => simp at ha
  | case2 c =>
    cases k with
    | zero => simp_all [above, pairs]
    | succ k => simp [Nat.mul_succ] at ha
  | case3 c d rest ih =>
    cases k with
    | zero => simp_all [above, pairs]
    | succ k =>
      have hlt : 2 * k < rest.length := by
        have := (List.getElem?_eq_some_iff.mp ha).1
        simp only [length_cons] at this
        omega
      have hmin : min (2 * (k + 1) + 1) ((c :: d :: rest).length - 1) =
          min (2 * k + 1) (rest.length - 1) + 2 := by
        simp only [length_cons]
        omega
      rw [hmin] at hb
      exact ih ha hb

def IsLevel (fuel : Nat) (l t : List α) : Prop :=
  t ∈ levels f fuel l ∨ ∃ a, root f fuel l = some a ∧ t = [a]

variable {f}

variable {a b : α} {rest : List α} {fuel : Nat}

theorem length_above_le (hfuel : (a :: b :: rest).length ≤ fuel + 1 + 1) :
    (above f (a :: b :: rest)).length ≤ fuel + 1 := by
  rw [length_above]
  simp only [length_cons] at hfuel ⊢
  omega

variable {t : List α}

theorem isLevel_singleton : IsLevel f fuel [a] t ↔ t = [a] := by
  simp [IsLevel, levels, root]

theorem isLevel_cons_cons : IsLevel f (fuel + 1) (a :: b :: rest) t ↔
      t = a :: b :: rest ∨ IsLevel f fuel (above f (a :: b :: rest)) t := by
  simp only [IsLevel, levels, root, mem_cons, or_assoc]

theorem isLevel_root (h : root f fuel l = some a) : IsLevel f fuel l [a] := .inr ⟨a, h, rfl⟩

theorem exists_level_below (hfuel : (a :: b :: rest).length ≤ fuel + 1 + 1)
    (h : IsLevel f fuel (above f (a :: b :: rest)) t) :
    ∃ l ∈ levels f (fuel + 1) (a :: b :: rest), above f l = t := by
  induction fuel generalizing a b rest with
  | zero =>
    have hlen := length_above_le (f := f) hfuel
    have hne := above_ne_nil f (cons_ne_nil a (b :: rest))
    obtain ⟨c, hc⟩ : ∃ c, above f (a :: b :: rest) = [c] := by
      rw [← length_eq_one_iff]
      have := length_pos_iff.mpr hne
      omega
    rw [hc, isLevel_singleton] at h
    exact ⟨_, by simp [levels], hc.trans h.symm⟩
  | succ fuel ih =>
    have hlen := length_above_le (f := f) hfuel
    have hne := above_ne_nil f (cons_ne_nil a (b :: rest))
    match hup : above f (a :: b :: rest), hne, hlen, h with
    | [c], _, _, h =>
      rw [isLevel_singleton] at h
      exact ⟨_, by simp [levels], hup.trans h.symm⟩
    | c :: d :: rest', _, hlen, h =>
      rcases isLevel_cons_cons.mp h with h | h
      · exact ⟨_, by simp [levels], hup.trans h.symm⟩
      · obtain ⟨l, hl, hlt⟩ := ih hlen h
        refine ⟨l, ?_, hlt⟩
        rw [levels, hup]
        exact mem_cons_of_mem _ hl

variable (f) in
def combined (fuel : Nat) (l : List α) : List (α × α) := (levels f fuel l).flatMap pairs

variable (f) in
def Unrepeated [DecidableEq α] (fuel : Nat) (l : List α) : Prop :=
  ∀ t ∈ levels f fuel l, repeatsLast t = false

theorem pairs_subset_combined (h : t ∈ levels f fuel l) : pairs t ⊆ combined f fuel l := by
  intro p hp
  exact mem_flatMap.mpr ⟨t, h, hp⟩

theorem mem_levels_self : a :: b :: rest ∈ levels f (fuel + 1) (a :: b :: rest) := by
  simp [levels]

theorem ne_nil_of_mem_levels (h : t ∈ levels f fuel l) : t ≠ [] := by
  induction fuel generalizing l with
  | zero =>
    match l with
    | [] | [_] | _ :: _ :: _ => simp [levels] at h
  | succ fuel ih =>
    match l with
    | [] | [_] => simp [levels] at h
    | a :: b :: rest =>
      rw [levels, mem_cons] at h
      rcases h with rfl | h
      · exact cons_ne_nil _ _
      · exact ih h

theorem levels_above_subset :
    levels f fuel (above f (a :: b :: rest)) ⊆ levels f (fuel + 1) (a :: b :: rest) := by
  intro t ht
  rw [levels]
  exact mem_cons_of_mem _ ht

theorem combined_above_subset :
    combined f fuel (above f (a :: b :: rest)) ⊆ combined f (fuel + 1) (a :: b :: rest) := by
  intro p hp
  obtain ⟨t, ht, hp⟩ := mem_flatMap.mp hp
  exact pairs_subset_combined (levels_above_subset ht) hp

variable {s : Set (α × α)}

theorem map_injOn (hf : Set.InjOn f s) {ps qs : List (α × α)} (hp : ∀ p ∈ ps, p ∈ s)
    (hq : ∀ q ∈ qs, q ∈ s) (h : ps.map f = qs.map f) : ps = qs := by
  induction ps generalizing qs with
  | nil => exact (map_eq_nil_iff.mp h.symm).symm
  | cons p ps ih =>
    cases qs with
    | nil => simp at h
    | cons q qs =>
      simp only [map_cons, List.cons.injEq, forall_mem_cons] at h hp hq
      rw [hf hp.1 hq.1 h.1, ih hp.2 hq.2 h.2]

variable {n k : Nat}

/-- Two lists with one root: the one is a level of the other. The induction is on
the fuel of the first; where both lists have a level above, the levels below are
told apart by the pairs they are combined from. -/
theorem isLevel_or_isLevel [DecidableEq α] (hf : Set.InjOn f s) (hln : l.length ≤ n + 1)
    (hmk : m.length ≤ k + 1) (hl : root f n l = some a) (hm : root f k m = some a)
    (hul : Unrepeated f n l) (hum : Unrepeated f k m) (hsl : ∀ p ∈ combined f n l, p ∈ s)
    (hsm : ∀ p ∈ combined f k m, p ∈ s) :
    IsLevel f n l m ∨ IsLevel f k m l := by
  induction n generalizing l m k with
  | zero =>
    match l, hln with
    | [], _ => simp [root] at hl
    | [c], _ =>
      simp only [root, Option.some.injEq] at hl
      exact .inr (hl ▸ isLevel_root hm)
  | succ n ih =>
    match l, m, k with
    | [], _, _ => simp [root] at hl
    | [c], _, _ =>
      simp only [root, Option.some.injEq] at hl
      exact .inr (hl ▸ isLevel_root hm)
    | _, [], _ => simp [root] at hm
    | _, [c], _ =>
      simp only [root, Option.some.injEq] at hm
      exact .inl (hm ▸ isLevel_root hl)
    | c :: d :: l, c' :: d' :: m, k + 1 =>
      rw [root] at hl hm
      have hup := ih (length_above_le hln) (length_above_le hmk) hl hm
        (fun t ht => hul t (levels_above_subset ht)) (fun t ht => hum t (levels_above_subset ht))
        (fun p hp => hsl p (combined_above_subset hp)) (fun p hp => hsm p (combined_above_subset hp))
      rcases hup with hup | hup
      · obtain ⟨t, ht, he⟩ := exists_level_below hln hup
        have hpairs := map_injOn hf (fun p hp => hsl p (pairs_subset_combined ht hp))
          (fun p hp => hsm p (pairs_subset_combined mem_levels_self hp)) he
        rw [← pairs_injective (hul t ht) (hum _ mem_levels_self) hpairs]
        exact .inl (.inl ht)
      · obtain ⟨t, ht, he⟩ := exists_level_below hmk hup
        have hpairs := map_injOn hf (fun p hp => hsm p (pairs_subset_combined ht hp))
          (fun p hp => hsl p (pairs_subset_combined mem_levels_self hp)) he
        rw [← pairs_injective (hum t ht) (hul _ mem_levels_self) hpairs]
        exact .inr (.inl ht)

theorem isLevel_cases (hfuel : l.length ≤ fuel + 1) (h : IsLevel f fuel l t) :
    t = l ∨ ∃ x ∈ t, ∃ p ∈ combined f fuel l, x = f p := by
  match fuel, l with
  | _, [] => simp [IsLevel, levels, root] at h
  | _, [c] => exact .inl (isLevel_singleton.mp h)
  | fuel + 1, a :: b :: rest =>
    rcases isLevel_cons_cons.mp h with h | h
    · exact .inl h
    · obtain ⟨u, hu, rfl⟩ := exists_level_below hfuel h
      obtain ⟨p, ps, hps⟩ :=
        exists_cons_of_ne_nil (pairs_ne_nil (ne_nil_of_mem_levels hu))
      refine .inr ⟨f p, ?_, p, pairs_subset_combined hu ?_, rfl⟩
      · simp [above, hps]
      · simp [hps]

theorem eq_of_root_eq [DecidableEq α] (hf : Set.InjOn f s) (hln : l.length ≤ n + 1)
    (hmk : m.length ≤ k + 1) (hl : root f n l = some a) (hm : root f k m = some a)
    (hul : Unrepeated f n l) (hum : Unrepeated f k m) (hsl : ∀ p ∈ combined f n l, p ∈ s)
    (hsm : ∀ p ∈ combined f k m, p ∈ s) (hleaf : ∀ x, x ∈ l ∨ x ∈ m → ∀ p ∈ s, x ≠ f p) :
    l = m := by
  rcases isLevel_or_isLevel hf hln hmk hl hm hul hum hsl hsm with h | h
  · rcases isLevel_cases hln h with h | ⟨x, hx, p, hp, he⟩
    · exact h.symm
    · exact absurd he (hleaf x (.inr hx) p (hsl p hp))
  · rcases isLevel_cases hmk h with h | ⟨x, hx, p, hp, he⟩
    · exact h
    · exact absurd he (hleaf x (.inl hx) p (hsm p hp))

end Lib.PairTree
