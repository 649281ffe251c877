import Mathlib.Data.List.Sort
import Mathlib.Data.List.Nodup
import Mathlib.Data.List.Perm.Lattice
import Mathlib.Data.List.TakeWhile
import Mathlib.Data.List.MinMax

/-!
# Stable sorting by a key, and the first entries of the sorted list

Which entries are among the first `k` depends on the order of the list only where entries with one
key lie on both sides of the cut.
-/

namespace Lib.TopRanked
open List

variable {α κ : Type*} [LinearOrder κ] (key : α → κ)

def sortDesc (l : List α) : List α := l.insertionSort fun a b => key b ≤ key a

def above (l : List α) (a : α) : Nat := l.countP fun b => key a < key b

def upTo (l : List α) (a : α) : Nat := l.countP fun b => key a ≤ key b

theorem sortDesc_perm (l : List α) : (sortDesc key l).Perm l := perm_insertionSort _ l

variable {l : List α} {a : α}

theorem mem_sortDesc : a ∈ sortDesc key l ↔ a ∈ l :=
  (sortDesc_perm key l).mem_iff

theorem pairwise_sortDesc (l : List α) : (sortDesc key l).Pairwise fun a b => key b ≤ key a := by
  have : Std.Total fun a b : α => key b ≤ key a := ⟨fun a b => le_total (key b) (key a)⟩
  have : IsTrans α fun a b : α => key b ≤ key a := ⟨fun _ _ _ hab hbc => le_trans hbc hab⟩
  exact pairwise_insertionSort _ l

theorem insertionSort_map_key {β : Type*} (f : α → β) (l : List α) :
    (l.map fun a => (key a, f a)).insertionSort (fun a b => b.1 ≤ a.1) =
      (sortDesc key l).map fun a => (key a, f a) :=
  (map_insertionSort (fun a b => key b ≤ key a) (fun a b => b.1 ≤ a.1)
    (fun a => (key a, f a)) l fun _ _ _ _ => Iff.rfl).symm

variable {m : List α}

theorem sortDesc_eq_of_perm (h : l.Perm m) (hkey : ∀ a ∈ l, ∀ b ∈ l, key a = key b → a = b) :
    sortDesc key l = sortDesc key m := by
  refine List.Perm.eq_of_pairwise ?_ (pairwise_sortDesc key l) (pairwise_sortDesc key m)
    ((sortDesc_perm key l).trans (h.trans (sortDesc_perm key m).symm))
  intro a b ha hb hab hba
  exact hkey a ((mem_sortDesc key).mp ha) b (h.mem_iff.mpr ((mem_sortDesc key).mp hb))
    (le_antisymm hba hab)

theorem sortDesc_cons (a : α) (l : List α) :
    sortDesc key (a :: l) = (sortDesc key l).takeWhile (fun b => decide (key a < key b)) ++
      a :: (sortDesc key l).dropWhile fun b => decide (key a < key b) := by
  rw [sortDesc, insertionSort_cons_eq_take_drop]
  simp only [not_le]
  rfl

variable {p : α → Bool} {b : α}

theorem cut_insert (hb : p b = false) (l : List α) :
    (l.takeWhile p ++ b :: l.dropWhile p).takeWhile p = l.takeWhile p ∧
      (l.takeWhile p ++ b :: l.dropWhile p).dropWhile p = b :: l.dropWhile p := by
  have hall : ∀ c ∈ l.takeWhile p, p c = true := fun c hc => mem_takeWhile_imp hc
  refine ⟨?_, ?_⟩
  · rw [takeWhile_append_of_pos hall, takeWhile_cons_of_neg (by simp [hb]),
      append_nil]
  · rw [dropWhile_append_of_pos hall, dropWhile_cons_of_neg (by simp [hb])]

theorem sortDesc_tie (hab : key a = key b) (l : List α) :
    ∃ pre post, sortDesc key (a :: b :: l) = pre ++ a :: b :: post ∧
      sortDesc key (b :: a :: l) = pre ++ b :: a :: post := by
  refine ⟨(sortDesc key l).takeWhile fun c => decide (key a < key c),
    (sortDesc key l).dropWhile fun c => decide (key a < key c), ?_, ?_⟩
  · have hcut := cut_insert (p := fun c => decide (key a < key c)) (b := b) (by simp [hab])
      (sortDesc key l)
    rw [sortDesc_cons key a, sortDesc_cons key b, ← hab, hcut.1, hcut.2]
  · have hcut := cut_insert (p := fun c => decide (key a < key c)) (b := a) (by simp)
      (sortDesc key l)
    rw [sortDesc_cons key b, sortDesc_cons key a, ← hab, hcut.1, hcut.2]

theorem above_perm (h : l.Perm m) (a : α) : above key l a = above key m a :=
  h.countP_eq _

theorem upTo_perm (h : l.Perm m) (a : α) : upTo key l a = upTo key m a :=
  h.countP_eq _

variable {k : Nat}

theorem countP_take_of_drop (h : ∀ b ∈ (sortDesc key l).drop k, p b = false) :
    l.countP p = ((sortDesc key l).take k).countP p := by
  have hdrop : ((sortDesc key l).drop k).countP p = 0 := by
    rw [countP_eq_zero]
    intro b hb
    rw [h b hb]
    exact Bool.false_ne_true
  have hsplit := congrArg (List.countP p) (take_append_drop k (sortDesc key l))
  rw [countP_append, hdrop, (sortDesc_perm key l).countP_eq] at hsplit
  omega

theorem take_le_drop (l : List α) (k : Nat) :
    ∀ a ∈ (sortDesc key l).take k, ∀ b ∈ (sortDesc key l).drop k, key b ≤ key a := by
  have hpair := pairwise_sortDesc key l
  rw [← take_append_drop k (sortDesc key l), pairwise_append] at hpair
  exact hpair.2.2

theorem above_lt_of_mem_take (h : a ∈ (sortDesc key l).take k) : above key l a < k := by
  have hcount : above key l a =
      ((sortDesc key l).take k).countP fun b => decide (key a < key b) := by
    refine countP_take_of_drop key fun b hb => ?_
    simpa using take_le_drop key l k a h b hb
  have hlt : ((sortDesc key l).take k).countP (fun b => decide (key a < key b)) <
      ((sortDesc key l).take k).length := by
    refine lt_of_le_of_ne countP_le_length fun heq => ?_
    have := countP_eq_length.mp heq a h
    simp at this
  have hlen := length_take_le k (sortDesc key l)
  omega

theorem mem_take_of_upTo_le (ha : a ∈ l) (h : upTo key l a ≤ k) : a ∈ (sortDesc key l).take k := by
  by_contra hnot
  have hsorted := (mem_sortDesc key).mpr ha
  rw [← take_append_drop k (sortDesc key l), mem_append] at hsorted
  have hdrop := hsorted.resolve_left hnot
  have hlen : ((sortDesc key l).take k).length = k := by
    have hpos := length_pos_of_mem hdrop
    rw [length_drop] at hpos
    rw [length_take]
    omega
  have htake : ((sortDesc key l).take k).countP (fun b => decide (key a ≤ key b)) = k := by
    refine (countP_eq_length.mpr fun b hb => ?_).trans hlen
    simpa using take_le_drop key l k b hb a hdrop
  have hpos : 0 < ((sortDesc key l).drop k).countP fun b => decide (key a ≤ key b) :=
    countP_pos_iff.mpr ⟨a, hdrop, by simp⟩
  have hsplit := congrArg (List.countP fun b => decide (key a ≤ key b))
    (take_append_drop k (sortDesc key l))
  rw [countP_append, (sortDesc_perm key l).countP_eq] at hsplit
  unfold upTo at h
  omega

theorem mem_take_of_first (h : above key (a :: l) a < k) : a ∈ (sortDesc key (a :: l)).take k := by
  have hpre : ((sortDesc key l).takeWhile fun b => decide (key a < key b)).length ≤
      above key (a :: l) a := by
    rw [above, countP_cons_of_neg (by simp), ← (sortDesc_perm key l).countP_eq]
    rw [← countP_eq_length.mpr fun b (hb : b ∈ (sortDesc key l).takeWhile
      fun b => decide (key a < key b)) => mem_takeWhile_imp hb]
    exact (takeWhile_sublist _).countP_le
  rw [sortDesc_cons, take_append, mem_append]
  refine .inr ?_
  obtain ⟨j, hj⟩ : ∃ j, k -
      ((sortDesc key l).takeWhile fun b => decide (key a < key b)).length = j + 1 :=
    ⟨_, (Nat.succ_pred_eq_of_pos (by omega)).symm⟩
  rw [hj, take_succ_cons]
  exact mem_cons_self

theorem mem_of_pair_sublist {x : α} {pre post : List α} (hnodup : (pre ++ a :: post).Nodup)
    (hne : x ≠ a) (h : [x, a].Sublist (pre ++ a :: post)) : x ∈ pre := by
  obtain ⟨l₁, l₂, heq, h₁, h₂⟩ := sublist_append_iff.mp h
  cases l₁ with
  | nil =>
    rw [nil_append] at heq
    rw [← heq] at h₂
    cases h₂ with
    | cons _ h₂ =>
      have hmem : a ∈ post := h₂.subset (by simp)
      exact absurd hmem (nodup_cons.mp (nodup_append.mp hnodup).2.1).1
    | cons_cons _ h₂ => exact absurd rfl hne
  | cons y t =>
    rw [cons_append, List.cons.injEq] at heq
    rw [heq.1]
    exact h₁.subset mem_cons_self

theorem not_mem_take_of_last (hnodup : (l ++ [a]).Nodup) (h : k < upTo key (l ++ [a]) a) :
    a ∉ (sortDesc key (l ++ [a])).take k := by
  have hnotmem : a ∉ l := fun hmem => (nodup_append.mp hnodup).2.2 a hmem a (by simp) rfl
  have hsorted : (sortDesc key (l ++ [a])).Nodup := (sortDesc_perm key _).nodup_iff.mpr hnodup
  obtain ⟨pre, post, hsplit⟩ :=
    append_of_mem ((mem_sortDesc key).mpr (show a ∈ l ++ [a] by simp))
  rw [hsplit] at hsorted ⊢
  -- everything with at least the key of `a` is in front of it
  have hbefore : l.filter (fun b => decide (key a ≤ key b)) ⊆ pre := by
    intro x hx
    obtain ⟨hxl, hkey⟩ := mem_filter.mp hx
    have hpair : [x, a].Sublist (sortDesc key (l ++ [a])) :=
      pair_sublist_insertionSort (by simpa using hkey)
        ((singleton_sublist.mpr hxl).append (List.Sublist.refl [a]))
    rw [hsplit] at hpair
    exact mem_of_pair_sublist hsorted (fun he => hnotmem (he ▸ hxl)) hpair
  have hcount : upTo key (l ++ [a]) a = (l.filter fun b => decide (key a ≤ key b)).length + 1 := by
    rw [upTo, countP_append, countP_eq_length_filter]
    simp
  have hlen : (l.filter fun b => decide (key a ≤ key b)).length ≤ pre.length :=
    (subperm_of_subset ((nodup_append.mp hnodup).1.filter _) hbefore).length_le
  intro hmem
  rw [take_append_of_le_length (by omega)] at hmem
  exact (nodup_append.mp hsorted).2.2 a (mem_of_mem_take hmem) a (by simp) rfl

variable {σ : Type*} [LinearOrder σ] (score : α → σ)

/-- The first entry with the greatest score, if one is over `hi`. -/
def best : (hi : σ) → (winner : Option α) → List α → Option α
  | _, winner, [] => winner
  | hi, winner, a :: l => if hi < score a then best (score a) (some a) l else best hi winner l

theorem best_spec (hi : σ) (winner : Option α) (l : List α) :
    ((∀ a ∈ l, score a ≤ hi) ∧ best score hi winner l = winner) ∨
      ∃ p ∈ l, best score hi winner l = some p ∧ hi < score p ∧ ∀ a ∈ l, score a ≤ score p := by
  induction l generalizing hi winner with
  | nil => exact .inl ⟨fun a ha => absurd ha not_mem_nil, rfl⟩
  | cons a l ih =>
    rw [best]
    split_ifs with ha
    · rcases ih (score a) (some a) with ⟨hle, hbest⟩ | ⟨p, hp, hbest, hlt, hle⟩
      · exact .inr ⟨a, mem_cons_self, hbest, ha, forall_mem_cons.mpr ⟨le_rfl, hle⟩⟩
      · exact .inr ⟨p, mem_cons_of_mem _ hp, hbest, ha.trans hlt,
          forall_mem_cons.mpr ⟨hlt.le, hle⟩⟩
    · rcases ih hi winner with ⟨hle, hbest⟩ | ⟨p, hp, hbest, hlt, hle⟩
      · exact .inl ⟨forall_mem_cons.mpr ⟨not_lt.mp ha, hle⟩, hbest⟩
      · exact .inr ⟨p, mem_cons_of_mem _ hp, hbest, hlt,
          forall_mem_cons.mpr ⟨(not_lt.mp ha).trans hlt.le, hle⟩⟩

variable {hi : σ}

theorem mem_of_best {p : α} (h : best score hi none l = some p) : p ∈ l := by
  rcases best_spec score hi none l with ⟨-, hbest⟩ | ⟨q, hq, hbest, -, -⟩
  · rw [hbest] at h
    cases h
  · rw [hbest, Option.some.injEq] at h
    exact h ▸ hq

theorem best_eq_of_greatest {p : α} (hp : p ∈ l) (hlt : hi < score p)
    (hgreatest : ∀ a ∈ l, a ≠ p → score a < score p) : best score hi none l = some p := by
  rcases best_spec score hi none l with ⟨hle, -⟩ | ⟨q, hq, hbest, -, hle⟩
  · exact absurd (hle p hp) (not_le.mpr hlt)
  · by_cases hqp : q = p
    · rw [hbest, hqp]
    · exact absurd (hle p hp) (not_le.mpr (hgreatest q hq hqp))

def bestOfTop (hi : σ) (k : Nat) (l : List α) : Option α :=
  best score hi none ((sortDesc key l).take k)

def Decided (k : Nat) (l : List α) : Prop :=
  ∀ b ∈ l, above key l b < k → k < upTo key l b → ∃ a ∈ l, key b < key a ∧ score b < score a

instance (k : Nat) (l : List α) : Decidable (Decided key score k l) :=
  inferInstanceAs (Decidable (∀ b ∈ l, above key l b < k → k < upTo key l b →
    ∃ a ∈ l, key b < key a ∧ score b < score a))

section
variable {key score} {hi : σ} {k : Nat} {l : List α}

variable {b : α}

theorem above_le_of_le (h : key b ≤ key a) : above key l a ≤ above key l b := by
  refine countP_mono_left fun c _ hc => ?_
  simp only [decide_eq_true_eq] at hc ⊢
  exact lt_of_le_of_lt h hc

theorem upTo_le_above (h : key a < key b) : upTo key l b ≤ above key l a := by
  refine countP_mono_left fun c _ hc => ?_
  simp only [decide_eq_true_eq] at hc ⊢
  exact lt_of_lt_of_le h hc

theorem exists_greatest {β : Type*} [LinearOrder β] (f : α → β) (hne : l ≠ []) :
    ∃ p ∈ l, ∀ a ∈ l, f a ≤ f p := by
  cases h : l.argmax f with
  | none => exact absurd (argmax_eq_none.mp h) hne
  | some p => exact ⟨p, argmax_mem h, fun a ha => le_of_mem_argmax ha h⟩

theorem exists_winner (hdecided : Decided key score k l) (hk : 0 < k) (hne : l ≠ []) :
    ∃ p ∈ l, upTo key l p ≤ k ∧ ∀ a ∈ l, above key l a < k → score a ≤ score p := by
  obtain ⟨top, htop, hmost⟩ := exists_greatest key hne
  have hfirst : above key l top = 0 := by
    rw [above, countP_eq_zero]
    intro a ha
    simpa using hmost a ha
  have hcan : l.filter (fun a => decide (above key l a < k)) ≠ [] := by
    refine ne_nil_of_mem (a := top) (mem_filter.mpr ⟨htop, ?_⟩)
    simpa [hfirst] using hk
  obtain ⟨p, hp, hgreatest⟩ := exists_greatest score hcan
  rw [mem_filter, decide_eq_true_iff] at hp
  refine ⟨p, hp.1, ?_, fun a ha habove => hgreatest a (mem_filter.mpr ⟨ha, by simpa⟩)⟩
  by_contra hties
  obtain ⟨a, ha, hkey, hscore⟩ := hdecided p hp.1 hp.2 (not_le.mp hties)
  have habove : above key l a < k := lt_of_le_of_lt (above_le_of_le hkey.le) hp.2
  exact absurd (hgreatest a (mem_filter.mpr ⟨ha, by simpa⟩)) (not_le.mpr hscore)

theorem bestOfTop_eq_of_perm (hdecided : Decided key score k l) (hk : 0 < k)
    (hinj : ∀ a ∈ l, ∀ b ∈ l, score a = score b → a = b) (hperm : m.Perm l) :
    bestOfTop key score hi k m = bestOfTop key score hi k l := by
  by_cases hne : l = []
  · rw [hne] at hperm ⊢
    rw [hperm.eq_nil]
  obtain ⟨p, hp, hup, hgreatest⟩ := exists_winner hdecided hk hne
  have hwins : ∀ m : List α, m.Perm l →
      bestOfTop key score hi k m = if hi < score p then some p else none := by
    intro m hm
    have hmem : p ∈ (sortDesc key m).take k :=
      mem_take_of_upTo_le key (hm.mem_iff.mpr hp) ((upTo_perm key hm p).trans_le hup)
    have hle : ∀ a ∈ (sortDesc key m).take k, a ∈ l ∧ score a ≤ score p := by
      intro a ha
      have hal := hm.mem_iff.mp ((mem_sortDesc key).mp (mem_of_mem_take ha))
      exact ⟨hal, hgreatest a hal ((above_perm key hm a).symm.trans_lt (above_lt_of_mem_take key ha))⟩
    split_ifs with hhi
    · refine best_eq_of_greatest score hmem hhi fun a ha hap => ?_
      exact lt_of_le_of_ne (hle a ha).2 fun heq => hap (hinj a (hle a ha).1 p hp heq)
    · rcases best_spec score hi none ((sortDesc key m).take k) with h | ⟨q, hq, -, hlt, -⟩
      · exact h.2
      · exact absurd (hlt.trans_le (hle q hq).2) hhi
  rw [hwins m hperm, hwins l (List.Perm.refl l)]

/-- Where it is not, the winner changes when the best of the entries that tie moves
from the head of the list to its end. -/
theorem exists_bestOfTop_ne (hundecided : ¬ Decided key score k l) (hnodup : l.Nodup)
    (hinj : ∀ a ∈ l, ∀ b ∈ l, score a = score b → a = b) (hbot : ∀ a, hi ≤ score a) :
    ∃ e ∈ l, ∀ rest, (e :: rest).Perm l →
      bestOfTop key score hi k (e :: rest) ≠ bestOfTop key score hi k (rest ++ [e]) := by
  simp only [Decided, not_forall, not_exists, not_and, not_lt] at hundecided
  obtain ⟨b, hb, habove, hup, hbeaten⟩ := hundecided
  have hties : l.filter (fun a => decide (key b = key a)) ≠ [] :=
    ne_nil_of_mem (mem_filter.mpr ⟨hb, by simp⟩)
  obtain ⟨e, he, hgreatest⟩ := exists_greatest score hties
  rw [mem_filter, decide_eq_true_iff] at he
  -- what can come in front of the cut has at least the key of `e`, and no greater score
  have hle : ∀ a ∈ l, above key l a < k → score a ≤ score e := by
    intro a ha hbefore
    rcases lt_trichotomy (key b) (key a) with hlt | heq | hgt
    · exact (hbeaten a ha hlt).trans (hgreatest b (mem_filter.mpr ⟨hb, by simp⟩))
    · exact hgreatest a (mem_filter.mpr ⟨ha, by simpa using heq⟩)
    · have := upTo_le_above (l := l) hgt
      omega
  have hfirst : above key l e < k := (above_le_of_le he.2.le).trans_lt habove
  have hupe : k < upTo key l e := by
    rwa [upTo, ← he.2]
  have hhi : hi < score e := by
    refine lt_of_le_of_ne (hbot e) fun heq => ?_
    -- otherwise `e` is the only entry with at least its key
    have honly : l.filter (fun a => decide (key e ≤ key a)) ⊆ [e] := by
      intro a ha
      rw [mem_filter, decide_eq_true_iff] at ha
      have hscore := hle a ha.1 ((above_le_of_le ha.2).trans_lt hfirst)
      rw [mem_singleton]
      exact hinj a ha.1 e he.1 (le_antisymm hscore (heq ▸ hbot a))
    have hlen := (subperm_of_subset (hnodup.filter _) honly).length_le
    rw [upTo, countP_eq_length_filter] at hupe
    simp only [length_singleton] at hlen
    omega
  refine ⟨e, he.1, fun rest hperm => ?_⟩
  have hlast : (rest ++ [e]).Perm l := (perm_append_singleton e rest).trans hperm
  have hwins : bestOfTop key score hi k (e :: rest) = some e := by
    refine best_eq_of_greatest score
      (mem_take_of_first key ((above_perm key hperm e).trans_lt hfirst)) hhi fun a ha hae => ?_
    have hal := hperm.mem_iff.mp ((mem_sortDesc key).mp (mem_of_mem_take ha))
    have hbefore := (above_perm key hperm a).symm.trans_lt (above_lt_of_mem_take key ha)
    exact lt_of_le_of_ne (hle a hal hbefore) fun heq => hae (hinj a hal e he.1 heq)
  intro heq
  rw [hwins] at heq
  exact not_mem_take_of_last key (hlast.nodup_iff.mpr hnodup)
    ((upTo_perm key hlast e).symm ▸ hupe) (mem_of_best score heq.symm)

end

end Lib.TopRanked
