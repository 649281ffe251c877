import Mathlib

/-!
# Undo logs

Operations leave records and are undone from the last to the first. If undoing one gets back to
where it started, up to a relation, so does undoing all of them.
-/

namespace Lib.UndoLog
open List

variable {S Op U ε : Type*}

def recordAll (record : S → Op → Except ε (S × U)) : S → List Op → Except ε (S × List U)
  | s, [] => .ok (s, [])
  | s, op :: rest =>
    match record s op with
    | .error e => .error e
    | .ok (s', u) =>
      match recordAll record s' rest with
      | .error e => .error e
      | .ok (t, us) => .ok (t, u :: us)

def undoAll (undo : S → Op → U → S × Bool) : S → List (Op × U) → S × Bool
  | s, [] => (s, true)
  | s, (op, u) :: rest =>
    let later := undoAll undo s rest
    let this := undo later.1 op u
    (this.1, later.2 && this.2)

def GoodAlong (record : S → Op → Except ε (S × U)) (Good : S → Op → Prop) : S → List Op → Prop
  | _, [] => True
  | s, op :: rest =>
    Good s op ∧ ∀ s' u, record s op = .ok (s', u) → GoodAlong record Good s' rest

instance decidableGoodAlong (record : S → Op → Except ε (S × U)) (Good : S → Op → Prop)
    [∀ s op, Decidable (Good s op)] (s : S) (ops : List Op) :
    Decidable (GoodAlong record Good s ops) :=
  match ops with
  | [] => isTrue trivial
  | op :: rest =>
    match h : record s op with
    | .error e => decidable_of_iff (Good s op) (by simp [GoodAlong, h])
    | .ok (s', u) =>
      have := decidableGoodAlong record Good s' rest
      decidable_of_iff (Good s op ∧ GoodAlong record Good s' rest) (by simp [GoodAlong, h])

variable {record : S → Op → Except ε (S × U)} {undo : S → Op → U → S × Bool}

variable {s t : S} {log : List U}

theorem recordAll_cons_ok_iff {op : Op} {rest : List Op} :
    recordAll record s (op :: rest) = .ok (t, log) ↔
      ∃ s' u us, record s op = .ok (s', u) ∧ recordAll record s' rest = .ok (t, us) ∧
        log = u :: us := by
  rw [recordAll]
  cases record s op with
  | error e => simp
  | ok r =>
    obtain ⟨s', u⟩ := r
    dsimp only
    cases hrest : recordAll record s' rest with
    | error e => simp [hrest]
    | ok r =>
      obtain ⟨t', us⟩ := r
      simp only [Except.ok.injEq, Prod.mk.injEq]
      constructor
      · rintro ⟨rfl, rfl⟩
        exact ⟨s', u, us, ⟨rfl, rfl⟩, hrest, rfl⟩
      · rintro ⟨s'', u', us', ⟨rfl, rfl⟩, h, rfl⟩
        rw [hrest] at h
        cases h
        exact ⟨rfl, rfl⟩

variable {ops : List Op}

theorem recordAll_length (h : recordAll record s ops = .ok (t, log)) : log.length = ops.length := by
  induction ops generalizing s log with
  | nil =>
    cases h
    rfl
  | cons op rest ih =>
    obtain ⟨s', u, us, -, hrest, rfl⟩ := recordAll_cons_ok_iff.mp h
    simp [ih hrest]

theorem recordAll_append_ok_iff {more : List Op} : recordAll record s (ops ++ more) = .ok (t, log) ↔
      ∃ s' us vs, recordAll record s ops = .ok (s', us) ∧
        recordAll record s' more = .ok (t, vs) ∧ log = us ++ vs := by
  induction ops generalizing s log with
  | nil => simp [recordAll]
  | cons op rest ih =>
    rw [cons_append, recordAll_cons_ok_iff]
    constructor
    · rintro ⟨s', u, us, hop, hrest, rfl⟩
      obtain ⟨s'', us', vs, h1, h2, rfl⟩ := ih.mp hrest
      exact ⟨s'', u :: us', vs, recordAll_cons_ok_iff.mpr ⟨s', u, us', hop, h1, rfl⟩, h2, rfl⟩
    · rintro ⟨s'', us, vs, h1, h2, rfl⟩
      obtain ⟨s', u, us', hop, hrest, rfl⟩ := recordAll_cons_ok_iff.mp h1
      exact ⟨s', u, us' ++ vs, hop, ih.mpr ⟨s'', us', vs, hrest, h2, rfl⟩, rfl⟩

theorem undoAll_append (s : S) (l m : List (Op × U)) : undoAll undo s (l ++ m) =
      ((undoAll undo (undoAll undo s m).1 l).1,
        (undoAll undo s m).2 && (undoAll undo (undoAll undo s m).1 l).2) := by
  induction l with
  | nil => simp [undoAll]
  | cons x l ih =>
    obtain ⟨op, u⟩ := x
    simp only [cons_append, undoAll, ih, Bool.and_assoc]

variable {Good : S → Op → Prop} {s' : S}

variable {R : S → S → Prop}

theorem undoAll_recordAll (hinv : ∀ s op s' u t, Good s op → record s op = .ok (s', u) → R t s' →
      R (undo t op u).1 s ∧ (undo t op u).2 = true) (hgood : GoodAlong record Good s ops)
    (h : recordAll record s ops = .ok (s', log)) (ht : R t s') :
    R (undoAll undo t (ops.zip log)).1 s ∧ (undoAll undo t (ops.zip log)).2 = true := by
  induction ops generalizing s log with
  | nil =>
    cases h
    exact ⟨ht, rfl⟩
  | cons op rest ih =>
    obtain ⟨s₁, u, us, hop, hrest, rfl⟩ := recordAll_cons_ok_iff.mp h
    obtain ⟨hR, hclean⟩ := ih (hgood.2 s₁ u hop) hrest
    obtain ⟨hR', hclean'⟩ := hinv s op s₁ u _ hgood.1 hop hR
    simp only [zip_cons_cons, undoAll, hclean, hclean', Bool.and_self, and_true]
    exact hR'

variable {J : S → S → Prop}

theorem undoAll_invariant (hinv : ∀ s op s' u t, record s op = .ok (s', u) → J t s' →
      J (undo t op u).1 s ∨ (undo t op u).2 = false) (h : recordAll record s ops = .ok (s', log))
    (ht : J t s') :
    J (undoAll undo t (ops.zip log)).1 s ∨ (undoAll undo t (ops.zip log)).2 = false := by
  induction ops generalizing s log with
  | nil =>
    cases h
    exact .inl ht
  | cons op rest ih =>
    obtain ⟨s₁, u, us, hop, hrest, rfl⟩ := recordAll_cons_ok_iff.mp h
    simp only [zip_cons_cons, undoAll]
    rcases ih hrest with hJ | hunclean
    · rcases hinv s op s₁ u _ hop hJ with hJ' | hunclean
      · exact .inl hJ'
      · exact .inr (by rw [hunclean, Bool.and_false])
    · exact .inr (by rw [hunclean, Bool.false_and])

theorem exists_last_bad (h : recordAll record s ops = .ok (s', log))
    (hbad : ¬ GoodAlong record Good s ops) :
    ∃ before op after s₁ s₂ us u vs, ops = before ++ op :: after ∧ log = us ++ u :: vs ∧
      recordAll record s before = .ok (s₁, us) ∧ record s₁ op = .ok (s₂, u) ∧ ¬ Good s₁ op ∧
      recordAll record s₂ after = .ok (s', vs) ∧ GoodAlong record Good s₂ after := by
  induction ops generalizing s log with
  | nil => exact absurd trivial hbad
  | cons op rest ih =>
    obtain ⟨s₁, u, us, hop, hrest, rfl⟩ := recordAll_cons_ok_iff.mp h
    by_cases hgood : GoodAlong record Good s₁ rest
    · refine ⟨[], op, rest, s, s₁, [], u, us, rfl, rfl, rfl, hop, fun hc => hbad ⟨hc, ?_⟩, hrest,
        hgood⟩
      intro s₂ v hv
      rw [hop] at hv
      cases hv
      exact hgood
    · obtain ⟨before, bad, after, s₂, s₃, us', v, vs, rfl, rfl, hbefore, hb, hng, hafter, hga⟩ :=
        ih hrest hgood
      exact ⟨op :: before, bad, after, s₂, s₃, u :: us', v, vs, rfl, rfl,
        recordAll_cons_ok_iff.mpr ⟨s₁, u, us', hop, hbefore, rfl⟩, hb, hng, hafter, hga⟩

/-- Undoing an operation that is not good does damage, or reports it, and the damage is
not repaired by undoing the operations before it. So the damage or the report is
there in the end. -/
theorem undoAll_of_not_goodAlong
    (hgood : ∀ s op s' u t, Good s op → record s op = .ok (s', u) → R t s' →
      R (undo t op u).1 s ∧ (undo t op u).2 = true)
    (hbad : ∀ s op s' u t, ¬ Good s op → record s op = .ok (s', u) → R t s' →
      J (undo t op u).1 s ∨ (undo t op u).2 = false)
    (hkeep : ∀ s op s' u t, record s op = .ok (s', u) → J t s' →
      J (undo t op u).1 s ∨ (undo t op u).2 = false) (h : recordAll record s ops = .ok (s', log))
    (hnot : ¬ GoodAlong record Good s ops) (ht : R t s') :
    J (undoAll undo t (ops.zip log)).1 s ∨ (undoAll undo t (ops.zip log)).2 = false := by
  obtain ⟨before, op, after, s₁, s₂, us, u, vs, rfl, rfl, hbefore, hop, hng, hafter, hga⟩ :=
    exists_last_bad h hnot
  obtain ⟨hR, -⟩ := undoAll_recordAll hgood hga hafter ht
  rw [zip_append (recordAll_length hbefore).symm, undoAll_append, zip_cons_cons, undoAll]
  rcases hbad s₁ op s₂ u _ hng hop hR with hJ | hunclean
  · rcases undoAll_invariant hkeep hbefore hJ with hJ' | hunclean
    · exact .inl hJ'
    · exact .inr (by rw [hunclean, Bool.and_false])
  · exact .inr (by rw [hunclean, Bool.and_false, Bool.false_and])

variable {Op' : Type*}

theorem recordAll_map {record' : S → Op' → Except ε (S × U)} (f : Op' → Op)
    (hf : ∀ s op, record s (f op) = record' s op) (s : S) (ops : List Op') :
    recordAll record s (ops.map f) = recordAll record' s ops := by
  induction ops generalizing s with
  | nil => rfl
  | cons op rest ih => simp only [map_cons, recordAll, hf, ih]

theorem undoAll_map {undo' : S → Op' → U → S × Bool} (f : Op' → Op)
    (hf : ∀ s op u, undo s (f op) u = undo' s op u) (s : S) (ops : List Op') (log : List U) :
    undoAll undo s ((ops.map f).zip log) = undoAll undo' s (ops.zip log) := by
  induction ops generalizing log with
  | nil => rfl
  | cons op rest ih =>
    cases log with
    | nil => rfl
    | cons u us => simp only [map_cons, zip_cons_cons, undoAll, hf, ih]

end Lib.UndoLog
