import Alqo.Lib.Latest
import Alqo.Lib.Runs

/-!
# Ballot boxes that open late

A box holds at most one vote of each voter, the latest it has counted. Until it is opened it counts
nothing and keeps one vote waiting, the last that arrived. It ends with the latest of the votes that
were `Counted`, a notion that only speaks of the order of arrivals.
-/

namespace Lib.BallotBox
open Lib.Runs Lib.Latest List

structure Rules (K V N T : Type*) where
  key : V → K
  time : V → T
  mayReplace : (old new : V) → Bool
  inTime : V → N → Bool

structure Box (K V : Type*) where
  isOpen : Bool := false
  waiting : Option V := none
  held : K → Option V := fun _ => none

inductive Arrival (V N : Type*) where
  | vote (v : V) (now : N) (kept : Bool)
  | opening (now : N)
  | check (now : N)
deriving DecidableEq

variable {K V N T : Type*} (r : Rules K V N T)

namespace Rules

variable [DecidableEq K] [LinearOrder T]

def accepts (held : K → Option V) (v : V) (now : N) : Bool :=
  (match held (r.key v) with
    | none => true
    | some old => decide (r.time old ≤ r.time v) && r.mayReplace old v) && r.inTime v now

def add (held : K → Option V) (v : V) (now : N) : K → Option V :=
  if r.accepts held v now then Function.update held (r.key v) (some v) else held

def recheck (b : Box K V) (now : N) : Box K V :=
  match b.isOpen, b.waiting with
  | true, some v =>
    { b with
      waiting := if r.accepts b.held v now then none else some v
      held := r.add b.held v now }
  | _, _ => b

def step (b : Box K V) : Arrival V N → Box K V
  | .vote v now kept =>
    if b.isOpen then { b with held := r.add b.held v now }
    else if kept then { b with waiting := some v }
    else b
  | .opening now => r.recheck { b with isOpen := true } now
  | .check now => r.recheck b now

end Rules

def Arrival.isOpening : Arrival V N → Bool
  | .opening _ => true
  | _ => false

def Arrival.keptVote : Arrival V N → Option V
  | .vote v _ true => some v
  | _ => none

def Arrival.Retries (v : V) : Arrival V N → Prop
  | .vote _ _ _ => False
  | .opening now => r.inTime v now = true
  | .check now => r.inTime v now = true

def IsVote (es : List (Arrival V N)) (v : V) : Prop := ∃ now kept, Arrival.vote v now kept ∈ es

def before (es : List (Arrival V N)) : List (Arrival V N) := es.takeWhile fun e => !e.isOpening

def after (es : List (Arrival V N)) : List (Arrival V N) := es.dropWhile fun e => !e.isOpening

def lastKept (es : List (Arrival V N)) : Option V :=
  ((before es).filterMap Arrival.keptVote).getLast?

def Counted (es : List (Arrival V N)) (v : V) : Prop :=
  (∃ now kept, Arrival.vote v now kept ∈ after es ∧ r.inTime v now = true) ∨
    (lastKept es = some v ∧ ∃ e ∈ after es, e.Retries r v)

def Separated [LinearOrder T] (es : List (Arrival V N)) : Prop :=
  ∀ v w, IsVote es v → IsVote es w → r.key v = r.key w →
    v = w ∨ (r.time v < r.time w ∧ r.mayReplace v w = true) ∨
      (r.time w < r.time v ∧ r.mayReplace w v = true)

variable {r} {es : List (Arrival V N)} {e : Arrival V N}

theorem closed_iff : es.any Arrival.isOpening = false ↔ ∀ e ∈ es, (!e.isOpening) = true := by
  simp

theorem before_closed (h : es.any Arrival.isOpening = false) : before es = es :=
  takeWhile_eq_self_iff.mpr (closed_iff.mp h)

theorem after_closed (h : es.any Arrival.isOpening = false) : after es = [] :=
  dropWhile_eq_nil_iff.mpr (closed_iff.mp h)

theorem after_append_open (h : es.any Arrival.isOpening = true) :
    after (es ++ [e]) = after es ++ [e] := by
  have hne : ¬ (es.dropWhile fun e => !e.isOpening).isEmpty = true := by
    intro hnil
    rw [closed_iff.mpr (dropWhile_eq_nil_iff.mp (List.isEmpty_iff.mp hnil))] at h
    cases h
  rw [after, dropWhile_append, if_neg hne, after]

theorem before_append_open (h : es.any Arrival.isOpening = true) :
    before (es ++ [e]) = before es := by
  have hcut : before (es ++ [e]) ++ after (es ++ [e]) = before es ++ after es ++ [e] := by
    simp only [before, after, takeWhile_append_dropWhile]
  rw [after_append_open h, ← append_assoc] at hcut
  exact append_cancel_right (append_cancel_right hcut)

theorem before_append_closed (h : es.any Arrival.isOpening = false) :
    before (es ++ [e]) = if e.isOpening then es else es ++ [e] := by
  rw [before, takeWhile_append_of_pos (closed_iff.mp h)]
  cases hopen : e.isOpening <;> simp [hopen]

theorem after_append_closed (h : es.any Arrival.isOpening = false) :
    after (es ++ [e]) = if e.isOpening then [e] else [] := by
  rw [after, dropWhile_append_of_pos (closed_iff.mp h)]
  cases hopen : e.isOpening <;> simp [hopen]

variable {v : V}

theorem keptVote_eq_some : e.keptVote = some v ↔ ∃ now, e = .vote v now true := by
  rcases e with ⟨w, now, kept⟩ | now | now
  · cases kept <;> simp [Arrival.keptVote]
  · simp [Arrival.keptVote]
  · simp [Arrival.keptVote]

theorem lastKept_isVote (h : lastKept es = some v) : IsVote es v := by
  obtain ⟨e, he, hkept⟩ := mem_filterMap.mp (mem_of_getLast? h)
  obtain ⟨now, rfl⟩ := keptVote_eq_some.mp hkept
  exact ⟨now, true, (takeWhile_sublist _).subset he⟩

theorem Counted.isVote (h : Counted r es v) : IsVote es v := by
  rcases h with ⟨now, kept, hmem, -⟩ | ⟨hlast, -⟩
  · exact ⟨now, kept, (dropWhile_sublist _).subset hmem⟩
  · exact lastKept_isVote hlast

theorem lastKept_append_open (h : es.any Arrival.isOpening = true) :
    lastKept (es ++ [e]) = lastKept es := by
  rw [lastKept, before_append_open h, lastKept]

theorem lastKept_append_closed (h : es.any Arrival.isOpening = false) :
    lastKept (es ++ [e]) = e.keptVote.or (lastKept es) := by
  rw [lastKept, lastKept, before_append_closed h, before_closed h]
  rcases e with ⟨w, now, kept⟩ | now | now
  · cases kept <;> simp [Arrival.isOpening, Arrival.keptVote]
  · simp [Arrival.isOpening, Arrival.keptVote]
  · simp [Arrival.isOpening, Arrival.keptVote]

theorem not_counted_closed (h : es.any Arrival.isOpening = false) (v : V) : ¬ Counted r es v := by
  rw [Counted, after_closed h]
  simp

theorem counted_append_open (h : es.any Arrival.isOpening = true) (v : V) :
    Counted r (es ++ [e]) v ↔ Counted r es v ∨
      (∃ now kept, e = .vote v now kept ∧ r.inTime v now = true) ∨
      (lastKept es = some v ∧ e.Retries r v) := by
  simp only [Counted, after_append_open h, lastKept_append_open h, mem_append,
    mem_singleton, or_and_right, exists_or, exists_eq_left, and_or_left, @eq_comm _ e]
  exact or_or_or_comm

theorem counted_opening (h : es.any Arrival.isOpening = false) (now : N) (v : V) :
    Counted r (es ++ [.opening now]) v ↔ lastKept es = some v ∧ r.inTime v now = true := by
  rw [Counted, after_append_closed h, lastKept_append_closed h]
  simp [Arrival.Retries, Arrival.isOpening, Arrival.keptVote]

section
variable [LinearOrder T]

theorem IsVote.append (h : IsVote es v) : IsVote (es ++ [e]) v := by
  obtain ⟨now, kept, hmem⟩ := h
  exact ⟨now, kept, mem_append_left _ hmem⟩

theorem Separated.init (h : Separated r (es ++ [e])) : Separated r es :=
  fun v w hv hw => h v w hv.append hw.append

theorem Separated.time_inj (hsep : Separated r es) {w : V} (hv : IsVote es v) (hw : IsVote es w)
    (hkey : r.key v = r.key w) (htime : r.time v = r.time w) : v = w := by
  rcases hsep v w hv hw hkey with heq | ⟨hlt, -⟩ | ⟨hlt, -⟩
  · exact heq
  · exact absurd htime (ne_of_lt hlt)
  · exact absurd htime.symm (ne_of_lt hlt)

variable {held : K → Option V} {now : N}

theorem accepts_iff : r.accepts held v now = true ↔
    (∀ old, held (r.key v) = some old → r.time old ≤ r.time v ∧ r.mayReplace old v = true) ∧
      r.inTime v now = true := by
  cases h : held (r.key v) <;> simp [Rules.accepts, h]

variable [DecidableEq K] {P : V → Prop}

theorem add_latest (hheld : ∀ k, IsLatest r.time (fun w => P w ∧ r.key w = k) (held k))
    (hsep : ∀ w, P w → r.key v = r.key w → v = w ∨ (r.time v < r.time w ∧ r.mayReplace v w = true) ∨
      (r.time w < r.time v ∧ r.mayReplace w v = true)) (k : K) :
    IsLatest r.time (fun w => (P w ∨ (w = v ∧ r.inTime v now = true)) ∧ r.key w = k)
      (r.add held v now k) := by
  have hk := hheld k
  by_cases haccepts : r.accepts held v now = true ∧ r.key v = k
  · obtain ⟨haccepts, rfl⟩ := haccepts
    obtain ⟨hold, htime⟩ := accepts_iff.mp haccepts
    rw [Rules.add, if_pos haccepts, Function.update_self]
    refine ⟨⟨.inr ⟨rfl, htime⟩, rfl⟩, fun w hw => ?_⟩
    obtain ⟨hP | ⟨rfl, -⟩, hwkey⟩ := hw
    · cases hcase : held (r.key v) with
      | none =>
        rw [hcase] at hk
        exact absurd ⟨hP, hwkey⟩ (hk w)
      | some old =>
        rw [hcase] at hk
        exact (hk.2 w ⟨hP, hwkey⟩).trans (hold old hcase).1
    · exact le_rfl
  · have hsame : r.add held v now k = held k := by
      rw [Rules.add]
      split_ifs with h
      · exact Function.update_of_ne (fun hkey => haccepts ⟨h, hkey.symm⟩) _ _
      · rfl
    -- a vote that is refused in time is not later than the one held
    have hlate : r.inTime v now = true → r.key v = k →
        ∃ old, held k = some old ∧ r.time v ≤ r.time old := by
      rintro htime rfl
      rw [and_iff_left rfl, accepts_iff, and_iff_left htime] at haccepts
      push Not at haccepts
      obtain ⟨old, hcase, hrefused⟩ := haccepts
      rw [hcase] at hk
      refine ⟨old, hcase, ?_⟩
      rcases hsep old hk.1.1 hk.1.2.symm with rfl | ⟨hlt, -⟩ | ⟨hlt, hreplace⟩
      · exact le_rfl
      · exact hlt.le
      · exact absurd hreplace (hrefused hlt.le)
    rw [hsame]
    cases hcase : held k with
    | none =>
      rw [hcase] at hk hlate
      rintro w ⟨hP | ⟨rfl, htime⟩, hwkey⟩
      · exact hk w ⟨hP, hwkey⟩
      · obtain ⟨old, hnone, -⟩ := hlate htime hwkey
        cases hnone
    | some old =>
      rw [hcase] at hk hlate
      refine ⟨⟨.inl hk.1.1, hk.1.2⟩, ?_⟩
      rintro w ⟨hP | ⟨rfl, htime⟩, hwkey⟩
      · exact hk.2 w ⟨hP, hwkey⟩
      · obtain ⟨old', hsome, hle⟩ := hlate htime hwkey
        cases hsome
        exact hle

theorem recheck_isOpen (b : Box K V) (now : N) : (r.recheck b now).isOpen = b.isOpen := by
  unfold Rules.recheck
  split <;> rfl

theorem step_vote_isOpen (b : Box K V) (v : V) (now : N) (kept : Bool) :
    (r.step b (.vote v now kept)).isOpen = b.isOpen := by
  rw [Rules.step]
  split_ifs <;> rfl

structure Reads (r : Rules K V N T) (es : List (Arrival V N)) (b : Box K V) : Prop where
  isOpen : b.isOpen = es.any Arrival.isOpening
  closed : b.isOpen = false → b.waiting = lastKept es
  waiting : ∀ v, b.waiting = some v → lastKept es = some v
  tried : b.isOpen = true → ∀ v, lastKept es = some v → b.waiting = some v ∨ Counted r es v
  held : ∀ k, IsLatest r.time (fun v => Counted r es v ∧ r.key v = k) (b.held k)

variable {b : Box K V}

omit [DecidableEq K] in
theorem Reads.of_closed (hclosed : es.any Arrival.isOpening = false) (hopen : b.isOpen = false)
    (hwait : b.waiting = lastKept es) (hnone : ∀ k, b.held k = none) : Reads r es b where
  isOpen := hopen.trans hclosed.symm
  closed _ := hwait
  waiting v hv := hwait ▸ hv
  tried h := by
    rw [hopen] at h
    cases h
  held k := by
    rw [hnone k]
    exact fun v hv => not_counted_closed hclosed v hv.1

omit [DecidableEq K] in
theorem Reads.of_open (hopened : es.any Arrival.isOpening = true) (hopen : b.isOpen = true)
    (hwait : ∀ v, b.waiting = some v → lastKept es = some v)
    (htried : ∀ v, lastKept es = some v → b.waiting = some v ∨ Counted r es v)
    (hheld : ∀ k, IsLatest r.time (fun v => Counted r es v ∧ r.key v = k) (b.held k)) :
    Reads r es b where
  isOpen := hopen.trans hopened.symm
  closed h := by
    rw [hopen] at h
    cases h
  waiting := hwait
  tried _ := htried
  held := hheld

/-- The waiting vote is tried once more, next to the votes `P` that were counted before. -/
theorem Reads.recheck (hopened : es.any Arrival.isOpening = true) (hopen : b.isOpen = true)
    (hsep : Separated r es)
    (hheld : ∀ k, IsLatest r.time (fun w => P w ∧ r.key w = k) (b.held k))
    (hwait : ∀ v, b.waiting = some v → lastKept es = some v)
    (hback : ∀ v, lastKept es = some v → b.waiting = some v ∨ P v)
    (hcounted : ∀ v, Counted r es v ↔ P v ∨ (lastKept es = some v ∧ r.inTime v now = true)) :
    Reads r es (r.recheck b now) := by
  cases hw : b.waiting with
  | none =>
    have hsame : r.recheck b now = b := by rw [Rules.recheck, hopen, hw]
    have hall : ∀ v, lastKept es = some v → P v := by
      intro v hv
      exact (hback v hv).resolve_left (by simp [hw])
    rw [hsame]
    refine .of_open hopened hopen hwait (fun v hv => .inr ((hcounted v).mpr (.inl (hall v hv)))) ?_
    intro k
    refine (hheld k).congr fun v => and_congr_left fun _ => ?_
    rw [hcounted, or_iff_left_of_imp fun h => hall v h.1]
  | some v =>
    have hlast := hwait v hw
    have hnew : r.recheck b now = { b with
        waiting := if r.accepts b.held v now then none else some v
        held := r.add b.held v now } := by
      rw [Rules.recheck, hopen, hw]
    rw [hnew]
    refine .of_open hopened hopen (fun w hstill => ?_) (fun w hw' => ?_) fun k => ?_
    · dsimp only at hstill
      split_ifs at hstill
      rw [hlast, hstill]
    · rw [hlast] at hw'
      cases hw'
      by_cases haccepts : r.accepts b.held v now = true
      · exact .inr ((hcounted v).mpr (.inr ⟨hlast, (accepts_iff.mp haccepts).2⟩))
      · exact .inl (if_neg haccepts)
    · have hvotes : ∀ w, P w → r.key v = r.key w → _ := fun w hP =>
        hsep v w (lastKept_isVote hlast) ((hcounted w).mpr (.inl hP)).isVote
      refine (add_latest hheld hvotes k).congr fun w => and_congr_left fun _ => ?_
      rw [hcounted, hlast, Option.some.injEq]
      refine or_congr_right ⟨?_, ?_⟩
      · rintro ⟨rfl, htime⟩
        exact ⟨rfl, htime⟩
      · rintro ⟨rfl, htime⟩
        exact ⟨rfl, htime⟩

theorem Reads.step_closed (h : Reads r es b) (hclosed : es.any Arrival.isOpening = false)
    (hsep : Separated r (es ++ [e])) : Reads r (es ++ [e]) (r.step b e) := by
  have hopen : b.isOpen = false := h.isOpen.trans hclosed
  have hwait : b.waiting = lastKept es := h.closed hopen
  have hnone : ∀ k, b.held k = none := by
    intro k
    cases hk : b.held k with
    | none => rfl
    | some v =>
      have hlatest := h.held k
      rw [hk] at hlatest
      exact absurd hlatest.1.1 (not_counted_closed hclosed v)
  have hany : (es ++ [e]).any Arrival.isOpening = e.isOpening := by simp [hclosed]
  have hlast := lastKept_append_closed (e := e) hclosed
  cases e with
  | vote v now kept =>
    have hstep : r.step b (.vote v now kept) =
        { b with waiting := if kept then some v else b.waiting } := by
      rw [Rules.step, if_neg (by simp [hopen])]
      cases kept <;> rfl
    rw [hstep]
    refine .of_closed hany hopen (Eq.trans ?_ hlast.symm) hnone
    cases kept with
    | true => rfl
    | false => exact hwait
  | opening now =>
    -- nothing is held yet, and the waiting vote is the last that was kept
    refine .recheck (P := fun _ => False) hany rfl hsep (fun k => ?_)
      (fun v hv => hlast.trans (hwait.symm.trans hv))
      (fun v hv => .inl (hwait.trans (hlast.symm.trans hv))) fun v => ?_
    · show IsLatest _ _ (b.held k)
      rw [hnone k]
      exact fun v hv => hv.1
    · rw [counted_opening hclosed, false_or, hlast]
      rfl
  | check now =>
    have hsame : r.step b (.check now) = b := by rw [Rules.step, Rules.recheck, hopen]
    rw [hsame]
    exact .of_closed hany hopen (hwait.trans hlast.symm) hnone

theorem Reads.step_open (h : Reads r es b) (hopened : es.any Arrival.isOpening = true)
    (hsep : Separated r (es ++ [e])) : Reads r (es ++ [e]) (r.step b e) := by
  have hopen : b.isOpen = true := h.isOpen.trans hopened
  have hany : (es ++ [e]).any Arrival.isOpening = true := by simp [hopened]
  have hlast := lastKept_append_open (e := e) hopened
  have hwait : ∀ v, b.waiting = some v → lastKept (es ++ [e]) = some v :=
    fun v hv => hlast.trans (h.waiting v hv)
  have hback : ∀ v, lastKept (es ++ [e]) = some v → b.waiting = some v ∨ Counted r es v :=
    fun v hv => h.tried hopen v (hlast.symm.trans hv)
  have hcounted := fun v => counted_append_open (r := r) (e := e) hopened v
  cases e with
  | vote v now kept =>
    have hnew : ∀ w, Counted r (es ++ [.vote v now kept]) w ↔
        Counted r es w ∨ (w = v ∧ r.inTime v now = true) := by
      intro w
      rw [hcounted]
      simp only [Arrival.Retries, and_false, or_false, Arrival.vote.injEq]
      refine or_congr_right ⟨?_, ?_⟩
      · rintro ⟨now', kept', ⟨rfl, rfl, rfl⟩, htime⟩
        exact ⟨rfl, htime⟩
      · rintro ⟨rfl, htime⟩
        exact ⟨now, kept, ⟨rfl, rfl, rfl⟩, htime⟩
    have hstep : r.step b (.vote v now kept) = { b with held := r.add b.held v now } :=
      if_pos hopen
    rw [hstep]
    refine .of_open hany hopen hwait
      (fun w hw => (hback w hw).imp_right fun h => (hnew w).mpr (.inl h)) fun k => ?_
    have hvotes : ∀ w, Counted r es w → r.key v = r.key w → _ := fun w hw =>
      hsep v w ⟨now, kept, mem_append_right _ (mem_singleton_self _)⟩ hw.isVote.append
    exact (add_latest h.held hvotes k).congr fun w => and_congr_left fun _ => (hnew w).symm
  | opening now =>
    have hsame : { b with isOpen := true } = b := by rw [← hopen]
    rw [Rules.step, hsame]
    exact .recheck hany hopen hsep h.held hwait hback fun v => by simp [hcounted, hlast, Arrival.Retries]
  | check now =>
    exact .recheck hany hopen hsep h.held hwait hback fun v => by simp [hcounted, hlast, Arrival.Retries]

theorem reads_run (es : List (Arrival V N)) (hsep : Separated r es) :
    Reads r es (run r.step {} es) := by
  refine run_history (R := fun es b => Separated r es → Reads r es b)
    (fun _ => .of_closed rfl rfl rfl fun _ => rfl) (fun es b e ih hsep => ?_) es hsep
  cases hopened : es.any Arrival.isOpening with
  | true => exact (ih hsep.init).step_open hopened hsep
  | false => exact (ih hsep.init).step_closed hopened hsep

theorem isLatest_held (hsep : Separated r es) (k : K) :
    IsLatest r.time (fun v => Counted r es v ∧ r.key v = k) ((run r.step {} es).held k) :=
  (reads_run es hsep).held k

omit [DecidableEq K] in
theorem finite_isVote (es : List (Arrival V N)) : {v | IsVote es v}.Finite := by
  refine (es.filterMap fun e => match e with
    | .vote v _ _ => some v
    | _ => none).finite_toSet.subset ?_
  rintro v ⟨now, kept, he⟩
  exact mem_filterMap.mpr ⟨_, he, rfl⟩

/-- No vote is lost exactly if each voter's latest vote is counted. -/
theorem held_latest_iff (hsep : Separated r es) :
    (∀ k, IsLatest r.time (fun v => IsVote es v ∧ r.key v = k) ((run r.step {} es).held k)) ↔
      ∀ v, IsVote es v → (∀ w, IsVote es w → r.key w = r.key v → r.time w ≤ r.time v) →
        Counted r es v := by
  constructor
  · intro hall v hv hnewest
    have hlatest := hall (r.key v)
    have hcounted := isLatest_held hsep (r.key v)
    cases hheld : (run r.step {} es).held (r.key v) with
    | none =>
      rw [hheld] at hlatest
      exact absurd ⟨hv, rfl⟩ (hlatest v)
    | some u =>
      rw [hheld] at hlatest hcounted
      obtain ⟨⟨hu, hkey⟩, hmax⟩ := hlatest
      have htime : r.time v = r.time u := le_antisymm (hmax v ⟨hv, rfl⟩) (hnewest u hu hkey)
      rw [hsep.time_inj hv hu hkey.symm htime]
      exact hcounted.1.1
  · intro hall k
    have hcounted := isLatest_held hsep k
    -- the newest vote of the voter, if there is any
    have hnewest : ∀ v, IsVote es v → r.key v = k → ∃ m, Counted r es m ∧ r.key m = k ∧
        r.time v ≤ r.time m := by
      intro v hv hkey
      obtain ⟨m, ⟨hm, hmkey⟩, hmax⟩ := Set.exists_max_image {w | IsVote es w ∧ r.key w = k} r.time
        ((finite_isVote es).subset fun _ h => h.1) ⟨v, hv, hkey⟩
      refine ⟨m, hall m hm fun w hw hkw => ?_, hmkey, hmax v ⟨hv, hkey⟩⟩
      exact hmax w ⟨hw, hkw.trans hmkey⟩
    cases hheld : (run r.step {} es).held k with
    | none =>
      rw [hheld] at hcounted
      intro v hv
      obtain ⟨m, hm, hkm, -⟩ := hnewest v hv.1 hv.2
      exact hcounted m ⟨hm, hkm⟩
    | some u =>
      rw [hheld] at hcounted
      refine ⟨⟨hcounted.1.1.isVote, hcounted.1.2⟩, fun v hv => ?_⟩
      obtain ⟨m, hm, hkm, hle⟩ := hnewest v hv.1 hv.2
      exact le_trans hle (hcounted.2 m ⟨hm, hkm⟩)

end

end Lib.BallotBox
