import Alqo.Lib.Branches

/-!
# The ancestor at a height

In a tree with its roots at height zero a node has one ancestor at each height up to its own.
-/

namespace Lib.Branches

variable {K : Type*} {parent : K → Option K} {height : K → Nat}

def Rooted (parent : K → Option K) (height : K → Nat) : Prop :=
  ∀ k, parent k = none → height k = 0

def ancestorAt (parent : K → Option K) (height : K → Nat) (k : K) (n : Nat) : Option K :=
  if n ≤ height k then (branch parent height k)[height k - n]? else none

theorem ancestorAt_self (k : K) : ancestorAt parent height k (height k) = some k := by
  obtain ⟨tail, htail⟩ : ∃ tail, branch parent height k = k :: tail := branch_eq_cons k
  rw [ancestorAt, if_pos le_rfl, Nat.sub_self, htail]
  rfl

variable {k a : K} {n : Nat}

theorem mem_of_ancestorAt (ha : ancestorAt parent height k n = some a) :
    a ∈ branch parent height k := by
  rw [ancestorAt] at ha
  split at ha
  · exact List.mem_of_getElem? ha
  · cases ha

variable (h : Graded parent height)
include h

theorem ancestorAt_parent {p : K} (hp : parent k = some p) (hn : n ≤ height p) :
    ancestorAt parent height k n = ancestorAt parent height p n := by
  have hk := h k p hp
  have hsub : height k - n = (height p - n) + 1 := by omega
  rw [ancestorAt, ancestorAt, if_pos (by omega), if_pos hn, branch_of_parent h hp, hsub,
    List.getElem?_cons_succ]

theorem height_of_ancestorAt (ha : ancestorAt parent height k n = some a) : height a = n := by
  rw [ancestorAt] at ha
  split at ha
  · have hheight := getElem?_branch_height h ha
    omega
  · cases ha

theorem ancestorAt_height (ha : a ∈ branch parent height k) :
    ancestorAt parent height k (height a) = some a := by
  have hle := height_le_of_mem h ha
  rw [ancestorAt, if_pos hle]
  exact (getElem?_branch_eq_iff h hle).mpr ha

theorem ancestorAt_trans {m : Nat} (ha : ancestorAt parent height k n = some a) (hm : m ≤ n) :
    ancestorAt parent height k m = ancestorAt parent height a m := by
  have hmem := mem_of_ancestorAt ha
  have han := height_of_ancestorAt h ha
  clear ha
  induction k using branch_induction h with
  | step k ih =>
    rcases (mem_branch_iff h).mp hmem with rfl | ⟨p, hp, hap⟩
    · rfl
    · have hle := height_le_of_mem h hap
      rw [ancestorAt_parent h hp (by omega)]
      exact ih p hp hap

variable {b : K}

theorem mem_branch_of_le (ha : a ∈ branch parent height k) (hb : b ∈ branch parent height k)
    (hle : height b ≤ height a) : b ∈ branch parent height a := by
  have htrans := ancestorAt_trans h (ancestorAt_height h ha) hle
  rw [ancestorAt_height h hb] at htrans
  exact mem_of_ancestorAt htrans.symm

theorem eq_of_mem_of_height (ha : a ∈ branch parent height k) (hb : b ∈ branch parent height k)
    (heq : height a = height b) : a = b := by
  have hat := ancestorAt_height h ha
  rw [heq, ancestorAt_height h hb] at hat
  exact (Option.some.inj hat).symm

variable (hr : Rooted parent height)
include hr

theorem exists_ancestorAt (hn : n ≤ height k) : ∃ a, ancestorAt parent height k n = some a := by
  induction k using branch_induction h with
  | step k ih =>
    rcases Nat.lt_or_ge n (height k) with hlt | hge
    · cases hp : parent k with
      | none =>
        have hzero := hr k hp
        omega
      | some p =>
        have hk := h k p hp
        rw [ancestorAt_parent h hp (by omega)]
        exact ih p hp (by omega)
    · have heq : n = height k := by omega
      exact ⟨k, heq ▸ ancestorAt_self k⟩

theorem length_branch (k : K) : (branch parent height k).length = height k + 1 := by
  induction k using branch_induction h with
  | step k ih =>
    cases hp : parent k with
    | none => rw [branch_of_root hp, List.length_singleton, hr k hp]
    | some p => rw [branch_of_parent h hp, List.length_cons, ih p hp, h k p hp]

end Lib.Branches
