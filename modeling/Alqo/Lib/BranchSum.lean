import Mathlib

/-!
# Sums along the branches of a forest

A labelling is cumulative for a weight when every label is the parent's label plus the node's own
weight. The weight determines it, and one pass in order of height computes it.
-/

namespace Lib.BranchSum
open Function List

structure Forest (K : Type*) where
  node : K → Prop
  parent : K → Option K
  height : K → Nat
  parent_node : ∀ k p, node k → parent k = some p → node p
  parent_lt : ∀ k p, node k → parent k = some p → height p < height k

variable {K A : Type*} [AddGroup A]

def below (F : Forest K) (f : K → A) (k : K) : A :=
  match F.parent k with
  | some p => f p
  | none => 0

def Cumulative (F : Forest K) (w f : K → A) : Prop := ∀ k, F.node k → f k = below F f k + w k

theorem below_congr (F : Forest K) (f g : K → A) (k : K)
    (h : ∀ p, F.parent k = some p → f p = g p) : below F f k = below F g k := by
  unfold below
  cases hp : F.parent k with
  | none => rfl
  | some p => exact h p hp

theorem cumulative_eq_iff (F : Forest K) (w v f g : K → A) (hf : Cumulative F w f)
    (hg : Cumulative F v g) :
    (∀ k, F.node k → f k = g k) ↔ ∀ k, F.node k → w k = v k := by
  constructor
  · intro h k hk
    have hbelow : below F f k = below F g k :=
      below_congr F f g k fun p hp => h p (F.parent_node k p hk hp)
    have hsum : below F f k + w k = below F f k + v k := by
      rw [← hf k hk, h k hk, hg k hk, hbelow]
    exact add_left_cancel hsum
  · intro h k hk
    -- from the roots up: a node is reached after its parent
    induction hn : F.height k using Nat.strong_induction_on generalizing k with
    | _ n ih =>
      have hbelow : below F f k = below F g k := by
        apply below_congr
        intro p hp
        exact ih (F.height p) (hn ▸ F.parent_lt k p hk hp) p (F.parent_node k p hk hp) rfl
      rw [hf k hk, hg k hk, hbelow, h k hk]

variable [DecidableEq K]

def accumulate (F : Forest K) (w : K → A) : List K → (K → A) → K → A
  | [], f => f
  | k :: ks, f => accumulate F w ks (update f k (below F f k + w k))

theorem accumulate_step (F : Forest K) (w : K → A) (done rest : List K) (f : K → A)
    (hnode : ∀ k, F.node k ↔ k ∈ done ++ rest) (hnd : (done ++ rest).Nodup)
    (hsorted : (done ++ rest).Pairwise fun a b => F.height a ≤ F.height b)
    (hdone : ∀ k ∈ done, f k = below F f k + w k) :
    Cumulative F w (accumulate F w rest f) := by
  induction rest generalizing done f with
  | nil =>
    intro k hk
    exact hdone k (by simpa using (hnode k).mp hk)
  | cons k rest ih =>
    have hsplit : done ++ k :: rest = (done ++ [k]) ++ rest := by simp
    have hkdone : k ∉ done := by
      intro hmem
      exact (disjoint_of_nodup_append hnd) hmem mem_cons_self
    -- parents of nodes up to k have been visited: later nodes are at least as high
    have hearlier : ∀ j p, j ∈ done ++ [k] → F.parent j = some p → p ∈ done := by
      intro j p hj hp
      have hjn : F.node j := by
        rw [hnode, hsplit]
        exact mem_append_left _ hj
      have hlt := F.parent_lt j p hjn hp
      have hpn := (hnode p).mp (F.parent_node j p hjn hp)
      rcases mem_append.mp hpn with hpd | hpr
      · exact hpd
      · have hle : F.height j ≤ F.height p := by
          rcases mem_append.mp hj with hjd | hjk
          · exact (pairwise_append.mp hsorted).2.2 j hjd p hpr
          · rw [mem_singleton] at hjk
            subst hjk
            rcases mem_cons.mp hpr with rfl | hpr
            · exact le_rfl
            · exact (pairwise_cons.mp (pairwise_append.mp hsorted).2.1).1 p hpr
        omega
    rw [accumulate]
    apply ih (done ++ [k]) _ (by rwa [← hsplit]) (by rwa [← hsplit]) (by rwa [← hsplit])
    intro j hj
    have hbelow : below F (update f k (below F f k + w k)) j = below F f j := by
      apply below_congr
      intro p hp
      have hpk : p ≠ k := fun h => hkdone (h ▸ hearlier j p hj hp)
      rw [update_of_ne hpk]
    rw [hbelow]
    rcases mem_append.mp hj with hjd | hjk
    · have hjk : j ≠ k := fun h => hkdone (h ▸ hjd)
      rw [update_of_ne hjk, hdone j hjd]
    · rw [mem_singleton] at hjk
      subst hjk
      rw [update_self]

theorem accumulate_cumulative (F : Forest K) (w : K → A) (l : List K) (f : K → A)
    (hnode : ∀ k, F.node k ↔ k ∈ l) (hnd : l.Nodup)
    (hsorted : l.Pairwise fun a b => F.height a ≤ F.height b) :
    Cumulative F w (accumulate F w l f) :=
  accumulate_step F w [] l f hnode hnd hsorted (by simp)

end Lib.BranchSum
