import Alqo.IndexRuns
import Alqo.Lib.Ancestors

/-!
# Ancestors by skip pointers (main.cpp)

`GetAncestor` takes whichever pointer brings it closer without passing the height it looks for.
`BuildSkip` finds the entry for `pskip` in the same way from the parent.
-/

namespace Alqo
open Lib.Branches Function List Option

structure IndexLinks (K : Type) where
  pprev : Option K := none
  pskip : Option K := none
  nHeight : Nat := 0

/- The entries of an index; a null pointer is `none`. -/
abbrev LinkMap (K : Type) := K → Option (IndexLinks K)

def invertLowestOne (n : Nat) : Nat := n &&& (n - 1)

def getSkipHeight (height : Nat) : Nat :=
  if height < 2 then 0
  else if height &&& 1 ≠ 0 then invertLowestOne (invertLowestOne (height - 1)) + 1
  else invertLowestOne height

def followsSkip (height heightWalk : Nat) : Bool :=
  let heightSkip := getSkipHeight heightWalk
  let heightSkipPrev := getSkipHeight (heightWalk - 1)
  heightSkip == height || (decide (heightSkip > height) &&
    !(decide ((heightSkipPrev : Int) < heightSkip - 2) && decide (heightSkipPrev ≥ height)))

namespace LinkMap

variable {K : Type}

def pprev (t : LinkMap K) (k : K) : Option K := (t k).bind IndexLinks.pprev
def pskip (t : LinkMap K) (k : K) : Option K := (t k).bind IndexLinks.pskip
def nHeight (t : LinkMap K) (k : K) : Nat := ((t k).map IndexLinks.nHeight).getD 0

/- The loop of `GetAncestor`; `none` if a null pointer is followed or the turns do not suffice. -/
def walk (t : LinkMap K) (height : Nat) :
    (turns : Nat) → (pindexWalk : Option K) → (heightWalk : Nat) → Option (Option K)
  | 0, pindexWalk, heightWalk => if heightWalk > height then none else some pindexWalk
  | turns + 1, pindexWalk, heightWalk =>
    if heightWalk > height then
      match pindexWalk with
      | none => none
      | some k =>
        if followsSkip height heightWalk then walk t height turns (t.pskip k) (getSkipHeight heightWalk)
        else walk t height turns (t.pprev k) (heightWalk - 1)
    else some pindexWalk

/- With as many turns of the loop as are told -/
def getAncestorIn (turns : Nat) (t : LinkMap K) (k : K) (height : Int) : Option (Option K) :=
  if height > t.nHeight k ∨ height < 0 then some none
  else t.walk height.toNat turns (some k) (t.nHeight k)

def getAncestor (t : LinkMap K) (k : K) (height : Int) : Option (Option K) :=
  t.getAncestorIn (t.nHeight k) k height

/- What following `pprev` a number of times gives. -/
def follow (t : LinkMap K) : Nat → K → Option K
  | 0, k => some k
  | n + 1, k => (t.pprev k).bind (t.follow n)

variable [DecidableEq K]

def buildSkip (t : LinkMap K) (k : K) : Option (LinkMap K) :=
  match t k with
  | none => none
  | some index =>
    match index.pprev with
    | none => some t
    | some p => do
      let pskip ← t.getAncestor p (getSkipHeight index.nHeight)
      return update t k (some { index with pskip := pskip })

/- The links of `AddToBlockIndex`; the parent is looked up after the new
entry has come in. -/
def add (t : LinkMap K) (hash hashPrevBlock : K) : Option (LinkMap K) :=
  if (t hash).isSome then some t
  else
    let t : LinkMap K := update t hash (some {})
    match t hashPrevBlock with
    | none => some t
    | some pprev =>
      buildSkip (update t hash
        (some { pprev := some hashPrevBlock, nHeight := pprev.nHeight + 1 })) hash

def addAll (t : LinkMap K) : List (K × K) → Option (LinkMap K)
  | [] => some t
  | (hash, hashPrevBlock) :: rest => do
    let t ← t.add hash hashPrevBlock
    addAll t rest

/- The loop of `LoadBlockIndexDB` over the entries. -/
def load (t : LinkMap K) : (vSortedByHeight : List K) → Option (LinkMap K)
  | [] => some t
  | k :: rest => do
    let t ← t.buildSkip k
    load t rest

end LinkMap

theorem invertLowestOne_le (n : Nat) : invertLowestOne n ≤ n - 1 := Nat.and_le_right

variable {height : Nat}

theorem getSkipHeight_lt (h : 0 < height) : getSkipHeight height < height := by
  unfold getSkipHeight
  split_ifs with hsmall hodd
  · exact h
  · have hfirst := invertLowestOne_le (height - 1)
    have hsecond := invertLowestOne_le (invertLowestOne (height - 1))
    omega
  · have heven := invertLowestOne_le height
    omega

theorem le_getSkipHeight_of_follows {heightWalk : Nat} (h : followsSkip height heightWalk = true) :
    height ≤ getSkipHeight heightWalk := by
  simp only [followsSkip, Bool.or_eq_true, Bool.and_eq_true, beq_iff_eq, decide_eq_true_eq] at h
  omega

namespace LinkMap

variable {K : Type} {t : LinkMap K} {k p : K}

structure Linked (t : LinkMap K) : Prop where
  known : ∀ k p, t.pprev k = some p → t p ≠ none
  graded : Graded t.pprev t.nHeight
  rooted : Rooted t.pprev t.nHeight

def branch (t : LinkMap K) (k : K) : List K := Lib.Branches.branch t.pprev t.nHeight k
def ancestorAt (t : LinkMap K) (k : K) (n : Nat) : Option K :=
  Lib.Branches.ancestorAt t.pprev t.nHeight k n

variable {a : K}

theorem Linked.known_of_mem (h : t.Linked) (hk : t k ≠ none) (ha : a ∈ t.branch k) :
    t a ≠ none := by
  induction k using branch_induction h.graded with
  | step k ih =>
    rcases (mem_branch_iff h.graded).mp ha with rfl | ⟨p, hp, hap⟩
    · exact hk
    · exact ih p hp (h.known k p hp) hap

theorem Linked.follow_eq (h : t.Linked) {n : Nat} (hn : n ≤ t.nHeight k) :
    t.follow n k = t.ancestorAt k (t.nHeight k - n) := by
  induction n generalizing k with
  | zero => exact (ancestorAt_self k).symm
  | succ n ih =>
    cases hp : t.pprev k with
    | none =>
      have hzero := h.rooted k hp
      omega
    | some p =>
      have hheight := h.graded k p hp
      have hsub : t.nHeight k - (n + 1) = t.nHeight p - n := by omega
      rw [follow, hp, bind_some, ih (by omega), hsub]
      exact (ancestorAt_parent h.graded hp (by omega)).symm

def SkipRight (t : LinkMap K) (k : K) : Prop :=
  ∀ p, t.pprev k = some p → t.pskip k = t.ancestorAt p (getSkipHeight (t.nHeight k))

variable {height turns : Nat}

theorem walk_eq (h : t.Linked) (hskip : ∀ a ∈ t.branch k, t.SkipRight a)
    (hle : height ≤ t.nHeight k) (hturns : t.nHeight k ≤ height + turns) :
    t.walk height turns (some k) (t.nHeight k) = some (t.ancestorAt k height) := by
  induction turns generalizing k with
  | zero =>
    have heq : height = t.nHeight k := by omega
    rw [walk, if_neg (by omega), heq, ancestorAt, ancestorAt_self]
  | succ turns ih =>
    rcases Nat.lt_or_ge height (t.nHeight k) with hlt | hge
    · rw [walk, if_pos hlt]
      cases hp : t.pprev k with
      | none =>
        have hzero := h.rooted k hp
        omega
      | some p =>
        have hheight := h.graded k p hp
        have hparent := ancestorAt_parent h.graded (n := height) hp (by omega)
        have hskips : ∀ a ∈ t.branch p, t.SkipRight a := fun a ha =>
          hskip a ((mem_branch_iff h.graded).mpr (.inr ⟨p, hp, ha⟩))
        split_ifs with hfollows
        · -- the skip pointer does not pass the height, and its target is lower than the entry
          have hreach := le_getSkipHeight_of_follows hfollows
          have hlower : getSkipHeight (t.nHeight k) < t.nHeight k := getSkipHeight_lt (by omega)
          obtain ⟨a, ha⟩ := exists_ancestorAt h.graded h.rooted
            (show getSkipHeight (t.nHeight k) ≤ t.nHeight p by omega)
          have hat := height_of_ancestorAt h.graded ha
          have hskipk : t.pskip k = some a :=
            (hskip k (self_mem_branch k) p hp).trans ha
          rw [hskipk, ← hat]
          have hbranch : ∀ b ∈ t.branch a, t.SkipRight b := fun b hb =>
            hskips b (mem_branch_trans h.graded hb (mem_of_ancestorAt ha))
          rw [ih hbranch (by omega) (by omega)]
          exact congrArg some ((ancestorAt_trans h.graded ha hreach).symm.trans hparent.symm)
        · have hwalk : t.nHeight k - 1 = t.nHeight p := by omega
          rw [hwalk, ih hskips (by omega) (by omega)]
          exact congrArg some hparent.symm
    · have heq : height = t.nHeight k := by omega
      rw [walk, if_neg (by omega), heq, ancestorAt, ancestorAt_self]

theorem getAncestorIn_eq (h : t.Linked) (hskip : ∀ a ∈ t.branch k, t.SkipRight a)
    (hle : height ≤ t.nHeight k) (hturns : t.nHeight k ≤ height + turns) :
    getAncestorIn turns t k height = some (t.ancestorAt k height) := by
  rw [getAncestorIn, if_neg (by omega), Int.toNat_natCast]
  exact walk_eq h hskip hle hturns

variable {t' : LinkMap K}

theorem ancestorAt_congr (hpprev : ∀ a ∈ t.branch k, t'.pprev a = t.pprev a)
    (hheight : t'.nHeight k = t.nHeight k) (n : Nat) : t'.ancestorAt k n = t.ancestorAt k n := by
  have hbranch : t'.branch k = t.branch k := branch_congr hpprev hheight
  rw [branch, branch] at hbranch
  rw [ancestorAt, ancestorAt, Lib.Branches.ancestorAt, Lib.Branches.ancestorAt, hheight, hbranch]

section
variable {t' : LinkMap K}

structure Rebuilt (t t' : LinkMap K) (k : K) : Prop where
  known : ∀ a, t' a = none ↔ t a = none
  pprev : t'.pprev = t.pprev
  nHeight : t'.nHeight = t.nHeight
  others : ∀ a, a ≠ k → t' a = t a

theorem Rebuilt.linked (h : Rebuilt t t' k) (ht : t.Linked) : t'.Linked where
  known a p hp := by
    rw [h.pprev] at hp
    rw [Ne, h.known]
    exact ht.known a p hp
  graded := by
    rw [h.pprev, h.nHeight]
    exact ht.graded
  rooted := by
    rw [h.pprev, h.nHeight]
    exact ht.rooted

theorem Rebuilt.ancestorAt (h : Rebuilt t t' k) : t'.ancestorAt = t.ancestorAt := by
  funext a n
  rw [LinkMap.ancestorAt, LinkMap.ancestorAt, h.pprev, h.nHeight]

theorem Rebuilt.skipRight (h : Rebuilt t t' k) {a : K} (hne : a ≠ k) (ha : t.SkipRight a) :
    t'.SkipRight a := by
  intro p hp
  have hpskip : t'.pskip a = t.pskip a := by
    rw [pskip, pskip, h.others a hne]
  rw [h.pprev] at hp
  rw [hpskip, ha p hp, h.ancestorAt, h.nHeight]

end

variable [DecidableEq K]

variable {index : IndexLinks K}

theorem rebuilt_update (hk : t k = some index) (pskip : Option K) :
    Rebuilt t (update t k (some { index with pskip := pskip })) k := by
  have hother : ∀ a, a ≠ k →
      (update t k (some { index with pskip := pskip }) : LinkMap K) a = t a := fun a ha =>
    update_of_ne ha _ _
  refine ⟨fun a => ?_, funext fun a => ?_, funext fun a => ?_, fun a ha => ?_⟩
  · by_cases ha : a = k
    · rw [ha, update_self, hk]
      exact iff_of_false (some_ne_none _) (some_ne_none _)
    · rw [hother a ha]
  · by_cases ha : a = k
    · rw [ha, LinkMap.pprev, LinkMap.pprev, update_self, hk]
      rfl
    · rw [LinkMap.pprev, LinkMap.pprev, hother a ha]
  · by_cases ha : a = k
    · rw [ha, LinkMap.nHeight, LinkMap.nHeight, update_self, hk]
      rfl
    · rw [LinkMap.nHeight, LinkMap.nHeight, hother a ha]
  · exact hother a ha

theorem buildSkip_spec (h : t.Linked) (hk : t k ≠ none)
    (hskip : ∀ p, t.pprev k = some p → ∀ a ∈ t.branch p, t.SkipRight a) :
    ∃ t', t.buildSkip k = some t' ∧ Rebuilt t t' k ∧ t'.SkipRight k := by
  obtain ⟨index, hindex⟩ := ne_none_iff_exists'.mp hk
  have hpprev : t.pprev k = index.pprev := by
    rw [pprev, hindex]
    rfl
  have hheight : t.nHeight k = index.nHeight := by
    rw [nHeight, hindex]
    rfl
  rw [buildSkip, hindex]
  dsimp only
  cases hp : index.pprev with
  | none =>
    refine ⟨t, rfl, ⟨fun a => Iff.rfl, rfl, rfl, fun a _ => rfl⟩, fun p hp' => ?_⟩
    rw [hpprev, hp] at hp'
    cases hp'
  | some p =>
    have hup : t.pprev k = some p := hpprev.trans hp
    have hgraded := h.graded k p hup
    have hlower : getSkipHeight (t.nHeight k) < t.nHeight k := getSkipHeight_lt (by omega)
    have hfound : t.getAncestor p (getSkipHeight index.nHeight) =
        some (t.ancestorAt p (getSkipHeight index.nHeight)) := by
      rw [← hheight]
      exact getAncestorIn_eq h (hskip p hup) (by omega) (by omega)
    dsimp only
    rw [hfound]
    have hrebuilt := rebuilt_update hindex (t.ancestorAt p (getSkipHeight index.nHeight))
    rw [hp] at hrebuilt
    refine ⟨_, rfl, hrebuilt, fun q hq => ?_⟩
    rw [hrebuilt.pprev, hup] at hq
    cases hq
    rw [hrebuilt.ancestorAt, hrebuilt.nHeight, hheight, pskip, update_self]
    rfl

structure Skips (t : LinkMap K) : Prop where
  linked : t.Linked
  right : ∀ k, t.SkipRight k

structure Extended (t t' : LinkMap K) (k : K) : Prop where
  new : t k = none
  here : t' k ≠ none
  others : ∀ a, a ≠ k → t' a = t a
  top : ∀ p, t'.pprev k = some p → t p ≠ none ∧ t'.nHeight k = t.nHeight p + 1
  bottom : t'.pprev k = none → t'.nHeight k = 0

theorem extended_update (hnew : t k = none)
    (htop : ∀ p, index.pprev = some p → t p ≠ none ∧ index.nHeight = t.nHeight p + 1)
    (hbottom : index.pprev = none → index.nHeight = 0) :
    Extended t (update t k (some index)) k := by
  have hpprev : LinkMap.pprev (update t k (some index)) k = index.pprev := by
    rw [LinkMap.pprev, update_self]
    rfl
  have hheight : LinkMap.nHeight (update t k (some index)) k = index.nHeight := by
    rw [LinkMap.nHeight, update_self]
    rfl
  refine ⟨hnew, ?_, fun a ha => update_of_ne ha _ _, ?_, ?_⟩
  · rw [update_self]
    exact some_ne_none _
  · rw [hpprev, hheight]
    exact htop
  · rw [hpprev, hheight]
    exact hbottom

section
omit [DecidableEq K]
variable {t' : LinkMap K}

variable {a : K}

section
variable (h : Extended t t' k)
include h

theorem Extended.pprev (ha : a ≠ k) : t'.pprev a = t.pprev a := by
  rw [LinkMap.pprev, LinkMap.pprev, h.others a ha]

theorem Extended.nHeight (ha : a ≠ k) : t'.nHeight a = t.nHeight a := by
  rw [LinkMap.nHeight, LinkMap.nHeight, h.others a ha]

theorem Extended.ne (ha : t a ≠ none) : a ≠ k := by
  intro hak
  rw [hak] at ha
  exact ha h.new

theorem Extended.linked (ht : t.Linked) : t'.Linked where
  known a p hp := by
    have hold : t p ≠ none := by
      by_cases ha : a = k
      · rw [ha] at hp
        exact (h.top p hp).1
      · rw [h.pprev ha] at hp
        exact ht.known a p hp
    rw [h.others p (h.ne hold)]
    exact hold
  graded a p hp := by
    by_cases ha : a = k
    · rw [ha] at hp ⊢
      obtain ⟨hknown, hheight⟩ := h.top p hp
      rw [hheight, h.nHeight (h.ne hknown)]
    · rw [h.pprev ha] at hp
      rw [h.nHeight ha, h.nHeight (h.ne (ht.known a p hp))]
      exact ht.graded a p hp
  rooted a hp := by
    by_cases ha : a = k
    · rw [ha] at hp ⊢
      exact h.bottom hp
    · rw [h.pprev ha] at hp
      rw [h.nHeight ha]
      exact ht.rooted a hp

theorem Extended.ancestorAt (ht : t.Linked) (ha : t a ≠ none) (n : Nat) :
    t'.ancestorAt a n = t.ancestorAt a n := by
  apply ancestorAt_congr
  · intro b hb
    exact h.pprev (h.ne (ht.known_of_mem ha hb))
  · exact h.nHeight (h.ne ha)

theorem Extended.skipRight (ht : t.Skips) (ha : a ≠ k) : t'.SkipRight a := by
  intro p hp
  rw [h.pprev ha] at hp
  rw [h.nHeight ha, h.ancestorAt ht.linked (ht.linked.known a p hp), ← ht.right a p hp, pskip, pskip,
    h.others a ha]

end

end

theorem Extended.buildSkip (h : Extended t t' k) (ht : t.Skips) :
    ∃ u, t'.buildSkip k = some u ∧ u.Skips ∧ (∀ a, a ≠ k → u a = t a) ∧ u.pprev k = t'.pprev k := by
  have hlinked := h.linked ht.linked
  have hbelow : ∀ p, t'.pprev k = some p → ∀ a ∈ t'.branch p, t'.SkipRight a := by
    intro p hp a ha
    have hheight := hlinked.graded k p hp
    have hle := height_le_of_mem hlinked.graded ha
    apply h.skipRight ht
    intro hak
    rw [hak] at hle
    omega
  obtain ⟨u, hbuild, hrebuilt, hright⟩ := buildSkip_spec hlinked h.here hbelow
  refine ⟨u, hbuild, ⟨hrebuilt.linked hlinked, fun a => ?_⟩, fun a ha => ?_, ?_⟩
  · by_cases ha : a = k
    · rw [ha]
      exact hright
    · exact hrebuilt.skipRight ha (h.skipRight ht ha)
  · rw [hrebuilt.others a ha, h.others a ha]
  · rw [hrebuilt.pprev]

inductive Added (t u : LinkMap K) (hash hashPrevBlock : K) : Prop
  | known (h : t hash ≠ none) (same : u = t)
  | new (h : t hash = none) (others : ∀ a, a ≠ hash → u a = t a)
      (parent : t hashPrevBlock ≠ none → u.pprev hash = some hashPrevBlock)

variable {hash hashPrevBlock : K}

theorem add_spec (ht : t.Skips) (hne : hash ≠ hashPrevBlock) :
    ∃ u, t.add hash hashPrevBlock = some u ∧ u.Skips ∧ Added t u hash hashPrevBlock := by
  rw [add]
  cases hnew : t hash with
  | some index => exact ⟨t, rfl, ht, .known (by rw [hnew]; exact some_ne_none _) rfl⟩
  | none =>
    have hprev : (update t hash (some {}) : LinkMap K) hashPrevBlock = t hashPrevBlock :=
      update_of_ne hne.symm _ _
    rw [if_neg (by simp)]
    dsimp only
    rw [hprev]
    cases hp : t hashPrevBlock with
    | none =>
      -- an entry without a parent has no skip pointer
      have hext : Extended t (update t hash (some {})) hash :=
        extended_update hnew (fun p hp' => by cases hp') fun _ => rfl
      refine ⟨_, rfl, ⟨hext.linked ht.linked, fun a => ?_⟩, .new hnew hext.others fun h => absurd hp h⟩
      by_cases ha : a = hash
      · intro p hp'
        rw [ha, LinkMap.pprev, update_self] at hp'
        cases hp'
      · exact hext.skipRight ht ha
    | some parent =>
      dsimp only
      rw [update_idem]
      have hheight : t.nHeight hashPrevBlock = parent.nHeight := by
        rw [LinkMap.nHeight, hp]
        rfl
      have hext : Extended t (update t hash
          (some { pprev := some hashPrevBlock, nHeight := parent.nHeight + 1 })) hash := by
        refine extended_update hnew (fun p hp' => ?_) fun hp' => by cases hp'
        cases hp'
        exact ⟨by rw [hp]; exact some_ne_none _, by rw [hheight]⟩
      obtain ⟨u, hbuild, hu, hothers, hpprev⟩ := hext.buildSkip ht
      refine ⟨u, hbuild, hu, .new hnew hothers fun _ => ?_⟩
      rw [hpprev, LinkMap.pprev, update_self]
      rfl

omit [DecidableEq K] in
theorem Added.keeps {u : LinkMap K} (h : Added t u hash hashPrevBlock) (ha : t a ≠ none) :
    u a = t a := by
  cases h with
  | known _ same => rw [same]
  | new hnew others _ =>
    apply others
    intro heq
    rw [heq] at ha
    exact ha hnew

theorem addAll_spec (ht : t.Skips) (adds : List (K × K)) (hne : ∀ x ∈ adds, x.1 ≠ x.2) :
    ∃ u, t.addAll adds = some u ∧ u.Skips := by
  induction adds generalizing t with
  | nil => exact ⟨t, rfl, ht⟩
  | cons x rest ih =>
    obtain ⟨hx, hrest⟩ := forall_mem_cons.mp hne
    obtain ⟨mid, hadd, hmid, -⟩ := add_spec ht hx
    obtain ⟨u, hall, hu⟩ := ih hmid hrest
    refine ⟨u, ?_, hu⟩
    rw [addAll, hadd]
    exact hall

/- From the lowest entries up, those that are still to come having no pointer yet. -/
theorem load_spec (ht : t.Linked) (seen rest : List K) (hall : ∀ k, t k ≠ none → k ∈ seen ++ rest)
    (hknown : ∀ k ∈ rest, t k ≠ none) (hsorted : rest.Pairwise fun a b => t.nHeight a ≤ t.nHeight b)
    (hseen : ∀ k ∈ seen, t.SkipRight k) :
    ∃ u, t.load rest = some u ∧ u.Skips ∧ u.pprev = t.pprev ∧ u.nHeight = t.nHeight ∧
      ∀ a, u a = none ↔ t a = none := by
  induction rest generalizing t seen with
  | nil =>
    refine ⟨t, rfl, ⟨ht, fun k p hp => ?_⟩, rfl, rfl, fun a => Iff.rfl⟩
    have hk : t k ≠ none := by
      intro hnone
      rw [LinkMap.pprev, hnone] at hp
      cases hp
    have hmem := hall k hk
    rw [append_nil] at hmem
    exact hseen k hmem p hp
  | cons k rest ih =>
    obtain ⟨hfirst, hlater⟩ := pairwise_cons.mp hsorted
    have hbelow : ∀ p, t.pprev k = some p → ∀ a ∈ t.branch p, t.SkipRight a := by
      -- the ancestors of an entry are lower, so that their turn was before
      intro p hp a ha
      have hheight := ht.graded k p hp
      have hle := height_le_of_mem ht.graded ha
      rcases mem_append.mp (hall a (ht.known_of_mem (ht.known k p hp) ha)) with hmem | hmem
      · exact hseen a hmem
      · rcases mem_cons.mp hmem with rfl | hmem
        · omega
        · have hge := hfirst a hmem
          omega
    obtain ⟨mid, hbuild, hrebuilt, hright⟩ := buildSkip_spec ht (hknown k mem_cons_self) hbelow
    have hseen' : ∀ a ∈ seen ++ [k], mid.SkipRight a := by
      intro a ha
      by_cases hak : a = k
      · rw [hak]
        exact hright
      · rcases mem_append.mp ha with hmem | hmem
        · exact hrebuilt.skipRight hak (hseen a hmem)
        · exact absurd (mem_singleton.mp hmem) hak
    obtain ⟨u, hload, hu, hpprev, hheight, hsame⟩ := ih (hrebuilt.linked ht) (seen ++ [k])
      (fun a ha => by
        rw [append_assoc]
        exact hall a fun hnone => ha ((hrebuilt.known a).mpr hnone))
      (fun a ha hnone => hknown a (mem_cons_of_mem _ ha) ((hrebuilt.known a).mp hnone))
      (by rw [hrebuilt.nHeight]; exact hlater) hseen'
    refine ⟨u, ?_, hu, hpprev.trans hrebuilt.pprev, hheight.trans hrebuilt.nHeight, fun a => ?_⟩
    · rw [load, hbuild]
      exact hload
    · rw [hsame a, hrebuilt.known a]

/- An index read from disk and grown by any number of blocks: every call of `BuildSkip` returns,
and `GetAncestor` finds the block that following `pprev` leads to. -/
theorem getAncestor_eq_follow (stored : LinkMap K) (hstored : stored.Linked) (vSortedByHeight : List K)
    (hentries : ∀ k, k ∈ vSortedByHeight ↔ stored k ≠ none)
    (hsorted : vSortedByHeight.Pairwise fun a b => stored.nHeight a ≤ stored.nHeight b)
    (adds : List (K × K)) (hadds : ∀ x ∈ adds, x.1 ≠ x.2) :
    ∃ loaded t, stored.load vSortedByHeight = some loaded ∧ loaded.addAll adds = some t ∧
      ∀ (k : K) (height turns : Nat), height ≤ t.nHeight k → t.nHeight k - height ≤ turns →
        ∃ a, getAncestorIn turns t k height = some (some a) ∧ t.nHeight a = height ∧
          t.follow (t.nHeight k - height) k = some a := by
  obtain ⟨loaded, hload, hskips, -⟩ := load_spec hstored [] vSortedByHeight
    (fun k hk => (hentries k).mpr hk) (fun k hk => (hentries k).mp hk) hsorted
    fun k hk => absurd hk not_mem_nil
  obtain ⟨t, hadd, ht⟩ := addAll_spec hskips adds hadds
  refine ⟨loaded, t, hload, hadd, fun k height turns hle hturns => ?_⟩
  obtain ⟨a, ha⟩ := exists_ancestorAt ht.linked.graded ht.linked.rooted hle
  refine ⟨a, ?_, height_of_ancestorAt ht.linked.graded ha, ?_⟩
  · rw [getAncestorIn_eq ht.linked (fun b _ => ht.right b) hle (by omega), ancestorAt, ha]
  · have hsub : t.nHeight k - (t.nHeight k - height) = height := by omega
    rw [ht.linked.follow_eq (by omega), hsub]
    exact ha

def pairLinks : LinkMap Nat := fun k =>
  if k = 0 then some {} else if k = 1 then some { pprev := some 0, nHeight := 1 } else none

theorem pairLinks_linked : pairLinks.Linked := by
  have hprev : ∀ k p, pairLinks.pprev k = some p → k = 1 ∧ p = 0 := by
    intro k p hp
    by_cases h0 : k = 0
    · rw [h0] at hp
      cases hp
    · by_cases h1 : k = 1
      · rw [h1] at hp
        cases hp
        exact ⟨h1, rfl⟩
      · have hnone : pairLinks k = none := by rw [pairLinks, if_neg h0, if_neg h1]
        rw [pprev, hnone] at hp
        cases hp
  refine ⟨fun k p hp => ?_, fun k p hp => ?_, fun k hp => ?_⟩
  · rw [(hprev k p hp).2]
    exact some_ne_none _
  · rw [(hprev k p hp).1, (hprev k p hp).2]
    rfl
  · by_cases h1 : k = 1
    · rw [h1] at hp
      cases hp
    · by_cases h0 : k = 0
      · rw [h0]
        rfl
      · rw [nHeight, pairLinks, if_neg h0, if_neg h1]
        rfl

theorem getAncestor_eq_follow_pair : ∃ loaded t, pairLinks.load [0, 1] = some loaded ∧
      loaded.addAll [(2, 1), (3, 2), (4, 3), (5, 4), (6, 5)] = some t ∧
      ∀ (k : Nat) (height turns : Nat), height ≤ t.nHeight k → t.nHeight k - height ≤ turns →
        ∃ a, getAncestorIn turns t k height = some (some a) ∧ t.nHeight a = height ∧
          t.follow (t.nHeight k - height) k = some a := by
  refine getAncestor_eq_follow pairLinks pairLinks_linked [0, 1] (fun k => ?_) (by decide) _ (by decide)
  by_cases h0 : k = 0
  · exact iff_of_true (by simp [h0]) (by simp [h0, pairLinks])
  · by_cases h1 : k = 1
    · exact iff_of_true (by simp [h1]) (by simp [h1, pairLinks])
    · exact iff_of_false (by simp [h0, h1]) (by simp [h0, h1, pairLinks])

end LinkMap

namespace ChainIndex

def links (s : ChainIndex) (pskip : uint256 → Option uint256) : LinkMap uint256 := fun hash =>
  (s.mapBlockIndex.lookup hash).map fun index =>
    { pprev := index.pprev, pskip := pskip hash, nHeight := index.nHeight }

variable {s : ChainIndex} {pskip : uint256 → Option uint256} {hash : uint256}

theorem links_pprev : (s.links pskip).pprev = s.pprev := by
  funext hash
  rw [LinkMap.pprev, links, ChainIndex.pprev]
  cases s.mapBlockIndex.lookup hash with
  | none => rfl
  | some index => rfl

theorem links_nHeight : (s.links pskip).nHeight = s.nHeight := by
  funext hash
  rw [LinkMap.nHeight, links, ChainIndex.nHeight]
  cases s.mapBlockIndex.lookup hash with
  | none => rfl
  | some index => rfl

theorem getAncestor_links (h : (s.links pskip).Skips) {height : Nat} (hle : height ≤ s.nHeight hash)
    :
    (s.links pskip).getAncestor hash height = some (s.getAncestor hash height) := by
  have hheight : (s.links pskip).nHeight hash = s.nHeight hash := congrFun links_nHeight hash
  rw [LinkMap.getAncestor, LinkMap.getAncestorIn_eq h.linked (fun a _ => h.right a) (by omega)
    (by omega), LinkMap.ancestorAt, links_pprev, links_nHeight, ChainIndex.getAncestor,
    Lib.Branches.ancestorAt, if_pos hle, if_neg (by omega)]
  rfl

theorem links_insert {u : ChainIndex} {index : CBlockIndex}
    (hu : u.mapBlockIndex = s.mapBlockIndex.insert hash index) (pskipNew : Option uint256) :
    u.links (update pskip hash pskipNew) = update (s.links pskip) hash
        (some { pprev := index.pprev, pskip := pskipNew, nHeight := index.nHeight }) := by
  funext a
  rw [links, hu]
  by_cases ha : a = hash
  · rw [ha, AList.lookup_insert, update_self, update_self]
    rfl
  · rw [AList.lookup_insert_ne ha, update_of_ne ha, update_of_ne ha]
    rfl

/- What `AddToBlockIndex` does to the index is an addition of its links. -/
theorem links_addToBlockIndex (env : ChainEnv) (h : (s.links pskip).Skips) (block : CBlock)
    (hne : block.getHash env.Hash ≠ block.hashPrevBlock) :
    ∃ pskip', (s.links pskip).add (block.getHash env.Hash) block.hashPrevBlock =
        some ((s.addToBlockIndex env block).links pskip') ∧
      ((s.addToBlockIndex env block).links pskip').Skips := by
  obtain ⟨u, hadd, hu, -⟩ := LinkMap.add_spec h hne
  suffices hlinks : ∃ pskip', u = (s.addToBlockIndex env block).links pskip' by
    obtain ⟨pskip', rfl⟩ := hlinks
    exact ⟨pskip', hadd, hu⟩
  rw [LinkMap.add] at hadd
  by_cases hmem : block.getHash env.Hash ∈ s.mapBlockIndex
  · have hsome : (s.links pskip (block.getHash env.Hash)).isSome = true := by
      rw [links, isSome_map]
      exact AList.lookup_isSome.mpr hmem
    rw [if_pos hsome] at hadd
    cases hadd
    refine ⟨pskip, ?_⟩
    rw [addToBlockIndex, if_pos hmem]
  · have hnone : s.links pskip (block.getHash env.Hash) = none := by
      rw [links, AList.lookup_eq_none.mpr hmem]
      rfl
    have hprev : (update (s.links pskip) (block.getHash env.Hash) (some {}) :
        LinkMap uint256) block.hashPrevBlock = s.links pskip block.hashPrevBlock :=
      update_of_ne hne.symm _ _
    rw [if_neg (by rw [hnone]; simp)] at hadd
    dsimp only at hadd
    rw [hprev, links] at hadd
    rw [addToBlockIndex, if_neg hmem]
    cases hparent : s.mapBlockIndex.lookup block.hashPrevBlock with
    | none =>
      rw [hparent] at hadd
      cases hadd
      obtain ⟨index, hmap, hpprev, hheight⟩ : ∃ index : CBlockIndex,
          Alqo.addToBlockIndex env.Hash env.mapProofOfStake s.mapBlockIndex block =
            s.mapBlockIndex.insert (block.getHash env.Hash) index ∧ index.pprev = none ∧
          index.nHeight = 0 := ⟨_, by rw [Alqo.addToBlockIndex, if_neg hmem, hparent], rfl, rfl⟩
      refine ⟨update pskip (block.getHash env.Hash) none, ?_⟩
      rw [links_insert hmap, hpprev, hheight]
    | some pprev =>
      rw [hparent] at hadd
      dsimp only [map_some] at hadd
      rw [update_idem, LinkMap.buildSkip, update_self] at hadd
      obtain ⟨x, -, hx⟩ := bind_eq_some_iff.mp hadd
      cases hx
      obtain ⟨index, hmap, hpprev, hheight⟩ : ∃ index : CBlockIndex,
          Alqo.addToBlockIndex env.Hash env.mapProofOfStake s.mapBlockIndex block =
            s.mapBlockIndex.insert (block.getHash env.Hash) index ∧
          index.pprev = some block.hashPrevBlock ∧ index.nHeight = pprev.nHeight + 1 :=
        ⟨_, by rw [Alqo.addToBlockIndex, if_neg hmem, hparent], rfl, rfl⟩
      refine ⟨update pskip (block.getHash env.Hash) x, ?_⟩
      rw [update_idem, links_insert hmap, hpprev, hheight]

/-- The skip pointers built while blocks are added, in any order, lead to what following `pprev`
finds. -/
theorem addToBlockIndex_skips (env : ChainEnv) (s : ChainIndex) (pskip : uint256 → Option uint256)
    (h : (s.links pskip).Skips) (blocks : List CBlock)
    (hne : ∀ block ∈ blocks, block.getHash env.Hash ≠ block.hashPrevBlock) :
    ∃ t pskip', t = blocks.foldl (addToBlockIndex env) s ∧
      (s.links pskip).addAll (blocks.map fun b => (b.getHash env.Hash, b.hashPrevBlock)) =
        some (t.links pskip') ∧
      ∀ hash (height : Nat), height ≤ t.nHeight hash →
        (t.links pskip').getAncestor hash height = some (t.getAncestor hash height) := by
  induction blocks generalizing s pskip with
  | nil => exact ⟨s, pskip, rfl, rfl, fun _ _ hle => getAncestor_links h hle⟩
  | cons block rest ih =>
    obtain ⟨hblock, hrest⟩ := forall_mem_cons.mp hne
    obtain ⟨mid, hadd, hmid⟩ := links_addToBlockIndex env h block hblock
    obtain ⟨t, pskip', ht, hall, hancestor⟩ := ih _ mid hmid hrest
    refine ⟨t, pskip', ht, ?_, hancestor⟩
    rw [map_cons, LinkMap.addAll, hadd]
    exact hall

theorem addToBlockIndex_skips_fork :
    ∃ t pskip, t = [nonceBlock 0 1 0 0, nonceBlock 1 2 0 0, nonceBlock 1 3 0 0].foldl
        (addToBlockIndex nonceEnv) (emptyIndex nonceEnv) ∧
      ∀ hash (height : Nat), height ≤ t.nHeight hash →
        (t.links pskip).getAncestor hash height = some (t.getAncestor hash height) := by
  have hempty : ((emptyIndex nonceEnv).links fun _ => none).Skips := by
    refine ⟨⟨fun k p h => ?_, fun k p h => ?_, fun k _ => rfl⟩, fun k p h => ?_⟩ <;> cases h
  obtain ⟨t, pskip, ht, -, h⟩ := addToBlockIndex_skips nonceEnv _ _ hempty
    [nonceBlock 0 1 0 0, nonceBlock 1 2 0 0, nonceBlock 1 3 0 0] (by decide +kernel)
  exact ⟨t, pskip, ht, h⟩

end ChainIndex

end Alqo
