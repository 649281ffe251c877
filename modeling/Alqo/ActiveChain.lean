import Alqo.SkipIndex

/-!
# The active chain (chain.h, chain.cpp, main.cpp)

`SetTip` stops at the first entry in place: the vector below it was filled from the same tree.
-/

namespace Alqo
open Lib.Branches List

abbrev CChain (K : Type) := List (Option K)

namespace CChain

variable {K : Type}

section
variable (chain : CChain K)

def genesis : Option K := chain[0]?.join
def tip : Option K := chain.getLast?.join
def height : Int := chain.length - 1

/- `operator[]` -/
def get (nHeight : Int) : Option K :=
  if nHeight < 0 ∨ nHeight ≥ chain.length then none else chain[nHeight.toNat]?.join

end

variable [DecidableEq K]

section
variable (t : LinkMap K) (chain : CChain K)

def contains (pindex : K) : Bool :=
  chain.get (t.nHeight pindex) == some pindex

def resize (n : Nat) : CChain K := chain.take n ++ List.replicate (n - chain.length) none

/- The loop of `SetTip`. -/
def fill (t : LinkMap K) : (turns : Nat) → CChain K → (pindex : Option K) → Option (CChain K)
  | _, chain, none => some chain
  | 0, _, some _ => none
  | turns + 1, chain, some k =>
    if chain[t.nHeight k]? = some (some k) then some chain
    else fill t turns (chain.set (t.nHeight k) (some k)) (t.pprev k)

def setTip : (pindex : Option K) → Option (CChain K)
  | none => some []
  | some k => fill t (t.nHeight k + 1) (chain.resize (t.nHeight k + 1)) (some k)

/- The loop of `FindFork`. -/
def descend (t : LinkMap K) (chain : CChain K) : (turns : Nat) → (pindex : Option K) → Option (Option K)
  | _, none => some none
  | 0, some _ => none
  | turns + 1, some k => if chain.contains t k then some (some k) else descend t chain turns (t.pprev k)

def findFork (pindex : K) : Option (Option K) := do
  let start ← if (t.nHeight pindex : Int) > chain.height then t.getAncestor pindex chain.height
    else some (some pindex)
  chain.descend t (t.nHeight pindex + 1) start

/- The block at a lower height, from the vector if it can be. -/
def stepBack (pindex : K) (nHeight : Nat) : Option (Option K) :=
  if chain.contains t pindex then some (chain.get nHeight) else t.getAncestor pindex nHeight

/- The loop of `GetLocator`; a block is its hash. -/
def locate (t : LinkMap K) (chain : CChain K) :
    (turns nStep : Nat) → (vHave : List K) → (pindex : Option K) → Option (List K)
  | _, _, vHave, none => some vHave
  | 0, _, _, some _ => none
  | turns + 1, nStep, vHave, some k =>
    if t.nHeight k = 0 then some (vHave ++ [k])
    else do
      let pindex ← chain.stepBack t k (t.nHeight k - nStep)
      locate t chain turns (if (vHave ++ [k]).length > 10 then nStep * 2 else nStep) (vHave ++ [k]) pindex

def getLocator (pindex : Option K) : Option (List K) :=
  match pindex.or chain.tip with
  | none => some []
  | some k => chain.locate t (t.nHeight k + 1) 1 [] (some k)

def findForkInGlobalIndex (t : LinkMap K) (chain : CChain K) : (vHave : List K) → Option K
  | [] => chain.genesis
  | hash :: rest =>
    if (t hash).isSome && chain.contains t hash then some hash else findForkInGlobalIndex t chain rest

def ofTip (b : K) : CChain K := (t.branch b).reverse.map some

/- What `SetTip` leaves. -/
def Active : Prop := chain = [] ∨ ∃ b, t b ≠ none ∧ chain = ofTip t b

end

variable {t : LinkMap K} {chain : CChain K} {b k : K}

omit [DecidableEq K] in
theorem length_ofTip (h : t.Linked) : (ofTip t b).length = t.nHeight b + 1 := by
  rw [ofTip, length_map, length_reverse]
  exact length_branch h.graded h.rooted b

omit [DecidableEq K] in
theorem getElem?_ofTip (h : t.Linked) (i : Nat) : (ofTip t b)[i]? = (t.ancestorAt b i).map some := by
  have hlength : (t.branch b).length = t.nHeight b + 1 := length_branch h.graded h.rooted b
  rw [ofTip, getElem?_map, LinkMap.ancestorAt, Lib.Branches.ancestorAt]
  by_cases hi : i ≤ t.nHeight b
  · have hsub : (t.branch b).length - 1 - i = t.nHeight b - i := by omega
    rw [if_pos hi, getElem?_reverse (by omega), hsub]
    rfl
  · rw [if_neg hi, getElem?_eq_none (by rw [length_reverse]; omega)]

omit [DecidableEq K] in
theorem get_ofTip (h : t.Linked) (i : Nat) : (ofTip t b).get i = t.ancestorAt b i := by
  rw [get, length_ofTip h, Int.toNat_natCast, getElem?_ofTip h]
  by_cases hi : i ≤ t.nHeight b
  · rw [if_neg (by omega)]
    cases t.ancestorAt b i with
    | none => rfl
    | some a => rfl
  · rw [if_pos (by omega), LinkMap.ancestorAt, Lib.Branches.ancestorAt, if_neg hi]

theorem contains_ofTip (h : t.Linked) : (ofTip t b).contains t k = true ↔ k ∈ t.branch b := by
  rw [contains, beq_iff_eq, get_ofTip h]
  constructor
  · intro hk
    exact mem_of_ancestorAt hk
  · intro hk
    exact ancestorAt_height h.graded hk

variable {n : Nat}

variable {i : Nat}

omit [DecidableEq K] in
theorem getElem?_resize (hi : i < n) {a : K} (h : (chain.resize n)[i]? = some (some a)) :
    chain[i]? = some (some a) := by
  rw [resize] at h
  rcases Nat.lt_or_ge i (chain.take n).length with hlt | hge
  · rw [getElem?_append_left hlt, getElem?_take_of_lt hi] at h
    exact h
  · rw [getElem?_append_right hge, getElem?_replicate] at h
    split at h
    · cases h
    · cases h

omit [DecidableEq K] in
theorem resize_of_lt (hi : i < n) (h : i < chain.length) : (chain.resize n)[i]? = chain[i]? := by
  rw [resize, getElem?_append_left (by rw [length_take]; omega),
    getElem?_take_of_lt hi]

structure Filling (t : LinkMap K) (start : CChain K) (b : K) (n : Nat) (chain : CChain K) : Prop where
  above : ∀ i, n < i → chain[i]? = (ofTip t b)[i]?
  below : ∀ i, i ≤ n → chain[i]? = start[i]?
  length : chain.length = t.nHeight b + 1

variable {old : CChain K}

omit [DecidableEq K] in
theorem Filling.eq_ofTip (ht : t.Linked) (hold : Active t old)
    (h : Filling t (old.resize (t.nHeight b + 1)) b (t.nHeight k) chain) (hk : k ∈ t.branch b)
    (hplace : chain[t.nHeight k]? = some (some k)) : chain = ofTip t b := by
  have hle := height_le_of_mem ht.graded hk
  have hin : old[t.nHeight k]? = some (some k) := by
    rw [h.below _ le_rfl] at hplace
    exact getElem?_resize (by omega) hplace
  apply ext_getElem?
  intro i
  rcases Nat.lt_or_ge (t.nHeight k) i with hlt | hge
  · exact h.above i hlt
  · rcases hold with rfl | ⟨b', -, rfl⟩
    · cases hin
    · have hlength : t.nHeight k < (ofTip t b').length := (List.getElem?_eq_some_iff.mp hin).1
      rw [getElem?_ofTip ht, Option.map_eq_some_iff] at hin
      obtain ⟨a, ha, hak⟩ := hin
      cases hak
      rw [h.below i hge, resize_of_lt (by omega) (by omega), getElem?_ofTip ht, getElem?_ofTip ht]
      have hleft : t.ancestorAt b' i = t.ancestorAt k i := ancestorAt_trans ht.graded ha hge
      have hright : t.ancestorAt b i = t.ancestorAt k i :=
        ancestorAt_trans ht.graded (ancestorAt_height ht.graded hk) hge
      rw [hleft, hright]

variable {turns : Nat}

theorem fill_eq (ht : t.Linked) (hold : Active t old)
    (h : Filling t (old.resize (t.nHeight b + 1)) b (t.nHeight k) chain) (hk : k ∈ t.branch b)
    (hturns : t.nHeight k < turns) : fill t turns chain (some k) = some (ofTip t b) := by
  induction turns generalizing k chain with
  | zero => omega
  | succ turns ih =>
    rw [fill]
    by_cases hplace : chain[t.nHeight k]? = some (some k)
    · rw [if_pos hplace, h.eq_ofTip ht hold hk hplace]
    · have hle := height_le_of_mem ht.graded hk
      have hset : ∀ i, t.nHeight k ≤ i →
          (chain.set (t.nHeight k) (some k))[i]? = (ofTip t b)[i]? := by
        intro i hi
        by_cases heq : t.nHeight k = i
        · have hat : t.ancestorAt b i = some k := heq ▸ ancestorAt_height ht.graded hk
          rw [← heq, getElem?_set_self (by rw [h.length]; omega), heq, getElem?_ofTip ht, hat]
          rfl
        · rw [getElem?_set_ne heq]
          exact h.above i (by omega)
      rw [if_neg hplace]
      cases hp : t.pprev k with
      | none =>
        have hzero := ht.rooted k hp
        rw [fill]
        exact congrArg some (ext_getElem? fun i => hset i (by omega))
      | some p =>
        have hheight := ht.graded k p hp
        have hmem : p ∈ t.branch b := mem_branch_trans ht.graded
          ((mem_branch_iff ht.graded).mpr (.inr ⟨p, hp, self_mem_branch p⟩)) hk
        refine ih ⟨fun i hi => hset i (by omega), fun i hi => ?_, ?_⟩ hmem (by omega)
        · rw [getElem?_set_ne (by omega)]
          exact h.below i (by omega)
        · rw [length_set]
          exact h.length

theorem setTip_eq (ht : t.Linked) (hc : Active t chain) : setTip t chain (some b) = some (ofTip t b) := by
  refine fill_eq ht hc ⟨fun i hi => ?_, fun i _ => rfl, ?_⟩ (self_mem_branch b) (by omega)
  · have hresize : (chain.resize (t.nHeight b + 1)).length = t.nHeight b + 1 := by
      rw [resize, length_append, length_take, length_replicate]
      omega
    rw [getElem?_eq_none (by omega), getElem?_eq_none (by rw [length_ofTip ht]; omega)]
  · rw [resize, length_append, length_take, length_replicate]
    omega

def EndsIn (t : LinkMap K) (g : K) : Prop := ∀ k, t k ≠ none → t.pprev k = none → k = g

variable {g : K}

omit [DecidableEq K] in
theorem EndsIn.mem (hg : EndsIn t g) (ht : t.Linked) (hk : t k ≠ none) : g ∈ t.branch k := by
  induction k using branch_induction ht.graded with
  | step k ih =>
    cases hp : t.pprev k with
    | none =>
      rw [hg k hk hp]
      exact self_mem_branch g
    | some p => exact (mem_branch_iff ht.graded).mpr (.inr ⟨p, hp, ih p hp (ht.known k p hp)⟩)

structure IsFork (t : LinkMap K) (chain : CChain K) (b a : K) : Prop where
  active : chain.contains t a = true
  ancestor : a ∈ t.branch b
  highest : ∀ x ∈ t.branch b, chain.contains t x = true → t.nHeight x ≤ t.nHeight a

variable {tip : K}

theorem descend_spec (ht : t.Linked) (hg : EndsIn t g) (htip : t tip ≠ none) (hk : t k ≠ none)
    (hturns : t.nHeight k < turns) :
    ∃ a, (ofTip t tip).descend t turns (some k) = some (some a) ∧ IsFork t (ofTip t tip) k a := by
  induction turns generalizing k with
  | zero => omega
  | succ turns ih =>
    rw [descend]
    cases hin : (ofTip t tip).contains t k with
    | true => exact ⟨k, rfl, hin, self_mem_branch k, fun x hx _ => height_le_of_mem ht.graded hx⟩
    | false =>
      rw [if_neg (by simp)]
      cases hp : t.pprev k with
      | none =>
        rw [hg k hk hp, (contains_ofTip ht).mpr (hg.mem ht htip)] at hin
        cases hin
      | some p =>
        have hheight := ht.graded k p hp
        obtain ⟨a, ha, hfork⟩ := ih (ht.known k p hp) (by omega)
        refine ⟨a, ha, hfork.active, (mem_branch_iff ht.graded).mpr (.inr ⟨p, hp, hfork.ancestor⟩), ?_⟩
        intro x hx hactive
        rcases (mem_branch_iff ht.graded).mp hx with rfl | ⟨q, hq, hxq⟩
        · rw [hin] at hactive
          cases hactive
        · rw [hp] at hq
          cases hq
          exact hfork.highest x hxq hactive

theorem findFork_spec (ht : t.Skips) (hg : EndsIn t g) (htip : t tip ≠ none) (hb : t b ≠ none) :
    ∃ a, (ofTip t tip).findFork t b = some (some a) ∧ IsFork t (ofTip t tip) b a := by
  have hgraded := ht.linked.graded
  have hheight : (ofTip t tip).height = t.nHeight tip := by
    rw [height, length_ofTip ht.linked]
    omega
  rw [findFork, hheight]
  by_cases hlt : (t.nHeight b : Int) > t.nHeight tip
  · -- no block of the chain is higher than its tip
    obtain ⟨start, hstart⟩ := exists_ancestorAt hgraded ht.linked.rooted
      (show t.nHeight tip ≤ t.nHeight b by omega)
    have hmem := mem_of_ancestorAt hstart
    have hat := height_of_ancestorAt hgraded hstart
    have hfound : t.getAncestor b (t.nHeight tip) = some (some start) := by
      rw [LinkMap.getAncestor, LinkMap.getAncestorIn_eq ht.linked (fun a _ => ht.right a) (by omega)
        (by omega), LinkMap.ancestorAt, hstart]
    obtain ⟨a, ha, hfork⟩ := descend_spec ht.linked hg htip (ht.linked.known_of_mem hb hmem)
      (show t.nHeight start < t.nHeight b + 1 by omega)
    rw [if_pos hlt, hfound]
    refine ⟨a, ha, hfork.active, mem_branch_trans hgraded hfork.ancestor hmem, fun x hx hactive => ?_⟩
    have hle := height_le_of_mem hgraded ((contains_ofTip ht.linked).mp hactive)
    exact hfork.highest x (mem_branch_of_le hgraded hmem hx (by omega)) hactive
  · obtain ⟨a, ha, hfork⟩ := descend_spec ht.linked hg htip hb (Nat.lt_succ_self _)
    rw [if_neg hlt]
    exact ⟨a, ha, hfork⟩

theorem stepBack_eq (ht : t.Skips) (hc : Active t chain) (hn : n ≤ t.nHeight k) :
    chain.stepBack t k n = some (t.ancestorAt k n) := by
  rw [stepBack]
  split_ifs with hin
  · rcases hc with rfl | ⟨tip, -, rfl⟩
    · simp [contains, get] at hin
    · rw [get_ofTip ht.linked]
      have hk := (contains_ofTip ht.linked).mp hin
      exact congrArg some
        (ancestorAt_trans ht.linked.graded (ancestorAt_height ht.linked.graded hk) hn)
  · exact LinkMap.getAncestorIn_eq ht.linked (fun a _ => ht.right a) hn (by omega)

structure Descends (t : LinkMap K) (k : K) (l : List K) : Prop where
  head : l.head? = some k
  ancestors : ∀ x ∈ l, x ∈ t.branch k
  falling : l.Pairwise fun x y => t.nHeight y < t.nHeight x
  bottom : ∃ last, l.getLast? = some last ∧ t.nHeight last = 0

theorem locate_spec (ht : t.Skips) (hc : Active t chain) {nStep : Nat} (vHave : List K)
    (hstep : 0 < nStep) (hturns : t.nHeight k < turns) :
    ∃ l, chain.locate t turns nStep vHave (some k) = some (vHave ++ l) ∧ Descends t k l := by
  have hgraded := ht.linked.graded
  induction turns generalizing k nStep vHave with
  | zero => omega
  | succ turns ih =>
    rw [locate]
    by_cases hzero : t.nHeight k = 0
    · rw [if_pos hzero]
      refine ⟨[k], rfl, rfl, fun x hx => ?_, pairwise_singleton _ _, k, rfl, hzero⟩
      rw [mem_singleton.mp hx]
      exact self_mem_branch k
    · rw [if_neg hzero]
      obtain ⟨a, ha⟩ := exists_ancestorAt hgraded ht.linked.rooted
        (show t.nHeight k - nStep ≤ t.nHeight k by omega)
      have hat := height_of_ancestorAt hgraded ha
      have hmem := mem_of_ancestorAt ha
      obtain ⟨l, hl, hdesc⟩ := ih (vHave ++ [k])
        (show 0 < if (vHave ++ [k]).length > 10 then nStep * 2 else nStep by split_ifs <;> omega)
        (show t.nHeight a < turns by omega)
      rw [stepBack_eq ht hc (by omega), LinkMap.ancestorAt, ha]
      refine ⟨k :: l, ?_, rfl, ?_, ?_, ?_⟩
      · rw [append_assoc] at hl
        exact hl
      · intro x hx
        rcases mem_cons.mp hx with rfl | hx
        · exact self_mem_branch x
        · exact mem_branch_trans hgraded (hdesc.ancestors x hx) hmem
      · refine pairwise_cons.mpr ⟨fun x hx => ?_, hdesc.falling⟩
        have hle := height_le_of_mem hgraded (hdesc.ancestors x hx)
        omega
      · obtain ⟨last, hlast, hheight⟩ := hdesc.bottom
        refine ⟨last, ?_, hheight⟩
        rw [getLast?_cons, hlast]
        rfl

theorem getLocator_spec (ht : t.Skips) (hc : Active t chain) (hg : EndsIn t g) (hb : t b ≠ none) :
    ∃ vHave, chain.getLocator t (some b) = some vHave ∧ Descends t b vHave ∧
      vHave.getLast? = some g := by
  obtain ⟨l, hl, hdesc⟩ := locate_spec ht hc [] Nat.zero_lt_one (Nat.lt_succ_self (t.nHeight b))
  refine ⟨l, hl, hdesc, ?_⟩
  obtain ⟨last, hlast, hheight⟩ := hdesc.bottom
  have hmem := hdesc.ancestors last (mem_of_getLast? hlast)
  cases hp : t.pprev last with
  | none => rw [hlast, hg last (ht.linked.known_of_mem hb hmem) hp]
  | some p =>
    have hgraded := ht.linked.graded last p hp
    omega

theorem findForkInGlobalIndex_spec {l : List K} (hknown : ∀ x ∈ l, t x ≠ none)
    (hfalling : l.Pairwise fun x y => t.nHeight y < t.nHeight x)
    (hactive : ∃ x ∈ l, chain.contains t x = true) :
    ∃ a ∈ l, chain.findForkInGlobalIndex t l = some a ∧ chain.contains t a = true ∧
      ∀ x ∈ l, chain.contains t x = true → t.nHeight x ≤ t.nHeight a := by
  induction l with
  | nil =>
    obtain ⟨x, hx, -⟩ := hactive
    cases hx
  | cons y rest ih =>
    obtain ⟨hlower, hrest⟩ := pairwise_cons.mp hfalling
    obtain ⟨hy, hknown'⟩ := forall_mem_cons.mp hknown
    have hsome : (t y).isSome = true := Option.isSome_iff_ne_none.mpr hy
    rw [findForkInGlobalIndex, hsome, Bool.true_and]
    cases hin : chain.contains t y with
    | true =>
      refine ⟨y, mem_cons_self, rfl, hin, fun x hx _ => ?_⟩
      rcases mem_cons.mp hx with rfl | hx
      · exact le_rfl
      · exact (hlower x hx).le
    | false =>
      have hlater : ∀ x ∈ y :: rest, chain.contains t x = true → x ∈ rest := by
        intro x hx hxin
        rcases mem_cons.mp hx with rfl | hx
        · rw [hin] at hxin
          cases hxin
        · exact hx
      obtain ⟨x, hx, hxin⟩ := hactive
      obtain ⟨a, ha, hfound, hain, hhighest⟩ := ih hknown' hrest ⟨x, hlater x hx hxin, hxin⟩
      rw [if_neg (by simp)]
      exact ⟨a, mem_cons_of_mem _ ha, hfound, hain, fun z hz hzin =>
        hhighest z (hlater z hz hzin) hzin⟩

/- The four functions on a tree with one genesis block and chains of it. -/
theorem chain_functions_spec (t : LinkMap K) (ht : t.Skips) (g : K) (hg : EndsIn t g)
    (chain : CChain K) (hc : Active t chain) (b : K) (hb : t b ≠ none) :
    (setTip t chain (some b) = some (ofTip t b) ∧ (ofTip t b).length = t.nHeight b + 1 ∧
      ∀ n : Nat, (ofTip t b).get n = t.ancestorAt b n) ∧
    (chain ≠ [] → ∃ a, chain.findFork t b = some (some a) ∧ IsFork t chain b a) ∧
    ∃ vHave, chain.getLocator t (some b) = some vHave ∧ Descends t b vHave ∧
      vHave.getLast? = some g ∧
      ∀ other, Active t other → other ≠ [] →
        ∃ a, other.findForkInGlobalIndex t vHave = some a ∧ a ∈ t.branch b ∧
          other.contains t a = true ∧
          ∀ x ∈ vHave, other.contains t x = true → t.nHeight x ≤ t.nHeight a := by
  obtain ⟨vHave, hlocator, hdesc, hlast⟩ := getLocator_spec ht hc hg hb
  refine ⟨⟨setTip_eq ht.linked hc, length_ofTip ht.linked, get_ofTip ht.linked⟩, fun hne => ?_,
    vHave, hlocator, hdesc, hlast, fun other hother hne => ?_⟩
  · rcases hc with rfl | ⟨tip, htip, rfl⟩
    · exact absurd rfl hne
    · exact findFork_spec ht hg htip hb
  · rcases hother with rfl | ⟨tip, htip, rfl⟩
    · exact absurd rfl hne
    · have hgenesis : (ofTip t tip).contains t g = true :=
        (contains_ofTip ht.linked).mpr (hg.mem ht.linked htip)
      obtain ⟨a, ha, hfound, hin, hhighest⟩ := findForkInGlobalIndex_spec
        (fun x hx => ht.linked.known_of_mem hb (hdesc.ancestors x hx)) hdesc.falling
        ⟨g, mem_of_getLast? hlast, hgenesis⟩
      exact ⟨a, hfound, hdesc.ancestors a ha, hin, hhighest⟩

theorem chain_functions_pair : ∃ t, LinkMap.pairLinks.load [0, 1] = some t ∧
      setTip t (ofTip t 0) (some 1) = some (ofTip t 1) ∧
      (∃ a, (ofTip t 0).findFork t 1 = some (some a) ∧ IsFork t (ofTip t 0) 1 a) ∧
      ∃ vHave, (ofTip t 0).getLocator t (some 1) = some vHave ∧ Descends t 1 vHave ∧
        vHave.getLast? = some 0 := by
  have hentries : ∀ k, LinkMap.pairLinks k ≠ none → k = 0 ∨ k = 1 := by
    intro k hk
    by_contra hnot
    rw [not_or] at hnot
    exact hk (by rw [LinkMap.pairLinks, if_neg hnot.1, if_neg hnot.2])
  obtain ⟨t, hload, ht, hpprev, -, hsame⟩ := LinkMap.load_spec LinkMap.pairLinks_linked [] [0, 1]
    (fun k hk => by simpa using hentries k hk) (by decide) (by decide)
    fun k hk => absurd hk not_mem_nil
  have hg : EndsIn t 0 := by
    intro k hk hp
    rcases hentries k (fun hnone => hk ((hsame k).mpr hnone)) with rfl | rfl
    · rfl
    · rw [hpprev] at hp
      cases hp
  have h0 : t 0 ≠ none := fun hnone => by cases (hsame 0).mp hnone
  have h1 : t 1 ≠ none := fun hnone => by cases (hsame 1).mp hnone
  have hne : ofTip t 0 ≠ [] := by
    intro hnil
    have hlength : (ofTip t 0).length = t.nHeight 0 + 1 := length_ofTip ht.linked
    rw [hnil] at hlength
    cases hlength
  obtain ⟨⟨hset, -⟩, hfork, vHave, hlocator, hdesc, hlast, -⟩ :=
    chain_functions_spec t ht 0 hg (ofTip t 0) (.inr ⟨0, h0, rfl⟩) 1 h1
  exact ⟨t, hload, hset, hfork hne, vHave, hlocator, hdesc, hlast⟩

end CChain

end Alqo
