import Alqo.BlockTree

/-!
# Which blocks a stake modifier is drawn from (kernel.cpp)

There are no more rounds than candidates, so every round finds a block. The end of the selection
interval bounds nothing: a round without a block in time takes the next one.
-/

namespace Alqo
open List

def HeightsLinked (m : StakeMap) : Prop :=
  ∀ hash index p, m hash = some index → index.pprev = some p →
    ∃ q, m p = some q ∧ index.nHeight = q.nHeight + 1

structure StakeTree where
  map : StakeMap
  linked : HeightsLinked map

/-- The index of a node as the modifier code sees it; `treeRun_ok` has the premise for every
run. -/
def StakeTree.ofIndex (Hash : Bytes → uint256) (m : BlockMap) (h : TreeLinked Hash m) :
    StakeTree where
  map := m.stakeMap
  linked hash index p hindex hp := by
    obtain ⟨entry, hentry, heq⟩ := Option.map_eq_some_iff.mp hindex
    rw [← heq] at hp ⊢
    obtain ⟨q, hq, hheight⟩ := (h hash entry hentry).parent p hp
    exact ⟨q.toStakeIndex, by simp [BlockMap.stakeMap, hq], hheight⟩

section Ancestors

variable {m m' : StakeMap} {x : Indexed} {fuel : Nat} {start : Option uint256}

theorem lookup_of_mem_ancestry (h : x ∈ ancestry m fuel start) : m x.1 = some x.2 := by
  induction fuel generalizing start with
  | zero => simp [ancestry] at h
  | succ fuel ih =>
    cases start with
    | none => simp [ancestry] at h
    | some hash =>
      unfold ancestry at h
      cases hm : m hash with
      | none => simp [hm] at h
      | some index =>
        simp only [hm, mem_cons] at h
        rcases h with h | h
        · rw [h]
          exact hm
        · exact ih h

theorem lookup_of_mem_ancestors (h : x ∈ ancestors m start) : m x.1 = some x.2 := by
  unfold ancestors at h
  cases hstart : start.bind m with
  | none => simp [hstart] at h
  | some index =>
    simp only [hstart] at h
    exact lookup_of_mem_ancestry h

theorem ancestry_lower (hm : HeightsLinked m) {hash : uint256} {index : StakeIndex}
    (hindex : m hash = some index) (h : x ∈ ancestry m fuel index.pprev) :
    x.2.nHeight < index.nHeight := by
  induction fuel generalizing hash index with
  | zero => simp [ancestry] at h
  | succ fuel ih =>
    cases hp : index.pprev with
    | none => simp [ancestry, hp] at h
    | some p =>
      obtain ⟨q, hq, hheight⟩ := hm hash index p hindex hp
      rw [hp] at h
      simp only [ancestry, hq, mem_cons] at h
      rcases h with h | h
      · rw [h]
        dsimp only
        omega
      · have hbelow := ih hq h
        omega

theorem ancestry_pairwise (hm : HeightsLinked m) (fuel : Nat) (start : Option uint256) :
    (ancestry m fuel start).Pairwise fun a b => b.2.nHeight < a.2.nHeight := by
  induction fuel generalizing start with
  | zero => simp [ancestry]
  | succ fuel ih =>
    cases start with
    | none => simp [ancestry]
    | some hash =>
      unfold ancestry
      cases hindex : m hash with
      | none => simp
      | some index =>
        apply List.Pairwise.cons
        · intro x hx
          exact ancestry_lower hm hindex hx
        · exact ih index.pprev

theorem ancestors_nodup (hm : HeightsLinked m) (start : Option uint256) :
    ((ancestors m start).map Prod.fst).Nodup := by
  have hpairs : (ancestors m start).Pairwise fun a b => a.1 ≠ b.1 := by
    have hlower : (ancestors m start).Pairwise fun a b => b.2.nHeight < a.2.nHeight := by
      unfold ancestors
      cases start.bind m with
      | none => simp
      | some index => exact ancestry_pairwise hm _ _
    apply hlower.imp_of_mem
    intro a b ha hb hlt heq
    have hea := lookup_of_mem_ancestors ha
    have heb := lookup_of_mem_ancestors hb
    rw [heq, heb, Option.some.injEq] at hea
    rw [hea] at hlt
    omega
  rw [List.Nodup, pairwise_map]
  exact hpairs

end Ancestors

section Round

variable {Hash : Bytes → uint256} {m m' : StakeMap} {selected : List uint256} {stop : Int}
  {modifier : BitVec 64}

theorem select_isSome (l : List (Nat × uint256)) (hl : ∀ c ∈ l, ∃ index, m c.2 = some index)
    (best : Option (uint256 × Indexed))
    (h : best.isSome = true ∨ ∃ c ∈ l, c.2 ∉ selected) :
    (selectBlockFromCandidates Hash m selected stop modifier l best).isSome = true := by
  induction l generalizing best with
  | nil =>
    rcases h with h | ⟨c, hc, -⟩
    · exact h
    · simp at hc
  | cons c rest ih =>
    obtain ⟨time, hash⟩ := c
    obtain ⟨index, hindex⟩ := hl (time, hash) (mem_cons_self ..)
    have hrest := ih fun c hc => hl c (mem_cons_of_mem _ hc)
    unfold selectBlockFromCandidates
    simp only [hindex]
    split_ifs with hlate hselected
    · rw [Bool.and_eq_true] at hlate
      exact hlate.1
    · apply hrest
      rcases h with h | ⟨c, hc, hfresh⟩
      · exact .inl h
      · rcases mem_cons.mp hc with heq | hmem
        · rw [heq] at hfresh
          exact absurd (contains_iff_mem.mp hselected) hfresh
        · exact .inr ⟨c, hmem, hfresh⟩
    · apply hrest
      left
      cases best with
      | none => rfl
      | some best =>
        dsimp only
        split_ifs <;> rfl

theorem select_mem (l : List (Nat × uint256)) (best : Option (uint256 × Indexed))
    {r : uint256 × Indexed}
    (h : selectBlockFromCandidates Hash m selected stop modifier l best = some r) :
    best = some r ∨ r.2.1 ∈ l.map Prod.snd ∧ r.2.1 ∉ selected := by
  induction l generalizing best with
  | nil => exact .inl h
  | cons c rest ih =>
    obtain ⟨time, hash⟩ := c
    unfold selectBlockFromCandidates at h
    cases hindex : m hash with
    | none => simp [hindex] at h
    | some index =>
      simp only [hindex] at h
      have hrest : ∀ best', selectBlockFromCandidates Hash m selected stop modifier rest best' =
          some r → best' = some r ∨ r.2.1 ∈ ((time, hash) :: rest).map Prod.snd ∧
            r.2.1 ∉ selected := by
        intro best' hfound
        rcases ih best' hfound with hbest | ⟨hmem, hfresh⟩
        · exact .inl hbest
        · exact .inr ⟨mem_cons_of_mem _ hmem, hfresh⟩
      split_ifs at h with hlate hselected
      · exact .inl h
      · exact hrest best h
      · have hnew : r.2.1 = hash → r.2.1 ∈ ((time, hash) :: rest).map Prod.snd ∧
            r.2.1 ∉ selected := by
          intro heq
          rw [heq]
          exact ⟨mem_cons_self .., fun hmem => hselected (contains_iff_mem.mpr hmem)⟩
        rcases hrest _ h with hbest | hother
        · cases best with
          | none =>
            simp only [Option.some.injEq] at hbest
            exact .inr (hnew (by rw [← hbest]))
          | some best =>
            dsimp only at hbest
            split_ifs at hbest with hless
            · simp only [Option.some.injEq] at hbest
              exact .inr (hnew (by rw [← hbest]))
            · exact .inl hbest
        · exact .inr hother

theorem select_congr (l : List (Nat × uint256)) (hl : ∀ c ∈ l, m' c.2 = m c.2)
    (best : Option (uint256 × Indexed)) :
    selectBlockFromCandidates Hash m' selected stop modifier l best =
      selectBlockFromCandidates Hash m selected stop modifier l best := by
  induction l generalizing best with
  | nil => rfl
  | cons c rest ih =>
    obtain ⟨time, hash⟩ := c
    have hhash : m' hash = m hash := hl (time, hash) (mem_cons_self ..)
    have hrest := ih fun c hc => hl c (mem_cons_of_mem _ hc)
    unfold selectBlockFromCandidates
    rw [hhash]
    simp only [hrest]

end Round

def composeBits : Nat → List uint256 → BitVec 64
  | _, [] => 0
  | nRound, hash :: rest => getStakeEntropyBit hash <<< nRound ||| composeBits (nRound + 1) rest

theorem getLsbD_composeBits (picks : List uint256) (nRound : Nat) {i : Nat} (hi : i < 64) :
    (composeBits nRound picks).getLsbD i =
      (decide (nRound ≤ i) && ((picks[i - nRound]?).map fun hash => hash.getLsbD 0).getD false) := by
  induction picks generalizing nRound with
  | nil => simp [composeBits]
  | cons hash rest ih =>
    have hbit : ∀ k, (getStakeEntropyBit hash).getLsbD k = (decide (k = 0) && hash.getLsbD 0) := by
      intro k
      unfold getStakeEntropyBit
      cases hash.getLsbD 0 with
      | true => cases k <;> simp
      | false => simp
    rw [composeBits, BitVec.getLsbD_or, ih, BitVec.getLsbD_shiftLeft, hbit]
    rcases Nat.lt_trichotomy i nRound with hlt | heq | hgt
    · have hnot : ¬ nRound ≤ i := by omega
      have hnot' : ¬ nRound + 1 ≤ i := by omega
      simp [hi, hlt, hnot, hnot']
    · have hround : nRound < 64 := by omega
      simp [heq, hround]
    · have hpos : i - nRound = (i - (nRound + 1)) + 1 := by omega
      have hle : nRound ≤ i := by omega
      have hle' : nRound + 1 ≤ i := by omega
      rw [hpos]
      simp [hle, hle', getElem?_cons_succ]

section Rounds

variable {Hash : Bytes → uint256} {m m' : StakeMap} {sorted : List (Nat × uint256)}
  {modifier : BitVec 64}

theorem exists_unselected {selected : List uint256} (hnodup : (sorted.map Prod.snd).Nodup)
    (hcount : selected.length < sorted.length) : ∃ c ∈ sorted, c.2 ∉ selected := by
  by_contra hall
  simp only [not_exists, not_and, not_not] at hall
  have hsub : sorted.map Prod.snd ⊆ selected := by
    intro hash hhash
    obtain ⟨c, hc, heq⟩ := mem_map.mp hhash
    rw [← heq]
    exact hall c hc
  have hle := (hnodup.subperm hsub).length_le
  rw [length_map] at hle
  omega

/- The invariant: no block twice among the selected ones, and at least as many left as there
are rounds to go. -/
theorem selectionRounds_spec (Hash : Bytes → uint256) (modifier : BitVec 64)
    (hsorted : ∀ c ∈ sorted, ∃ index, m c.2 = some index)
    (hnodup : (sorted.map Prod.snd).Nodup) (rounds nRound : Nat) (stop : Int)
    (selected : List uint256) (acc : BitVec 64) (hselected : selected.Nodup)
    (hcount : selected.length + rounds ≤ sorted.length) :
    ∃ picks : List uint256, picks.length = rounds ∧ (picks.reverse ++ selected).Nodup ∧
      (∀ hash ∈ picks, hash ∈ sorted.map Prod.snd) ∧
      selectionRounds Hash m sorted modifier rounds nRound stop selected acc =
        some (acc ||| composeBits nRound picks) := by
  induction rounds generalizing nRound stop selected acc with
  | zero => exact ⟨[], rfl, hselected, by simp, by simp [selectionRounds, composeBits]⟩
  | succ rounds ih =>
    have hleft := exists_unselected hnodup (by omega : selected.length < sorted.length)
    have hsome : (selectBlockFromCandidates Hash m selected
        (stop + getStakeModifierSelectionIntervalSection nRound) modifier sorted none).isSome =
        true := select_isSome sorted hsorted none (.inr hleft)
    obtain ⟨⟨hashBest, pindex⟩, hfound⟩ := Option.isSome_iff_exists.mp hsome
    rcases select_mem sorted none hfound with hbest | ⟨hmem, hfresh⟩
    · cases hbest
    · obtain ⟨picks, hlength, hdistinct, hpicks, hrun⟩ := ih (nRound + 1)
        (stop + getStakeModifierSelectionIntervalSection nRound) (pindex.1 :: selected)
        (acc ||| getStakeEntropyBit pindex.1 <<< nRound)
        (nodup_cons.mpr ⟨hfresh, hselected⟩) (by rw [length_cons]; omega)
      refine ⟨pindex.1 :: picks, by rw [length_cons, hlength], ?_, ?_, ?_⟩
      · simpa using hdistinct
      · intro hash hhash
        rcases mem_cons.mp hhash with heq | hrest
        · rw [heq]
          exact hmem
        · exact hpicks hash hrest
      · simp only [selectionRounds, hfound, hrun, composeBits, BitVec.or_assoc]

theorem selectionRounds_congr (hsame : ∀ c ∈ sorted, m' c.2 = m c.2) (rounds nRound : Nat)
    (stop : Int) (selected : List uint256) (acc : BitVec 64) :
    selectionRounds Hash m' sorted modifier rounds nRound stop selected acc =
      selectionRounds Hash m sorted modifier rounds nRound stop selected acc := by
  induction rounds generalizing nRound stop selected acc with
  | zero => rfl
  | succ rounds ih =>
    simp only [selectionRounds, select_congr sorted hsame, ih]

end Rounds

/-- `nSelectionIntervalStart`. -/
def selectionStart (pindexPrev : StakeIndex) : Int :=
  (pindexPrev.nTime / MODIFIER_INTERVAL * MODIFIER_INTERVAL : Nat) -
    (getStakeModifierSelectionInterval : Int)

/-- The blocks the walk collects, nearest first. -/
def selectionCandidates (m : StakeMap) (hashPrev : uint256) (pindexPrev : StakeIndex) :
    List Indexed :=
  (ancestors m (some hashPrev)).takeWhile fun c =>
    decide ((c.2.nTime : Int) ≥ selectionStart pindexPrev)

/-- `vSortedByTimestamp`. -/
def sortedByTimestamp (candidates : List Indexed) : List (Nat × uint256) :=
  ((candidates.map fun c => (c.2.nTime, c.1)).reverse).insertionSort fun a b =>
    candidateLe a b = true

/-- `nHeightFirstCandidate`. -/
def heightFirstCandidate (m : StakeMap) (hashPrev : uint256) (pindexPrev : StakeIndex) : Nat :=
  match (ancestors m (some hashPrev)).dropWhile fun c =>
      decide ((c.2.nTime : Int) ≥ selectionStart pindexPrev) with
  | [] => 0
  | (_, pindex) :: _ => pindex.nHeight + 1

/-- The last modifier is from an earlier interval than the parent and the block itself. -/
structure ModifierDue (m : StakeMap) (hashPrev : uint256) (nTime : Nat) (pindexPrev : StakeIndex)
    (last : BitVec 64 × Nat) : Prop where
  parent : m hashPrev = some pindexPrev
  modifier : getLastStakeModifier (ancestors m (some hashPrev)) = some last
  prev : last.2 / MODIFIER_INTERVAL < pindexPrev.nTime / MODIFIER_INTERVAL
  current : last.2 / MODIFIER_INTERVAL < nTime / MODIFIER_INTERVAL

variable {m : StakeMap} {hashPrev : uint256} {pindexPrev : StakeIndex} {nTime : Nat}
  {last : BitVec 64 × Nat}

theorem ancestors_cons {hash : uint256} {index : StakeIndex} (h : m hash = some index) :
    ancestors m (some hash) = (hash, index) :: ancestry m index.nHeight index.pprev := by
  simp [ancestors, ancestry, h]

theorem computeNextStakeModifier_of_due {Hash : Bytes → uint256}
    (h : ModifierDue m hashPrev nTime pindexPrev last) :
    computeNextStakeModifier Hash m (some hashPrev) nTime =
      match selectionRounds Hash m (sortedByTimestamp (selectionCandidates m hashPrev pindexPrev))
        last.1 (min 64 (sortedByTimestamp (selectionCandidates m hashPrev pindexPrev)).length) 0
        (selectionStart pindexPrev) [] 0 with
      | none => ⟨false, last.1, false⟩
      | some nStakeModifierNew => ⟨true, nStakeModifierNew, true⟩ := by
  have hlast := h.modifier
  have hprev : ¬ last.2 / MODIFIER_INTERVAL ≥ pindexPrev.nTime / MODIFIER_INTERVAL :=
    Nat.not_le.mpr h.prev
  have hcurrent : ¬ last.2 / MODIFIER_INTERVAL ≥ nTime / MODIFIER_INTERVAL :=
    Nat.not_le.mpr h.current
  unfold computeNextStakeModifier selectionCandidates
  simp only
  rw [ancestors_cons h.parent] at hlast ⊢
  rw [hlast]
  simp only [hprev, hcurrent, if_false]
  rfl

theorem sortedByTimestamp_perm (candidates : List Indexed) :
    (sortedByTimestamp candidates).Perm (candidates.map fun c => (c.2.nTime, c.1)) :=
  (perm_insertionSort _ _).trans (reverse_perm _)

theorem sorted_hashes_perm (candidates : List Indexed) :
    ((sortedByTimestamp candidates).map Prod.snd).Perm (candidates.map Prod.fst) := by
  have h := (sortedByTimestamp_perm candidates).map Prod.snd
  rw [map_map] at h
  exact h

theorem candidate_height (hm : HeightsLinked m) (hprev : m hashPrev = some pindexPrev) {x : Indexed}
    (hx : x ∈ selectionCandidates m hashPrev pindexPrev) :
    heightFirstCandidate m hashPrev pindexPrev ≤ x.2.nHeight ∧
      x.2.nHeight ≤ pindexPrev.nHeight := by
  have hlower : (ancestors m (some hashPrev)).Pairwise fun a b => b.2.nHeight < a.2.nHeight := by
    rw [ancestors_cons hprev]
    apply List.Pairwise.cons
    · exact fun y hy => ancestry_lower hm hprev hy
    · exact ancestry_pairwise hm _ _
  constructor
  · unfold heightFirstCandidate
    rw [← takeWhile_append_dropWhile (l := ancestors m (some hashPrev))
      (p := fun c => decide ((c.2.nTime : Int) ≥ selectionStart pindexPrev)),
      pairwise_append] at hlower
    split
    · exact Nat.zero_le _
    · rename_i hash pindex rest heq
      have hbelow := hlower.2.2 x hx (hash, pindex) (by rw [heq]; exact mem_cons_self ..)
      exact hbelow
  · have hmem := takeWhile_subset _ hx
    rw [ancestors_cons hprev, mem_cons] at hmem
    rcases hmem with heq | hmem
    · rw [heq]
    · exact (ancestry_lower hm hprev hmem).le

theorem computeNextStakeModifier_congr (Hash : Bytes → uint256) {m' : StakeMap}
    (h : ancestors m' (some hashPrev) = ancestors m (some hashPrev)) (nTime : Nat) :
    computeNextStakeModifier Hash m' (some hashPrev) nTime =
      computeNextStakeModifier Hash m (some hashPrev) nTime := by
  have hsame : ∀ x ∈ ancestors m (some hashPrev), m' x.1 = m x.1 := by
    intro x hx
    rw [lookup_of_mem_ancestors hx]
    rw [← h] at hx
    exact lookup_of_mem_ancestors hx
  unfold computeNextStakeModifier
  simp only [h]
  split
  · rename_i hash pindexPrev rest nStakeModifier nModifierTime hchain hlast
    have hsorted : ∀ c ∈ sortedByTimestamp ((ancestors m (some hashPrev)).takeWhile fun c =>
        decide ((c.2.nTime : Int) ≥ selectionStart pindexPrev)), m' c.2 = m c.2 := by
      intro c hc
      obtain ⟨x, hx, heq⟩ := mem_map.mp ((sortedByTimestamp_perm _).mem_iff.mp hc)
      rw [← heq]
      exact hsame x (takeWhile_subset _ hx)
    split_ifs
    · rfl
    · rfl
    · exact congrArg (fun r => match r with
        | none => (⟨false, nStakeModifier, false⟩ : NextModifier)
        | some nStakeModifierNew => ⟨true, nStakeModifierNew, true⟩)
        (selectionRounds_congr hsorted _ 0 _ [] 0)
  · rfl

theorem due_selection (Hash : Bytes → uint256) (tree : StakeTree)
    (hdue : ModifierDue tree.map hashPrev nTime pindexPrev last) :
    ∃ hashes : List uint256,
      hashes.length = min 64 (selectionCandidates tree.map hashPrev pindexPrev).length ∧
      hashes.Nodup ∧
      (∀ hash ∈ hashes, hash ∈ (selectionCandidates tree.map hashPrev pindexPrev).map Prod.fst) ∧
      computeNextStakeModifier Hash tree.map (some hashPrev) nTime =
        ⟨true, composeBits 0 hashes, true⟩ := by
  have hperm := sorted_hashes_perm (selectionCandidates tree.map hashPrev pindexPrev)
  have hlength := hperm.length_eq
  rw [length_map, length_map] at hlength
  have hsorted : ∀ c ∈ sortedByTimestamp (selectionCandidates tree.map hashPrev pindexPrev),
      ∃ index, tree.map c.2 = some index := by
    intro c hc
    obtain ⟨x, hx, heq⟩ := mem_map.mp ((sortedByTimestamp_perm _).mem_iff.mp hc)
    rw [← heq]
    exact ⟨x.2, lookup_of_mem_ancestors (takeWhile_subset _ hx)⟩
  have hnodup : ((sortedByTimestamp (selectionCandidates tree.map hashPrev pindexPrev)).map
      Prod.snd).Nodup := by
    rw [hperm.nodup_iff]
    exact (ancestors_nodup tree.linked _).sublist ((takeWhile_sublist _).map _)
  obtain ⟨hashes, hcount, hdistinct, hpicked, hrun⟩ := selectionRounds_spec Hash last.1 hsorted
    hnodup (min 64 (sortedByTimestamp (selectionCandidates tree.map hashPrev pindexPrev)).length) 0
    (selectionStart pindexPrev) [] 0 nodup_nil (by simp)
  refine ⟨hashes, by rw [hcount, hlength], ?_, ?_, ?_⟩
  · rw [append_nil, nodup_reverse] at hdistinct
    exact hdistinct
  · exact fun hash hhash => hperm.mem_iff.mp (hpicked hash hhash)
  · rw [computeNextStakeModifier_of_due hdue, hrun]
    simp

/-- A modifier that is due is always found: its bits are the entropy bits of 64 candidates, or
of all if there are fewer, none of them twice, all of them ancestors from the start of the
selection interval on. Nothing else of the index has a part in it. -/
theorem computeNextStakeModifier_due (Hash : Bytes → uint256) (tree : StakeTree)
    (hashPrev : uint256) (nTime : Nat) (pindexPrev : StakeIndex) (last : BitVec 64 × Nat)
    (hdue : ModifierDue tree.map hashPrev nTime pindexPrev last) :
    (∃ picks : List Indexed,
      (computeNextStakeModifier Hash tree.map (some hashPrev) nTime).ok = true ∧
      (computeNextStakeModifier Hash tree.map (some hashPrev) nTime).fGeneratedStakeModifier =
        true ∧
      picks.length = min 64 (selectionCandidates tree.map hashPrev pindexPrev).length ∧
      (picks.map Prod.fst).Nodup ∧
      (∀ x ∈ picks, x ∈ ancestors tree.map (some hashPrev) ∧ selectionStart pindexPrev ≤ x.2.nTime ∧
        heightFirstCandidate tree.map hashPrev pindexPrev ≤ x.2.nHeight ∧
        x.2.nHeight ≤ pindexPrev.nHeight) ∧
      ∀ i < 64,
        (computeNextStakeModifier Hash tree.map (some hashPrev) nTime).nStakeModifier.getLsbD i =
          ((picks[i]?).map fun x => x.1.getLsbD 0).getD false) ∧
    ∀ other : StakeTree, ancestors other.map (some hashPrev) = ancestors tree.map (some hashPrev) →
      computeNextStakeModifier Hash other.map (some hashPrev) nTime =
        computeNextStakeModifier Hash tree.map (some hashPrev) nTime := by
  refine ⟨?_, fun other hother => computeNextStakeModifier_congr Hash hother nTime⟩
  obtain ⟨hashes, hlength, hnodup, hmem, hresult⟩ := due_selection Hash tree hdue
  have hfst : (hashes.map fun hash => (hash, (tree.map hash).getD {})).map Prod.fst = hashes := by
    rw [map_map]
    exact map_id hashes
  refine ⟨hashes.map fun hash => (hash, (tree.map hash).getD {}), ?_, ?_, ?_, ?_, ?_, ?_⟩
  · rw [hresult]
  · rw [hresult]
  · rw [length_map]
    exact hlength
  · rw [hfst]
    exact hnodup
  · intro x hx
    obtain ⟨hash, hhash, heq⟩ := mem_map.mp hx
    obtain ⟨y, hy, hyhash⟩ := mem_map.mp (hmem hash hhash)
    have hancestor := takeWhile_subset _ hy
    have hxy : x = y := by
      rw [← heq, ← hyhash, lookup_of_mem_ancestors hancestor]
      rfl
    rw [hxy]
    have htime := mem_takeWhile_imp hy
    exact ⟨hancestor, of_decide_eq_true htime, candidate_height tree.linked hdue.parent hy⟩
  · intro i hi
    rw [hresult, getLsbD_composeBits hashes 0 hi]
    simp [getElem?_map, Option.map_map, Function.comp_def]

def lateTree : StakeTree where
  map hash :=
    if hash = 1 then some { fStakeModifier := true }
    else if hash = 2 then some { pprev := some 1, nHeight := 1, nTime := 125 }
    else none
  linked := by
    intro hash index p hindex hp
    dsimp only at hindex
    split_ifs at hindex with hone htwo
    · cases hindex
      cases hp
    · cases hindex
      cases hp
      exact ⟨_, rfl, rfl⟩

theorem computeNextStakeModifier_late :
    ∃ picks : List Indexed, picks.length = 2 ∧ (picks.map Prod.fst).Nodup ∧
      ∀ x ∈ picks, x ∈ ancestors lateTree.map (some 2) := by
  obtain ⟨⟨picks, -, -, hlength, hnodup, hmem, -⟩, -⟩ := computeNextStakeModifier_due (fun _ => 0)
    lateTree 2 200 { pprev := some 1, nHeight := 1, nTime := 125 } (0, 0)
    ⟨by decide, by decide, by decide, by decide⟩
  exact ⟨picks, hlength, hnodup, fun x hx => (hmem x hx).1⟩

/-- The modifier takes the bits of both blocks, and one of them is later than the end of the
selection interval, which is second 120. -/
theorem lateTree_after_interval :
    ModifierDue lateTree.map 2 200 { pprev := some 1, nHeight := 1, nTime := 125 } (0, 0) ∧
    (selectionCandidates lateTree.map 2
      { pprev := some 1, nHeight := 1, nTime := 125 }).length = 2 ∧
    (∀ Hash, computeNextStakeModifier Hash lateTree.map (some 2) 200 = ⟨true, 1, true⟩) ∧
    ((ancestors lateTree.map (some 2)).filter fun x =>
      decide ((x.2.nTime : Int) ≤
        selectionStart { pprev := some 1, nHeight := 1, nTime := 125 } +
          getStakeModifierSelectionInterval)).length = 1 := by
  refine ⟨⟨by decide, by decide, by decide, by decide⟩, by decide, fun _ => by rfl, by decide⟩

end Alqo
