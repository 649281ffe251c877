import Alqo.BlockLinks

/-!
# Runs of the block index (main.cpp)

Every event keeps `Base`. The queue of `ReceivedBlockTransactions` has a rule of its own
(`linkQueue_rule`), for whatever one turn of the loop keeps.
-/

namespace Alqo.ChainIndex
open Lib.Branches Lib.Runs Function List AList Option

variable {env : ChainEnv} {s t u : ChainIndex} {x m : uint256} {verdict : uint256 → ConnectVerdict}
  {block : CBlock} {pos : CDiskBlockPos} {queue : List uint256}

theorem sameTree_connectTip (s : ChainIndex) (x : uint256) : SameTree s (s.connectTip x) :=
  (sameTree_updateStatus (keepsData_raiseValidity _) s x).trans (sameTree_tip _ x)

theorem connectTip_candidates (s : ChainIndex) (x : uint256) :
    (s.connectTip x).setBlockIndexCandidates = s.setBlockIndexCandidates :=
  updateStatus_candidates s x _

theorem prune_eq (h : s.pruneBlockIndexCandidates env = some t) :
    t = { s with setBlockIndexCandidates :=
      s.setBlockIndexCandidates.filter fun c => !s.worse env c s.tip } := by
  unfold pruneBlockIndexCandidates at h
  simp only at h
  split_ifs at h
  cases h
  rfl

structure Connected (env : ChainEnv) (x : uint256) (s t : ChainIndex) : Prop where
  sameTree : SameTree s t
  tip : t.tip = x
  mem : ∀ c, c ∈ t.setBlockIndexCandidates ↔ c ∈ s.setBlockIndexCandidates ∧ s.worse env c x = false
  status : ∀ h, t.status h = (s.connectTip x).status h

theorem connected_of_prune (h : (s.connectTip x).pruneBlockIndexCandidates env = some t) :
    Connected env x s t := by
  have hsame := sameTree_connectTip s x
  have ht := prune_eq h
  subst ht
  refine ⟨hsame.trans (sameTree_candidates _ _), rfl, fun c => ?_, fun _ => rfl⟩
  rw [mem_filter, hsame.worse, connectTip_candidates]
  simp [connectTip]

theorem Connected.base (h : Connected env x s t) (hb : s.Base env) (hx : s.Ready x) :
    t.Base env := by
  refine hb.of_sameTree h.sameTree (fun c hc => hb.candidate c ((h.mem c).mp hc).1) ?_
  rw [h.tip]
  exact hx

theorem invalidBlockFound_base (hb : s.Base env) (x : uint256) (corruptionPossible : Bool) :
    (s.invalidBlockFound x corruptionPossible).Base env ∧
      SameTree s (s.invalidBlockFound x corruptionPossible) := by
  unfold invalidBlockFound
  split_ifs
  · exact ⟨hb, SameTree.refl s⟩
  · refine ⟨hb.of_sameTree (sameTree_markInvalid s x)
      (fun c hc => hb.candidate c (mem_markInvalid.mp hc).1) ?_, sameTree_markInvalid s x⟩
    rw [markInvalid_tip]
    exact hb.tip

/-- What the three ways in which `ConnectTip` ends keep, next to `Base`. -/
structure KeptByConnect (env : ChainEnv) (inv : ChainIndex → Prop) : Prop where
  invalid : ∀ s x corruptionPossible, s.Ready x → inv s → inv (s.invalidBlockFound x corruptionPossible)
  choked : ∀ s x, s.Base env → s.Ready x → inv s → inv (s.invalidateBlock env x)
  valid : ∀ s t x, Connected env x s t → inv s → inv t

theorem KeptByConnect.connectBlocks {inv : ChainIndex → Prop} (hinv : KeptByConnect env inv)
    {old : uint256} {l : List uint256} (hb : s.Base env) (hs : inv s) (hl : ∀ x ∈ l, s.Ready x)
    (h : connectBlocks env old verdict s l = some t) : t.Base env ∧ SameTree s t ∧ inv t := by
  induction l generalizing s with
  | nil =>
    cases h
    exact ⟨hb, SameTree.refl t, hs⟩
  | cons x l ih =>
    have hx : s.Ready x := hl x mem_cons_self
    unfold ChainIndex.connectBlocks at h
    cases hv : verdict x with
    | invalid corruptionPossible =>
      rw [hv] at h
      cases h
      obtain ⟨hbt, hsame⟩ := invalidBlockFound_base hb x corruptionPossible
      exact ⟨hbt, hsame, hinv.invalid s x corruptionPossible hx hs⟩
    | choked =>
      rw [hv] at h
      cases h
      obtain ⟨hbt, hsame⟩ := invalidateBlock_base hb x
      exact ⟨hbt, hsame, hinv.choked s x hb hx hs⟩
    | valid =>
      rw [hv] at h
      cases hp : (s.connectTip x).pruneBlockIndexCandidates env with
      | none => simp [hp] at h
      | some u =>
        have hc := connected_of_prune hp
        have hbu := hc.base hb hx
        have hu := hinv.valid s u x hc hs
        simp only [hp] at h
        split_ifs at h with hwork
        · cases h
          exact ⟨hbu, hc.sameTree, hu⟩
        · obtain ⟨hbt, hsame, ht⟩ := ih hbu hu
            (fun y hy => (hc.sameTree.ready y).mpr (hl y (mem_cons_of_mem x hy))) h
          exact ⟨hbt, hc.sameTree.trans hsame, ht⟩

theorem findFork_ready (hb : s.Base env) (hm : s.Ready m) : s.Ready (s.findFork env m) := by
  unfold findFork
  cases hf : (s.branch m).find? s.contains with
  | none => exact hb.genesis
  | some x => exact hm.of_mem hb (mem_of_find?_eq_some hf)

theorem offChain_subset (hx : x ∈ s.offChain m) : x ∈ s.branch m :=
  takeWhile_subset _ hx

theorem KeptByConnect.activateBestChainStep {inv : ChainIndex → Prop}
    (hinv : KeptByConnect env inv) (htip : ∀ s tip, inv s → inv { s with tip := tip })
    (hb : s.Base env) (hs : inv s) (hm : m ∈ s.setBlockIndexCandidates)
    (h : s.activateBestChainStep env verdict m = some t) :
    t.Base env ∧ SameTree s t ∧ inv t := by
  have hready : s.Ready m := hb.candidate m hm
  have hsame := sameTree_tip s (s.findFork env m)
  have hbf : ({ s with tip := s.findFork env m } : ChainIndex).Base env :=
    hb.of_sameTree hsame hb.candidate (findFork_ready hb hready)
  have hpath : ∀ x ∈ (s.offChain m).reverse,
      ({ s with tip := s.findFork env m } : ChainIndex).Ready x := by
    intro x hx
    exact (hsame.ready x).mpr (hready.of_mem hb (offChain_subset (mem_reverse.mp hx)))
  obtain ⟨hbt, hst, ht⟩ := hinv.connectBlocks hbf (htip s _ hs) hpath h
  exact ⟨hbt, hsame.trans hst, ht⟩

theorem KeptByConnect.activateBestChain {inv : ChainIndex → Prop} (hinv : KeptByConnect env inv)
    (htip : ∀ s tip, inv s → inv { s with tip := tip })
    (hfind : ∀ s r u, s.Base env → s.findMostWorkChain env = some (r, u) → inv s → inv u)
    (hb : s.Base env) (hs : inv s) (h : s.activateBestChain env verdict = some t) :
    t.Base env ∧ SameTree s t ∧ inv t := by
  unfold ChainIndex.activateBestChain at h
  cases hf : s.findMostWorkChain env with
  | none => simp [hf] at h
  | some found =>
    obtain ⟨r, u⟩ := found
    obtain ⟨hbu, hsu, -, -⟩ := findMostWorkChain_base hb hf
    have hu := hfind s r u hb hf hs
    cases r with
    | none =>
      simp only [hf, Option.some.injEq] at h
      exact h ▸ ⟨hbu, hsu, hu⟩
    | some m =>
      have hbest := (findMostWorkChain_rule (fun _ => True) (fun _ _ _ _ _ _ _ => trivial)
        trivial hf).2.1
      simp only [hf] at h
      split_ifs at h with hm
      · cases h
        exact ⟨hbu, hsu, hu⟩
      · obtain ⟨hbt, hst, ht⟩ :=
          hinv.activateBestChainStep htip hbu hu (argmax_mem hbest) h
        exact ⟨hbt, hsu.trans hst, ht⟩

theorem keptByConnect_true : KeptByConnect env fun _ => True :=
  ⟨fun _ _ _ _ _ => trivial, fun _ _ _ _ _ => trivial, fun _ _ _ _ _ => trivial⟩

theorem activateBestChainStep_base (hb : s.Base env) (hm : m ∈ s.setBlockIndexCandidates)
    (h : s.activateBestChainStep env verdict m = some t) : t.Base env :=
  (keptByConnect_true.activateBestChainStep (fun _ _ _ => trivial) hb trivial hm h).1

theorem activateBestChain_base (hb : s.Base env) (h : s.activateBestChain env verdict = some t) :
    t.Base env ∧ SameTree s t := by
  obtain ⟨hbt, hst, -⟩ := keptByConnect_true.activateBestChain (fun _ _ _ => trivial)
    (fun _ _ _ _ _ _ => trivial) hb trivial h
  exact ⟨hbt, hst⟩

structure Grown (hash prev : uint256) (s t : ChainIndex) : Prop where
  fresh : hash ∉ s.mapBlockIndex
  parent : prev ∈ s.mapBlockIndex
  leaf : ∃ index, t.mapBlockIndex.lookup hash = some index ∧ index.pprev = some prev ∧
    index.nHeight = s.nHeight prev + 1 ∧ index.nTx = 0 ∧
    index.nStatus = { nValid := BlockStatus.VALID_TREE }
  others : ∀ h, h ≠ hash → t.mapBlockIndex.lookup h = s.mapBlockIndex.lookup h
  nChainTx : t.nChainTx = update s.nChainTx hash 0
  nSequenceId : t.nSequenceId = update s.nSequenceId hash 0
  tip : t.tip = s.tip
  candidates : t.setBlockIndexCandidates = s.setBlockIndexCandidates
  unlinked : t.mapBlocksUnlinked = s.mapBlocksUnlinked

theorem grown_addToBlockIndex (hfresh : block.getHash env.Hash ∉ s.mapBlockIndex)
    (hprev : block.hashPrevBlock ∈ s.mapBlockIndex) :
    Grown (block.getHash env.Hash) block.hashPrevBlock s (s.addToBlockIndex env block) := by
  obtain ⟨pprev, hp⟩ := mem_iff_lookup.mp hprev
  have hmap : (s.addToBlockIndex env block).mapBlockIndex =
      Alqo.addToBlockIndex env.Hash env.mapProofOfStake s.mapBlockIndex block := by
    simp [addToBlockIndex, hfresh]
  have hheight : s.nHeight block.hashPrevBlock = pprev.nHeight := by simp [ChainIndex.nHeight, hp]
  refine ⟨hfresh, hprev, ?_, fun h hh => ?_, ?_, ?_, ?_, ?_, ?_⟩
  · rw [hmap, hheight]
    simp only [Alqo.addToBlockIndex, hfresh, if_false, hp]
    exact ⟨_, lookup_insert _, rfl, rfl, rfl, rfl⟩
  · rw [hmap]
    simp only [Alqo.addToBlockIndex, hfresh, if_false, hp]
    exact lookup_insert_ne hh
  all_goals simp [addToBlockIndex, hfresh]

namespace Grown

variable {hash prev x : uint256}

section
variable (h : Grown hash prev s t)
include h

theorem mem (x : uint256) : x ∈ t.mapBlockIndex ↔ x = hash ∨ x ∈ s.mapBlockIndex := by
  obtain ⟨index, hl, -⟩ := h.leaf
  by_cases hx : x = hash
  · simp only [hx, true_or, iff_true]
    exact mem_iff_lookup.mpr ⟨index, hl⟩
  · rw [mem_iff_lookup, mem_iff_lookup, h.others x hx]
    simp [hx]

theorem pprev_self : t.pprev hash = some prev := by
  obtain ⟨index, hl, hp, -⟩ := h.leaf
  simp [ChainIndex.pprev, hl, hp]

theorem nHeight_self : t.nHeight hash = s.nHeight prev + 1 := by
  obtain ⟨index, hl, -, hh, -⟩ := h.leaf
  simp [ChainIndex.nHeight, hl, hh]

theorem status_self : t.status hash = { nValid := BlockStatus.VALID_TREE } := by
  obtain ⟨index, hl, -, -, -, hst⟩ := h.leaf
  simp [ChainIndex.status, hl, hst]

theorem pprev_ne (hx : x ≠ hash) : t.pprev x = s.pprev x := by
  simp only [ChainIndex.pprev, h.others x hx]

theorem nHeight_ne (hx : x ≠ hash) : t.nHeight x = s.nHeight x := by
  simp only [ChainIndex.nHeight, h.others x hx]

theorem status_ne (hx : x ≠ hash) : t.status x = s.status x := by
  simp only [ChainIndex.status, h.others x hx]

theorem nTx (x : uint256) : t.nTx x = s.nTx x := by
  by_cases hx : x = hash
  · subst hx
    obtain ⟨index, hl, -, -, htx, -⟩ := h.leaf
    have hnone : s.mapBlockIndex.lookup x = none := by
      rw [← not_isSome_iff_eq_none, lookup_isSome]
      exact h.fresh
    simp [ChainIndex.nTx, hl, htx, hnone]
  · simp only [ChainIndex.nTx, h.others x hx]

theorem data (x : uint256) : (t.status x).fHaveData = (s.status x).fHaveData := by
  by_cases hx : x = hash
  · rw [hx, h.status_self, status_of_notMem h.fresh]
  · rw [h.status_ne hx]

theorem failed (x : uint256) : (t.status x).failed = (s.status x).failed := by
  by_cases hx : x = hash
  · rw [hx, h.status_self, status_of_notMem h.fresh]
    rfl
  · rw [h.status_ne hx]

theorem branch (hb : s.Base env) (hx : x ∈ s.mapBlockIndex) : t.branch x = s.branch x := by
  have hne : ∀ a, a ∈ s.mapBlockIndex → a ≠ hash := fun a ha he => h.fresh (he ▸ ha)
  apply branch_congr
  · intro a ha
    exact h.pprev_ne (hne a (branch_known hb hx ha))
  · exact h.nHeight_ne (hne x hx)

theorem ready (hb : s.Base env) (hx : s.Ready x) : t.Ready x := by
  unfold Ready
  rw [h.branch hb hx.mem, h.unlinked]
  intro a ha
  rw [h.data]
  exact hx a ha

theorem graded (hb : s.Base env) : Graded t.pprev t.nHeight := by
  intro x p hp
  by_cases hx : x = hash
  · subst hx
    rw [h.pprev_self] at hp
    cases hp
    have hne : prev ≠ x := fun he => h.fresh (he ▸ h.parent)
    rw [h.nHeight_self, h.nHeight_ne hne]
  · rw [h.pprev_ne hx] at hp
    have hne : p ≠ hash := fun he => h.fresh (he ▸ hb.known x p hp)
    rw [h.nHeight_ne hx, h.nHeight_ne hne]
    exact hb.graded x p hp

theorem base (hb : s.Base env) : t.Base env where
  graded := h.graded hb
  known x p hp := by
    rw [h.mem]
    by_cases hx : x = hash
    · rw [hx, h.pprev_self] at hp
      cases hp
      exact .inr h.parent
    · rw [h.pprev_ne hx] at hp
      exact .inr (hb.known x p hp)
  root x hx hp := by
    by_cases hh : x = hash
    · rw [hh, h.pprev_self] at hp
      cases hp
    · rw [h.pprev_ne hh] at hp
      exact hb.root x (((h.mem x).mp hx).resolve_left hh) hp
  stored x hx := by
    rw [h.data] at hx
    have hne : x ≠ hash := fun he => h.fresh (he ▸ mem_of_data hx)
    rw [h.status_ne hne]
    exact hb.stored x hx
  level x hx := by
    by_cases hh : x = hash
    · rw [hh, h.status_self]
    · rw [h.status_ne hh]
      exact hb.level x (((h.mem x).mp hx).resolve_left hh)
  counted x := by
    rw [h.data, h.nTx]
    exact hb.counted x
  linked x hx := by
    rw [h.nChainTx] at hx
    by_cases hh : x = hash
    · simp [hh] at hx
    · rw [update_of_ne hh] at hx
      exact h.ready hb (hb.linked x hx)
  candidate c hc := by
    rw [h.candidates] at hc
    exact h.ready hb (hb.candidate c hc)
  tip := by
    rw [h.tip]
    exact h.ready hb hb.tip
  genesis := h.ready hb hb.genesis
  waiting p c hpc := by
    rw [h.unlinked] at hpc
    obtain ⟨hp, hd⟩ := hb.waiting p c hpc
    have hne : c ≠ hash := fun he => h.fresh (he ▸ mem_of_data hd)
    rw [h.pprev_ne hne, h.data]
    exact ⟨hp, hd⟩
  nodup := by
    rw [h.unlinked]
    exact hb.nodup

end

end Grown

structure Stored (hash : uint256) (s t : ChainIndex) : Prop where
  missing : (s.status hash).fHaveData = false
  unfailed : (s.status hash).failed = false
  mem : ∀ h, h ∈ t.mapBlockIndex ↔ h ∈ s.mapBlockIndex
  pprev : t.pprev = s.pprev
  nHeight : t.nHeight = s.nHeight
  nChainWork : t.nChainWork = s.nChainWork
  nTx_self : t.nTx hash ≠ 0
  nTx_ne : ∀ h, h ≠ hash → t.nTx h = s.nTx h
  status_self : t.status hash = BlockStatus.raiseValidity
    { s.status hash with fHaveData := true } BlockStatus.VALID_TRANSACTIONS
  status_ne : ∀ h, h ≠ hash → t.status h = s.status h
  nChainTx : t.nChainTx = update s.nChainTx hash 0
  nSequenceId : t.nSequenceId = s.nSequenceId
  tip : t.tip = s.tip
  candidates : t.setBlockIndexCandidates = s.setBlockIndexCandidates
  unlinked : t.mapBlocksUnlinked = s.mapBlocksUnlinked

theorem lookup_received (pos : CDiskBlockPos) {index : CBlockIndex}
    (hl : s.mapBlockIndex.lookup (block.getHash env.Hash) = some index) (h : uint256) :
    (s.storeData env block pos).mapBlockIndex.lookup h =
      if h = block.getHash env.Hash then some (index.received block pos)
      else s.mapBlockIndex.lookup h := by
  simp only [storeData, Alqo.receivedBlockTransactions, hl]
  by_cases hh : h = block.getHash env.Hash
  · rw [if_pos hh, hh, lookup_insert]
  · rw [if_neg hh, lookup_insert_ne hh]

theorem stored_storeData (pos : CDiskBlockPos) (hknown : block.getHash env.Hash ∈ s.mapBlockIndex)
    (hmissing : (s.status (block.getHash env.Hash)).fHaveData = false)
    (hunfailed : (s.status (block.getHash env.Hash)).failed = false) (hvtx : block.vtx.length ≠ 0) :
    Stored (block.getHash env.Hash) s (s.storeData env block pos) := by
  obtain ⟨index, hl⟩ := mem_iff_lookup.mp hknown
  have hlookup := lookup_received pos hl
  -- fields that `received` leaves alone
  have hread : ∀ {α : Type} (g : CBlockIndex → α), g (index.received block pos) = g index →
      ∀ h, ((s.storeData env block pos).mapBlockIndex.lookup h).map g =
        (s.mapBlockIndex.lookup h).map g := by
    intro α g hg h
    rw [hlookup]
    by_cases hh : h = block.getHash env.Hash
    · rw [if_pos hh, hh, hl, map_some, map_some, hg]
    · rw [if_neg hh]
  refine ⟨hmissing, hunfailed, fun h => ?_, ?_, ?_, ?_, ?_, fun h hh => ?_, ?_, fun h hh => ?_, rfl,
    rfl, rfl, rfl, rfl⟩
  · rw [← lookup_isSome, ← lookup_isSome, hlookup]
    by_cases hh : h = block.getHash env.Hash
    · rw [if_pos hh, hh, hl]
      exact iff_of_true rfl rfl
    · rw [if_neg hh]
  · funext h
    simp only [ChainIndex.pprev]
    rw [hlookup]
    by_cases hh : h = block.getHash env.Hash
    · rw [if_pos hh, hh, hl]
      rfl
    · rw [if_neg hh]
  · funext h
    simp only [ChainIndex.nHeight, hread (fun index => index.nHeight) rfl]
  · funext h
    simp only [ChainIndex.nChainWork, hread (fun index => index.nChainWork) rfl]
  · simp only [ChainIndex.nTx, hlookup, if_true]
    exact hvtx
  · simp only [ChainIndex.nTx, hlookup, if_neg hh]
  · simp only [ChainIndex.status, hlookup, if_true, hl]
    rfl
  · simp only [ChainIndex.status, hlookup, if_neg hh]

theorem pprev_of_map (h : u.mapBlockIndex = t.mapBlockIndex) : u.pprev = t.pprev := by
  funext x
  simp only [ChainIndex.pprev, h]

theorem status_of_map (h : u.mapBlockIndex = t.mapBlockIndex) : u.status = t.status := by
  funext x
  simp only [ChainIndex.status, h]

theorem branch_of_map (h : u.mapBlockIndex = t.mapBlockIndex) (x : uint256) :
    u.branch x = t.branch x := by
  have hheight : u.nHeight = t.nHeight := by
    funext y
    simp only [ChainIndex.nHeight, h]
  simp only [ChainIndex.branch, pprev_of_map h, hheight]

theorem raiseValidity_marks (st : BlockStatus) (n : Nat) :
    (BlockStatus.raiseValidity st n).fFailedValid = st.fFailedValid ∧
      (BlockStatus.raiseValidity st n).failed = st.failed := by
  unfold BlockStatus.raiseValidity
  split_ifs
  · exact ⟨rfl, rfl⟩
  · exact ⟨rfl, rfl⟩
  · exact ⟨rfl, rfl⟩

namespace Stored

variable {hash : uint256}

section
variable (h : Stored hash s t)
include h

theorem branch (x : uint256) : t.branch x = s.branch x := by
  unfold ChainIndex.branch
  rw [h.pprev, h.nHeight]

theorem failed (x : uint256) : (t.status x).failed = (s.status x).failed := by
  by_cases hx : x = hash
  · rw [hx, h.status_self, (raiseValidity_marks _ _).2]
    rfl
  · rw [h.status_ne x hx]

theorem data_self : (t.status hash).fHaveData = true := by
  rw [h.status_self]
  unfold BlockStatus.raiseValidity
  split_ifs
  · rfl
  · rfl
  · rfl

theorem level (x : uint256) : (s.status x).nValid ≤ (t.status x).nValid := by
  by_cases hx : x = hash
  · rw [hx, h.status_self]
    unfold BlockStatus.raiseValidity
    split_ifs with hfailed hlt
    · exact le_rfl
    · exact hlt.le
    · exact le_rfl
  · rw [h.status_ne x hx]

theorem stored_level : BlockStatus.VALID_TRANSACTIONS ≤ (t.status hash).nValid := by
  have hunfailed : BlockStatus.failed { s.status hash with fHaveData := true } = false :=
    h.unfailed
  rw [h.status_self, BlockStatus.raiseValidity, hunfailed]
  simp only [Bool.false_eq_true, if_false]
  split_ifs with hlt
  · exact le_rfl
  · exact Nat.le_of_not_lt hlt

theorem data_iff (x : uint256) :
    (t.status x).fHaveData = true ↔ x = hash ∨ (s.status x).fHaveData = true := by
  by_cases hx : x = hash
  · simp [hx, h.data_self]
  · simp [hx, h.status_ne x hx]

theorem nChainTx_eq (hb : s.Base env) : t.nChainTx = s.nChainTx := by
  have hzero : s.nChainTx hash = 0 := by
    by_contra hne
    have hdata := (hb.linked hash hne).data
    rw [h.missing] at hdata
    cases hdata
  rw [h.nChainTx, ← hzero, update_eq_self]

theorem notMem_branch (hx : s.Ready x) : hash ∉ s.branch x := by
  intro hmem
  have hdata := (hx hash hmem).1
  rw [h.missing] at hdata
  cases hdata

theorem counted (hb : s.Base env) (x : uint256) : (t.status x).fHaveData = true ↔ t.nTx x ≠ 0 := by
  by_cases hx : x = hash
  · rw [hx]
    exact iff_of_true h.data_self h.nTx_self
  · rw [h.status_ne x hx, h.nTx_ne x hx]
    exact hb.counted x

theorem ready (hu : u.mapBlockIndex = t.mapBlockIndex)
    (hw : ∀ c ∈ u.mapBlocksUnlinked.map Prod.snd, c = hash ∨ c ∈ s.mapBlocksUnlinked.map Prod.snd)
    (hx : s.Ready x) : u.Ready x := by
  have hbranch : u.branch x = s.branch x := by
    rw [← h.branch x, branch_of_map hu]
  intro a ha
  rw [hbranch] at ha
  have hne : a ≠ hash := fun he => h.notMem_branch hx (he ▸ ha)
  have hstatus : u.status a = s.status a := by
    rw [← h.status_ne a hne, status_of_map hu]
  refine ⟨by rw [hstatus]; exact (hx a ha).1, fun hmem => ?_⟩
  rcases hw a hmem with he | hold
  · exact hne he
  · exact (hx a ha).2 hold

theorem base (hb : s.Base env) : t.Base env := by
  have hready : ∀ {x}, s.Ready x → t.Ready x := fun hx =>
    h.ready rfl (fun c hc => .inr (by rwa [h.unlinked] at hc)) hx
  refine ⟨?_, fun x p hp => ?_, fun x hx hp => ?_, fun x hx => ?_, fun x hx => ?_, h.counted hb,
    fun x hx => ?_, fun c hc => ?_, ?_, hready hb.genesis, fun p c hpc => ?_, ?_⟩
  · rw [h.pprev, h.nHeight]
    exact hb.graded
  · rw [h.pprev] at hp
    exact (h.mem p).mpr (hb.known x p hp)
  · rw [h.pprev] at hp
    exact hb.root x ((h.mem x).mp hx) hp
  · by_cases hh : x = hash
    · rw [hh]
      exact h.stored_level
    · rw [h.status_ne x hh] at hx ⊢
      exact hb.stored x hx
  · exact (hb.level x ((h.mem x).mp hx)).trans (h.level x)
  · rw [h.nChainTx_eq hb] at hx
    exact hready (hb.linked x hx)
  · rw [h.candidates] at hc
    exact hready (hb.candidate c hc)
  · rw [h.tip]
    exact hready hb.tip
  · rw [h.unlinked] at hpc
    rw [h.pprev, h.data_iff]
    exact ⟨(hb.waiting p c hpc).1, .inr (hb.waiting p c hpc).2⟩
  · rw [h.unlinked]
    exact hb.nodup

theorem not_waiting (hb : s.Base env) : hash ∉ t.mapBlocksUnlinked.map Prod.snd := by
  intro hmem
  rw [h.unlinked] at hmem
  obtain ⟨⟨q, c⟩, hqc, hc⟩ := List.mem_map.mp hmem
  have hdata := (hb.waiting q c hqc).2
  rw [show c = hash from hc, h.missing] at hdata
  cases hdata

theorem ready_self (hb : s.Base env) (hp : ∀ p, t.pprev hash = some p → t.Ready p) :
    t.Ready hash := by
  refine (forall_branch_iff (h.base hb).graded).mpr ⟨⟨h.data_self, h.not_waiting hb⟩, ?_⟩
  exact fun p hpp => hp p hpp

theorem base_addUnlinked (hb : s.Base env) : (t.addUnlinked hash).Base env := by
  have hbt := h.base hb
  unfold addUnlinked
  cases hp : t.pprev hash with
  | none => exact hbt
  | some p =>
    have hwait := h.not_waiting hb
    have hready : ∀ {x}, s.Ready x →
        ({ t with mapBlocksUnlinked := t.mapBlocksUnlinked ++ [(p, hash)] } : ChainIndex).Ready x :=
      fun hx => h.ready
        (u := { t with mapBlocksUnlinked := t.mapBlocksUnlinked ++ [(p, hash)] }) rfl
        (fun c hc => by simpa [h.unlinked, or_comm] using hc) hx
    refine ⟨hbt.graded, hbt.known, hbt.root, hbt.stored, hbt.level, hbt.counted, fun x hx => ?_, fun c hc => ?_, ?_,
      hready hb.genesis, fun q c hqc => ?_, ?_⟩
    · exact hready (hb.linked x (h.nChainTx_eq hb ▸ hx))
    · exact hready (hb.candidate c (h.candidates ▸ hc))
    · show ChainIndex.Ready _ t.tip
      rw [h.tip]
      exact hready hb.tip
    · rcases mem_append.mp hqc with hold | hnew
      · exact hbt.waiting q c hold
      · rw [mem_singleton] at hnew
        cases hnew
        exact ⟨hp, h.data_self⟩
    · show ((t.mapBlocksUnlinked ++ [(p, hash)]).map Prod.snd).Nodup
      rw [map_append, nodup_append']
      refine ⟨hbt.nodup, nodup_singleton _, ?_⟩
      simpa using hwait

end

end Stored

structure LinkTurn (env : ChainEnv) (x : uint256) (s t : ChainIndex) : Prop where
  map : t.mapBlockIndex = s.mapBlockIndex
  tip : t.tip = s.tip
  nChainTx : t.nChainTx =
    update s.nChainTx x (s.nChainTxPrev x + BitVec.ofNat 32 (s.nTx x))
  nSequenceId : t.nSequenceId = update s.nSequenceId x s.nBlockSequenceId
  unlinked : t.mapBlocksUnlinked = s.mapBlocksUnlinked.filter fun entry => decide (¬ entry.1 = x)
  mem : ∀ c, c ∈ t.setBlockIndexCandidates ↔
    c ∈ s.setBlockIndexCandidates ∨ (c = x ∧ t.worse env x t.tip = false)

theorem linkBlock_turn (env : ChainEnv) (s : ChainIndex) (x : uint256) :
    LinkTurn env x s ((s.linkBlock env x).releaseWaiting x) := by
  unfold linkBlock
  dsimp only
  -- the order reads neither the candidates nor the waiting blocks
  split_ifs with hw
  · refine ⟨rfl, rfl, rfl, rfl, rfl, fun c => ?_⟩
    have hworse : ((s.countBlock x).releaseWaiting x).worse env x
        ((s.countBlock x).releaseWaiting x).tip = true := hw
    rw [hworse]
    simp [releaseWaiting, countBlock]
  · rw [Bool.not_eq_true] at hw
    refine ⟨rfl, rfl, rfl, rfl, rfl, fun c => ?_⟩
    have hworse : (((s.countBlock x).insertCandidate x).releaseWaiting x).worse env x
        (((s.countBlock x).insertCandidate x).releaseWaiting x).tip = false := hw
    rw [hworse]
    simp [releaseWaiting, insertCandidate, countBlock, mem_insert_iff, or_comm]

theorem linkBlock_waitingFor (env : ChainEnv) (s : ChainIndex) (x : uint256) :
    (s.linkBlock env x).waitingFor x = s.waitingFor x := by
  unfold waitingFor
  rw [linkBlock_unlinked]

theorem linkQueue_rule (R : ChainIndex → List uint256 → Prop)
    (hturn : ∀ s t x queue, R s (x :: queue) → LinkTurn env x s t →
      R t (queue ++ s.waitingFor x)) (h : R s queue) :
    R (s.linkQueue env queue) [] := by
  fun_induction linkQueue env s queue with
  | case1 s => exact h
  | case2 s x queue linked ih =>
    apply ih
    have hnext := hturn s _ x queue h (linkBlock_turn env s x)
    rwa [← linkBlock_waitingFor env s x] at hnext

theorem linkQueue_map (env : ChainEnv) (s : ChainIndex) (queue : List uint256) :
    (s.linkQueue env queue).mapBlockIndex = s.mapBlockIndex := by
  apply linkQueue_rule (fun t _ => t.mapBlockIndex = s.mapBlockIndex)
  · intro u t x queue hu hturn
    exact hturn.map.trans hu
  · rfl

theorem mem_waitingFor {c : uint256} : c ∈ s.waitingFor x ↔ (x, c) ∈ s.mapBlocksUnlinked := by
  simp only [waitingFor, List.mem_map, mem_filter, decide_eq_true_eq, Prod.exists]
  constructor
  · intro hwaits
    obtain ⟨a, b, ⟨hmem, ha⟩, hb⟩ := hwaits
    rw [← ha, ← hb]
    exact hmem
  · intro hmem
    exact ⟨x, c, ⟨hmem, rfl⟩, rfl⟩

namespace LinkTurn

variable {x c : uint256}

section
variable (h : LinkTurn env x s t)
include h

theorem branch (y : uint256) : t.branch y = s.branch y :=
  branch_of_map h.map y

theorem waits_iff :
    c ∈ t.mapBlocksUnlinked.map Prod.snd ↔ ∃ p, p ≠ x ∧ (p, c) ∈ s.mapBlocksUnlinked := by
  rw [h.unlinked]
  simp [and_comm]

theorem ready {y : uint256} (hy : s.Ready y) : t.Ready y := by
  intro a ha
  rw [h.branch] at ha
  rw [status_of_map h.map]
  refine ⟨(hy a ha).1, fun hmem => (hy a ha).2 ?_⟩
  obtain ⟨p, -, hp⟩ := h.waits_iff.mp hmem
  exact List.mem_map.mpr ⟨(p, a), hp, rfl⟩

theorem ready_released (hb : s.Base env) (hx : s.Ready x) (hc : (x, c) ∈ s.mapBlocksUnlinked) :
    t.Ready c := by
  obtain ⟨hp, hdata⟩ := hb.waiting x c hc
  intro a ha
  rw [h.branch] at ha
  rcases (mem_branch_iff hb.graded).mp ha with rfl | ⟨p, hp', hap⟩
  · rw [status_of_map h.map]
    refine ⟨hdata, fun hmem => ?_⟩
    -- it stands in the map once, under `x`
    obtain ⟨q, hq, hqc⟩ := h.waits_iff.mp hmem
    exact hq (Option.some.inj ((hb.waiting q a hqc).1.symm.trans hp))
  · rw [hp] at hp'
    cases hp'
    have hready := h.ready hx
    exact hready a (by rw [h.branch]; exact hap)

theorem base (hb : s.Base env) (hx : s.Ready x) : t.Base env := by
  have hready : ∀ {y}, s.Ready y → t.Ready y := h.ready
  -- what `Base` says of the tree, it says of the map alone
  have hmap := h.map
  cases t
  cases hmap
  refine ⟨hb.graded, hb.known, hb.root, hb.stored, hb.level, hb.counted, fun y hy => ?_,
    fun c hc => ?_, ?_, hready hb.genesis, fun p c hpc => ?_, ?_⟩
  · by_cases hyx : y = x
    · rw [hyx]
      exact hready hx
    · rw [h.nChainTx, update_of_ne hyx] at hy
      exact hready (hb.linked y hy)
  · rcases (h.mem c).mp hc with hold | ⟨rfl, -⟩
    · exact hready (hb.candidate c hold)
    · exact hready hx
  · rw [h.tip]
    exact hready hb.tip
  · rw [h.unlinked] at hpc
    exact hb.waiting p c (mem_of_mem_filter hpc)
  · rw [h.unlinked]
    exact (filter_sublist.map Prod.snd).nodup hb.nodup

end

end LinkTurn

theorem linkQueue_base (hb : s.Base env) (hq : ∀ x ∈ queue, s.Ready x) :
    (s.linkQueue env queue).Base env := by
  refine (linkQueue_rule (fun s queue => s.Base env ∧ ∀ x ∈ queue, s.Ready x) ?_ ⟨hb, hq⟩).1
  intro s t x queue hR hturn
  obtain ⟨hbs, hqs⟩ := hR
  have hx : s.Ready x := hqs x mem_cons_self
  refine ⟨hturn.base hbs hx, fun y hy => ?_⟩
  rcases mem_append.mp hy with hold | hnew
  · exact hturn.ready (hqs y (mem_cons_of_mem x hold))
  · exact hturn.ready_released hbs hx (mem_waitingFor.mp hnew)

theorem received_cases (ht : s.storeData env block pos = t) :
    ((∀ p, t.pprev (block.getHash env.Hash) = some p → t.nChainTx p ≠ 0) ∧
      s.receivedBlockTransactions env block pos = t.linkQueue env [block.getHash env.Hash]) ∨
    ∃ p, t.pprev (block.getHash env.Hash) = some p ∧ t.nChainTx p = 0 ∧
      s.receivedBlockTransactions env block pos =
        if (t.status p).isValid BlockStatus.VALID_TREE then
          t.addUnlinked (block.getHash env.Hash)
        else t := by
  unfold receivedBlockTransactions
  dsimp only
  rw [ht]
  cases hp : t.pprev (block.getHash env.Hash) with
  | none => exact .inl ⟨fun p hpp => by simp at hpp, rfl⟩
  | some p =>
    by_cases hlinked : t.nChainTx p ≠ 0
    · refine .inl ⟨fun q hq => ?_, if_pos hlinked⟩
      cases hq
      exact hlinked
    · exact .inr ⟨p, rfl, not_not.mp hlinked, if_neg hlinked⟩

theorem received_base (hb : s.Base env)
    (hst : Stored (block.getHash env.Hash) s (s.storeData env block pos)) :
    (s.receivedBlockTransactions env block pos).Base env := by
  have hbt := hst.base hb
  rcases received_cases (rfl : s.storeData env block pos = _) with
    ⟨hlinked, heq⟩ | ⟨p, -, -, heq⟩
  · rw [heq]
    refine linkQueue_base hbt fun x hx => ?_
    rw [mem_singleton.mp hx]
    exact hst.ready_self hb fun p hp => hbt.linked p (hlinked p hp)
  · rw [heq]
    split_ifs
    · exact hst.base_addUnlinked hb
    · exact hbt

theorem acceptBlockHeader_cases {checks : Bool} (h : s.acceptBlockHeader env block checks = some t)
    :
    (t = s ∧ block.getHash env.Hash ∈ s.mapBlockIndex ∧
      (s.status (block.getHash env.Hash)).failed = false) ∨
    (Grown (block.getHash env.Hash) block.hashPrevBlock s t ∧
      (s.status block.hashPrevBlock).failed = false) := by
  unfold acceptBlockHeader at h
  dsimp only at h
  split_ifs at h with hknown hfailed hchecks hprev hprevFailed
  · cases h
    exact .inl ⟨rfl, hknown, Bool.not_eq_true _ ▸ hfailed⟩
  · cases h
    exact .inr ⟨grown_addToBlockIndex hknown hprev, Bool.not_eq_true _ ▸ hprevFailed⟩

structure BodyChecked (env : ChainEnv) (block : CBlock) (pos : CDiskBlockPos)
    (s t : ChainIndex) : Prop where
  known : block.getHash env.Hash ∈ s.mapBlockIndex
  missing : (s.status (block.getHash env.Hash)).fHaveData = false
  unfailed : (s.status (block.getHash env.Hash)).failed = false
  parent : (s.status block.hashPrevBlock).failed = false
  vtx : block.vtx.length ≠ 0
  outcome : t = s.updateStatus (block.getHash env.Hash) BlockStatus.markFailedValid ∨
    t = s.receivedBlockTransactions env block pos

theorem acceptBlockBody_cases {checks : BlockChecks}
    (hknown : block.getHash env.Hash ∈ s.mapBlockIndex)
    (hunfailed : (s.status (block.getHash env.Hash)).failed = false)
    (hparent : (s.status block.hashPrevBlock).failed = false) (hvtx : block.vtx.length ≠ 0) :
    s.acceptBlockBody env block checks pos = s ∨
      BodyChecked env block pos s (s.acceptBlockBody env block checks pos) := by
  unfold acceptBlockBody
  dsimp only
  split_ifs with hdata
  · exact .inl rfl
  · rw [Bool.not_eq_true] at hdata
    cases checks.body with
    | invalid => exact .inr ⟨hknown, hdata, hunfailed, hparent, hvtx, .inl rfl⟩
    | refused => exact .inl rfl
    | valid => exact .inr ⟨hknown, hdata, hunfailed, hparent, hvtx, .inr rfl⟩

/-- The block on which an event calls `ReconsiderBlock`. -/
def reconsiders (env : ChainEnv) (s : ChainIndex) : IndexEvent → Option uint256
  | .block block checks _ =>
    if block.vtx.length = 0 ∨ MAX_BLOCK_SIZE_CURRENT < block.vtx.length then none
    else if !checks.checked then none
    else s.checkpointParent env block
  | .reconsider hash => if hash ∈ s.mapBlockIndex then some hash else none
  | _ => none

inductive Handled (env : ChainEnv) (e : IndexEvent) (s : ChainIndex) : ChainIndex → Prop where
  | same : Handled env e s s
  | grown {hash prev : uint256} {t : ChainIndex} (h : Grown hash prev s t) : Handled env e s t
  | stored {block : CBlock} {checks : BlockChecks} {pos : CDiskBlockPos} {u t : ChainIndex}
    (he : e = .block block checks pos)
    (hu : u = s ∨ Grown (block.getHash env.Hash) block.hashPrevBlock s u)
    (h : BodyChecked env block pos u t) : Handled env e s t
  | activated {verdict : uint256 → ConnectVerdict} {t : ChainIndex}
    (h : s.activateBestChain env verdict = some t) : Handled env e s t
  | invalidated {hash : uint256} (h : hash ∈ s.mapBlockIndex) :
    Handled env e s (s.invalidateBlock env hash)
  | reconsidered {hash : uint256} (h : s.reconsiders env e = some hash) :
    Handled env e s (s.reconsiderBlock env hash)

theorem handled {e : IndexEvent} (h : s.handle env e = some t) : Handled env e s t := by
  cases e with
  | header block checks =>
    cases h
    cases hh : s.acceptBlockHeader env block checks with
    | none => exact .same
    | some u =>
      rcases acceptBlockHeader_cases hh with ⟨rfl, -, -⟩ | ⟨hgrown, -⟩
      · exact .same
      · exact .grown hgrown
  | block block checks pos =>
    cases h
    unfold processNewBlock acceptBlock
    split_ifs with hsize hchecked hgenesis hprev hfailed hwork
    · exact .same
    · exact .same
    · exact .same
    · cases hc : s.checkpointParent env block with
      | none => exact .same
      | some prev => exact .reconsidered (by rw [reconsiders, if_neg hsize, if_neg hchecked, hc])
    · exact .same
    · rw [Bool.not_eq_true] at hfailed
      have hvtx : block.vtx.length ≠ 0 := fun h => hsize (.inl h)
      cases hh : s.acceptBlockHeader env block checks.header with
      | none => exact .same
      | some u =>
        dsimp only
        rcases acceptBlockHeader_cases hh with ⟨rfl, hknown, hself⟩ | ⟨hgrown, -⟩
        · rcases acceptBlockBody_cases hknown hself hfailed hvtx with heq | hbody
          · rw [heq]
            exact .same
          · exact .stored rfl (.inl rfl) hbody
        · have hknown : block.getHash env.Hash ∈ u.mapBlockIndex :=
            (hgrown.mem _).mpr (.inl rfl)
          have hself : (u.status (block.getHash env.Hash)).failed = false := by
            rw [hgrown.status_self]
            rfl
          rw [← hgrown.failed] at hfailed
          rcases acceptBlockBody_cases hknown hself hfailed hvtx with heq | hbody
          · rw [heq]
            exact .grown hgrown
          · exact .stored rfl (.inr hgrown) hbody
    · exact .same
  | activate verdict => exact .activated h
  | invalidate hash =>
    cases h
    split_ifs with hmem
    · exact .invalidated hmem
    · exact .same
  | reconsider hash =>
    cases h
    split_ifs with hmem
    · exact .reconsidered (if_pos hmem)
    · exact .same

theorem markFailedValid_base (hb : s.Base env) (x : uint256) :
    (s.updateStatus x BlockStatus.markFailedValid).Base env := by
  refine hb.of_sameTree (sameTree_updateStatus keepsData_markFailedValid s x) (fun c hc => ?_) ?_
  · rw [updateStatus_candidates] at hc
    exact hb.candidate c hc
  · rw [updateStatus_tip]
    exact hb.tip

theorem BodyChecked.base (h : BodyChecked env block pos s t) (hb : s.Base env) : t.Base env := by
  rcases h.outcome with heq | heq
  · rw [heq]
    exact markFailedValid_base hb _
  · rw [heq]
    exact received_base hb (stored_storeData pos h.known h.missing h.unfailed h.vtx)

theorem checkpointParent_mem {prev : uint256} (h : s.checkpointParent env block = some prev) :
    prev ∈ s.mapBlockIndex := by
  unfold checkpointParent at h
  split_ifs at h with hc
  cases h
  exact hc.2.1

theorem reconsiders_mem {e : IndexEvent} (h : s.reconsiders env e = some x) : x ∈ s.mapBlockIndex := by
  cases e with
  | block block checks pos =>
    simp only [reconsiders] at h
    split_ifs at h
    exact checkpointParent_mem h
  | reconsider hash =>
    simp only [reconsiders] at h
    split_ifs at h with hmem
    cases h
    exact hmem
  | header block checks => cases h
  | activate verdict => cases h
  | invalidate hash => cases h

theorem handle_base (hb : s.Base env) {e : IndexEvent} (h : s.handle env e = some t) :
    t.Base env := by
  cases handled h with
  | same => exact hb
  | grown hgrown => exact hgrown.base hb
  | stored _ hu hbody =>
    refine hbody.base ?_
    rcases hu with rfl | hgrown
    · exact hb
    · exact hgrown.base hb
  | activated hactivate => exact (activateBestChain_base hb hactivate).1
  | invalidated _ => exact (invalidateBlock_base hb _).1
  | reconsidered hreconsider => exact (reconsiderBlock_spec hb (reconsiders_mem hreconsider)).base hb

def WhileRunning (P : ChainIndex → Prop) (s : Option ChainIndex) : Prop := ∀ t, s = some t → P t

instance decidableWhileRunning (P : ChainIndex → Prop) [∀ t, Decidable (P t)] :
    (s : Option ChainIndex) → Decidable (WhileRunning P s)
  | none => isTrue (by intro t ht; cases ht)
  | some t => decidable_of_iff (P t)
    ⟨fun h u hu => Option.some.inj hu ▸ h, fun h => h t rfl⟩

theorem step_base {s : Option ChainIndex} (hb : WhileRunning (Base env) s) (e : IndexEvent) :
    WhileRunning (Base env) (step env s e) := by
  intro t ht
  obtain ⟨u, hu, hut⟩ := bind_eq_some_iff.mp ht
  exact handle_base (hb u hu) hut

theorem linkQueue_singleton (h : s.mapBlocksUnlinked = []) :
    LinkTurn env x s (s.linkQueue env [x]) := by
  have hnone : (s.linkBlock env x).waitingFor x = [] := by
    rw [linkBlock_waitingFor, waitingFor, h]
    rfl
  rw [linkQueue, hnone, append_nil, linkQueue]
  exact linkBlock_turn env s x

structure OnlyGenesis (env : ChainEnv) (s : ChainIndex) : Prop where
  pprev : ∀ h, s.pprev h = none
  known : ∀ h, h ∈ s.mapBlockIndex ↔ h = env.hashGenesisBlock
  status : s.status env.hashGenesisBlock =
    { nValid := BlockStatus.VALID_TRANSACTIONS, fHaveData := true }
  nTx : s.nTx env.hashGenesisBlock = 1
  nChainTx : s.nChainTx = update (fun _ => 0) env.hashGenesisBlock 1
  tip : s.tip = env.hashGenesisBlock
  candidates : ∀ c, c ∈ s.setBlockIndexCandidates ↔ c = env.hashGenesisBlock
  unlinked : s.mapBlocksUnlinked = []

theorem OnlyGenesis.status_ne (h : OnlyGenesis env s) (hx : x ≠ env.hashGenesisBlock) :
    s.status x = {} :=
  status_of_notMem (mt (h.known x).mp hx)

theorem OnlyGenesis.nTx_ne (h : OnlyGenesis env s) (hx : x ≠ env.hashGenesisBlock) :
    s.nTx x = 0 := by
  have hnone : s.mapBlockIndex.lookup x = none := by
    rw [← not_isSome_iff_eq_none, lookup_isSome]
    exact mt (h.known x).mp hx
  simp [ChainIndex.nTx, hnone]

theorem OnlyGenesis.ready (h : OnlyGenesis env s) : s.Ready env.hashGenesisBlock := by
  intro a ha
  have hbranch : s.branch env.hashGenesisBlock = [env.hashGenesisBlock] :=
    branch_of_root (h.pprev _)
  rw [hbranch, mem_singleton] at ha
  rw [ha, h.status, h.unlinked]
  exact ⟨rfl, not_mem_nil⟩

theorem OnlyGenesis.base (h : OnlyGenesis env s) : s.Base env where
  graded x p hp := by
    rw [h.pprev] at hp
    cases hp
  known x p hp := by
    rw [h.pprev] at hp
    cases hp
  root x hx _ := (h.known x).mp hx
  stored x hx := by
    rw [(h.known x).mp (mem_of_data hx), h.status]
  level x hx := by
    rw [(h.known x).mp hx, h.status]
    decide
  counted x := by
    by_cases hx : x = env.hashGenesisBlock
    · rw [hx, h.status, h.nTx]
      decide
    · rw [h.status_ne hx, h.nTx_ne hx]
      decide
  linked x hx := by
    by_cases hh : x = env.hashGenesisBlock
    · rw [hh]
      exact h.ready
    · rw [h.nChainTx, update_of_ne hh] at hx
      exact absurd rfl hx
  candidate c hc := by
    rw [(h.candidates c).mp hc]
    exact h.ready
  tip := by
    rw [h.tip]
    exact h.ready
  genesis := h.ready
  waiting p c hpc := by
    rw [h.unlinked] at hpc
    cases hpc
  nodup := by
    rw [h.unlinked]
    exact nodup_nil

structure HeaderOnly (env : ChainEnv) (s : ChainIndex) : Prop where
  pprev : ∀ h, s.pprev h = none
  known : ∀ h, h ∈ s.mapBlockIndex ↔ h = env.hashGenesisBlock
  status : s.status env.hashGenesisBlock = { nValid := BlockStatus.VALID_TREE }
  nChainTx : s.nChainTx = fun _ => 0
  tip : s.tip = env.hashGenesisBlock
  candidates : s.setBlockIndexCandidates = []
  unlinked : s.mapBlocksUnlinked = []

theorem headerOnly_genesis (env : ChainEnv) :
    HeaderOnly env ((emptyIndex env).addToBlockIndex env env.genesis) := by
  have hfresh : env.genesis.getHash env.Hash ∉ (∅ : BlockMap) := notMem_empty _
  have hprev : (∅ : BlockMap).lookup env.genesis.hashPrevBlock = none := lookup_empty _
  obtain ⟨index, hmap, hpprev, hstatus⟩ : ∃ index : CBlockIndex,
      Alqo.addToBlockIndex env.Hash env.mapProofOfStake ∅ env.genesis =
        (∅ : BlockMap).insert env.hashGenesisBlock index ∧
      index.pprev = none ∧ index.nStatus = { nValid := BlockStatus.VALID_TREE } := by
    simp only [Alqo.addToBlockIndex, hfresh, if_false, hprev]
    exact ⟨_, rfl, rfl, rfl⟩
  have hlookup : ∀ h, ((∅ : BlockMap).insert env.hashGenesisBlock index).lookup h =
      if h = env.hashGenesisBlock then some index else none := by
    intro h
    by_cases hh : h = env.hashGenesisBlock
    · rw [if_pos hh, hh, lookup_insert]
    · rw [if_neg hh, lookup_insert_ne hh, lookup_empty]
  have hs : (emptyIndex env).addToBlockIndex env env.genesis = { emptyIndex env with
        mapBlockIndex := (∅ : BlockMap).insert env.hashGenesisBlock index
        nChainTx := update (fun _ => 0) env.hashGenesisBlock 0
        nSequenceId := update (fun _ => 0) env.hashGenesisBlock 0 } := by
    have hfresh' : env.genesis.getHash env.Hash ∉ (emptyIndex env).mapBlockIndex := hfresh
    rw [← hmap, addToBlockIndex]
    rw [if_neg hfresh']
    rfl
  rw [hs]
  refine ⟨fun h => ?_, fun h => ?_, ?_, update_eq_self _ _, rfl, rfl, rfl⟩
  · simp only [ChainIndex.pprev, hlookup]
    by_cases hh : h = env.hashGenesisBlock
    · simp [hh, hpprev]
    · simp [hh]
  · rw [mem_iff_lookup, hlookup]
    by_cases hh : h = env.hashGenesisBlock
    · simp [hh]
    · simp [hh]
  · simp only [ChainIndex.status, hlookup, if_true, map_some, getD_some]
    exact hstatus

theorem HeaderOnly.received (h : HeaderOnly env s) (pos : CDiskBlockPos) :
    OnlyGenesis env (s.receivedBlockTransactions env env.genesis pos) := by
  have hvtx : env.genesis.vtx.length ≠ 0 := by
    rw [env.genesis_vtx]
    decide
  have hstored : Stored env.hashGenesisBlock s (s.storeData env env.genesis pos) :=
    stored_storeData pos ((h.known _).mpr rfl)
      (show (s.status env.hashGenesisBlock).fHaveData = false by rw [h.status])
      (show (s.status env.hashGenesisBlock).failed = false by rw [h.status]; rfl) hvtx
  have hroot : ∀ x, (s.storeData env env.genesis pos).pprev x = none := by
    intro x
    rw [hstored.pprev]
    exact h.pprev x
  have hturn : LinkTurn env env.hashGenesisBlock (s.storeData env env.genesis pos)
      (s.receivedBlockTransactions env env.genesis pos) := by
    rcases received_cases (rfl : s.storeData env env.genesis pos = _) with ⟨-, heq⟩ | ⟨p, hp, -⟩
    · rw [heq]
      apply linkQueue_singleton
      rw [hstored.unlinked]
      exact h.unlinked
    · rw [hroot] at hp
      cases hp
  have htx : (s.storeData env env.genesis pos).nTx env.hashGenesisBlock = 1 := by
    obtain ⟨index, hl⟩ := mem_iff_lookup.mp ((h.known env.hashGenesisBlock).mpr rfl)
    have hlookup := lookup_received pos hl env.hashGenesisBlock
    rw [if_pos (show env.hashGenesisBlock = env.genesis.getHash env.Hash from rfl)] at hlookup
    simp only [ChainIndex.nTx, hlookup, map_some, getD_some]
    exact env.genesis_vtx
  refine ⟨fun x => ?_, fun x => ?_, ?_, ?_, ?_, ?_, fun c => ?_, ?_⟩
  · rw [pprev_of_map hturn.map]
    exact hroot x
  · rw [hturn.map, hstored.mem]
    exact h.known x
  · rw [status_of_map hturn.map, hstored.status_self, h.status]
    decide
  · rw [← htx]
    simp only [ChainIndex.nTx, hturn.map]
  · have hprev : (s.storeData env env.genesis pos).nChainTxPrev env.hashGenesisBlock = 0 := by
      simp only [nChainTxPrev, hroot]
    rw [hturn.nChainTx, hprev, htx, hstored.nChainTx, h.nChainTx, update_idem]
    rfl
  · rw [hturn.tip, hstored.tip]
    exact h.tip
  · -- the tip is the block itself, which is no worse than itself
    have hself : (s.receivedBlockTransactions env env.genesis pos).worse env env.hashGenesisBlock
        (s.receivedBlockTransactions env env.genesis pos).tip = false := by
      rw [hturn.tip, hstored.tip, h.tip]
      simp [worse]
    rw [hturn.mem, hself, hstored.candidates, h.candidates]
    simp
  · rw [hturn.unlinked, hstored.unlinked, h.unlinked]
    rfl

theorem initBlockIndex_onlyGenesis (env : ChainEnv) (pos : CDiskBlockPos) :
    OnlyGenesis env (initBlockIndex env pos) :=
  (headerOnly_genesis env).received pos

theorem init_base (env : ChainEnv) (pos : CDiskBlockPos) :
    WhileRunning (Base env) (some (initBlockIndex env pos)) := by
  intro t ht
  cases ht
  exact (initBlockIndex_onlyGenesis env pos).base

theorem base_of_run {events : List IndexEvent}
    (hrun : run (step env) (some (initBlockIndex env pos)) events = some s) : s.Base env := by
  have hkeep : ∀ (u : Option ChainIndex) (e : IndexEvent),
      WhileRunning (Base env) u → WhileRunning (Base env) (step env u e) :=
    fun _ e hu => step_base hu e
  exact run_induct hkeep _ events (init_base env pos) s hrun

theorem genesis_mem_branch (hb : s.Base env) (hx : x ∈ s.mapBlockIndex) :
    env.hashGenesisBlock ∈ s.branch x := by
  induction x using branch_induction hb.graded with
  | step x ih =>
    apply (mem_branch_iff hb.graded).mpr
    cases hp : s.pprev x with
    | none => exact .inl (hb.root x hx hp).symm
    | some p => exact .inr ⟨p, rfl, ih p hp (hb.known x p hp)⟩

theorem contains_genesis (hb : s.Base env) : s.contains env.hashGenesisBlock = true :=
  contains_iff.mpr (genesis_mem_branch hb hb.tip.mem)

def nonceHash (bytes : Bytes) : uint256 := BitVec.ofNat 256 (leValue (bytes.drop 76))

def nonceBlock (hashPrevBlock : uint256) (nNonce nBits nTx : Nat) : CBlock where
  hashPrevBlock := hashPrevBlock
  hashMerkleRoot := 0
  nTime := 0
  nBits := BitVec.ofNat 32 nBits
  nNonce := nNonce
  vtx := List.replicate nTx { hash := 0, vin := [], vout := [] }

def nonceEnv : ChainEnv where
  Hash := nonceHash
  mapProofOfStake := fun _ => 0
  address := ⟨BitVec.toNat, fun _ _ h => BitVec.eq_of_toNat_eq h⟩
  genesis := nonceBlock 0 0 0x1e0fffff 1
  genesis_vtx := rfl
  mapCheckpoints := fun _ => none
  fCheckpointsEnabled := true

def nonceGenesis : Option ChainIndex := some (initBlockIndex nonceEnv ⟨0, 8⟩)

theorem nonceBlock_getHash (hashPrevBlock : uint256) {nNonce : Nat} (nBits nTx : Nat)
    (h : nNonce < 2 ^ 32) :
    (nonceBlock hashPrevBlock nNonce nBits nTx).getHash nonceHash = BitVec.ofNat 256 nNonce := by
  have hdrop : (nonceBlock hashPrevBlock nNonce nBits nTx).bytes.drop 76 = leBytes 4 nNonce := by
    apply drop_left'
    simp [length_leBytes]
  show BitVec.ofNat 256 (leValue _) = _
  rw [hdrop, leValue_leBytes 4 nNonce h]

end Alqo.ChainIndex
