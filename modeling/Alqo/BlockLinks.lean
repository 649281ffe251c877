import Alqo.ChainIndex
import Alqo.Lib.Runs

/-!
# What the block index keeps (main.cpp)

Selecting a chain leaves the tree, the counters and the waiting blocks alone (`SameTree`).
Throughout, candidates, linked blocks and the tip stand on stored blocks that no longer wait
(`Base`).
-/

namespace Alqo.ChainIndex
open Lib.Branches List AList Option

variable {s t : ChainIndex} {h x c m a pindex : uint256} {f : BlockStatus → BlockStatus}
  {l above rest : List uint256} {env : ChainEnv} {r : Option uint256}

theorem mem_iff_lookup : h ∈ s.mapBlockIndex ↔ ∃ index, s.mapBlockIndex.lookup h = some index := by
  rw [← lookup_isSome, isSome_iff_exists]

theorem status_of_notMem (hh : h ∉ s.mapBlockIndex) : s.status h = {} := by
  unfold status
  cases hl : s.mapBlockIndex.lookup h with
  | none => rfl
  | some index => exact absurd (mem_iff_lookup.mpr ⟨index, hl⟩) hh

theorem mem_of_data (hd : (s.status h).fHaveData = true) : h ∈ s.mapBlockIndex := by
  by_contra hh
  rw [status_of_notMem hh] at hd
  cases hd

theorem lookup_updateStatus (s : ChainIndex) (x h : uint256) (f : BlockStatus → BlockStatus) :
    (s.updateStatus x f).mapBlockIndex.lookup h =
      if h = x then (s.mapBlockIndex.lookup h).map fun index =>
        { index with nStatus := f index.nStatus }
      else s.mapBlockIndex.lookup h := by
  unfold updateStatus
  cases hl : s.mapBlockIndex.lookup x with
  | none =>
    by_cases hx : h = x
    · rw [if_pos hx, hx, hl, map_none]
    · rw [if_neg hx]
  | some index =>
    by_cases hx : h = x
    · rw [if_pos hx, hx, hl, lookup_insert, map_some]
    · rw [if_neg hx, lookup_insert_ne hx]

theorem status_updateStatus (hx : x ∈ s.mapBlockIndex) :
    (s.updateStatus x f).status h = if h = x then f (s.status h) else s.status h := by
  unfold status
  rw [lookup_updateStatus]
  by_cases hh : h = x
  · subst hh
    obtain ⟨index, hl⟩ := mem_iff_lookup.mp hx
    simp [hl]
  · simp [hh]

theorem updateStatus_of_notMem (hx : x ∉ s.mapBlockIndex) : s.updateStatus x f = s := by
  unfold updateStatus
  cases hl : s.mapBlockIndex.lookup x with
  | none => rfl
  | some index => exact absurd (mem_iff_lookup.mpr ⟨index, hl⟩) hx

theorem status_updateStatus_ne (hh : h ≠ x) : (s.updateStatus x f).status h = s.status h := by
  unfold status
  rw [lookup_updateStatus, if_neg hh]

@[simp] theorem updateStatus_tip (s : ChainIndex) (x : uint256) (f : BlockStatus → BlockStatus) :
    (s.updateStatus x f).tip = s.tip := by
  rw [updateStatus_eq]

structure SameTree (s t : ChainIndex) : Prop where
  mem : ∀ h, h ∈ t.mapBlockIndex ↔ h ∈ s.mapBlockIndex
  pprev : t.pprev = s.pprev
  nHeight : t.nHeight = s.nHeight
  nChainWork : t.nChainWork = s.nChainWork
  nTx : t.nTx = s.nTx
  data : ∀ h, (t.status h).fHaveData = (s.status h).fHaveData
  level : ∀ h, (s.status h).nValid ≤ (t.status h).nValid
  nChainTx : t.nChainTx = s.nChainTx
  nSequenceId : t.nSequenceId = s.nSequenceId
  unlinked : t.mapBlocksUnlinked = s.mapBlocksUnlinked

namespace SameTree

variable {s t u : ChainIndex}

theorem refl (s : ChainIndex) : SameTree s s :=
  ⟨fun _ => Iff.rfl, rfl, rfl, rfl, rfl, fun _ => rfl, fun _ => le_rfl, rfl, rfl, rfl⟩

theorem trans (h : SameTree s t) (h' : SameTree t u) : SameTree s u where
  mem x := (h'.mem x).trans (h.mem x)
  pprev := h'.pprev.trans h.pprev
  nHeight := h'.nHeight.trans h.nHeight
  nChainWork := h'.nChainWork.trans h.nChainWork
  nTx := h'.nTx.trans h.nTx
  data x := (h'.data x).trans (h.data x)
  level x := (h.level x).trans (h'.level x)
  nChainTx := h'.nChainTx.trans h.nChainTx
  nSequenceId := h'.nSequenceId.trans h.nSequenceId
  unlinked := h'.unlinked.trans h.unlinked

theorem branch (h : SameTree s t) (x : uint256) : t.branch x = s.branch x := by
  unfold ChainIndex.branch
  rw [h.pprev, h.nHeight]

theorem worse (h : SameTree s t) (env : ChainEnv) (a b : uint256) :
    t.worse env a b = s.worse env a b := by
  unfold ChainIndex.worse
  rw [h.nChainWork, h.nSequenceId]

end SameTree

theorem read_updateStatus {α : Type} (g : CBlockIndex → α)
    (hg : ∀ index status, g { index with nStatus := status } = g index) (s : ChainIndex)
    (x h : uint256) (f : BlockStatus → BlockStatus) :
    ((s.updateStatus x f).mapBlockIndex.lookup h).map g = (s.mapBlockIndex.lookup h).map g := by
  rw [lookup_updateStatus]
  by_cases hh : h = x
  · rw [if_pos hh, Option.map_map]
    congr 1
    funext index
    exact hg index (f index.nStatus)
  · rw [if_neg hh]

def KeepsData (f : BlockStatus → BlockStatus) : Prop :=
  ∀ st, (f st).fHaveData = st.fHaveData ∧ st.nValid ≤ (f st).nValid

theorem keepsData_markFailedValid : KeepsData BlockStatus.markFailedValid :=
  fun _ => ⟨rfl, le_rfl⟩

theorem keepsData_markFailedChild : KeepsData BlockStatus.markFailedChild :=
  fun _ => ⟨rfl, le_rfl⟩

theorem keepsData_clearFailed : KeepsData BlockStatus.clearFailed := fun _ => ⟨rfl, le_rfl⟩

theorem keepsData_raiseValidity (n : Nat) :
    KeepsData fun st => BlockStatus.raiseValidity { st with fHaveUndo := true } n := by
  intro st
  simp only [BlockStatus.raiseValidity]
  split_ifs with hfailed hlt
  · exact ⟨rfl, le_rfl⟩
  · exact ⟨rfl, hlt.le⟩
  · exact ⟨rfl, le_rfl⟩

theorem sameTree_updateStatus (hf : KeepsData f) (s : ChainIndex) (x : uint256) :
    SameTree s (s.updateStatus x f) := by
  have hstatus : ∀ h, ((s.updateStatus x f).status h).fHaveData = (s.status h).fHaveData ∧
      (s.status h).nValid ≤ ((s.updateStatus x f).status h).nValid := by
    intro h
    by_cases hx : x ∈ s.mapBlockIndex
    · rw [status_updateStatus hx]
      split_ifs
      · exact hf (s.status h)
      · exact ⟨rfl, le_rfl⟩
    · rw [updateStatus_of_notMem hx]
      exact ⟨rfl, le_rfl⟩
  refine ⟨fun h => ?_, ?_, ?_, ?_, ?_, fun h => (hstatus h).1, fun h => (hstatus h).2,
    by rw [updateStatus_eq], by rw [updateStatus_eq], by rw [updateStatus_eq]⟩
  · rw [← lookup_isSome, ← lookup_isSome, lookup_updateStatus]
    split_ifs
    · rw [isSome_map]
    · rfl
  · funext h
    have hjoin : ∀ o : Option CBlockIndex,
        (o.bind fun index => index.pprev) = (o.map fun index => index.pprev).join := by
      intro o
      cases o with
      | none => rfl
      | some index => rfl
    simp only [ChainIndex.pprev, hjoin,
      read_updateStatus (fun index => index.pprev) (fun _ _ => rfl)]
  · funext h
    simp only [ChainIndex.nHeight, read_updateStatus (fun index => index.nHeight) (fun _ _ => rfl)]
  · funext h
    simp only [ChainIndex.nChainWork,
      read_updateStatus (fun index => index.nChainWork) (fun _ _ => rfl)]
  · funext h
    simp only [ChainIndex.nTx, read_updateStatus (fun index => index.nTx) (fun _ _ => rfl)]

theorem sameTree_tip (s : ChainIndex) (x : uint256) : SameTree s { s with tip := x } :=
  ⟨fun _ => Iff.rfl, rfl, rfl, rfl, rfl, fun _ => rfl, fun _ => le_rfl, rfl, rfl, rfl⟩

theorem sameTree_candidates (s : ChainIndex) (l : List uint256) :
    SameTree s { s with setBlockIndexCandidates := l } :=
  ⟨fun _ => Iff.rfl, rfl, rfl, rfl, rfl, fun _ => rfl, fun _ => le_rfl, rfl, rfl, rfl⟩

theorem sameTree_eraseCandidate (s : ChainIndex) (x : uint256) : SameTree s (s.eraseCandidate x) :=
  sameTree_candidates s _

theorem sameTree_insertCandidate (s : ChainIndex) (x : uint256) :
    SameTree s (s.insertCandidate x) :=
  sameTree_candidates s _

@[simp] theorem mem_eraseCandidate : c ∈ (s.eraseCandidate x).setBlockIndexCandidates ↔
      c ∈ s.setBlockIndexCandidates ∧ c ≠ x := by
  simp [eraseCandidate]

@[simp] theorem mem_insertCandidate : c ∈ (s.insertCandidate x).setBlockIndexCandidates ↔
      c = x ∨ c ∈ s.setBlockIndexCandidates := by
  simp [insertCandidate, mem_insert_iff]

theorem sameTree_foldl (op : ChainIndex → uint256 → ChainIndex) (hop : ∀ s x, SameTree s (op s x))
    (l : List uint256) (s : ChainIndex) : SameTree s (l.foldl op s) := by
  induction l generalizing s with
  | nil => exact SameTree.refl s
  | cons x l ih => exact (hop s x).trans (ih (op s x))

theorem foldl_keeps {α : Type} (g : ChainIndex → α) {op : ChainIndex → uint256 → ChainIndex}
    (hop : ∀ s x, g (op s x) = g s) (l : List uint256) (s : ChainIndex) : g (l.foldl op s) = g s := by
  induction l generalizing s with
  | nil => rfl
  | cons x l ih => exact (ih (op s x)).trans (hop s x)

theorem status_foldl {op : ChainIndex → uint256 → ChainIndex} (hop : ∀ s x, SameTree s (op s x))
    (hstatus : ∀ s x h, x ∈ s.mapBlockIndex →
      (op s x).status h = if h = x then f (s.status h) else s.status h)
    (hf : ∀ st, f (f st) = f st) (hl : ∀ x ∈ l, x ∈ s.mapBlockIndex) (h : uint256) :
    (l.foldl op s).status h = if h ∈ l then f (s.status h) else s.status h := by
  induction l generalizing s with
  | nil => rfl
  | cons x l ih =>
    have hrest : ∀ y ∈ l, y ∈ (op s x).mapBlockIndex := fun y hy =>
      ((hop s x).mem y).mpr (hl y (mem_cons_of_mem x hy))
    rw [foldl_cons, ih hrest, hstatus s x h (hl x mem_cons_self)]
    by_cases hh : h = x
    · simp [hh, hf]
    · simp [hh]

theorem sameTree_disconnectFailed (s : ChainIndex) (x : uint256) :
    SameTree s (s.disconnectFailed x) :=
  (sameTree_updateStatus keepsData_markFailedChild s x).trans (sameTree_eraseCandidate _ x)

theorem disconnectFailed_tip (s : ChainIndex) (x : uint256) : (s.disconnectFailed x).tip = s.tip :=
  updateStatus_tip s x _

theorem mem_foldl_disconnectFailed : c ∈ (l.foldl disconnectFailed s).setBlockIndexCandidates ↔
      c ∈ s.setBlockIndexCandidates ∧ c ∉ l :=
  @mem_foldl_dropBlock s c l true

theorem dropChain_of_failed {pindexTest : uint256} (h : (s.status pindexTest).failed = true) :
    s.dropChain above pindexTest = (above.foldl disconnectFailed s).eraseCandidate pindexTest := by
  unfold dropChain
  rw [h]
  rfl

theorem status_foldl_disconnectFailed (hl : ∀ x ∈ l, x ∈ s.mapBlockIndex) (h : uint256) :
    (l.foldl disconnectFailed s).status h =
      if h ∈ l then (s.status h).markFailedChild else s.status h :=
  status_foldl sameTree_disconnectFailed (fun _ _ _ hx => status_updateStatus hx) (fun _ => rfl) hl h

def Ready (s : ChainIndex) (h : uint256) : Prop :=
  ∀ a ∈ s.branch h, (s.status a).fHaveData = true ∧ a ∉ s.mapBlocksUnlinked.map Prod.snd

structure Base (env : ChainEnv) (s : ChainIndex) : Prop where
  graded : Graded s.pprev s.nHeight
  known : ∀ h p, s.pprev h = some p → p ∈ s.mapBlockIndex
  root : ∀ h ∈ s.mapBlockIndex, s.pprev h = none → h = env.hashGenesisBlock
  stored : ∀ h, (s.status h).fHaveData = true → BlockStatus.VALID_TRANSACTIONS ≤ (s.status h).nValid
  level : ∀ h ∈ s.mapBlockIndex, BlockStatus.VALID_TREE ≤ (s.status h).nValid
  counted : ∀ h, (s.status h).fHaveData = true ↔ s.nTx h ≠ 0
  linked : ∀ h, s.nChainTx h ≠ 0 → s.Ready h
  candidate : ∀ c ∈ s.setBlockIndexCandidates, s.Ready c
  tip : s.Ready s.tip
  genesis : s.Ready env.hashGenesisBlock
  waiting : ∀ p c, (p, c) ∈ s.mapBlocksUnlinked → s.pprev c = some p ∧ (s.status c).fHaveData = true
  nodup : (s.mapBlocksUnlinked.map Prod.snd).Nodup

theorem self_mem (s : ChainIndex) (h : uint256) : h ∈ s.branch h := self_mem_branch h

theorem Ready.data (hr : s.Ready h) : (s.status h).fHaveData = true :=
  (hr h (s.self_mem h)).1

theorem Ready.mem (hr : s.Ready h) : h ∈ s.mapBlockIndex :=
  mem_of_data hr.data

theorem Ready.of_mem (hb : s.Base env) (hr : s.Ready h) (ha : a ∈ s.branch h) :
    s.Ready a :=
  fun b hba => hr b (mem_branch_trans hb.graded hba ha)

theorem SameTree.ready (h : SameTree s t) (x : uint256) : t.Ready x ↔ s.Ready x := by
  unfold Ready
  rw [h.branch, h.unlinked]
  simp only [h.data]

theorem Base.of_sameTree (hb : s.Base env) (h : SameTree s t)
    (hc : ∀ c ∈ t.setBlockIndexCandidates, s.Ready c) (ht : s.Ready t.tip) : t.Base env where
  graded := by
    rw [h.pprev, h.nHeight]
    exact hb.graded
  known x p hp := by
    rw [h.pprev] at hp
    exact (h.mem p).mpr (hb.known x p hp)
  root x hx hp := by
    rw [h.pprev] at hp
    exact hb.root x ((h.mem x).mp hx) hp
  stored x hx := by
    rw [h.data] at hx
    exact (hb.stored x hx).trans (h.level x)
  level x hx := (hb.level x ((h.mem x).mp hx)).trans (h.level x)
  counted x := by
    rw [h.data, h.nTx]
    exact hb.counted x
  linked x hx := by
    rw [h.nChainTx] at hx
    exact (h.ready x).mpr (hb.linked x hx)
  candidate c hm := (h.ready c).mpr (hc c hm)
  tip := (h.ready t.tip).mpr ht
  genesis := (h.ready _).mpr hb.genesis
  waiting p c hpc := by
    rw [h.unlinked] at hpc
    rw [h.pprev, h.data]
    exact hb.waiting p c hpc
  nodup := by
    rw [h.unlinked]
    exact hb.nodup

theorem findMostWorkChain_rule (inv : ChainIndex → Prop)
    (hround : ∀ s pindexNew pindexTest rest, inv s → s.bestCandidate env = some pindexNew →
      ((s.offChain pindexNew).dropWhile fun x => !s.unusable x) = pindexTest :: rest →
      inv (s.dropChain ((s.offChain pindexNew).takeWhile fun x => !s.unusable x) pindexTest)) (hs : inv s)
    (h : s.findMostWorkChain env = some (r, t)) :
    inv t ∧ t.bestCandidate env = r ∧
      ∀ m, r = some m → ∀ x ∈ t.offChain m, t.unusable x = false ∧ t.asserted x = true := by
  fun_induction findMostWorkChain env s with
  | case1 s hbest =>
    cases h
    exact ⟨hs, hbest, fun m hm => by cases hm⟩
  | case2 s pindexNew hbest above htest hall =>
    cases h
    refine ⟨hs, hbest, fun m hm x hx => ?_⟩
    cases hm
    have habove : (t.offChain pindexNew).takeWhile (fun x => !t.unusable x) =
        t.offChain pindexNew := by
      have := takeWhile_append_dropWhile (p := fun x => !t.unusable x)
        (l := t.offChain pindexNew)
      rwa [htest, append_nil] at this
    have hx' := hx
    rw [← habove] at hx'
    exact ⟨by simpa using mem_takeWhile_imp hx', List.all_eq_true.mp hall x hx'⟩
  | case3 s pindexNew hbest above htest hall => cases h
  | case4 s pindexNew hbest above pindexTest rest htest hall ih =>
    exact ih (hround s pindexNew pindexTest rest hs hbest htest) h
  | case5 s pindexNew hbest above pindexTest rest htest hall => cases h

theorem offChain_split {p : uint256 → Bool} (h : (s.offChain m).dropWhile p = x :: rest) :
    ∃ below, s.branch m = (s.offChain m).takeWhile p ++ x :: below := by
  have hoff : s.branch m = s.offChain m ++ (s.branch m).dropWhile fun x => !s.contains x :=
    takeWhile_append_dropWhile.symm
  have hsplit : s.offChain m = (s.offChain m).takeWhile p ++ x :: rest := by
    rw [← h]
    exact takeWhile_append_dropWhile.symm
  refine ⟨rest ++ (s.branch m).dropWhile fun x => !s.contains x, ?_⟩
  conv_lhs => rw [hoff, hsplit]
  simp

theorem dropWhile_head (h : ((s.offChain m).dropWhile fun x => !s.unusable x) = x :: rest) :
    s.unusable x = true := by
  have hne : ((s.offChain m).dropWhile fun x => !s.unusable x) ≠ [] := by
    rw [h]
    exact cons_ne_nil x rest
  have hx := head_dropWhile_not (fun x => !s.unusable x) hne
  simpa [h] using hx

theorem failed_of_unusable (hb : s.Base env) {below : List uint256}
    (hm : m ∈ s.setBlockIndexCandidates) (hsplit : s.branch m = above ++ x :: below)
    (hx : s.unusable x = true) :
    (s.status x).failed = true := by
  have hxm : x ∈ s.branch m := by
    rw [hsplit]
    exact mem_append_right above mem_cons_self
  have hdata : (s.status x).fHaveData = true := (hb.candidate m hm x hxm).1
  simpa [unusable, hdata] using hx

structure Dropped (s : ChainIndex) (above : List uint256) (x : uint256) : Prop where
  failed : (s.status x).failed = true
  known : ∀ y ∈ above, y ∈ s.mapBlockIndex
  below : ∀ y ∈ above, x ∈ s.branch y
  clean : ∀ y ∈ above, s.unusable y = false

theorem dropped_of_round (hb : s.Base env) (hbest : s.bestCandidate env = some m)
    (htest : ((s.offChain m).dropWhile fun x => !s.unusable x) = x :: rest) :
    s.Dropped ((s.offChain m).takeWhile fun x => !s.unusable x) x := by
  obtain ⟨below, hsplit⟩ := offChain_split htest
  have hm : m ∈ s.setBlockIndexCandidates := argmax_mem hbest
  refine ⟨failed_of_unusable hb hm hsplit (dropWhile_head htest), fun y hy => ?_, fun y hy => ?_,
    fun y hy => by simpa using mem_takeWhile_imp hy⟩
  · have hym : y ∈ s.branch m := by
      rw [hsplit]
      exact mem_append_left _ hy
    exact mem_of_data (hb.candidate m hm y hym).1
  · exact mem_branch_of_append hb.graded hsplit hy

theorem Dropped.sameTree (h : s.Dropped above x) : SameTree s (s.dropChain above x) := by
  rw [dropChain_of_failed h.failed]
  exact (sameTree_foldl disconnectFailed sameTree_disconnectFailed above s).trans (sameTree_eraseCandidate _ x)

theorem Dropped.tip (h : s.Dropped above x) : (s.dropChain above x).tip = s.tip := by
  rw [dropChain_of_failed h.failed]
  exact foldl_keeps ChainIndex.tip disconnectFailed_tip above s

theorem Dropped.status (h : s.Dropped above x) (y : uint256) : (s.dropChain above x).status y =
      if y ∈ above then (s.status y).markFailedChild else s.status y := by
  rw [dropChain_of_failed h.failed]
  exact status_foldl_disconnectFailed h.known y

theorem Dropped.base (h : s.Dropped above x) (hb : s.Base env) :
    (s.dropChain above x).Base env := by
  refine hb.of_sameTree h.sameTree (fun c hc => hb.candidate c (mem_dropChain.mp hc).1) ?_
  rw [h.tip]
  exact hb.tip

theorem findMostWorkChain_base (hb : s.Base env) (h : s.findMostWorkChain env = some (r, t)) :
    t.Base env ∧ SameTree s t ∧ t.tip = s.tip ∧
      ∀ c ∈ t.setBlockIndexCandidates, c ∈ s.setBlockIndexCandidates := by
  refine (findMostWorkChain_rule (fun u => u.Base env ∧ SameTree s u ∧ u.tip = s.tip ∧
    ∀ c ∈ u.setBlockIndexCandidates, c ∈ s.setBlockIndexCandidates) ?_
    ⟨hb, SameTree.refl s, rfl, fun c hc => hc⟩ h).1
  intro u m x rest hu hbest htest
  obtain ⟨hbu, hsame, htip, hsub⟩ := hu
  have hd := dropped_of_round hbu hbest htest
  exact ⟨hd.base hbu, hsame.trans hd.sameTree, hd.tip.trans htip,
    fun c hc => hsub c (mem_dropChain.mp hc).1⟩

def Usable (env : ChainEnv) (s : ChainIndex) (h : uint256) : Prop :=
  (s.status h).isValid BlockStatus.VALID_TRANSACTIONS = true ∧ s.nChainTx h ≠ 0 ∧
    s.worse env h s.tip = false

instance decidableUsable (env : ChainEnv) (s : ChainIndex) (h : uint256) :
    Decidable (s.Usable env h) :=
  inferInstanceAs (Decidable (_ ∧ _))

theorem offerCandidate_eq (env : ChainEnv) (s : ChainIndex) (x : uint256) :
    s.offerCandidate env x = if s.Usable env x then s.insertCandidate x else s := by
  have hiff : ((s.status x).isValid BlockStatus.VALID_TRANSACTIONS &&
      decide (s.nChainTx x ≠ 0) && !s.worse env x s.tip) = true ↔ s.Usable env x := by
    simp only [Usable, Bool.and_eq_true, decide_eq_true_eq, Bool.not_eq_true', and_assoc]
  unfold offerCandidate
  by_cases hx : s.Usable env x
  · rw [if_pos hx, if_pos (hiff.mpr hx)]
  · rw [if_neg hx, if_neg (mt hiff.mp hx)]

theorem mem_foldl_offerCandidate : c ∈ (l.foldl (offerCandidate env) s).setBlockIndexCandidates ↔
      c ∈ s.setBlockIndexCandidates ∨ (c ∈ l ∧ s.Usable env c) := by
  induction l generalizing s with
  | nil => simp
  | cons x l ih =>
    -- candidates are not read by `Usable`
    have husable : ∀ y, (s.insertCandidate x).Usable env y ↔ s.Usable env y := fun y => Iff.rfl
    rw [foldl_cons, ih, offerCandidate_eq]
    by_cases hx : s.Usable env x
    · rw [if_pos hx, mem_insertCandidate, husable, mem_cons]
      by_cases hc : c = x
      · simp [hc, hx]
      · simp [hc]
    · rw [if_neg hx, mem_cons]
      by_cases hc : c = x
      · simp [hc, hx]
      · simp [hc]

theorem sameTree_offerCandidate (env : ChainEnv) (s : ChainIndex) (x : uint256) :
    SameTree s (s.offerCandidate env x) := by
  rw [offerCandidate_eq]
  split_ifs
  · exact sameTree_insertCandidate s x
  · exact SameTree.refl s

theorem sameTree_offerAll (env : ChainEnv) (s : ChainIndex) : SameTree s (s.offerAll env) :=
  sameTree_foldl (offerCandidate env) (sameTree_offerCandidate env) _ s

theorem offerAll_keeps (env : ChainEnv) (s : ChainIndex) :
    (s.offerAll env).tip = s.tip ∧ (s.offerAll env).status = s.status := by
  have hoffer : ∀ (t : ChainIndex) x, (t.offerCandidate env x).tip = t.tip ∧
      (t.offerCandidate env x).status = t.status := by
    intro t x
    rw [offerCandidate_eq]
    split_ifs
    · exact ⟨rfl, rfl⟩
    · exact ⟨rfl, rfl⟩
  exact ⟨foldl_keeps ChainIndex.tip (fun t x => (hoffer t x).1) _ s,
    foldl_keeps ChainIndex.status (fun t x => (hoffer t x).2) _ s⟩

theorem mem_of_usable (hu : s.Usable env h) : h ∈ s.mapBlockIndex := by
  by_contra hh
  have hvalid := hu.1
  rw [status_of_notMem hh] at hvalid
  cases hvalid

theorem mem_offerAll : c ∈ (s.offerAll env).setBlockIndexCandidates ↔
      c ∈ s.setBlockIndexCandidates ∨ s.Usable env c := by
  rw [offerAll, mem_foldl_offerCandidate, ← AList.mem_keys]
  by_cases hu : s.Usable env c
  · simp [hu, mem_of_usable hu]
  · simp [hu]

theorem SameTree.contains (h : SameTree s t) (ht : t.tip = s.tip) (x : uint256) :
    t.contains x = s.contains x := by
  unfold ChainIndex.contains
  rw [ht, h.branch]

theorem SameTree.disconnected (h : SameTree s t) (ht : t.tip = s.tip) (x : uint256) :
    t.disconnected x = s.disconnected x := by
  unfold ChainIndex.disconnected
  rw [ht, h.branch]

theorem contains_iff : s.contains x = true ↔ x ∈ s.branch s.tip := by
  simp [ChainIndex.contains]

theorem disconnected_spec (hb : s.Base env) {y : uint256} (hx : s.contains x = true)
    (hy : y ∈ s.disconnected x) :
    y ∈ s.branch s.tip ∧ x ∈ s.branch y := by
  have hmem : x ∈ s.branch s.tip := contains_iff.mp hx
  rcases mem_append.mp hy with habove | hself
  · have hyt : y ∈ s.branch s.tip := takeWhile_subset _ habove
    refine ⟨hyt, ?_⟩
    obtain ⟨above, below, hsplit, hnot⟩ := eq_append_cons_of_mem hmem
    have htake : (s.branch s.tip).takeWhile (fun z => decide (z ≠ x)) = above := by
      rw [hsplit, takeWhile_append_of_pos, takeWhile_cons_of_neg (by simp),
        append_nil]
      exact fun z hz => decide_eq_true fun heq => hnot (heq ▸ hz)
    rw [htake] at habove
    exact mem_branch_of_append hb.graded hsplit habove
  · rw [mem_singleton] at hself
    rw [hself]
    exact ⟨hmem, s.self_mem x⟩

theorem sameTree_markInvalid (s : ChainIndex) (x : uint256) : SameTree s (s.markInvalid x) :=
  (sameTree_updateStatus keepsData_markFailedValid s x).trans (sameTree_eraseCandidate _ x)

theorem markInvalid_tip (s : ChainIndex) (x : uint256) : (s.markInvalid x).tip = s.tip :=
  updateStatus_tip s x _

theorem mem_markInvalid :
    c ∈ (s.markInvalid x).setBlockIndexCandidates ↔ c ∈ s.setBlockIndexCandidates ∧ c ≠ x := by
  rw [markInvalid, mem_eraseCandidate, updateStatus_candidates]

theorem status_markInvalid (hx : x ∈ s.mapBlockIndex) (h : uint256) : (s.markInvalid x).status h =
      if h = x then (s.status h).markFailedValid else s.status h :=
  status_updateStatus hx

theorem contains_markInvalid (s : ChainIndex) (x y : uint256) :
    (s.markInvalid x).contains y = s.contains y :=
  (sameTree_markInvalid s x).contains (markInvalid_tip s x) y

theorem cutOff_of_inactive (hx : s.contains x = false) : s.cutOff x = s.markInvalid x := by
  simp [cutOff, contains_markInvalid, hx]

theorem cutOff_of_active (hx : s.contains x = true) :
    s.cutOff x = { (s.disconnected x).foldl disconnectFailed (s.markInvalid x) with
      tip := (s.pprev x).getD x } := by
  simp only [cutOff, contains_markInvalid, hx, if_true]
  rw [(sameTree_markInvalid s x).disconnected (markInvalid_tip s x), (sameTree_markInvalid s x).pprev]

theorem sameTree_cutOff (s : ChainIndex) (x : uint256) : SameTree s (s.cutOff x) := by
  cases hx : s.contains x with
  | false =>
    rw [cutOff_of_inactive hx]
    exact sameTree_markInvalid s x
  | true =>
    rw [cutOff_of_active hx]
    exact ((sameTree_markInvalid s x).trans
      (sameTree_foldl disconnectFailed sameTree_disconnectFailed _ _)).trans (sameTree_tip _ _)

theorem mem_cutOff :
    c ∈ (s.cutOff x).setBlockIndexCandidates ↔ c ∈ s.setBlockIndexCandidates ∧ c ≠ x ∧
      (s.contains x = true → c ∉ s.disconnected x) := by
  cases hx : s.contains x with
  | false => simp [cutOff_of_inactive hx, mem_markInvalid]
  | true =>
    have hmem : c ∈ (s.cutOff x).setBlockIndexCandidates ↔
        c ∈ ((s.disconnected x).foldl disconnectFailed
          (s.markInvalid x)).setBlockIndexCandidates := by
      rw [cutOff_of_active hx]
    rw [hmem, mem_foldl_disconnectFailed, mem_markInvalid, and_assoc]
    simp

theorem cutOff_tip_mem (hb : s.Base env) (x : uint256) : (s.cutOff x).tip ∈ s.branch s.tip := by
  cases hx : s.contains x with
  | false =>
    rw [cutOff_of_inactive hx, markInvalid_tip]
    exact s.self_mem s.tip
  | true =>
    have hmem : x ∈ s.branch s.tip := contains_iff.mp hx
    rw [cutOff_of_active hx]
    cases hp : s.pprev x with
    | none => exact hmem
    | some p =>
      have hpx : p ∈ s.branch x :=
        (mem_branch_iff hb.graded).mpr (.inr ⟨p, hp, s.self_mem p⟩)
      exact mem_branch_trans hb.graded hpx hmem

theorem cutOff_base (hb : s.Base env) (x : uint256) : (s.cutOff x).Base env :=
  hb.of_sameTree (sameTree_cutOff s x) (fun c hc => hb.candidate c (mem_cutOff.mp hc).1)
    (hb.tip.of_mem hb (cutOff_tip_mem hb x))

theorem offerAll_base (hb : s.Base env) : (s.offerAll env).Base env := by
  refine hb.of_sameTree (sameTree_offerAll env s) (fun c hc => ?_) ?_
  · rcases mem_offerAll.mp hc with hold | hu
    · exact hb.candidate c hold
    · exact hb.linked c hu.2.1
  · rw [(offerAll_keeps env s).1]
    exact hb.tip

theorem invalidateBlock_base (hb : s.Base env) (x : uint256) :
    (s.invalidateBlock env x).Base env ∧ SameTree s (s.invalidateBlock env x) := by
  unfold invalidateBlock
  split_ifs
  · exact ⟨cutOff_base hb x, sameTree_cutOff s x⟩
  · exact ⟨offerAll_base (cutOff_base hb x), (sameTree_cutOff s x).trans (sameTree_offerAll env _)⟩

theorem clearFailed_of_isValid {st : BlockStatus} {n : Nat} (h : st.isValid n = true) :
    st.clearFailed = st := by
  have hf : st.fFailedValid = false ∧ st.fFailedChild = false := by
    simpa [BlockStatus.isValid, BlockStatus.failed] using (Bool.and_eq_true_iff.mp h).1
  cases st
  simp_all [BlockStatus.clearFailed]

theorem getAncestor_eq_iff (hg : Graded s.pprev s.nHeight) :
    s.getAncestor h (s.nHeight x) = some x ↔ x ∈ s.branch h := by
  unfold getAncestor
  by_cases hle : s.nHeight x > s.nHeight h
  · rw [if_pos hle]
    refine iff_of_false (by simp) fun hmem => ?_
    have := height_le_of_mem hg hmem
    omega
  · rw [if_neg hle]
    exact getElem?_branch_eq_iff hg (Nat.le_of_not_lt hle)

def Revived (env : ChainEnv) (s : ChainIndex) (h : uint256) : Prop :=
  (s.status h).isValid BlockStatus.VALID_TRANSACTIONS = false ∧
    (s.status h).clearFailed.isValid BlockStatus.VALID_TRANSACTIONS = true ∧
    s.nChainTx h ≠ 0 ∧ s.worse env s.tip h = true

structure EntryTurn (env : ChainEnv) (pindex x : uint256) (s t : ChainIndex) : Prop where
  sameTree : SameTree s t
  tip : t.tip = s.tip
  status : ∀ h, t.status h =
    if h = x ∧ pindex ∈ s.branch x then (s.status h).clearFailed else s.status h
  mem : ∀ c, c ∈ t.setBlockIndexCandidates ↔
    c ∈ s.setBlockIndexCandidates ∨ (c = x ∧ pindex ∈ s.branch x ∧ s.Revived env x)

theorem reconsiderEntry_turn (env : ChainEnv) (hg : Graded s.pprev s.nHeight) (pindex : uint256)
    (hx : x ∈ s.mapBlockIndex) :
    EntryTurn env pindex x s (reconsiderEntry env pindex s x) := by
  have hsame := sameTree_updateStatus keepsData_clearFailed s x
  have hstatus : ∀ h, (s.updateStatus x BlockStatus.clearFailed).status h =
      if h = x then (s.status h).clearFailed else s.status h := fun h => status_updateStatus hx
  have htip := updateStatus_tip s x BlockStatus.clearFailed
  have hcandidates := updateStatus_candidates s x BlockStatus.clearFailed
  unfold reconsiderEntry
  generalize s.updateStatus x BlockStatus.clearFailed = u at hsame hstatus htip hcandidates ⊢
  by_cases hanc : pindex ∈ s.branch x
  · cases hv : (s.status x).isValid BlockStatus.VALID_TRANSACTIONS with
    | true =>
      -- a valid entry has nothing to clear
      simp only [Bool.not_true, Bool.false_and, Bool.false_eq_true, if_false]
      refine ⟨SameTree.refl s, rfl, fun h => ?_, fun c => ?_⟩
      · by_cases hh : h = x
        · rw [if_pos ⟨hh, hanc⟩, hh, clearFailed_of_isValid hv]
        · rw [if_neg fun hc => hh hc.1]
      · simp [Revived, hv]
    | false =>
      simp only [(getAncestor_eq_iff hg).mpr hanc, Bool.not_false, Bool.true_and, beq_self_eq_true,
        if_true]
      have hinner : ((u.status x).isValid BlockStatus.VALID_TRANSACTIONS &&
          decide (u.nChainTx x ≠ 0) && u.worse env u.tip x) = true ↔ s.Revived env x := by
        rw [hstatus, if_pos rfl, hsame.nChainTx, hsame.worse, htip]
        simp [Revived, hv, and_assoc]
      have hclear : ∀ h, u.status h =
          if h = x ∧ pindex ∈ s.branch x then (s.status h).clearFailed else s.status h := by
        intro h
        rw [hstatus]
        simp [hanc]
      by_cases hr : s.Revived env x
      · rw [if_pos (hinner.mpr hr)]
        refine ⟨hsame.trans (sameTree_insertCandidate _ x), htip, hclear, fun c => ?_⟩
        rw [mem_insertCandidate, hcandidates]
        simp [hanc, hr, or_comm]
      · rw [if_neg (mt hinner.mp hr)]
        refine ⟨hsame, htip, hclear, fun c => ?_⟩
        rw [hcandidates]
        simp [hr]
  · have hne : (s.getAncestor x (s.nHeight pindex) == some pindex) = false := by
      rw [beq_eq_false_iff_ne]
      exact mt (getAncestor_eq_iff hg).mp hanc
    simp only [hne, Bool.and_false, Bool.false_eq_true, if_false]
    refine ⟨SameTree.refl s, rfl, fun h => ?_, fun c => ?_⟩
    · simp [hanc]
    · simp [hanc]

theorem foldl_reconsiderEntry (env : ChainEnv) (hg : Graded s.pprev s.nHeight) (pindex : uint256)
    (hl : ∀ x ∈ l, x ∈ s.mapBlockIndex) (hnd : l.Nodup) :
    let t := l.foldl (reconsiderEntry env pindex) s
    SameTree s t ∧ t.tip = s.tip ∧
    (∀ h, t.status h =
      if h ∈ l ∧ pindex ∈ s.branch h then (s.status h).clearFailed else s.status h) ∧
    ∀ c, c ∈ t.setBlockIndexCandidates ↔
      c ∈ s.setBlockIndexCandidates ∨ (c ∈ l ∧ pindex ∈ s.branch c ∧ s.Revived env c) := by
  induction l generalizing s with
  | nil => exact ⟨SameTree.refl s, rfl, fun h => by simp, fun c => by simp⟩
  | cons x l ih =>
    obtain ⟨hxl, hnd⟩ := nodup_cons.mp hnd
    have ht := reconsiderEntry_turn env hg pindex (hl x mem_cons_self)
    rw [foldl_cons]
    generalize reconsiderEntry env pindex s x = u at ht
    have hg' : Graded u.pprev u.nHeight := by
      rw [ht.sameTree.pprev, ht.sameTree.nHeight]
      exact hg
    obtain ⟨hsame, htip, hstatus, hmem⟩ := ih hg'
      (fun y hy => (ht.sameTree.mem y).mpr (hl y (mem_cons_of_mem x hy))) hnd
    -- the turn for `x` does not touch the entries still to come
    have hother : ∀ h, h ∈ l → u.status h = s.status h := by
      intro h hh
      rw [ht.status, if_neg]
      intro hc
      exact hxl (hc.1 ▸ hh)
    refine ⟨ht.sameTree.trans hsame, htip.trans ht.tip, fun h => ?_, fun c => ?_⟩
    · rw [hstatus, ht.sameTree.branch]
      by_cases hh : h ∈ l
      · simp [hh, hother h hh]
      · rw [ht.status]
        by_cases hhx : h = x
        · simp [hhx, hxl]
        · simp [hh, hhx]
    · rw [hmem, ht.mem, ht.sameTree.branch]
      by_cases hc : c ∈ l
      · have hrevived : u.Revived env c ↔ s.Revived env c := by
          unfold Revived
          rw [hother c hc, ht.sameTree.nChainTx, ht.tip, ht.sameTree.worse]
        have hcx : c ≠ x := fun h => hxl (h ▸ hc)
        simp [hc, hcx, hrevived]
      · by_cases hcx : c = x
        · simp [hcx, hxl]
        · simp [hc, hcx]

theorem branch_known (hb : s.Base env) (hh : h ∈ s.mapBlockIndex) (ha : a ∈ s.branch h) :
    a ∈ s.mapBlockIndex := by
  induction h using branch_induction hb.graded with
  | step h ih =>
    rcases (mem_branch_iff hb.graded).mp ha with rfl | ⟨p, hp, hap⟩
    · exact hh
    · exact ih p hp (hb.known h p hp) hap

/-- What `ReconsiderBlock` does: it clears the descendants and the ancestors of the
block and offers revived descendants. -/
structure Reconsidered (env : ChainEnv) (pindex : uint256) (s t : ChainIndex) : Prop where
  sameTree : SameTree s t
  tip : t.tip = s.tip
  status : ∀ h, t.status h =
    if pindex ∈ s.branch h ∨ h ∈ s.branch pindex then (s.status h).clearFailed else s.status h
  mem : ∀ c, c ∈ t.setBlockIndexCandidates ↔
    c ∈ s.setBlockIndexCandidates ∨ (pindex ∈ s.branch c ∧ s.Revived env c)

theorem Revived.mem (hr : s.Revived env h) : h ∈ s.mapBlockIndex := by
  by_contra hh
  have hvalid := hr.2.1
  rw [status_of_notMem hh] at hvalid
  cases hvalid

theorem reconsiderBlock_spec (hb : s.Base env) (hp : pindex ∈ s.mapBlockIndex) :
    Reconsidered env pindex s (s.reconsiderBlock env pindex) := by
  obtain ⟨hsame, htip, hstatus, hmem⟩ := foldl_reconsiderEntry env hb.graded pindex
    (fun x hx => AList.mem_keys.mpr hx) s.mapBlockIndex.keys_nodup
  unfold reconsiderBlock
  simp only [hsame.branch]
  have hclear := sameTree_updateStatus keepsData_clearFailed
  refine ⟨hsame.trans (sameTree_foldl _ hclear _ _),
    (foldl_keeps ChainIndex.tip (fun s x => updateStatus_tip s x _) _ _).trans htip, fun h => ?_,
    fun c => ?_⟩
  · rw [status_foldl hclear (fun _ _ _ hx => status_updateStatus hx) (fun _ => rfl)
      fun y hy => (hsame.mem y).mpr (branch_known hb hp hy), hstatus]
    by_cases hh : h ∈ s.mapBlockIndex
    · have hkey : h ∈ s.mapBlockIndex.keys := AList.mem_keys.mp hh
      by_cases hd : pindex ∈ s.branch h
      · simp [hkey, hd, BlockStatus.clearFailed]
      · simp [hd]
    · simp [status_of_notMem hh, BlockStatus.clearFailed]
  · rw [foldl_keeps setBlockIndexCandidates fun s x => updateStatus_candidates s x _, hmem,
      ← AList.mem_keys]
    by_cases hr : s.Revived env c
    · simp [hr, hr.mem]
    · simp [hr]

theorem Reconsidered.base (h : Reconsidered env pindex s t) (hb : s.Base env) :
    t.Base env := by
  refine hb.of_sameTree h.sameTree (fun c hc => ?_) ?_
  · rcases (h.mem c).mp hc with hold | ⟨-, hr⟩
    · exact hb.candidate c hold
    · exact hb.linked c hr.2.2.1
  · rw [h.tip]
    exact hb.tip

end Alqo.ChainIndex
