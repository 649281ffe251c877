import Alqo.LoadIndex
import Alqo.Sha256

/-!
# Chain work across a restart

`AddToBlockIndex` sums `GetBlockTrust` along a branch, `LoadBlockIndexDB` sums `GetBlockProof`. They
agree exactly when the two weights agree at every entry.
-/

namespace Alqo
open Lib.BranchSum AList Option

def workOf (m : BlockMap) (hash : uint256) : uint256 :=
  ((m.lookup hash).map fun index => index.nChainWork).getD 0

def bitsOf (m : BlockMap) (hash : uint256) : BitVec 32 :=
  ((m.lookup hash).map fun index => index.nBits).getD 0

/-- What a restart has to give back: every entry's work, and with it the order
of any two entries by work (`CBlockIndexWorkComparator`, main.cpp:113-120). -/
def WorkSurvives (Hash : Bytes → uint256) (params : CChainParams) (m : BlockMap)
    (records : List DiskRecord) : Prop :=
  ∃ m', loadBlockIndexDB Hash params records = some m' ∧
    (∀ hash ∈ m, hash ∈ m' ∧ workOf m' hash = workOf m hash) ∧
    ∀ a ∈ m, ∀ b ∈ m, workOf m' a < workOf m' b ↔ workOf m a < workOf m b

variable {Hash : Bytes → uint256} {m m₀ m' : BlockMap} {hash : uint256} {index : CBlockIndex}

theorem forest_parent (hm : TreeLinked Hash m) (h : m.lookup hash = some index) :
    (forest Hash m hm).parent hash = index.pprev := by
  simp [forest, h]

theorem parentWork_relabelled (hm : TreeLinked Hash m₀) (f : uint256 → uint256)
    (hrel : ∀ x, m.lookup x = (m₀.lookup x).map fun index => { index with nChainWork := f x })
    (h : m₀.lookup hash = some index) (w : uint256) :
    parentWork m { index with nChainWork := w } = below (forest Hash m₀ hm) f hash := by
  unfold parentWork below
  rw [forest_parent hm h]
  cases hp : index.pprev with
  | none => rfl
  | some p =>
    obtain ⟨q, hq, -⟩ := (hm hash index h).parent p hp
    simp only [bind_some, hrel p, hq, map_some]

theorem computeChainWork_lookup (hm : TreeLinked Hash m₀) (l : List uint256) (m : BlockMap)
    (f : uint256 → uint256)
    (hrel : ∀ x, m.lookup x = (m₀.lookup x).map fun index => { index with nChainWork := f x })
    (hl : ∀ x ∈ l, x ∈ m₀) (x : uint256) :
    (computeChainWork l m).lookup x = (m₀.lookup x).map fun index =>
      { index with
        nChainWork := accumulate (forest Hash m₀ hm) (fun k => getBlockProof (bitsOf m₀ k)) l f x } := by
  induction l generalizing m f with
  | nil => exact hrel x
  | cons hash rest ih =>
    obtain ⟨index, hindex⟩ := isSome_iff_exists.mp
      (lookup_isSome.mpr (hl hash List.mem_cons_self))
    have hcur := hrel hash
    rw [hindex, map_some] at hcur
    have hbits : getBlockProof (bitsOf m₀ hash) = index.getBlockProof := by
      simp [bitsOf, hindex, CBlockIndex.getBlockProof]
    rw [computeChainWork, hcur, accumulate]
    apply ih
    · intro y
      by_cases hy : y = hash
      · subst hy
        rw [lookup_insert, hindex, map_some, Function.update_self, hbits,
          parentWork_relabelled hm f hrel hindex]
        rfl
      · rw [lookup_insert_ne hy, Function.update_of_ne hy, hrel y]
    · exact fun y hy => hl y (List.mem_cons_of_mem _ hy)

theorem computeChainWork_cumulative (hm : TreeLinked Hash m) :
    (∀ x, x ∈ computeChainWork (sortedByHeight m) m ↔ x ∈ m) ∧
    Cumulative (forest Hash m hm) (fun k => getBlockProof (bitsOf m k))
      (workOf (computeChainWork (sortedByHeight m) m)) := by
  have hperm : (sortedByHeight m).Perm m.keys := List.perm_insertionSort _ _
  have hrel : ∀ x, m.lookup x =
      (m.lookup x).map fun index => { index with nChainWork := workOf m x } := by
    intro x
    cases hx : m.lookup x with
    | none => rfl
    | some index => simp [workOf, hx]
  have hlookup := computeChainWork_lookup hm (sortedByHeight m) m (workOf m) hrel
    (fun x hx => hperm.mem_iff.mp hx)
  constructor
  · intro x
    rw [← lookup_isSome, ← lookup_isSome, hlookup, isSome_map]
  · have hsorted : (sortedByHeight m).Pairwise fun a b => heightOf m a ≤ heightOf m b := by
      have : Std.Total fun a b => heightOf m a ≤ heightOf m b := ⟨fun a b => Nat.le_total _ _⟩
      have : IsTrans uint256 fun a b => heightOf m a ≤ heightOf m b := ⟨fun _ _ _ => Nat.le_trans⟩
      exact List.pairwise_insertionSort _ _
    have hcum := accumulate_cumulative (forest Hash m hm) (fun k => getBlockProof (bitsOf m k))
      (sortedByHeight m) (workOf m) (fun k => hperm.mem_iff.symm) (hperm.nodup_iff.mpr m.nodupKeys)
      hsorted
    have hval : ∀ k, (forest Hash m hm).node k → workOf (computeChainWork (sortedByHeight m) m) k =
        accumulate (forest Hash m hm) (fun k => getBlockProof (bitsOf m k)) (sortedByHeight m)
          (workOf m) k := by
      intro k hk
      obtain ⟨index, hindex⟩ := isSome_iff_exists.mp (lookup_isSome.mpr hk)
      rw [workOf, hlookup, hindex]
      rfl
    intro k hk
    rw [hval k hk, hcum k hk]
    congr 1
    exact below_congr _ _ _ k fun p hp =>
      (hval p ((forest Hash m hm).parent_node k p hk hp)).symm

variable (params : CChainParams)

theorem workByTrust_cumulative (hm : TreeLinked Hash m) (hw : WorkByTrust m)
    (hm' : ∀ x, m'.lookup x = (m.lookup x).map fun index => index.reload params) :
    Cumulative (forest Hash m' (treeLinked_reload params hm hm'))
      (fun k => getBlockTrust (bitsOf m k) false) (workOf m) := by
  intro k hk
  have hsome := lookup_isSome.mpr hk
  rw [hm', isSome_map] at hsome
  obtain ⟨index, hindex⟩ := isSome_iff_exists.mp hsome
  have hbelow : below (forest Hash m' (treeLinked_reload params hm hm')) (workOf m) k =
      parentWork m index := by
    unfold below parentWork
    rw [forest_parent (treeLinked_reload params hm hm') (by rw [hm', hindex]; rfl),
      reload_pprev params hm hindex]
    cases hp : index.pprev with
    | none => rfl
    | some p =>
      obtain ⟨q, hq, -⟩ := (hm k index hindex).parent p hp
      simp [workOf, hq]
  rw [hbelow]
  simpa [workOf, bitsOf, hindex] using hw k index hindex

theorem work_restored_iff (hm : TreeLinked Hash m) (hw : WorkByTrust m)
    (hm' : ∀ x, m'.lookup x = (m.lookup x).map fun index => index.reload params) :
    (∀ hash ∈ m, workOf (computeChainWork (sortedByHeight m') m') hash = workOf m hash) ↔
      ∀ hash ∈ m, WorkAgrees (bitsOf m hash) := by
  have hmem : ∀ x, x ∈ m' ↔ x ∈ m := by
    intro x
    rw [← lookup_isSome, ← lookup_isSome, hm', isSome_map]
  have hbits : ∀ x ∈ m, bitsOf m' x = bitsOf m x := by
    intro x hx
    obtain ⟨index, hindex⟩ := isSome_iff_exists.mp (lookup_isSome.mpr hx)
    simp only [bitsOf, hm', hindex, map_some]
    rfl
  have hiff := cumulative_eq_iff (forest Hash m' (treeLinked_reload params hm hm'))
    (fun k => getBlockTrust (bitsOf m k) false) (fun k => getBlockProof (bitsOf m' k)) (workOf m)
    (workOf (computeChainWork (sortedByHeight m') m')) (workByTrust_cumulative params hm hw hm')
    (computeChainWork_cumulative (treeLinked_reload params hm hm')).2
  constructor
  · intro h hash hhash
    have hweight := hiff.mp (fun k hk => (h k ((hmem k).mp hk)).symm) hash ((hmem hash).mpr hhash)
    rw [hbits hash hhash] at hweight
    exact (getBlockTrust_eq_getBlockProof_iff _).mp hweight
  · intro h hash hhash
    refine (hiff.mpr (fun k hk => ?_) hash ((hmem hash).mpr hhash)).symm
    rw [hbits k ((hmem k).mp hk)]
    exact (getBlockTrust_eq_getBlockProof_iff _).mpr (h k ((hmem k).mp hk))

theorem workSurvives_iff (hm : TreeLinked Hash m) (hw : WorkByTrust m)
    (l : List (Sigma fun _ : uint256 => CBlockIndex)) (hl : l.Perm m.entries) :
    WorkSurvives Hash params m (diskRecords params l) ↔ ∀ hash index, m.lookup hash = some index →
        Loadable params hash index ∧ WorkAgrees index.nBits := by
  obtain ⟨hload, hlookup⟩ := loadBlockIndexGuts_lookup Hash params m hm l hl
  have hagree : (∀ hash ∈ m, WorkAgrees (bitsOf m hash)) ↔
      ∀ hash index, m.lookup hash = some index → WorkAgrees index.nBits := by
    constructor
    · intro h hash index hindex
      have := h hash (lookup_isSome.mp (by rw [hindex]; rfl))
      simpa [bitsOf, hindex] using this
    · intro h hash hhash
      obtain ⟨index, hindex⟩ := isSome_iff_exists.mp (lookup_isSome.mpr hhash)
      simpa [bitsOf, hindex] using h hash index hindex
  constructor
  · rintro ⟨m', hm', hwork, -⟩
    obtain ⟨loaded, hloaded, rfl⟩ := map_eq_some_iff.mp hm'
    have hall := hload.mpr ⟨loaded, hloaded⟩
    have hsame := hagree.mp ((work_restored_iff params hm hw (hlookup loaded hloaded)).mp
      fun hash hhash => (hwork hash hhash).2)
    exact fun hash index h => ⟨hall hash index h, hsame hash index h⟩
  · intro h
    obtain ⟨loaded, hloaded⟩ := hload.mp fun hash index hx => (h hash index hx).1
    have hsame := (work_restored_iff params hm hw (hlookup loaded hloaded)).mpr
      (hagree.mpr fun hash index hx => (h hash index hx).2)
    refine ⟨_, by rw [loadBlockIndexDB, hloaded]; rfl, fun hash hhash => ⟨?_, hsame hash hhash⟩, ?_⟩
    · rw [(computeChainWork_cumulative
        (treeLinked_reload params hm (hlookup loaded hloaded))).1 hash, ← lookup_isSome,
        hlookup loaded hloaded, isSome_map, lookup_isSome]
      exact hhash
    · intro a ha b hb
      rw [hsame a ha, hsame b hb]

theorem not_workAgrees_of_checkProofOfWork (hlimit : params.bnProofOfWorkLimit.toNat < 2 ^ 255)
    (hash : uint256) (nBits : BitVec 32) (h : checkProofOfWork params hash nBits = true) :
    ¬ WorkAgrees nBits := by
  simp only [checkProofOfWork, Bool.and_eq_true, Bool.not_eq_true', Bool.or_eq_false_iff,
    decide_eq_false_iff_not, beq_eq_false_iff_ne, BitVec.lt_def, gt_iff_lt] at h
  obtain ⟨⟨⟨⟨-, hzero⟩, -⟩, hle⟩, -⟩ := h
  rintro (h0 | ⟨-, -, hge⟩)
  · exact hzero h0
  · omega

theorem exists_root (hm : TreeLinked Hash m) (h : m.lookup hash = some index) :
    ∃ root entry, m.lookup root = some entry ∧ entry.nHeight = 0 := by
  induction hn : index.nHeight generalizing hash index with
  | zero => exact ⟨hash, index, h, hn⟩
  | succ n ih =>
    cases hp : index.pprev with
    | none => exact absurd ((hm hash index h).root hp) (by omega)
    | some p =>
      obtain ⟨q, hq, hheight⟩ := (hm hash index h).parent p hp
      exact ih hq (by omega)

/-- A restart gives back the work of an accepted tree exactly when the two
weights agree at every entry, which under a limit below `2^255` no entry of a
loadable tree allows. -/
theorem treeRun_workSurvives_iff (Hash : Bytes → uint256) (mapProofOfStake : uint256 → uint256)
    (params : CChainParams) (events : List TreeEvent) (hrun : RunOk Hash mapProofOfStake ∅ events)
    (l : List (Sigma fun _ : uint256 => CBlockIndex))
    (hl : l.Perm (treeRun Hash mapProofOfStake ∅ events).entries) :
    (WorkSurvives Hash params (treeRun Hash mapProofOfStake ∅ events) (diskRecords params l) ↔
      ∀ hash index, (treeRun Hash mapProofOfStake ∅ events).lookup hash = some index →
        Loadable params hash index ∧ WorkAgrees index.nBits) ∧
    (params.bnProofOfWorkLimit.toNat < 2 ^ 255 →
      (WorkSurvives Hash params (treeRun Hash mapProofOfStake ∅ events) (diskRecords params l) ↔
        treeRun Hash mapProofOfStake ∅ events = ∅)) := by
  obtain ⟨hm, hw⟩ := treeRun_ok Hash mapProofOfStake ∅ events
    (fun hash index h => by simp at h) (fun hash index h => by simp at h) hrun
  have hiff := workSurvives_iff params hm hw l hl
  refine ⟨hiff, fun hlimit => ?_⟩
  rw [hiff]
  constructor
  · intro h
    by_contra hne
    obtain ⟨e, he⟩ := List.exists_mem_of_ne_nil _ fun hnil => hne (AList.ext hnil)
    obtain ⟨root, entry, hroot, hheight⟩ := exists_root hm (mem_lookup_iff.mpr he)
    obtain ⟨hload, hagree⟩ := h root entry hroot
    exact not_workAgrees_of_checkProofOfWork params hlimit root entry.nBits
      (hload (by omega)) hagree
  · intro h hash index hx
    rw [h, lookup_empty] at hx
    cases hx

def firstEvents : List TreeEvent :=
  [.header (CBlock.ofHeader genesisHeader), .header (CBlock.ofHeader firstHeader)]

theorem firstEvents_not_workSurvives : RunOk hash256 (fun _ => 0) ∅ firstEvents ∧
      ¬ WorkSurvives hash256 mainParams (treeRun hash256 (fun _ => 0) ∅ firstEvents)
        (diskRecords mainParams (treeRun hash256 (fun _ => 0) ∅ firstEvents).entries) := by
  have hrun : RunOk hash256 (fun _ => 0) ∅ firstEvents := by decide +kernel
  refine ⟨hrun, fun h => ?_⟩
  have hempty := ((treeRun_workSurvives_iff hash256 (fun _ => 0) mainParams firstEvents hrun _
    (List.Perm.refl _)).2 (by decide)).mp h
  have hlength : (treeRun hash256 (fun _ => 0) ∅ firstEvents).entries.length = 2 := by
    decide +kernel
  rw [hempty] at hlength
  cases hlength

/-- Both headers load again, with 65537 times the work each. -/
theorem firstEvents_work_changes : RunOk hash256 (fun _ => 0) ∅ firstEvents ∧
      workOf (treeRun hash256 (fun _ => 0) ∅ firstEvents) (firstHeader.getHash hash256) = 2 ∧
      (loadBlockIndexDB hash256 mainParams
        (diskRecords mainParams (treeRun hash256 (fun _ => 0) ∅ firstEvents).entries)).map
          (fun m => workOf m (firstHeader.getHash hash256)) = some 131074 := by
  decide +kernel

end Alqo
