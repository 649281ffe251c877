import Alqo.ChainWork

/-!
# Stake modifiers across a restart

On the main network a record never holds `nStakeModifier` nor the proof-of-stake hash. A loaded map
is the old one with both set to zero.
-/

namespace Alqo

def StakeSurvives (Hash : Bytes → uint256) (params : CChainParams) (m : BlockMap)
    (records : List DiskRecord) : Prop :=
  ∃ m', loadBlockIndexGuts Hash params ∅ records = some m' ∧
    (∀ hash index, m.lookup hash = some index → m'.stakeMap hash = some index.toStakeIndex) ∧
    (∀ pprev nTime, computeNextStakeModifier Hash m'.stakeMap pprev nTime =
      computeNextStakeModifier Hash m.stakeMap pprev nTime) ∧
    ∀ chainActive hashBlockFrom, getKernelStakeModifier m'.stakeMap chainActive hashBlockFrom =
      getKernelStakeModifier m.stakeMap chainActive hashBlockFrom

def StakeIndex.forgotten (index : StakeIndex) : StakeIndex :=
  { index with nStakeModifier := 0, hashProofOfStake := 0 }

theorem StakeIndex.forgotten_eq_iff (index : StakeIndex) :
    index.forgotten = index ↔ index.nStakeModifier = 0 ∧ index.hashProofOfStake = 0 := by
  constructor
  · intro h
    rw [← h]
    exact ⟨rfl, rfl⟩
  · rintro ⟨hmod, hproof⟩
    unfold StakeIndex.forgotten
    rw [← hmod, ← hproof]

variable {Hash : Bytes → uint256} {m m' : BlockMap}

theorem reload_toStakeIndex (hm : TreeLinked Hash m) {hash : uint256} {index : CBlockIndex}
    (h : m.lookup hash = some index) :
    (index.reload mainParams).toStakeIndex = index.toStakeIndex.forgotten := by
  have hpprev := reload_pprev mainParams hm h
  have hmod : (index.reload mainParams).nStakeModifier = 0 := by
    have hv2 : mainParams.isStakeModifierV2
        ((CDiskBlockIndex.ofIndex index).restored mainParams).nHeight = true :=
      mainParams_isStakeModifierV2 _
    simp [CBlockIndex.reload, CBlockIndex.loadFrom, hv2]
  calc (index.reload mainParams).toStakeIndex
      = { index.toStakeIndex with
          pprev := (index.reload mainParams).pprev
          nStakeModifier := (index.reload mainParams).nStakeModifier
          hashProofOfStake := 0 } := rfl
    _ = index.toStakeIndex.forgotten := by rw [hpprev, hmod]; rfl

theorem stakeMap_reload (hm : TreeLinked Hash m)
    (hm' : ∀ x, m'.lookup x = (m.lookup x).map fun index => index.reload mainParams)
    (hash : uint256) : m'.stakeMap hash = (m.stakeMap hash).map StakeIndex.forgotten := by
  unfold BlockMap.stakeMap
  rw [hm']
  cases h : m.lookup hash with
  | none => rfl
  | some index => simp [reload_toStakeIndex hm h]

/-- A restart of a main network node gives back the stake fields of a tree, and
the modifiers computed from them, exactly when there was nothing to lose. -/
theorem stakeSurvives_iff (Hash : Bytes → uint256) (m : BlockMap) (hm : TreeLinked Hash m)
    (l : List (Sigma fun _ : uint256 => CBlockIndex)) (hl : l.Perm m.entries) :
    StakeSurvives Hash mainParams m (diskRecords mainParams l) ↔
      ∀ hash index, m.lookup hash = some index →
        Loadable mainParams hash index ∧ index.nStakeModifier = 0 ∧ index.hashProofOfStake = 0 := by
  obtain ⟨hload, hlookup⟩ := loadBlockIndexGuts_lookup Hash mainParams m hm l hl
  constructor
  · rintro ⟨m', hm', hfields, -⟩ hash index hindex
    refine ⟨hload.mpr ⟨m', hm'⟩ hash index hindex, ?_⟩
    have hsame := hfields hash index hindex
    rw [stakeMap_reload hm (hlookup m' hm'), BlockMap.stakeMap, hindex] at hsame
    exact (StakeIndex.forgotten_eq_iff _).mp (Option.some.inj hsame)
  · intro h
    obtain ⟨m', hm'⟩ := hload.mp fun hash index hindex => (h hash index hindex).1
    have hmap : m'.stakeMap = m.stakeMap := by
      funext hash
      rw [stakeMap_reload hm (hlookup m' hm'), BlockMap.stakeMap]
      cases hindex : m.lookup hash with
      | none => rfl
      | some index =>
        exact congrArg some ((StakeIndex.forgotten_eq_iff _).mpr (h hash index hindex).2)
    refine ⟨m', hm', fun hash index hindex => ?_, fun _ _ => by rw [hmap], fun _ _ => by rw [hmap]⟩
    rw [hmap, BlockMap.stakeMap, hindex]
    rfl

theorem genesis_stakeSurvives : StakeSurvives hash256 mainParams
      (treeRun hash256 (fun _ => 0) ∅ [.header (CBlock.ofHeader genesisHeader)])
      (diskRecords mainParams
        (treeRun hash256 (fun _ => 0) ∅ [.header (CBlock.ofHeader genesisHeader)]).entries) := by
  have hm := (treeRun_ok hash256 (fun _ => 0) ∅ [.header (CBlock.ofHeader genesisHeader)]
    (fun hash index h => by simp at h) (fun hash index h => by simp at h)
    (by decide +kernel)).1
  have hall : ∀ e ∈ (treeRun hash256 (fun _ => 0) ∅
      [.header (CBlock.ofHeader genesisHeader)]).entries,
      Loadable mainParams e.1 e.2 ∧ e.2.nStakeModifier = 0 ∧ e.2.hashProofOfStake = 0 := by
    decide +kernel
  exact (stakeSurvives_iff hash256 _ hm _ (List.Perm.refl _)).mpr fun hash index h =>
    hall ⟨hash, index⟩ (AList.mem_lookup_iff.mp h)

/-- The tree of `firstEvents` loads again, but the block on top of the genesis
block comes back without its modifier, and the modifier of its next child and
the one a kernel staking the genesis block uses change with it. -/
theorem firstEvents_modifier_lost : RunOk hash256 (fun _ => 0) ∅ firstEvents ∧
    ((treeRun hash256 (fun _ => 0) ∅ firstEvents).stakeMap
      (firstHeader.getHash hash256)).map StakeIndex.nStakeModifier = some 1 ∧
    computeNextStakeModifier hash256 (treeRun hash256 (fun _ => 0) ∅ firstEvents).stakeMap
      (some (firstHeader.getHash hash256)) 1575571035 = ⟨true, 1, false⟩ ∧
    getKernelStakeModifier (treeRun hash256 (fun _ => 0) ∅ firstEvents).stakeMap
      [genesisHeader.getHash hash256, firstHeader.getHash hash256]
      (genesisHeader.getHash hash256) = some ⟨1, 0, 1575570915⟩ ∧
    (loadBlockIndexGuts hash256 mainParams ∅
      (diskRecords mainParams (treeRun hash256 (fun _ => 0) ∅ firstEvents).entries)).map (fun m => (
          (m.stakeMap (firstHeader.getHash hash256)).map StakeIndex.nStakeModifier,
          computeNextStakeModifier hash256 m.stakeMap (some (firstHeader.getHash hash256))
            1575571035,
          getKernelStakeModifier m.stakeMap
            [genesisHeader.getHash hash256, firstHeader.getHash hash256]
            (genesisHeader.getHash hash256))) =
      some (some 0, ⟨true, 0, false⟩, some ⟨0, 0, 1575570915⟩) := by
  decide +kernel

end Alqo
