import Alqo.Kernel

/-!
# Two nodes and one proof-of-stake block

Two nodes that know the block, its ancestors and the staked transaction agree about the kernel
exactly when their walks over the active chain end at the same modifier.
-/

namespace Alqo

def stopsWalk (pindexFrom index : StakeIndex) : Bool :=
  index.fStakeModifier && decide (pindexFrom.nTime + getStakeModifierSelectionInterval ≤ index.nTime)

variable (pindexFrom pindex : StakeIndex)

/-- The modifier found by a walk from `pindex` over `next`: that of the first
block that stops it, or else that of the tip, if the tip generated one. -/
def walkModifier (next : List StakeIndex) : BitVec 64 :=
  match next.find? (stopsWalk pindexFrom) with
  | some index => index.nStakeModifier
  | none =>
    let tip := next.getLast?.getD pindex
    if tip.fStakeModifier then tip.nStakeModifier else 0

theorem kernelStakeModifierFrom_stopped (next : List StakeIndex) (height time : Nat)
    (h : pindexFrom.nTime + getStakeModifierSelectionInterval ≤ time) :
    (kernelStakeModifierFrom pindexFrom pindex next height time).nStakeModifier =
      pindex.nStakeModifier := by
  cases next <;> simp [kernelStakeModifierFrom, Nat.not_lt.mpr h]

theorem walkModifier_cons_stop (pindexFrom pindex index : StakeIndex) (rest : List StakeIndex)
    (h : stopsWalk pindexFrom index = true) :
    walkModifier pindexFrom pindex (index :: rest) = index.nStakeModifier := by
  simp [walkModifier, h]

theorem walkModifier_cons_pass (pindexFrom pindex index : StakeIndex) (rest : List StakeIndex)
    (h : stopsWalk pindexFrom index = false) :
    walkModifier pindexFrom pindex (index :: rest) = walkModifier pindexFrom index rest := by
  simp [walkModifier, h, List.getLast?_cons]

theorem kernelStakeModifierFrom_walk (next : List StakeIndex) (height time : Nat)
    (h : time < pindexFrom.nTime + getStakeModifierSelectionInterval) :
    (kernelStakeModifierFrom pindexFrom pindex next height time).nStakeModifier =
      walkModifier pindexFrom pindex next := by
  induction next generalizing pindex height time with
  | nil =>
    rw [kernelStakeModifierFrom, if_pos h]
    rfl
  | cons index rest ih =>
    rw [kernelStakeModifierFrom, if_pos h]
    cases hgen : index.fStakeModifier with
    | true =>
      by_cases hlate : index.nTime < pindexFrom.nTime + getStakeModifierSelectionInterval
      · rw [if_pos rfl, ih index _ _ hlate, walkModifier_cons_pass]
        simp [stopsWalk, hlate]
      · rw [if_pos rfl, kernelStakeModifierFrom_stopped _ _ _ _ _ (Nat.not_lt.mp hlate),
          walkModifier_cons_stop]
        simp [stopsWalk, hgen, Nat.not_lt.mp hlate]
    | false =>
      rw [if_neg (by simp), ih index _ _ h, walkModifier_cons_pass]
      simp [stopsWalk, hgen]

theorem walkModifier_append (shared rest : List StakeIndex)
    (h : shared.any (stopsWalk pindexFrom) = true) :
    walkModifier pindexFrom pindex (shared ++ rest) = walkModifier pindexFrom pindex shared := by
  obtain ⟨index, hfind⟩ := Option.isSome_iff_exists.mp
    (List.find?_isSome.mpr (List.any_eq_true.mp h))
  simp [walkModifier, hfind]

namespace StakeNode

def activeAbove (node : StakeNode) (nHeight : Nat) : List StakeIndex :=
  (node.chainActive.drop (nHeight + 1)).filterMap node.mapBlockIndex.stakeMap

/-- The modifier the node's active chain holds for an output of `pindexFrom`. -/
def activeModifier (node : StakeNode) (pindexFrom : StakeIndex) : BitVec 64 :=
  walkModifier pindexFrom pindexFrom (node.activeAbove pindexFrom.nHeight)

theorem getKernelStakeModifier_active (node : StakeNode) (hash : uint256) (pindexFrom : StakeIndex)
    (h : node.mapBlockIndex.stakeMap hash = some pindexFrom) :
    ∃ modifier, getKernelStakeModifier node.mapBlockIndex.stakeMap node.chainActive hash =
        some modifier ∧ modifier.nStakeModifier = node.activeModifier pindexFrom := by
  rw [getKernelStakeModifier, h]
  refine ⟨_, rfl, kernelStakeModifierFrom_walk _ _ _ _ _ ?_⟩
  have hpos : 0 < getStakeModifierSelectionInterval := by decide
  omega

theorem StakedOutput.kernelBytes_injective (staked : StakedOutput) (nTimeTx : Nat)
    (a b : BitVec 64) (h : staked.kernelBytes nTimeTx a = staked.kernelBytes nTimeTx b) : a = b := by
  have hbytes := List.append_inj_left h (by rw [length_leBytes, length_leBytes])
  have hlt : ∀ x : BitVec 64, x.toNat < 256 ^ 8 := fun x => by
    have := x.isLt
    omega
  exact BitVec.eq_of_toNat_eq (leBytes_injective 8 _ _ (hlt a) (hlt b) hbytes)

theorem checkProofOfStake_of_staked (Hash : Bytes → uint256) (params : CChainParams)
    (node : StakeNode) (block : CBlock) (staked : StakedOutput) (pindexFrom : StakeIndex)
    (h : uint256) (hs : node.stakedOutput Hash params block = .ok staked)
    (hfrom : node.mapBlockIndex.stakeMap (staked.blockFrom.getHash Hash) = some pindexFrom) :
    node.checkProofOfStake Hash params block h = if staked.ageChecks params block.nTime then
        let hash := Hash (staked.kernelBytes block.nTime (node.activeModifier pindexFrom))
        (if decide (hash > staked.coinDayWeight params block.nTime *
            (setCompact block.nBits).bnTarget) && node.debugstake then some .kernel else none, hash)
      else (if node.debugstake then some .kernel else none, h) := by
  obtain ⟨modifier, hmod, hval⟩ := node.getKernelStakeModifier_active _ pindexFrom hfrom
  have hcheck : node.checkStakeKernelHash Hash params block.nBits staked block.nTime h =
      if staked.ageChecks params block.nTime then
        (!decide (Hash (staked.kernelBytes block.nTime (node.activeModifier pindexFrom)) >
            staked.coinDayWeight params block.nTime * (setCompact block.nBits).bnTarget),
          Hash (staked.kernelBytes block.nTime (node.activeModifier pindexFrom)))
      else (false, h) := by
    unfold checkStakeKernelHash
    rw [hmod, ← hval]
    cases staked.ageChecks params block.nTime <;> rfl
  unfold checkProofOfStake
  rw [hs]
  simp only [hcheck]
  cases staked.ageChecks params block.nTime with
  | false => cases node.debugstake <;> rfl
  | true =>
    by_cases hgt : Hash (staked.kernelBytes block.nTime (node.activeModifier pindexFrom)) >
        staked.coinDayWeight params block.nTime * (setCompact block.nBits).bnTarget <;>
      cases node.debugstake <;> simp [hgt]

structure BothKnow (Hash : Bytes → uint256) (params : CChainParams) (A B : StakeNode)
    (block : CBlock) (staked : StakedOutput) (fromA fromB : StakeIndex) : Prop where
  stakedA : A.stakedOutput Hash params block = .ok staked
  stakedB : B.stakedOutput Hash params block = .ok staked
  indexA : A.mapBlockIndex.stakeMap (staked.blockFrom.getHash Hash) = some fromA
  indexB : B.mapBlockIndex.stakeMap (staked.blockFrom.getHash Hash) = some fromB
  debugstake : A.debugstake = B.debugstake

theorem checkProofOfStake_eq_iff_hash {Hash : Bytes → uint256} {params : CChainParams}
    {A B : StakeNode} {block : CBlock} {staked : StakedOutput} {fromA fromB : StakeIndex}
    (hk : BothKnow Hash params A B block staked fromA fromB) (h : uint256) :
    A.checkProofOfStake Hash params block h = B.checkProofOfStake Hash params block h ↔
      (staked.ageChecks params block.nTime = true →
        Hash (staked.kernelBytes block.nTime (A.activeModifier fromA)) =
          Hash (staked.kernelBytes block.nTime (B.activeModifier fromB))) := by
  rw [checkProofOfStake_of_staked Hash params A block staked fromA h hk.stakedA hk.indexA,
    checkProofOfStake_of_staked Hash params B block staked fromB h hk.stakedB hk.indexB,
    hk.debugstake]
  cases staked.ageChecks params block.nTime with
  | false => simp
  | true =>
    simp only [if_true, forall_const, Prod.mk.injEq]
    refine ⟨fun heq => heq.2, fun heq => ⟨?_, heq⟩⟩
    rw [heq]

def secondNode (chainActive : List uint256) : StakeNode where
  mapBlockIndex := treeRun hash256 (fun _ => 0) ∅
    [.header (CBlock.ofHeader genesisHeader), .header firstBlock, .data firstBlock ⟨0, 8⟩,
      .header (CBlock.ofHeader secondHeader)]
  chainActive := chainActive
  accessCoins := firstNode.accessCoins
  blockFiles := firstNode.blockFiles
  debugstake := true

def shorter : StakeNode :=
  secondNode [genesisHeader.getHash hash256, firstHeader.getHash hash256]

def longer : StakeNode :=
  secondNode [genesisHeader.getHash hash256, firstHeader.getHash hash256,
    secondHeader.getHash hash256]

def firstStaked : StakedOutput :=
  ⟨⟨firstCoinBase.hash, 0⟩, ⟨500000 * COIN, [0x51], -10⟩, firstBlock⟩

end StakeNode

end Alqo
