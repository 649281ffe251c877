import Alqo.NextWork
import Alqo.ConnectBlock

/-!
# The switch to proof of stake (pow.cpp, main.cpp)

`ConnectBlock` switches by the height of the block, `GetNextWorkRequired` by that of its parent, the
window of the average by a third comparison. They agree at every height but one.
-/

namespace Alqo

/-- `ConnectBlock` takes no proof-of-work block at this height. -/
def RequiresProofOfStake (params : CChainParams) (nHeight : Nat) : Prop :=
  ∀ (node : Node) (block : CBlock) (hash : uint256) (pindex : CBlockIndex) (view : CoinsView),
    node.params = params → pindex.nHeight = nHeight →
    checkBeforeConnect node block hash pindex view = .ok () → block.isProofOfStake = true

variable {node : Node} {pindex : CBlockIndex}

theorem checkBeforeConnect_proof {block : CBlock} {hash : uint256} {view : CoinsView}
    (h : checkBeforeConnect node block hash pindex view = .ok ()) :
    block.isProofOfStake = true ↔ node.params.nLastPOWBlock < pindex.nHeight := by
  unfold checkBeforeConnect at h
  split_ifs at h with hearly hended
  · simp [dos] at h
  · simp [dos] at h
  · simp [dos] at h
  · simp only [CBlock.isProofOfWork, Bool.not_eq_true'] at hended
    constructor
    · intro hstake
      by_contra hlow
      exact hearly ⟨by omega, hstake⟩
    · intro hhigh
      by_contra hwork
      exact hended ⟨hhigh, Bool.eq_false_iff.mpr hwork⟩

def bareBlock : CBlock := { secondHeader with vtx := [] }

theorem checkBeforeConnect_bareBlock (h : pindex.nHeight ≤ node.params.nLastPOWBlock)
    (view : CoinsView) :
    checkBeforeConnect node bareBlock 0 pindex view = .ok () := by
  have hwork : bareBlock.isProofOfStake = false := rfl
  have hnone : bareBlock.vtx = [] := rfl
  rw [checkBeforeConnect, if_neg (by simp [hwork]), if_neg (by omega)]
  simp [hnone]

theorem requiresProofOfStake_iff (params : CChainParams) (nHeight : Nat) :
    RequiresProofOfStake params nHeight ↔ params.nLastPOWBlock < nHeight := by
  constructor
  · intro hrequires
    by_contra hlow
    have hstake := hrequires { Node.afterFirst with params := params } bareBlock 0
      { nHeight := nHeight } .paid rfl rfl
      (checkBeforeConnect_bareBlock (by change nHeight ≤ params.nLastPOWBlock; omega) .paid)
    exact absurd hstake (by decide)
  · intro hhigh node block hash pindex view hparams hheight hok
    rw [checkBeforeConnect_proof hok, hparams, hheight]
    exact hhigh

/-- An index chain with its blocks; every block above the genesis block got past the
checks of `ConnectBlock`. -/
structure ConnectedChain (params : CChainParams) extends IndexChain where
  body : Nat → CBlock
  connected : ∀ i, 0 < i → i ≤ nHeight → ∃ (node : Node) (hash : uint256) (view : CoinsView),
    node.params = params ∧ checkBeforeConnect node (body i) hash (block i) view = .ok ()

theorem ConnectedChain.isProofOfStake_iff {params : CChainParams} (chain : ConnectedChain params)
    {i : Nat} (hpos : 0 < i) (hi : i ≤ chain.nHeight) :
    (chain.body i).isProofOfStake = true ↔ params.nLastPOWBlock < i := by
  obtain ⟨node, hash, view, hparams, hok⟩ := chain.connected i hpos hi
  rw [checkBeforeConnect_proof hok, hparams, chain.height i hi]

structure SwitchesWithNext {params : CChainParams} (chain : ConnectedChain params) : Prop where
  limit : nextProofOfStake params chain.nHeight = true ↔
    RequiresProofOfStake params (chain.nHeight + 1)
  restart : tooFewBlocks params chain.nHeight = true ↔ chain.nHeight < 25 ∨
    RequiresProofOfStake params (chain.nHeight + 1) ∧ chain.nHeight < params.nLastPOWBlock + 25
  average : tooFewBlocks params chain.nHeight = false → ∀ i < 25,
    ((chain.body (chain.nHeight - 24 + i)).isProofOfStake = true ↔
      RequiresProofOfStake params (chain.nHeight + 1))

theorem nextProofOfStake_iff (params : CChainParams) (height : Nat) :
    nextProofOfStake params height = true ↔ params.nLastPOWBlock < height := decide_eq_true_iff

theorem tooFewBlocks_iff (params : CChainParams) (height : Nat) :
    tooFewBlocks params height = true ↔
      height < 25 ∨ params.nLastPOWBlock < height ∧ height < params.nLastPOWBlock + 25 := by
  rw [tooFewBlocks, Bool.or_eq_true, Bool.and_eq_true, decide_eq_true_iff, decide_eq_true_iff,
    decide_eq_true_iff]
  unfold lwmaN
  omega

theorem switchesWithNext_iff {params : CChainParams} (chain : ConnectedChain params) :
    SwitchesWithNext chain ↔ chain.nHeight + 1 ≠ params.nLastPOWBlock + 1 := by
  constructor
  · intro hswitch hfirst
    have hlimit := hswitch.limit
    rw [nextProofOfStake_iff, requiresProofOfStake_iff] at hlimit
    omega
  · intro hfirst
    constructor
    · rw [nextProofOfStake_iff, requiresProofOfStake_iff]
      omega
    · rw [tooFewBlocks_iff, requiresProofOfStake_iff]
      omega
    · intro hwindow i hi
      have hfull : ¬ (tooFewBlocks params chain.nHeight = true) := by simp [hwindow]
      rw [tooFewBlocks_iff] at hfull
      rw [chain.isProofOfStake_iff (by omega) (by omega), requiresProofOfStake_iff]
      omega

def workChain : ConnectedChain mainParams where
  nHeight := 300
  block i := { nHeight := i, nTime := i * 90, nBits := 0x1e0fffff#32 }
  nHeight_lt := by decide
  height _ _ := rfl
  time i hi := by
    change i * 90 < 2 ^ 32
    omega
  body _ := bareBlock
  connected _ _ hi := ⟨Node.afterFirst, 0, .paid, rfl, checkBeforeConnect_bareBlock hi .paid⟩

/-- The first proof-of-stake block gets a target averaged over proof-of-work blocks, and
not the limit a restarted window would give it. -/
theorem workChain_averages : RequiresProofOfStake mainParams (workChain.nHeight + 1) ∧
    nextProofOfStake mainParams workChain.nHeight = false ∧
    tooFewBlocks mainParams workChain.nHeight = false ∧
    (∀ i, (workChain.body i).isProofOfStake = false) ∧
    getNextWorkRequired mainParams workChain.toIndexChain = some 0x1e17fffe#32 ∧
    getCompactChecked mainParams.bnProofOfStakeLimit = some 0x1f01ffff#32 := by
  refine ⟨?_, by decide, by decide, fun _ => rfl, by decide +kernel,
    by decide +kernel⟩
  rw [requiresProofOfStake_iff]
  decide

end Alqo
