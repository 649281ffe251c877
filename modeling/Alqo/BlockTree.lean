import Alqo.StakeModifier
import Alqo.Lib.BranchSum

/-!
# Growing the block index (main.cpp)

A run of `AddToBlockIndex` and `ReceivedBlockTransactions` keeps `TreeLinked` and `WorkByTrust`: the
map is a forest, and the work of an entry is its parent's plus its own trust.
-/

namespace Alqo
open Lib.BranchSum AList Option

/-- `CBlock(const CBlockHeader&)`: a block without transactions. -/
def CBlock.ofHeader (header : CBlockHeader) : CBlock := { header with vtx := [] }

section
variable (Hash : Bytes → uint256) (mapProofOfStake : uint256 → uint256) (m : BlockMap)

/-- Fields of a new entry that depend on its parent.
`mapProofOfStake` holds the kernel hashes found by earlier checks. -/
def linkToParent (hash hashPrev : uint256) (pprev index : CBlockIndex) : CBlockIndex :=
  let modifier := computeNextStakeModifier Hash m.stakeMap (some hashPrev) index.nTime
  { index with
    pprev := some hashPrev
    nHeight := pprev.nHeight + 1
    fStakeEntropy := getStakeEntropyBit hash == 1
    hashProofOfStake :=
      if index.fProofOfStake then mapProofOfStake hash else index.hashProofOfStake
    nStakeModifier := modifier.nStakeModifier
    fStakeModifier := modifier.fGeneratedStakeModifier }

/- The entry is built from the
expression `HeaderCastFlag() ? block : (const CBlockHeader)block`; its arms are a
`CBlock` and its base class, so the whole expression is a `CBlockHeader` whatever
the flag says, and the entry never sees the transactions. -/
def addToBlockIndex (block : CBlock) : BlockMap :=
  let hash := block.getHash Hash
  if hash ∈ m then m
  else
    let index := CBlockIndex.ofBlock (CBlock.ofHeader block.toCBlockHeader)
    match m.lookup block.hashPrevBlock with
    | some pprev =>
      let linked := linkToParent Hash mapProofOfStake m hash block.hashPrevBlock pprev index
      m.insert hash { linked with
        nChainWork := pprev.nChainWork + linked.getBlockTrust
        nStatus := linked.nStatus.raiseValidity BlockStatus.VALID_TREE }
    | none =>
      m.insert hash { index with
        nChainWork := 0 + index.getBlockTrust
        nStatus := index.nStatus.raiseValidity BlockStatus.VALID_TREE }

structure CDiskBlockPos where
  nFile : Nat
  nPos : Nat
deriving DecidableEq, Repr

/-- The entry of a block whose data has been stored
(`ReceivedBlockTransactions`, main.cpp:2943-2956). -/
def CBlockIndex.received (index : CBlockIndex) (block : CBlock) (pos : CDiskBlockPos) :
    CBlockIndex :=
  { index with
    fProofOfStake := index.fProofOfStake || block.isProofOfStake
    nTx := block.vtx.length
    nFile := pos.nFile
    nDataPos := pos.nPos
    nUndoPos := 0
    nStatus := BlockStatus.raiseValidity { index.nStatus with fHaveData := true }
      BlockStatus.VALID_TRANSACTIONS }

def receivedBlockTransactions (block : CBlock) (pos : CDiskBlockPos) : BlockMap :=
  match m.lookup (block.getHash Hash) with
  | none => m
  | some index => m.insert (block.getHash Hash) (index.received block pos)

inductive TreeEvent where
  | header (block : CBlock)
  | data (block : CBlock) (pos : CDiskBlockPos)

def treeStep : TreeEvent → BlockMap
  | .header block => addToBlockIndex Hash mapProofOfStake m block
  | .data block pos => receivedBlockTransactions Hash m block pos

/-- A header reaches `AddToBlockIndex` only if it is the genesis header, which has
no parent, or its parent is known. No header hashes to
zero, the value that stands for the null pointer. -/
def EventOk : TreeEvent → Prop
  | .header block =>
    block.getHash Hash ≠ 0 ∧ (block.hashPrevBlock = 0 ∨ block.hashPrevBlock ∈ m)
  | .data _ _ => True

instance decidableEventOk (Hash : Bytes → uint256) (m : BlockMap) :
    (e : TreeEvent) → Decidable (EventOk Hash m e)
  | .header _ => inferInstanceAs (Decidable (_ ∧ _))
  | .data _ _ => inferInstanceAs (Decidable True)

def treeRun (Hash : Bytes → uint256) (mapProofOfStake : uint256 → uint256) :
    BlockMap → List TreeEvent → BlockMap
  | m, [] => m
  | m, e :: es => treeRun Hash mapProofOfStake (treeStep Hash mapProofOfStake m e) es

def RunOk (Hash : Bytes → uint256) (mapProofOfStake : uint256 → uint256) :
    BlockMap → List TreeEvent → Prop
  | _, [] => True
  | m, e :: es =>
    EventOk Hash m e ∧ RunOk Hash mapProofOfStake (treeStep Hash mapProofOfStake m e) es

instance decidableRunOk (Hash : Bytes → uint256) (mapProofOfStake : uint256 → uint256) :
    (m : BlockMap) → (events : List TreeEvent) → Decidable (RunOk Hash mapProofOfStake m events)
  | _, [] => inferInstanceAs (Decidable True)
  | m, e :: es =>
    have := decidableRunOk Hash mapProofOfStake (treeStep Hash mapProofOfStake m e) es
    inferInstanceAs (Decidable (_ ∧ _))

def parentWork (index : CBlockIndex) : uint256 :=
  match index.pprev.bind fun hash => m.lookup hash with
  | some pprev => pprev.nChainWork
  | none => 0

structure EntryLinked (Hash : Bytes → uint256) (m : BlockMap) (hash : uint256)
    (index : CBlockIndex) : Prop where
  key : index.getBlockHeader.getHash Hash = hash
  nonzero : hash ≠ 0
  root : index.pprev = none → index.nHeight = 0
  parent : ∀ p, index.pprev = some p → ∃ q, m.lookup p = some q ∧ index.nHeight = q.nHeight + 1

def TreeLinked : Prop :=
  ∀ hash index, m.lookup hash = some index → EntryLinked Hash m hash index

def WorkByTrust : Prop :=
  ∀ hash index, m.lookup hash = some index →
    index.nChainWork = parentWork m index + getBlockTrust index.nBits false

def forest (h : TreeLinked Hash m) : Forest uint256 where
  node hash := hash ∈ m
  parent hash := (m.lookup hash).bind fun index => index.pprev
  height hash := ((m.lookup hash).map fun index => index.nHeight).getD 0
  parent_node k p hk hp := by
    obtain ⟨index, hindex, hpprev⟩ := bind_eq_some_iff.mp hp
    obtain ⟨q, hq, -⟩ := (h k index hindex).parent p hpprev
    exact lookup_isSome.mp (by rw [hq]; rfl)
  parent_lt k p hk hp := by
    obtain ⟨index, hindex, hpprev⟩ := bind_eq_some_iff.mp hp
    obtain ⟨q, hq, hheight⟩ := (h k index hindex).parent p hpprev
    simp [hindex, hq, hheight]

end

variable {m : BlockMap} {hash key : uint256} {Hash : Bytes → uint256} {index new old : CBlockIndex}

theorem ne_of_notMem {p : uint256} {q : CBlockIndex} (hnew : hash ∉ m) (hq : m.lookup p = some q) :
    p ≠ hash := by
  rintro rfl
  exact hnew (lookup_isSome.mp (by rw [hq]; rfl))

theorem EntryLinked.insert_new (h : EntryLinked Hash m key index) (hnew : hash ∉ m) :
    EntryLinked Hash (m.insert hash new) key index where
  key := h.key
  nonzero := h.nonzero
  root := h.root
  parent p hp := by
    obtain ⟨q, hq, hheight⟩ := h.parent p hp
    exact ⟨q, by rw [lookup_insert_ne (ne_of_notMem hnew hq), hq], hheight⟩

theorem parentWork_insert_new (h : EntryLinked Hash m key index) (hnew : hash ∉ m) :
    parentWork (m.insert hash new) index = parentWork m index := by
  unfold parentWork
  cases hp : index.pprev with
  | none => rfl
  | some p =>
    obtain ⟨q, hq, -⟩ := h.parent p hp
    simp only [bind_some]
    rw [lookup_insert_ne (ne_of_notMem hnew hq)]

theorem insert_leaf (hm : TreeLinked Hash m) (hw : WorkByTrust m) (hnew : hash ∉ m)
    (hlink : EntryLinked Hash m hash new)
    (hwork : new.nChainWork = parentWork m new + getBlockTrust new.nBits false) :
    TreeLinked Hash (m.insert hash new) ∧ WorkByTrust (m.insert hash new) := by
  constructor
  · intro key index hkey
    by_cases hk : key = hash
    · subst hk
      rw [lookup_insert] at hkey
      cases hkey
      exact hlink.insert_new hnew
    · rw [lookup_insert_ne hk] at hkey
      exact (hm key index hkey).insert_new hnew
  · intro key index hkey
    by_cases hk : key = hash
    · subst hk
      rw [lookup_insert] at hkey
      cases hkey
      rw [parentWork_insert_new hlink hnew, hwork]
    · rw [lookup_insert_ne hk] at hkey
      rw [parentWork_insert_new (hm key index hkey) hnew]
      exact hw key index hkey

structure SameLinks (old new : CBlockIndex) : Prop where
  header : new.getBlockHeader = old.getBlockHeader
  pprev : new.pprev = old.pprev
  nHeight : new.nHeight = old.nHeight
  nChainWork : new.nChainWork = old.nChainWork

theorem SameLinks.nBits (h : SameLinks old new) :
    new.nBits = old.nBits := congrArg CBlockHeader.nBits h.header

theorem lookup_insert_cases (hold : m.lookup hash = some old) (hsame : SameLinks old new)
    (hkey : (m.insert hash new).lookup key = some index) :
    ∃ before, m.lookup key = some before ∧ SameLinks before index := by
  by_cases hk : key = hash
  · subst hk
    rw [lookup_insert] at hkey
    cases hkey
    exact ⟨old, hold, hsame⟩
  · rw [lookup_insert_ne hk] at hkey
    exact ⟨index, hkey, rfl, rfl, rfl, rfl⟩

theorem lookup_insert_of_lookup {before : CBlockIndex} (hold : m.lookup hash = some old)
    (hsame : SameLinks old new) (hkey : m.lookup key = some before) :
    ∃ index, (m.insert hash new).lookup key = some index ∧ SameLinks before index := by
  by_cases hk : key = hash
  · subst hk
    rw [hold] at hkey
    cases hkey
    exact ⟨new, lookup_insert _, hsame⟩
  · exact ⟨before, by rw [lookup_insert_ne hk, hkey], rfl, rfl, rfl, rfl⟩

theorem replace_entry (hm : TreeLinked Hash m) (hw : WorkByTrust m)
    (hold : m.lookup hash = some old) (hsame : SameLinks old new) :
    TreeLinked Hash (m.insert hash new) ∧ WorkByTrust (m.insert hash new) := by
  constructor
  · intro key index hkey
    obtain ⟨before, hbefore, hs⟩ := lookup_insert_cases hold hsame hkey
    have hl := hm key before hbefore
    refine ⟨by rw [hs.header, hl.key], hl.nonzero, fun hp => ?_, fun p hp => ?_⟩
    · rw [hs.nHeight]
      exact hl.root (hs.pprev ▸ hp)
    rw [hs.pprev] at hp
    obtain ⟨q, hq, hheight⟩ := hl.parent p hp
    obtain ⟨q', hq', hsq⟩ := lookup_insert_of_lookup hold hsame hq
    exact ⟨q', hq', by rw [hs.nHeight, hheight, hsq.nHeight]⟩
  · intro key index hkey
    obtain ⟨before, hbefore, hs⟩ := lookup_insert_cases hold hsame hkey
    have hparent : parentWork (m.insert hash new) index = parentWork m before := by
      unfold parentWork
      rw [hs.pprev]
      cases hp : before.pprev with
      | none => rfl
      | some p =>
        obtain ⟨q, hq, -⟩ := (hm key before hbefore).parent p hp
        obtain ⟨q', hq', hsq⟩ := lookup_insert_of_lookup hold hsame hq
        simp only [bind_some, hq, hq', hsq.nChainWork]
    rw [hparent, hs.nChainWork, hs.nBits]
    exact hw key before hbefore

theorem addToBlockIndex_ok (Hash : Bytes → uint256) (mapProofOfStake : uint256 → uint256)
    (m : BlockMap) (block : CBlock) (hm : TreeLinked Hash m) (hw : WorkByTrust m)
    (hev : EventOk Hash m (.header block)) :
    TreeLinked Hash (addToBlockIndex Hash mapProofOfStake m block) ∧
      WorkByTrust (addToBlockIndex Hash mapProofOfStake m block) := by
  obtain ⟨hnz, hprev⟩ := hev
  unfold addToBlockIndex
  by_cases hmem : block.getHash Hash ∈ m
  · simp only [hmem, if_true]
    exact ⟨hm, hw⟩
  · simp only [hmem, if_false]
    cases hl : m.lookup block.hashPrevBlock with
    | some pprev =>
      apply insert_leaf hm hw hmem
      · refine ⟨rfl, hnz, fun hp => (by cases hp), fun p hp => ?_⟩
        cases hp
        exact ⟨pprev, hl, rfl⟩
      · simp only [parentWork, linkToParent, bind_some, hl]
        rfl
    | none =>
      have hzero : block.hashPrevBlock = 0 := by
        rcases hprev with h | h
        · exact h
        · rw [← lookup_isSome, hl] at h
          cases h
      have hheader : ({ block.toCBlockHeader with hashPrevBlock := 0 } : CBlockHeader) =
          block.toCBlockHeader := by
        rw [← hzero]
      apply insert_leaf hm hw hmem
      · exact ⟨congrArg (CBlockHeader.getHash Hash) hheader, hnz, fun _ => rfl,
          fun p hp => by cases hp⟩
      · rfl

theorem receivedBlockTransactions_ok (Hash : Bytes → uint256) (m : BlockMap) (block : CBlock)
    (pos : CDiskBlockPos) (hm : TreeLinked Hash m) (hw : WorkByTrust m) :
    TreeLinked Hash (receivedBlockTransactions Hash m block pos) ∧
      WorkByTrust (receivedBlockTransactions Hash m block pos) := by
  unfold receivedBlockTransactions
  cases hl : m.lookup (block.getHash Hash) with
  | none => exact ⟨hm, hw⟩
  | some index => exact replace_entry hm hw hl ⟨rfl, rfl, rfl, rfl⟩

theorem treeRun_ok (Hash : Bytes → uint256) (mapProofOfStake : uint256 → uint256) (m : BlockMap)
    (events : List TreeEvent) (hm : TreeLinked Hash m) (hw : WorkByTrust m)
    (hrun : RunOk Hash mapProofOfStake m events) :
    TreeLinked Hash (treeRun Hash mapProofOfStake m events) ∧
      WorkByTrust (treeRun Hash mapProofOfStake m events) := by
  induction events generalizing m with
  | nil => exact ⟨hm, hw⟩
  | cons e es ih =>
    obtain ⟨hev, hrest⟩ := hrun
    have hstep : TreeLinked Hash (treeStep Hash mapProofOfStake m e) ∧
        WorkByTrust (treeStep Hash mapProofOfStake m e) := by
      cases e with
      | header block => exact addToBlockIndex_ok Hash mapProofOfStake m block hm hw hev
      | data block pos => exact receivedBlockTransactions_ok Hash m block pos hm hw
    exact ih (treeStep Hash mapProofOfStake m e) hstep.1 hstep.2 hrest

end Alqo
