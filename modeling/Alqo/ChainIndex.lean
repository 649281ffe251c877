import Alqo.BlockTree
import Alqo.CheckBlock
import Alqo.Lib.Branches

/-!
# Block index, candidates and active chain (main.cpp)

`nChainTx` and `nSequenceId` stand beside the map, keyed by block hash. `chainActive` is given by
its tip. Verdicts of the checks come with the events; a failed assertion ends the process (`none`).
Disk errors, `pindexBestInvalid`, `pindexBestHeader`, the set of dirty entries and the notifications
are left out.
-/

namespace Alqo
open Function List

namespace BlockStatus

def markFailedValid (s : BlockStatus) : BlockStatus := { s with fFailedValid := true }
def markFailedChild (s : BlockStatus) : BlockStatus := { s with fFailedChild := true }
def clearFailed (s : BlockStatus) : BlockStatus :=
  { s with
    fFailedValid := false
    fFailedChild := false }

end BlockStatus

/-- What stays fixed while the node runs. The entry of a block is allocated once,
at an address of its own. -/
structure ChainEnv where
  Hash : Bytes → uint256
  mapProofOfStake : uint256 → uint256
  address : uint256 ↪ Nat
  genesis : CBlock
  genesis_vtx : genesis.vtx.length = 1
  mapCheckpoints : Nat → Option uint256
  fCheckpointsEnabled : Bool

def ChainEnv.hashGenesisBlock (env : ChainEnv) : uint256 := env.genesis.getHash env.Hash

/-- `Checkpoints::CheckBlock`. -/
def ChainEnv.checkpointsCheckBlock (env : ChainEnv) (nHeight : Nat) (hash : uint256)
    (fMatchesCheckpoint : Bool) : Bool :=
  if !env.fCheckpointsEnabled then true
  else match env.mapCheckpoints nHeight with
    | none => !fMatchesCheckpoint
    | some checkpoint => hash == checkpoint

structure ChainIndex where
  mapBlockIndex : BlockMap
  nChainTx : uint256 → BitVec 32
  nSequenceId : uint256 → BitVec 32
  tip : uint256
  setBlockIndexCandidates : List uint256
  mapBlocksUnlinked : List (uint256 × uint256)
  nBlockSequenceId : BitVec 32

namespace ChainIndex

section
variable (s : ChainIndex) (env : ChainEnv)

def pprev (hash : uint256) : Option uint256 :=
  (s.mapBlockIndex.lookup hash).bind fun index => index.pprev

def nHeight (hash : uint256) : Nat :=
  ((s.mapBlockIndex.lookup hash).map fun index => index.nHeight).getD 0

def nChainWork (hash : uint256) : uint256 :=
  ((s.mapBlockIndex.lookup hash).map fun index => index.nChainWork).getD 0

def nTx (hash : uint256) : Nat :=
  ((s.mapBlockIndex.lookup hash).map fun index => index.nTx).getD 0

def status (hash : uint256) : BlockStatus :=
  ((s.mapBlockIndex.lookup hash).map fun index => index.nStatus).getD {}

def branch (hash : uint256) : List uint256 :=
  Lib.Branches.branch s.pprev s.nHeight hash

theorem branch_cons (hash : uint256) : ∃ tail, s.branch hash = hash :: tail :=
  Lib.Branches.branch_eq_cons hash

/-- `chainActive.Contains`. -/
def contains (hash : uint256) : Bool := (s.branch s.tip).contains hash

/- Without the skip pointers. -/
def getAncestor (hash : uint256) (height : Nat) : Option uint256 :=
  if height > s.nHeight hash then none else (s.branch hash)[s.nHeight hash - height]?

/-- `CBlockIndexWorkComparator`: `pa` sorts worse than `pb`. -/
def worse (s : ChainIndex) (pa pb : uint256) : Bool :=
  if s.nChainWork pa > s.nChainWork pb then false
  else if s.nChainWork pa < s.nChainWork pb then true
  else if s.nSequenceId pa < s.nSequenceId pb then false
  else if s.nSequenceId pa > s.nSequenceId pb then true
  else if env.address pa < env.address pb then false
  else if env.address pa > env.address pb then true
  else false

def rank (s : ChainIndex) (hash : uint256) : ℕ ×ₗ (ℕᵒᵈ ×ₗ ℕᵒᵈ) :=
  toLex ((s.nChainWork hash).toNat,
    toLex (OrderDual.toDual (s.nSequenceId hash).toNat, OrderDual.toDual (env.address hash)))

/-- `*setBlockIndexCandidates.rbegin()`. -/
def bestCandidate (s : ChainIndex) : Option uint256 :=
  s.setBlockIndexCandidates.argmax (s.rank env)

def updateStatus (hash : uint256) (f : BlockStatus → BlockStatus) : ChainIndex :=
  match s.mapBlockIndex.lookup hash with
  | none => s
  | some index =>
    { s with mapBlockIndex := s.mapBlockIndex.insert hash { index with nStatus := f index.nStatus } }

def eraseCandidate (hash : uint256) : ChainIndex :=
  { s with
    setBlockIndexCandidates := s.setBlockIndexCandidates.filter fun c => decide (c ≠ hash) }

def insertCandidate (hash : uint256) : ChainIndex :=
  { s with setBlockIndexCandidates := s.setBlockIndexCandidates.insert hash }

def addUnlinked (hash : uint256) : ChainIndex :=
  match s.pprev hash with
  | none => s
  | some p => { s with mapBlocksUnlinked := s.mapBlocksUnlinked ++ [(p, hash)] }

/-- `AddToBlockIndex`: the fields of a new entry that are not stored in the map are zero. -/
def addToBlockIndex (s : ChainIndex) (block : CBlock) : ChainIndex :=
  let hash := block.getHash env.Hash
  if hash ∈ s.mapBlockIndex then s
  else
    { s with
      mapBlockIndex := Alqo.addToBlockIndex env.Hash env.mapProofOfStake s.mapBlockIndex block
      nChainTx := update s.nChainTx hash 0
      nSequenceId := update s.nSequenceId hash 0 }

def nChainTxPrev (pindex : uint256) : BitVec 32 :=
  match s.pprev pindex with
  | some p => s.nChainTx p
  | none => 0

/-- The counters of a linked block. -/
def countBlock (pindex : uint256) : ChainIndex :=
  { s with
    nChainTx :=
      update s.nChainTx pindex (s.nChainTxPrev pindex + BitVec.ofNat 32 (s.nTx pindex))
    nSequenceId := update s.nSequenceId pindex s.nBlockSequenceId
    nBlockSequenceId := s.nBlockSequenceId + 1 }

/-- One turn of the loop of `ReceivedBlockTransactions`,
up to the waiting children. -/
def linkBlock (s : ChainIndex) (pindex : uint256) : ChainIndex :=
  let s := s.countBlock pindex
  if s.worse env pindex s.tip then s else s.insertCandidate pindex

def waitingFor (pindex : uint256) : List uint256 :=
  (s.mapBlocksUnlinked.filter fun entry => decide (entry.1 = pindex)).map Prod.snd

/-- `mapBlocksUnlinked.erase` over `equal_range(pindex)`. -/
def releaseWaiting (pindex : uint256) : ChainIndex :=
  { s with
    mapBlocksUnlinked := s.mapBlocksUnlinked.filter fun entry => decide (¬ entry.1 = pindex) }

theorem waitingFor_length (pindex : uint256) :
    (s.waitingFor pindex).length + (s.releaseWaiting pindex).mapBlocksUnlinked.length =
      s.mapBlocksUnlinked.length := by
  simp only [waitingFor, releaseWaiting, length_map]
  rw [← countP_eq_length_filter, ← countP_eq_length_filter]
  have h := length_eq_countP_add_countP (l := s.mapBlocksUnlinked)
    fun entry : uint256 × uint256 => decide (entry.1 = pindex)
  simpa using h.symm

theorem linkBlock_unlinked (s : ChainIndex) (pindex : uint256) :
    (s.linkBlock env pindex).mapBlocksUnlinked = s.mapBlocksUnlinked := by
  simp only [linkBlock]
  split_ifs
  · rfl
  · rfl

/-- The queue of `ReceivedBlockTransactions`. -/
def linkQueue (env : ChainEnv) (s : ChainIndex) : List uint256 → ChainIndex
  | [] => s
  | pindex :: queue =>
    let linked := s.linkBlock env pindex
    linkQueue env (linked.releaseWaiting pindex) (queue ++ linked.waitingFor pindex)
termination_by queue => queue.length + s.mapBlocksUnlinked.length
decreasing_by
  have h := (s.linkBlock env pindex).waitingFor_length pindex
  rw [linkBlock_unlinked] at h
  simp only [length_append, length_cons]
  omega

/-- The entry of the stored block. -/
def storeData (s : ChainIndex) (block : CBlock) (pos : CDiskBlockPos) :
    ChainIndex :=
  { s with
    mapBlockIndex := Alqo.receivedBlockTransactions env.Hash s.mapBlockIndex block pos
    nChainTx := update s.nChainTx (block.getHash env.Hash) 0 }

def receivedBlockTransactions (s : ChainIndex) (block : CBlock) (pos : CDiskBlockPos) :
    ChainIndex :=
  let pindexNew := block.getHash env.Hash
  let s := s.storeData env block pos
  match s.pprev pindexNew with
  | none => s.linkQueue env [pindexNew]
  | some p =>
    if s.nChainTx p ≠ 0 then s.linkQueue env [pindexNew]
    else if (s.status p).isValid BlockStatus.VALID_TREE then s.addUnlinked pindexNew
    else s

def offChain (hash : uint256) : List uint256 :=
  (s.branch hash).takeWhile fun x => !s.contains x

/-- Failed, or without its data. -/
def unusable (hash : uint256) : Bool :=
  (s.status hash).failed || !(s.status hash).fHaveData

def asserted (hash : uint256) : Bool :=
  decide (s.nChainTx hash ≠ 0) || decide (s.nHeight hash = 0)

/-- One turn of the loop that removes an unusable chain. -/
def dropBlock (fFailedChain : Bool) (s : ChainIndex) (pindexFailed : uint256) : ChainIndex :=
  (if fFailedChain then s.updateStatus pindexFailed BlockStatus.markFailedChild
    else s.addUnlinked pindexFailed).eraseCandidate pindexFailed

def dropChain (above : List uint256) (pindexTest : uint256) : ChainIndex :=
  (above.foldl (dropBlock (s.status pindexTest).failed) s).eraseCandidate pindexTest

theorem updateStatus_eq (hash : uint256) (f : BlockStatus → BlockStatus) :
    s.updateStatus hash f = { s with mapBlockIndex := (s.updateStatus hash f).mapBlockIndex } := by
  unfold updateStatus
  cases s.mapBlockIndex.lookup hash with
  | none => rfl
  | some index => rfl

theorem updateStatus_candidates (hash : uint256) (f : BlockStatus → BlockStatus) :
    (s.updateStatus hash f).setBlockIndexCandidates = s.setBlockIndexCandidates := by
  rw [updateStatus_eq]

theorem addUnlinked_candidates (hash : uint256) :
    (s.addUnlinked hash).setBlockIndexCandidates = s.setBlockIndexCandidates := by
  unfold addUnlinked
  cases s.pprev hash with
  | none => rfl
  | some p => rfl

end

variable {s : ChainIndex} {c pindexTest : uint256} {above : List uint256} {fFailedChain : Bool}

theorem mem_dropBlock {pindexFailed : uint256} :
    c ∈ (dropBlock fFailedChain s pindexFailed).setBlockIndexCandidates ↔
      c ∈ s.setBlockIndexCandidates ∧ c ≠ pindexFailed := by
  cases fFailedChain with
  | false => simp [dropBlock, eraseCandidate, addUnlinked_candidates]
  | true => simp [dropBlock, eraseCandidate, updateStatus_candidates]

theorem mem_foldl_dropBlock : c ∈ (above.foldl (dropBlock fFailedChain) s).setBlockIndexCandidates ↔
      c ∈ s.setBlockIndexCandidates ∧ c ∉ above := by
  induction above generalizing s with
  | nil => simp
  | cons x above ih =>
    rw [foldl_cons, ih, mem_dropBlock, mem_cons, not_or, and_assoc]

theorem mem_dropChain : c ∈ (s.dropChain above pindexTest).setBlockIndexCandidates ↔
      c ∈ s.setBlockIndexCandidates ∧ c ∉ above ∧ c ≠ pindexTest := by
  simp only [dropChain, eraseCandidate, mem_filter, mem_foldl_dropBlock, decide_eq_true_eq,
    and_assoc]

theorem dropBlock_sublist (fFailedChain : Bool) (s : ChainIndex) (pindexFailed : uint256) :
    (dropBlock fFailedChain s pindexFailed).setBlockIndexCandidates.Sublist
      s.setBlockIndexCandidates := by
  cases fFailedChain with
  | false =>
    simp only [dropBlock, eraseCandidate, addUnlinked_candidates, Bool.false_eq_true, if_false]
    exact filter_sublist
  | true =>
    simp only [dropBlock, eraseCandidate, updateStatus_candidates, if_true]
    exact filter_sublist

theorem dropChain_sublist (s : ChainIndex) (above : List uint256) (pindexTest : uint256) :
    (s.dropChain above pindexTest).setBlockIndexCandidates.Sublist s.setBlockIndexCandidates := by
  have hfold : ∀ (fFailedChain : Bool) (t : ChainIndex),
      (above.foldl (dropBlock fFailedChain) t).setBlockIndexCandidates.Sublist
        t.setBlockIndexCandidates := by
    intro fFailedChain
    induction above with
    | nil => exact fun t => List.Sublist.refl _
    | cons x above ih => exact fun t => (ih _).trans (dropBlock_sublist fFailedChain t x)
  exact filter_sublist.trans (hfold _ s)

theorem dropChain_length_lt (hc : c ∈ s.setBlockIndexCandidates)
    (hdrop : c ∈ above ∨ c = pindexTest) :
    (s.dropChain above pindexTest).setBlockIndexCandidates.length <
      s.setBlockIndexCandidates.length := by
  have hsub := s.dropChain_sublist above pindexTest
  apply lt_of_le_of_ne hsub.length_le
  intro hlen
  have heq := hsub.eq_of_length hlen
  rw [← heq, mem_dropChain] at hc
  rcases hdrop with h | h
  · exact hc.2.1 h
  · exact hc.2.2 h

theorem offChain_head {hash x : uint256} {p : uint256 → Bool} {rest : List uint256}
    (h : (s.offChain hash).dropWhile p = x :: rest) :
    hash ∈ (s.offChain hash).takeWhile p ∨ hash = x := by
  obtain ⟨tail, htail⟩ := s.branch_cons hash
  unfold offChain at h ⊢
  rw [htail] at h ⊢
  cases hc : s.contains hash with
  | true => simp [hc] at h
  | false =>
    simp only [takeWhile_cons, hc, Bool.not_false, if_true] at h ⊢
    cases hp : p hash with
    | true => exact .inl (by simp)
    | false =>
      simp only [dropWhile_cons, hp, Bool.false_eq_true, if_false] at h
      exact .inr (List.cons.inj h).1

/- `none` when its assertion fails. -/
def findMostWorkChain (env : ChainEnv) (s : ChainIndex) : Option (Option uint256 × ChainIndex) :=
  match _hbest : s.bestCandidate env with
  | none => some (none, s)
  | some pindexNew =>
    let above := (s.offChain pindexNew).takeWhile fun x => !s.unusable x
    match _htest : (s.offChain pindexNew).dropWhile fun x => !s.unusable x with
    | [] => if above.all s.asserted then some (some pindexNew, s) else none
    | pindexTest :: _ =>
      if (above ++ [pindexTest]).all s.asserted then
        findMostWorkChain env (s.dropChain above pindexTest)
      else none
termination_by s.setBlockIndexCandidates.length
decreasing_by
  exact dropChain_length_lt (argmax_mem _hbest) (offChain_head _htest)

variable (env : ChainEnv)

/- `none` when its assertion fails. -/
def pruneBlockIndexCandidates (s : ChainIndex) : Option ChainIndex :=
  let kept := s.setBlockIndexCandidates.filter fun c => !s.worse env c s.tip
  if kept.isEmpty then none else some { s with setBlockIndexCandidates := kept }

/-- The loop over `mapBlockIndex` of `InvalidateBlock`. -/
def offerCandidate (s : ChainIndex) (it : uint256) : ChainIndex :=
  if (s.status it).isValid BlockStatus.VALID_TRANSACTIONS && decide (s.nChainTx it ≠ 0) &&
      !s.worse env it s.tip then
    s.insertCandidate it
  else s

def offerAll (s : ChainIndex) : ChainIndex :=
  s.mapBlockIndex.keys.foldl (offerCandidate env) s

def disconnected (s : ChainIndex) (pindex : uint256) : List uint256 :=
  (s.branch s.tip).takeWhile (fun x => decide (x ≠ pindex)) ++ [pindex]

def disconnectFailed (s : ChainIndex) (pindexWalk : uint256) : ChainIndex :=
  (s.updateStatus pindexWalk BlockStatus.markFailedChild).eraseCandidate pindexWalk

def markInvalid (s : ChainIndex) (pindex : uint256) : ChainIndex :=
  (s.updateStatus pindex BlockStatus.markFailedValid).eraseCandidate pindex

/-- `InvalidateBlock` up to the new candidates: the block is
failed and the active chain ends below it. The genesis block has no undo data and
cannot be disconnected. -/
def cutOff (s : ChainIndex) (pindex : uint256) : ChainIndex :=
  let s := s.markInvalid pindex
  if s.contains pindex then
    { (s.disconnected pindex).foldl disconnectFailed s with tip := (s.pprev pindex).getD pindex }
  else s

/- When `DisconnectTip` fails on the genesis
block, the function returns before it offers candidates. -/
def invalidateBlock (s : ChainIndex) (pindex : uint256) : ChainIndex :=
  if s.contains pindex && (s.pprev pindex).isNone then s.cutOff pindex
  else (s.cutOff pindex).offerAll env

/-- One turn of the loop over `mapBlockIndex` of `ReconsiderBlock`. -/
def reconsiderEntry (pindex : uint256) (s : ChainIndex) (it : uint256) :
    ChainIndex :=
  if !(s.status it).isValid BlockStatus.VALID_TRANSACTIONS &&
      s.getAncestor it (s.nHeight pindex) == some pindex then
    let s := s.updateStatus it BlockStatus.clearFailed
    if (s.status it).isValid BlockStatus.VALID_TRANSACTIONS && decide (s.nChainTx it ≠ 0) &&
        s.worse env s.tip it then
      s.insertCandidate it
    else s
  else s

def reconsiderBlock (s : ChainIndex) (pindex : uint256) : ChainIndex :=
  let s := s.mapBlockIndex.keys.foldl (reconsiderEntry env pindex) s
  (s.branch pindex).foldl (fun s x => s.updateStatus x BlockStatus.clearFailed) s

end ChainIndex

/-- How `ConnectBlock` ends: accepted, rejected, or stopped under choke control,
where it invalidates the block by itself. -/
inductive ConnectVerdict where
  | valid
  | invalid (corruptionPossible : Bool)
  | choked
deriving DecidableEq, Repr

namespace ChainIndex

/-- A successful `ConnectTip`: `ConnectBlock` writes the undo data and raises the
validity. -/
def connectTip (s : ChainIndex) (pindexNew : uint256) : ChainIndex :=
  let s := s.updateStatus pindexNew fun status =>
    BlockStatus.raiseValidity { status with fHaveUndo := true } BlockStatus.VALID_SCRIPTS
  { s with tip := pindexNew }

def invalidBlockFound (s : ChainIndex) (pindex : uint256) (corruptionPossible : Bool) :
    ChainIndex :=
  if corruptionPossible then s else s.markInvalid pindex

/-- The blocks of `ActivateBestChainStep` that connect, lowest
first. The source collects them 32 at a time. -/
def connectBlocks (env : ChainEnv) (pindexOldTip : uint256) (verdict : uint256 → ConnectVerdict)
    (s : ChainIndex) : List uint256 → Option ChainIndex
  | [] => some s
  | pindexConnect :: rest =>
    match verdict pindexConnect with
    | .invalid corruptionPossible => some (s.invalidBlockFound pindexConnect corruptionPossible)
    | .choked => some (s.invalidateBlock env pindexConnect)
    | .valid =>
      match (s.connectTip pindexConnect).pruneBlockIndexCandidates env with
      | none => none
      | some s =>
        if s.nChainWork s.tip > s.nChainWork pindexOldTip then some s
        else connectBlocks env pindexOldTip verdict s rest

/-- `chainActive.FindFork`. All branches end in the genesis block. -/
def findFork (env : ChainEnv) (s : ChainIndex) (pindex : uint256) : uint256 :=
  ((s.branch pindex).find? s.contains).getD env.hashGenesisBlock

def activateBestChainStep (env : ChainEnv) (verdict : uint256 → ConnectVerdict) (s : ChainIndex)
    (pindexMostWork : uint256) : Option ChainIndex :=
  connectBlocks env s.tip verdict { s with tip := s.findFork env pindexMostWork }
    (s.offChain pindexMostWork).reverse

/-- One turn of the loop of `ActivateBestChain`. -/
def activateBestChain (env : ChainEnv) (verdict : uint256 → ConnectVerdict) (s : ChainIndex) :
    Option ChainIndex :=
  match s.findMostWorkChain env with
  | none => none
  | some (none, s) => some s
  | some (some pindexMostWork, s) =>
    if pindexMostWork = s.tip then some s
    else s.activateBestChainStep env verdict pindexMostWork

end ChainIndex

/-- How the checks of a stored block end: `ContextualCheckBlock`, and the checks of a
stake against the chain, which do not mark the block. -/
inductive BodyVerdict where
  | valid
  | invalid
  | refused
deriving DecidableEq, Repr

/-- Verdicts of the checks on an arriving block: `CheckBlock` and the block signature,
`CheckWork` and `CheckProofOfStake`, the header checks, the checks of the body. -/
structure BlockChecks where
  checked : Bool := true
  work : Bool := true
  header : Bool := true
  body : BodyVerdict := .valid
deriving DecidableEq, Repr

namespace ChainIndex

variable (env : ChainEnv) (s : ChainIndex) (block : CBlock) (checks : BlockChecks)
  (pos : CDiskBlockPos)

/- `none` when it returns false. The
checkpoint branch needs an entry for the block and is never taken. -/
def acceptBlockHeader (checks : Bool) :
    Option ChainIndex :=
  let hash := block.getHash env.Hash
  if hash ∈ s.mapBlockIndex then
    if (s.status hash).failed then none else some s
  else if !checks then none
  else if block.hashPrevBlock ∈ s.mapBlockIndex then
    if (s.status block.hashPrevBlock).failed then none else some (s.addToBlockIndex env block)
  else none

/-- `AcceptBlock` from the stored header on. -/
def acceptBlockBody : ChainIndex :=
  let hash := block.getHash env.Hash
  if (s.status hash).fHaveData then s
  else
    match checks.body with
    | .invalid => s.updateStatus hash BlockStatus.markFailedValid
    | .refused => s
    | .valid => s.receivedBlockTransactions env block pos

/-- The block whose failed parent is a checkpoint: `AcceptBlock` reconsiders the
parent and does not store the block. -/
def checkpointParent : Option uint256 :=
  if block.getHash env.Hash ≠ env.hashGenesisBlock ∧ block.hashPrevBlock ∈ s.mapBlockIndex ∧
      (s.status block.hashPrevBlock).failed = true ∧
      env.checkpointsCheckBlock (s.nHeight block.hashPrevBlock) block.hashPrevBlock true = true then
    some block.hashPrevBlock
  else none

/- The genesis block is always there with its
data, so that another copy changes nothing. -/
def acceptBlock : ChainIndex :=
  if block.getHash env.Hash = env.hashGenesisBlock then s
  else if block.hashPrevBlock ∉ s.mapBlockIndex then s
  else if (s.status block.hashPrevBlock).failed then
    match s.checkpointParent env block with
    | some pindexPrev => s.reconsiderBlock env pindexPrev
    | none => s
  else if !checks.work then s
  else
    match s.acceptBlockHeader env block checks.header with
    | none => s
    | some s => s.acceptBlockBody env block checks pos

/-- `ProcessNewBlock` up to `ActivateBestChain`, with the size
that `CheckBlock` asks for. -/
def processNewBlock : ChainIndex :=
  if block.vtx.length = 0 ∨ MAX_BLOCK_SIZE_CURRENT < block.vtx.length then s
  else if !checks.checked then s
  else s.acceptBlock env block checks pos

end ChainIndex

def Node.withIndex (node : Node) (env : ChainEnv) (s : ChainIndex) : Node :=
  { node with
    mapBlockIndex := s.mapBlockIndex
    chainActive := (s.branch s.tip).reverse
    params := { node.params with hashGenesisBlock := env.hashGenesisBlock } }

/-- What reaches the node. Each turn of `ActivateBestChain` is an event of its own,
so that a run may interleave them in any way. -/
inductive IndexEvent where
  | header (block : CBlock) (checks : Bool)
  | block (block : CBlock) (checks : BlockChecks) (pos : CDiskBlockPos)
  | activate (verdict : uint256 → ConnectVerdict)
  | invalidate (hash : uint256)
  | reconsider (hash : uint256)

namespace ChainIndex

variable (env : ChainEnv)

/-- One event. The commands look their block up first. -/
def handle (s : ChainIndex) : IndexEvent → Option ChainIndex
  | .header block checks => some ((s.acceptBlockHeader env block checks).getD s)
  | .block block checks pos => some (s.processNewBlock env block checks pos)
  | .activate verdict => s.activateBestChain env verdict
  | .invalidate hash =>
    some (if hash ∈ s.mapBlockIndex then s.invalidateBlock env hash else s)
  | .reconsider hash =>
    some (if hash ∈ s.mapBlockIndex then s.reconsiderBlock env hash else s)

/-- The node after an event; `none` once an assertion has failed. -/
def step (s : Option ChainIndex) (e : IndexEvent) : Option ChainIndex :=
  s.bind fun s => s.handle env e

def emptyIndex : ChainIndex where
  mapBlockIndex := ∅
  nChainTx := fun _ => 0
  nSequenceId := fun _ => 0
  tip := env.hashGenesisBlock
  setBlockIndexCandidates := []
  mapBlocksUnlinked := []
  nBlockSequenceId := 1

/- The genesis block is stored and connected. -/
def initBlockIndex (pos : CDiskBlockPos) : ChainIndex :=
  ((emptyIndex env).addToBlockIndex env env.genesis).receivedBlockTransactions env env.genesis pos

end ChainIndex

end Alqo
