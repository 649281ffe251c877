import Alqo.BlockTree
import Alqo.Coins
import Alqo.Sha256

/-!
# The proof-of-stake kernel (kernel.cpp, main.cpp)

Everything `CheckProofOfStake` reads of the node is a field of `StakeNode`.
-/

namespace Alqo
open Lib.FixedSum

inductive TxIndexRead where
  | unreadable
  | found (header : CBlockHeader) (tx : CTransaction)

/-- The node state and options read by `CheckProofOfStake`. -/
structure StakeNode where
  mapBlockIndex : BlockMap
  chainActive : List uint256
  /-- `mempool.lookup` -/
  mempool : uint256 → Option CTransaction := fun _ => none
  fTxIndex : Bool := false
  /-- `ReadTxIndex` with the reading of the file position it returns -/
  txIndex : uint256 → Option TxIndexRead := fun _ => none
  /-- `pcoinsTip->AccessCoins` -/
  accessCoins : uint256 → Option CCoins := fun _ => none
  blockFiles : CDiskBlockPos → Option CBlock
  /-- `GetBoolArg("-debugstake", false)` -/
  debugstake : Bool := false

/- A null position is `none`. -/
def CBlockIndex.getBlockPos (index : CBlockIndex) : Option CDiskBlockPos :=
  if index.nStatus.fHaveData then some ⟨index.nFile, index.nDataPos⟩ else none

namespace StakeNode

variable (Hash : Bytes → uint256) (params : CChainParams) (node : StakeNode)

/-- `ReadBlockFromDisk` at a position. -/
def readBlockFromDisk (pos : Option CDiskBlockPos) : Option CBlock :=
  match pos.bind node.blockFiles with
  | none => none
  | some block =>
    if block.isProofOfWork && !checkProofOfWork params (block.getHash Hash) block.nBits then none
    else some block

/-- `ReadBlockFromDisk` of an entry. -/
def readIndexedBlock (hash : uint256) (index : CBlockIndex) : Option CBlock :=
  match node.readBlockFromDisk Hash params index.getBlockPos with
  | none => none
  | some block => if block.getHash Hash ≠ hash then none else some block

/-- The scan of one block at the end of `GetTransaction`. -/
def findInBlock (hash hashSlow : uint256) : Option (CTransaction × uint256) :=
  match node.mapBlockIndex.lookup hashSlow with
  | none => none
  | some index =>
    match node.readIndexedBlock Hash params hashSlow index with
    | none => none
    | some block => (block.vtx.find? fun tx => tx.hash == hash).map fun tx => (tx, hashSlow)

/- A
transaction of the memory pool leaves the block hash at zero. -/
def getTransaction (hash : uint256) : Option (CTransaction × uint256) :=
  match node.mempool hash with
  | some tx => some (tx, 0)
  | none =>
    if node.fTxIndex then
      match node.txIndex hash with
      | some (.found header tx) => if tx.hash ≠ hash then none else some (tx, header.getHash Hash)
      | _ => none
    else
      match node.accessCoins hash with
      | none => none
      | some coins =>
        if coins.nHeight > 0 then
          match node.chainActive[coins.nHeight]? with
          | none => none
          | some hashSlow => node.findInBlock Hash params hash hashSlow
        else none

/-- Why `CheckProofOfStake` returns false; `undefined` is an access past the end
of a vector. -/
inductive StakeError where
  | nonCoinStake
  | readTxPrev
  | readBlock
  | findBlock
  | kernel
  | undefined
deriving DecidableEq, Repr

structure StakedOutput where
  prevout : COutPoint
  out : CTxOut
  blockFrom : CBlock
deriving DecidableEq

/-- `CheckProofOfStake` up to the kernel check. -/
def stakedOutput (block : CBlock) : Except StakeError StakedOutput :=
  match block.vtx[1]? with
  | none => .error .undefined
  | some tx =>
    if !tx.isCoinStake then .error .nonCoinStake
    else
      match tx.vin[0]? with
      | none => .error .undefined
      | some txin =>
        match node.getTransaction Hash params txin.prevout.hash with
        | none => .error .readTxPrev
        | some (txPrev, hashBlock) =>
          match txPrev.vout[txin.prevout.n]? with
          | none => .error .undefined
          | some out =>
            match node.mapBlockIndex.lookup hashBlock with
            | none => .error .readBlock
            | some pindex =>
              match node.readBlockFromDisk Hash params pindex.getBlockPos with
              | none => .error .findBlock
              | some blockFrom => .ok ⟨txin.prevout, out, blockFrom⟩

end StakeNode

open StakeNode (StakedOutput StakeError)

namespace StakeNode.StakedOutput

variable (params : CChainParams) (staked : StakedOutput) (nTimeTx : Nat)

/-- The time and age checks. The age is added in 32 bits. -/
def ageChecks : Bool :=
  !decide (nTimeTx < staked.blockFrom.nTime) &&
    !decide ((staked.blockFrom.nTime + params.nStakeMinAge) % 2 ^ 32 > nTimeTx)

/-- `nTimeWeight`. -/
def timeWeight : Int :=
  min ((nTimeTx : Int) - staked.blockFrom.nTime) ((params.nStakeMaxAge : Int) - params.nStakeMinAge)

/-- `bnCoinDayWeight`, computed in signed 64-bit arithmetic
and read as an unsigned 64-bit number. -/
def coinDayWeight : uint256 :=
  (staked.out.nValue * Int64.ofInt (staked.timeWeight params nTimeTx) / COIN / 200).toBitVec.setWidth
    256

/-- The serialised kernel. -/
def kernelBytes (nStakeModifier : BitVec 64) : Bytes :=
  leBytes 8 nStakeModifier.toNat ++ (leBytes 4 staked.blockFrom.nTime ++
    leBytes 32 staked.prevout.hash.toNat ++ leBytes 8 staked.blockFrom.nTime ++
    leBytes 4 staked.prevout.n ++ leBytes 4 nTimeTx)

end StakeNode.StakedOutput

namespace StakeNode

variable (Hash : Bytes → uint256) (params : CChainParams) (node : StakeNode)

/- The last argument is what the
reference parameter `hashProofOfStake` holds on entry. -/
def checkStakeKernelHash (nBits : BitVec 32) (staked : StakedOutput) (nTimeTx : Nat)
    (hashProofOfStake : uint256) : Bool × uint256 :=
  if !staked.ageChecks params nTimeTx then (false, hashProofOfStake)
  else
    match getKernelStakeModifier node.mapBlockIndex.stakeMap node.chainActive
        (staked.blockFrom.getHash Hash) with
    | none => (false, hashProofOfStake)
    | some modifier =>
      let hash := Hash (staked.kernelBytes nTimeTx modifier.nStakeModifier)
      let bnTargetPerCoinDay := (setCompact nBits).bnTarget
      (!decide (hash > staked.coinDayWeight params nTimeTx * bnTargetPerCoinDay), hash)

/- The error it fails with, if any,
and `hashProofOfStake` on return. -/
def checkProofOfStake (block : CBlock) (hashProofOfStake : uint256) :
    Option StakeError × uint256 :=
  match node.stakedOutput Hash params block with
  | .error e => (some e, hashProofOfStake)
  | .ok staked =>
    let (ok, hash) := node.checkStakeKernelHash Hash params block.nBits staked block.nTime
      hashProofOfStake
    -- a failed kernel check is an error only under -debugstake
    if !ok && node.debugstake then (some .kernel, hash) else (none, hash)

end StakeNode

namespace StakeNode

section
variable (Hash : Bytes → uint256) (params : CChainParams) (node : StakeNode)

theorem checkStakeKernelHash_iff (nBits : BitVec 32) (staked : StakedOutput) (nTimeTx : Nat)
    (h : uint256) :
    (node.checkStakeKernelHash Hash params nBits staked nTimeTx h).1 = true ↔
      staked.ageChecks params nTimeTx = true ∧
      ∃ modifier, getKernelStakeModifier node.mapBlockIndex.stakeMap node.chainActive
          (staked.blockFrom.getHash Hash) = some modifier ∧
        Hash (staked.kernelBytes nTimeTx modifier.nStakeModifier) ≤
          staked.coinDayWeight params nTimeTx * (setCompact nBits).bnTarget := by
  unfold checkStakeKernelHash
  cases hage : staked.ageChecks params nTimeTx with
  | false => simp
  | true =>
    cases hmod : getKernelStakeModifier node.mapBlockIndex.stakeMap node.chainActive
        (staked.blockFrom.getHash Hash) with
    | none => simp
    | some modifier => simp

theorem stakedOutput_eq_ok {Hash : Bytes → uint256} {params : CChainParams} {node : StakeNode}
    {block blockFrom : CBlock} {tx txPrev : CTransaction} {txin : CTxIn} {hashBlock : uint256}
    {out : CTxOut} {pindex : CBlockIndex}
    (htx : block.vtx[1]? = some tx) (hstake : tx.isCoinStake = true)
    (hin : tx.vin[0]? = some txin)
    (hprev : node.getTransaction Hash params txin.prevout.hash = some (txPrev, hashBlock))
    (hout : txPrev.vout[txin.prevout.n]? = some out)
    (hindex : node.mapBlockIndex.lookup hashBlock = some pindex)
    (hread : node.readBlockFromDisk Hash params pindex.getBlockPos = some blockFrom) :
    node.stakedOutput Hash params block = .ok ⟨txin.prevout, out, blockFrom⟩ := by
  simp [stakedOutput, htx, hstake, hin, hprev, hout, hindex, hread]

theorem checkProofOfStake_accepts_iff (block : CBlock) (h : uint256) :
    (node.checkProofOfStake Hash params block h).1 = none ↔
      ∃ staked, node.stakedOutput Hash params block = .ok staked ∧
        (node.debugstake = true →
          (node.checkStakeKernelHash Hash params block.nBits staked block.nTime h).1 = true) := by
  unfold checkProofOfStake
  cases hs : node.stakedOutput Hash params block with
  | error e => simp
  | ok staked =>
    cases hok : (node.checkStakeKernelHash Hash params block.nBits staked block.nTime h).1 <;>
      cases hd : node.debugstake <;> simp [hok]

end

end StakeNode

namespace StakeNode.StakedOutput

structure InRange (params : CChainParams) (staked : StakedOutput) (nTimeTx : Nat) : Prop where
  age : staked.blockFrom.nTime + params.nStakeMinAge < 2 ^ 32
  value : 0 ≤ staked.out.nValue.toInt
  time : 0 ≤ staked.timeWeight params nTimeTx
  product : staked.out.nValue.toInt * staked.timeWeight params nTimeTx < 2 ^ 63

variable (params : CChainParams) (staked : StakedOutput)

def exactWeight (nTimeTx : Nat) : Int :=
  staked.out.nValue.toInt * staked.timeWeight params nTimeTx / COIN.toInt / 200

theorem minAge_of_ageChecks (nTimeTx : Nat) (hr : staked.InRange params nTimeTx)
    (h : staked.ageChecks params nTimeTx = true) :
    staked.blockFrom.nTime + params.nStakeMinAge ≤ nTimeTx := by
  simp only [ageChecks, Bool.and_eq_true, Bool.not_eq_true', decide_eq_false_iff_not,
    Nat.mod_eq_of_lt hr.age] at h
  omega

theorem toNat_coinDayWeight_of_lt (nTimeTx : Nat) (hvalue : 0 ≤ staked.out.nValue.toInt)
    (htime : 0 ≤ staked.timeWeight params nTimeTx)
    (hproduct : staked.out.nValue.toInt * staked.timeWeight params nTimeTx < 2 ^ 63) :
    ((staked.coinDayWeight params nTimeTx).toNat : Int) = staked.exactWeight params nTimeTx := by
  have hnonneg : 0 ≤ staked.out.nValue.toInt * staked.timeWeight params nTimeTx :=
    Int.mul_nonneg hvalue htime
  have hcoin : (0 : Int) < COIN.toInt := by decide
  have hdays : (0 : Int) < (200 : Int64).toInt := by decide
  -- product, then the two divisions, each exact on non-negative values in range
  have hprod := toInt_of_tracks
    (tracks_mul (tracks_self staked.out.nValue)
      (rfl : Tracks (Int64.ofInt (staked.timeWeight params nTimeTx)) _)) (by omega) hproduct
  have hcoins := toInt_div_of_nonneg _ COIN (hprod ▸ hnonneg) hcoin
  have hcoins0 : 0 ≤
      (staked.out.nValue * Int64.ofInt (staked.timeWeight params nTimeTx) / COIN).toInt := by
    rw [hcoins, hprod]
    exact Int.ediv_nonneg hnonneg hcoin.le
  have hweight := toInt_div_of_nonneg _ 200 hcoins0 hdays
  have hweight0 := Int.ediv_nonneg hcoins0 hdays.le
  rw [← hweight] at hweight0
  unfold coinDayWeight
  rw [BitVec.toNat_setWidth_of_le (by norm_num), toNat_toBitVec _ hweight0, hweight, hcoins, hprod]
  rfl

theorem toNat_coinDayWeight (nTimeTx : Nat) (hr : staked.InRange params nTimeTx) :
    ((staked.coinDayWeight params nTimeTx).toNat : Int) = staked.exactWeight params nTimeTx :=
  staked.toNat_coinDayWeight_of_lt params nTimeTx hr.value hr.time hr.product

theorem toNat_mul_le (a b : uint256) : (a * b).toNat ≤ a.toNat * b.toNat := by
  rw [BitVec.toNat_mul]
  exact Nat.mod_le _ _

end StakeNode.StakedOutput

namespace StakeNode

variable (Hash : Bytes → uint256) (params : CChainParams)

def KernelMet (node : StakeNode) (block : CBlock) (staked : StakedOutput) : Prop :=
  staked.blockFrom.nTime + params.nStakeMinAge ≤ block.nTime ∧
    ∃ modifier, getKernelStakeModifier node.mapBlockIndex.stakeMap node.chainActive
        (staked.blockFrom.getHash Hash) = some modifier ∧
      ((Hash (staked.kernelBytes block.nTime modifier.nStakeModifier)).toNat : Int) ≤
        staked.exactWeight params block.nTime * (setCompact block.nBits).bnTarget.toNat

theorem kernelMet_of_checkStakeKernelHash (node : StakeNode) (block : CBlock)
    (staked : StakedOutput) (h : uint256) (hr : staked.InRange params block.nTime)
    (hok : (node.checkStakeKernelHash Hash params block.nBits staked block.nTime h).1 = true) :
    node.KernelMet Hash params block staked := by
  obtain ⟨hage, modifier, hmod, hhash⟩ := (checkStakeKernelHash_iff ..).mp hok
  refine ⟨staked.minAge_of_ageChecks params block.nTime hr hage, modifier, hmod, ?_⟩
  have hle := Nat.le_trans (BitVec.le_def.mp hhash) (StakedOutput.toNat_mul_le _ _)
  rw [← staked.toNat_coinDayWeight params block.nTime hr]
  exact_mod_cast hle

def youngBlock : CBlock where
  hashPrevBlock := 0
  hashMerkleRoot := 0
  nTime := 0
  nBits := 0
  nNonce := 0
  vtx := [
    { hash := 1, vin := [], vout := [] },
    { hash := 2, vin := [{ prevout := ⟨1, 0⟩ }], vout := [⟨0, [], -10⟩, ⟨0, [], -10⟩] }]

/-- A node with one block, `youngBlock` itself, in which it finds whatever
transaction it is asked for. -/
def youngNode : StakeNode where
  mapBlockIndex := AList.singleton (youngBlock.getHash Hash) { nStatus := { fHaveData := true } }
  chainActive := []
  fTxIndex := true
  txIndex := fun hash => some (.found youngBlock.toCBlockHeader
    { hash := hash, vin := [], vout := [⟨0, [], -10⟩] })
  blockFiles := fun _ => some youngBlock

theorem youngNode_stakedOutput :
    (youngNode Hash).stakedOutput Hash params youngBlock =
      .ok ⟨⟨1, 0⟩, ⟨0, [], -10⟩, youngBlock⟩ := by
  have htx : (youngNode Hash).getTransaction Hash params 1 =
      some ({ hash := 1, vin := [], vout := [⟨0, [], -10⟩] }, youngBlock.getHash Hash) := rfl
  have hindex : (youngNode Hash).mapBlockIndex.lookup (youngBlock.getHash Hash) =
      some { nStatus := { fHaveData := true } } := by
    simp [youngNode, AList.lookup, AList.singleton]
  have hread : (youngNode Hash).readBlockFromDisk Hash params (some ⟨0, 0⟩) = some youngBlock := by
    have hpos : youngBlock.isProofOfWork = false := by decide
    simp [readBlockFromDisk, youngNode, hpos]
  have hstake : (youngBlock.vtx.get ⟨1, by decide⟩).isCoinStake = true := by decide
  exact stakedOutput_eq_ok rfl hstake rfl htx rfl hindex hread

theorem youngNode_accepts (h : uint256) :
    ((youngNode Hash).checkProofOfStake Hash params youngBlock h).1 = none :=
  (checkProofOfStake_accepts_iff ..).mpr
    ⟨_, youngNode_stakedOutput Hash params, fun hd => by cases hd⟩

/-- With this setting of `-debugstake`, `CheckProofOfStake` returns true only if
`CheckStakeKernelHash` did. -/
def ChecksKernel (debugstake : Bool) : Prop :=
  ∀ (node : StakeNode) (block : CBlock) (h : uint256), node.debugstake = debugstake →
    (node.checkProofOfStake Hash params block h).1 = none →
    ∃ staked, node.stakedOutput Hash params block = .ok staked ∧
      (node.checkStakeKernelHash Hash params block.nBits staked block.nTime h).1 = true

/-- With this setting of `-debugstake`, `CheckProofOfStake` returns true only on a
kernel of sufficient age and weight, as long as the arithmetic stays in range. -/
def EnforcesKernel (debugstake : Bool) : Prop :=
  ∀ (node : StakeNode) (block : CBlock) (h : uint256) (staked : StakedOutput),
    node.debugstake = debugstake → (node.checkProofOfStake Hash params block h).1 = none →
    node.stakedOutput Hash params block = .ok staked → staked.InRange params block.nTime →
    node.KernelMet Hash params block staked

/-- `CheckProofOfStake` vouches for the kernel exactly under `-debugstake`. -/
theorem checksKernel_iff (Hash : Bytes → uint256) (params : CChainParams)
    (hage : 0 < params.nStakeMinAge) (hage32 : params.nStakeMinAge < 2 ^ 32)
    (hmax : params.nStakeMinAge ≤ params.nStakeMaxAge) (debugstake : Bool) :
    (ChecksKernel Hash params debugstake ↔ debugstake = true) ∧
      (EnforcesKernel Hash params debugstake ↔ debugstake = true) := by
  have hrange : (⟨⟨1, 0⟩, ⟨0, [], -10⟩, youngBlock⟩ : StakedOutput).InRange params
      youngBlock.nTime := by
    refine ⟨?_, by decide, ?_, ?_⟩
    · simpa [youngBlock] using hage32
    · simp [StakedOutput.timeWeight, youngBlock, hmax]
    · simp
  have hyoung : ¬ (⟨⟨1, 0⟩, ⟨0, [], -10⟩, youngBlock⟩ : StakedOutput).blockFrom.nTime +
      params.nStakeMinAge ≤ youngBlock.nTime := by
    simp only [youngBlock]
    omega
  refine ⟨⟨fun h => ?_, ?_⟩, ⟨fun h => ?_, ?_⟩⟩
  · cases debugstake with
    | true => rfl
    | false =>
      obtain ⟨staked, hs, hok⟩ :=
        h (youngNode Hash) youngBlock 0 rfl (youngNode_accepts Hash params 0)
      obtain rfl := Except.ok.inj ((youngNode_stakedOutput Hash params).symm.trans hs)
      exact absurd (kernelMet_of_checkStakeKernelHash Hash params _ _ _ 0 hrange hok).1 hyoung
  · rintro rfl node block h hd hacc
    obtain ⟨staked, hs, hok⟩ := (checkProofOfStake_accepts_iff ..).mp hacc
    exact ⟨staked, hs, hok hd⟩
  · cases debugstake with
    | true => rfl
    | false =>
      exact absurd (h (youngNode Hash) youngBlock 0 _ rfl (youngNode_accepts Hash params 0)
        (youngNode_stakedOutput Hash params) hrange).1 hyoung
  · rintro rfl node block h staked hd hacc hs hr
    obtain ⟨staked', hs', hok⟩ := (checkProofOfStake_accepts_iff ..).mp hacc
    obtain rfl := Except.ok.inj (hs.symm.trans hs')
    exact kernelMet_of_checkStakeKernelHash Hash params node block staked h hr (hok hd)

theorem checksKernel_iff_main :
    mainParams.nStakeMinAge = 3600 ∧ ChecksKernel hash256 mainParams true ∧
      ¬ ChecksKernel hash256 mainParams false := by
  have h := checksKernel_iff hash256 mainParams (by decide) (by decide) (by decide)
  refine ⟨rfl, (h true).1.mpr rfl, fun hc => ?_⟩
  cases (h false).1.mp hc

def firstCoinBase : CTransaction where
  hash := 0xc29287d1b306e695f29342be0aec8a4f25cef1f869152758e595394f5cbb4d4b
  vin := [{ prevout := COutPoint.null, scriptSig := [0x51, 0x00] }]
  vout := [⟨500000 * COIN, [0x51], -10⟩]

def firstBlock : CBlock := { firstHeader with vtx := [firstCoinBase] }

def firstNode : StakeNode where
  mapBlockIndex := treeRun hash256 (fun _ => 0) ∅
    [.header (CBlock.ofHeader genesisHeader), .header firstBlock, .data firstBlock ⟨0, 8⟩]
  chainActive := [genesisHeader.getHash hash256, firstHeader.getHash hash256]
  accessCoins := fun hash =>
    if hash = firstCoinBase.hash then some (CCoins.fromTx firstCoinBase 1) else none
  blockFiles := fun pos => if pos = ⟨0, 8⟩ then some firstBlock else none

def stakeBlock (nTime : Nat) : CBlock where
  hashPrevBlock := firstHeader.getHash hash256
  hashMerkleRoot := 0x5bf63a21ed83b0656a8231708b2a915215dca64fb5d66173fdf31005eb244448
  nTime := nTime
  nBits := 0x1e00ffff
  nNonce := 0
  vtx := [
    { hash := 0x52c504e991120f45bfb13aa3478b3ca01ecb1c7d7a3ad182b4630ccaffddc2f1
      vin := [{ prevout := COutPoint.null, scriptSig := [0x52, 0x00] }]
      vout := [⟨0, [], -10⟩] },
    { hash := 0xc58c318b271a94ab108aeed87c660a46b0296ff8bf4bcc1343f53ccaa55fa566
      vin := [{ prevout := ⟨firstCoinBase.hash, 0⟩ }]
      vout := [⟨0, [], -10⟩, ⟨500005 * COIN, [0x51], -10⟩] }]

/-- One minute after `firstBlock` its output is staked, against a minimum age of
an hour, and the block passes. -/
theorem stakeBlock_accepted_young :
    firstNode.stakedOutput hash256 mainParams (stakeBlock 1575571035) =
        .ok ⟨⟨firstCoinBase.hash, 0⟩, ⟨500000 * COIN, [0x51], -10⟩, firstBlock⟩ ∧
      (firstNode.checkStakeKernelHash hash256 mainParams (stakeBlock 1575571035).nBits
        ⟨⟨firstCoinBase.hash, 0⟩, ⟨500000 * COIN, [0x51], -10⟩, firstBlock⟩ 1575571035 0).1 =
        false ∧
      (firstNode.checkProofOfStake hash256 mainParams (stakeBlock 1575571035) 0).1 = none := by
  decide +kernel

end StakeNode

end Alqo
