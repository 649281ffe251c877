import Alqo.Target

/-!
# Block index entries (chain.h)

A pointer to an entry is its block hash. The fields that `kernel.cpp` reads stand in a record of
their own, so that its functions say in their types that they read nothing else. Fields that no
modelled function reads are left out.
-/

namespace Alqo

/-- The fields of `CBlockIndex` that the stake modifier code reads; the three
bits of `nFlags` are spelled out. -/
structure StakeIndex where
  pprev : Option uint256 := none
  nHeight : Nat := 0
  nTime : Nat := 0
  fProofOfStake : Bool := false
  fStakeEntropy : Bool := false
  fStakeModifier : Bool := false
  nStakeModifier : BitVec 64 := 0
  hashProofOfStake : uint256 := 0
deriving DecidableEq, Repr

/-- `nStatus`: the validity level and the other bits. -/
structure BlockStatus where
  nValid : Nat := 0
  fHaveData : Bool := false
  fHaveUndo : Bool := false
  fFailedValid : Bool := false
  fFailedChild : Bool := false
deriving DecidableEq, Repr

namespace BlockStatus

def VALID_TREE : Nat := 2
def VALID_TRANSACTIONS : Nat := 3
def VALID_SCRIPTS : Nat := 5

def failed (s : BlockStatus) : Bool := s.fFailedValid || s.fFailedChild

def isValid (s : BlockStatus) (nUpTo : Nat) : Bool := !s.failed && decide (nUpTo ≤ s.nValid)

def raiseValidity (s : BlockStatus) (nUpTo : Nat) : BlockStatus :=
  if s.failed then s else if s.nValid < nUpTo then { s with nValid := nUpTo } else s

end BlockStatus

structure CBlockIndex extends StakeIndex where
  nFile : Nat := 0
  nDataPos : Nat := 0
  nUndoPos : Nat := 0
  nChainWork : uint256 := 0
  nTx : Nat := 0
  nStatus : BlockStatus := {}
  prevoutStake : COutPoint := COutPoint.null
  nStakeTime : Nat := 0
  nMint : CAmount := 0
  nMoneySupply : CAmount := 0
  nStakeModifierV2 : uint256 := 0
  nVersion : Int := 0
  hashMerkleRoot : uint256 := 0
  nBits : BitVec 32 := 0
  nNonce : Nat := 0
deriving DecidableEq, Repr

abbrev BlockMap := AList fun _ : uint256 => CBlockIndex

abbrev StakeMap := uint256 → Option StakeIndex

def BlockMap.stakeMap (m : BlockMap) : StakeMap :=
  fun hash => (m.lookup hash).map CBlockIndex.toStakeIndex

namespace CBlockIndex

/-- The constructor from a block. -/
def ofBlock (block : CBlock) : CBlockIndex :=
  let index : CBlockIndex := {
    nVersion := block.nVersion
    hashMerkleRoot := block.hashMerkleRoot
    nTime := block.nTime
    nBits := block.nBits
    nNonce := block.nNonce }
  match block.vtx with
  | _ :: tx1 :: _ =>
    if tx1.isCoinStake then
      { index with
        fProofOfStake := true
        prevoutStake := (tx1.prevouts.head?).getD COutPoint.null
        nStakeTime := block.nTime }
    else index
  | _ => index

def getBlockTrust (index : CBlockIndex) : uint256 :=
  Alqo.getBlockTrust index.nBits index.fProofOfStake

def getBlockProof (index : CBlockIndex) : uint256 := Alqo.getBlockProof index.nBits

def getBlockHeader (index : CBlockIndex) : CBlockHeader where
  nVersion := index.nVersion
  hashPrevBlock := index.pprev.getD 0
  hashMerkleRoot := index.hashMerkleRoot
  nTime := index.nTime
  nBits := index.nBits
  nNonce := index.nNonce

end CBlockIndex

end Alqo
