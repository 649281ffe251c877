import Alqo.BlockTree

/-!
# The block index on disk (chain.h, txdb.cpp)

A record is the list of its fields here, one item for each `READWRITE`.
-/

namespace Alqo

structure CDiskBlockIndex extends CBlockIndex where
  hashPrev : uint256 := 0
  hashNext : uint256 := 0
deriving DecidableEq

inductive DiskField where
  | int (n : Int)
  | nat (n : Nat)
  | status (s : BlockStatus)
  | flags (fProofOfStake fStakeEntropy fStakeModifier : Bool)
  | amount (a : CAmount)
  | word (w : BitVec 64)
  | bits (b : BitVec 32)
  | hash (h : uint256)
  | outpoint (o : COutPoint)
deriving DecidableEq

abbrev DiskRecord := List DiskField

namespace CDiskBlockIndex

/-- `CDiskBlockIndex(const CBlockIndex*)`; `hashNext` is left
null. -/
def ofIndex (index : CBlockIndex) : CDiskBlockIndex :=
  { index with hashPrev := index.pprev.getD 0 }

/-! `SerializationOp` when writing, last fields first. -/

variable (params : CChainParams) (d : CDiskBlockIndex) (r : DiskRecord)

def writeHeader : DiskRecord :=
  [.int d.nVersion, .hash d.hashPrev, .hash d.hashNext, .hash d.hashMerkleRoot, .nat d.nTime,
    .bits d.nBits, .nat d.nNonce]

def writeStake : DiskRecord :=
  if d.fProofOfStake then .outpoint d.prevoutStake :: .nat d.nStakeTime :: d.writeHeader
  else d.writeHeader

def writeModifier : DiskRecord :=
  if !params.isStakeModifierV2 d.nHeight then .word d.nStakeModifier :: d.writeStake
  else .hash d.nStakeModifierV2 :: d.writeStake

def writeFlags : DiskRecord :=
  .amount d.nMint :: .amount d.nMoneySupply ::
    .flags d.fProofOfStake d.fStakeEntropy d.fStakeModifier :: d.writeModifier params

def writeUndoPos : DiskRecord :=
  if d.nStatus.fHaveUndo then .nat d.nUndoPos :: d.writeFlags params else d.writeFlags params

def writeDataPos : DiskRecord :=
  if d.nStatus.fHaveData then .nat d.nDataPos :: d.writeUndoPos params else d.writeUndoPos params

def writeFile : DiskRecord :=
  if d.nStatus.fHaveData || d.nStatus.fHaveUndo then .nat d.nFile :: d.writeDataPos params
  else d.writeDataPos params

def serialize : DiskRecord :=
  .nat d.nHeight :: .status d.nStatus :: .nat d.nTx :: d.writeFile params

/-! The reading side, in the order of the source. -/

def takeInt : DiskRecord → Option (Int × DiskRecord)
  | .int n :: r => some (n, r)
  | _ => none

def takeNat : DiskRecord → Option (Nat × DiskRecord)
  | .nat n :: r => some (n, r)
  | _ => none

def takeStatus : DiskRecord → Option (BlockStatus × DiskRecord)
  | .status s :: r => some (s, r)
  | _ => none

def takeAmount : DiskRecord → Option (CAmount × DiskRecord)
  | .amount a :: r => some (a, r)
  | _ => none

def takeFlags : DiskRecord → Option ((Bool × Bool × Bool) × DiskRecord)
  | .flags pos entropy modifier :: r => some ((pos, entropy, modifier), r)
  | _ => none

def takeWord : DiskRecord → Option (BitVec 64 × DiskRecord)
  | .word w :: r => some (w, r)
  | _ => none

def takeBits : DiskRecord → Option (BitVec 32 × DiskRecord)
  | .bits b :: r => some (b, r)
  | _ => none

def takeHash : DiskRecord → Option (uint256 × DiskRecord)
  | .hash h :: r => some (h, r)
  | _ => none

def takeOutpoint : DiskRecord → Option (COutPoint × DiskRecord)
  | .outpoint o :: r => some (o, r)
  | _ => none

def readHeader : Option CDiskBlockIndex := do
  let (nVersion, r) ← takeInt r
  let (hashPrev, r) ← takeHash r
  let (hashNext, r) ← takeHash r
  let (hashMerkleRoot, r) ← takeHash r
  let (nTime, r) ← takeNat r
  let (nBits, r) ← takeBits r
  let (nNonce, _) ← takeNat r
  return { d with
    nVersion := nVersion, hashPrev := hashPrev, hashNext := hashNext
    hashMerkleRoot := hashMerkleRoot, nTime := nTime, nBits := nBits, nNonce := nNonce }

def readStake : Option CDiskBlockIndex :=
  if d.fProofOfStake then do
    let (prevoutStake, r) ← takeOutpoint r
    let (nStakeTime, r) ← takeNat r
    readHeader { d with prevoutStake := prevoutStake, nStakeTime := nStakeTime } r
  else
    readHeader { d with prevoutStake := COutPoint.null, nStakeTime := 0, hashProofOfStake := 0 } r

def readModifier :
    Option CDiskBlockIndex :=
  if !params.isStakeModifierV2 d.nHeight then do
    let (nStakeModifier, r) ← takeWord r
    readStake { d with nStakeModifier := nStakeModifier } r
  else do
    let (nStakeModifierV2, r) ← takeHash r
    readStake { d with nStakeModifierV2 := nStakeModifierV2 } r

def readFlags :
    Option CDiskBlockIndex := do
  let (nMint, r) ← takeAmount r
  let (nMoneySupply, r) ← takeAmount r
  let ((pos, entropy, modifier), r) ← takeFlags r
  readModifier params { d with
    nMint := nMint, nMoneySupply := nMoneySupply, fProofOfStake := pos
    fStakeEntropy := entropy, fStakeModifier := modifier } r

def readUndoPos :
    Option CDiskBlockIndex :=
  if d.nStatus.fHaveUndo then do
    let (nUndoPos, r) ← takeNat r
    readFlags params { d with nUndoPos := nUndoPos } r
  else readFlags params d r

def readDataPos :
    Option CDiskBlockIndex :=
  if d.nStatus.fHaveData then do
    let (nDataPos, r) ← takeNat r
    readUndoPos params { d with nDataPos := nDataPos } r
  else readUndoPos params d r

def readFile :
    Option CDiskBlockIndex :=
  if d.nStatus.fHaveData || d.nStatus.fHaveUndo then do
    let (nFile, r) ← takeNat r
    readDataPos params { d with nFile := nFile } r
  else readDataPos params d r

/-- `SerializationOp` when reading into a default-constructed object; `none` is
the exception the stream throws. -/
def deserialize : Option CDiskBlockIndex := do
  let (nHeight, r) ← takeNat r
  let (nStatus, r) ← takeStatus r
  let (nTx, r) ← takeNat r
  readFile params { nHeight := nHeight, nStatus := nStatus, nTx := nTx } r

def restored : CDiskBlockIndex where
  nHeight := d.nHeight
  nTime := d.nTime
  fProofOfStake := d.fProofOfStake
  fStakeEntropy := d.fStakeEntropy
  fStakeModifier := d.fStakeModifier
  nStakeModifier := if params.isStakeModifierV2 d.nHeight then 0 else d.nStakeModifier
  nFile := if d.nStatus.fHaveData || d.nStatus.fHaveUndo then d.nFile else 0
  nDataPos := if d.nStatus.fHaveData then d.nDataPos else 0
  nUndoPos := if d.nStatus.fHaveUndo then d.nUndoPos else 0
  nTx := d.nTx
  nStatus := d.nStatus
  prevoutStake := if d.fProofOfStake then d.prevoutStake else COutPoint.null
  nStakeTime := if d.fProofOfStake then d.nStakeTime else 0
  nMint := d.nMint
  nMoneySupply := d.nMoneySupply
  nStakeModifierV2 := if params.isStakeModifierV2 d.nHeight then d.nStakeModifierV2 else 0
  nVersion := d.nVersion
  hashMerkleRoot := d.hashMerkleRoot
  nBits := d.nBits
  nNonce := d.nNonce
  hashPrev := d.hashPrev
  hashNext := d.hashNext

/-! Each reader takes the field its writer put in front, if there is one. `d` is
the object written, `e` the one being filled. -/

theorem readStake_write (d e : CDiskBlockIndex) (hpos : e.fProofOfStake = d.fProofOfStake)
    (hproof : e.hashProofOfStake = 0) :
    readStake e d.writeStake = readHeader { e with
      prevoutStake := if d.fProofOfStake then d.prevoutStake else COutPoint.null
      nStakeTime := if d.fProofOfStake then d.nStakeTime else 0
      hashProofOfStake := 0 } d.writeHeader := by
  unfold readStake writeStake
  rw [← hpos]
  split_ifs with h
  · rw [← hproof]
    rfl
  · rfl

theorem readModifier_write (d e : CDiskBlockIndex) (hheight : e.nHeight = d.nHeight) :
    readModifier params e (d.writeModifier params) = readStake { e with
      nStakeModifier := if params.isStakeModifierV2 d.nHeight then e.nStakeModifier
        else d.nStakeModifier
      nStakeModifierV2 := if params.isStakeModifierV2 d.nHeight then d.nStakeModifierV2
        else e.nStakeModifierV2 } d.writeStake := by
  unfold readModifier writeModifier
  rw [← hheight]
  cases params.isStakeModifierV2 e.nHeight with
  | true => rfl
  | false => rfl

theorem readUndoPos_write (d e : CDiskBlockIndex) (hstatus : e.nStatus = d.nStatus) :
    readUndoPos params e (d.writeUndoPos params) = readFlags params { e with
      nUndoPos := if d.nStatus.fHaveUndo then d.nUndoPos else e.nUndoPos }
      (d.writeFlags params) := by
  unfold readUndoPos writeUndoPos
  rw [← hstatus]
  split_ifs with h
  · rfl
  · rfl

theorem readDataPos_write (d e : CDiskBlockIndex) (hstatus : e.nStatus = d.nStatus) :
    readDataPos params e (d.writeDataPos params) = readUndoPos params { e with
      nDataPos := if d.nStatus.fHaveData then d.nDataPos else e.nDataPos }
      (d.writeUndoPos params) := by
  unfold readDataPos writeDataPos
  rw [← hstatus]
  split_ifs with h
  · rfl
  · rfl

theorem readFile_write (d e : CDiskBlockIndex) (hstatus : e.nStatus = d.nStatus) :
    readFile params e (d.writeFile params) = readDataPos params { e with
      nFile := if d.nStatus.fHaveData || d.nStatus.fHaveUndo then d.nFile else e.nFile }
      (d.writeDataPos params) := by
  unfold readFile writeFile
  rw [← hstatus]
  split_ifs with h
  · rfl
  · rfl

theorem deserialize_serialize :
    deserialize params (serialize params d) = some (restored params d) := by
  have hstart : deserialize params (serialize params d) =
      readFile params { nHeight := d.nHeight, nStatus := d.nStatus, nTx := d.nTx }
        (d.writeFile params) := rfl
  have hflags : ∀ e : CDiskBlockIndex, readFlags params e (d.writeFlags params) =
      readModifier params { e with
        nMint := d.nMint, nMoneySupply := d.nMoneySupply, fProofOfStake := d.fProofOfStake
        fStakeEntropy := d.fStakeEntropy, fStakeModifier := d.fStakeModifier }
        (d.writeModifier params) := fun _ => rfl
  rw [hstart, readFile_write params d, readDataPos_write params d, readUndoPos_write params d,
    hflags, readModifier_write params d, readStake_write d]
  all_goals rfl

end CDiskBlockIndex

end Alqo
