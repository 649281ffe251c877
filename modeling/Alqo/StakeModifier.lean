import Alqo.BlockIndex

/-!
# Stake modifiers (kernel.cpp)

Walks along `pprev` are lists of ancestors, nearest first. `Hash` is the double SHA-256.
-/

namespace Alqo

def MODIFIER_INTERVAL : Nat := 60
def MODIFIER_INTERVAL_RATIO : Nat := 3

abbrev Indexed := uint256 × StakeIndex

/-- The entry of `hash` and its ancestors; `fuel` bounds the walk. -/
def ancestry (m : StakeMap) : Nat → Option uint256 → List Indexed
  | 0, _ => []
  | _ + 1, none => []
  | fuel + 1, some hash =>
    match m hash with
    | none => []
    | some index => (hash, index) :: ancestry m fuel index.pprev

/-- A walk from `pindex` along `pprev`: heights bound its length. -/
def ancestors (m : StakeMap) (pindex : Option uint256) : List Indexed :=
  match pindex.bind m with
  | none => []
  | some index => ancestry m (index.nHeight + 1) pindex

/- The time stays zero when no
ancestor generated a modifier, and a null start is an error. -/
def getLastStakeModifier : List Indexed → Option (BitVec 64 × Nat)
  | [] => none
  | [(_, index)] => some (if index.fStakeModifier then (index.nStakeModifier, index.nTime) else (0, 0))
  | (_, index) :: rest =>
    if index.fStakeModifier then some (index.nStakeModifier, index.nTime)
    else getLastStakeModifier rest

def getStakeModifierSelectionIntervalSection (nSection : Nat) : Nat :=
  MODIFIER_INTERVAL * 63 / (63 + (63 - nSection) * ( MODIFIER_INTERVAL_RATIO - 1))

def getStakeModifierSelectionInterval : Nat :=
  ((List.range 64).map getStakeModifierSelectionIntervalSection).sum

/-- The hash by which candidates compete. -/
def selectionHash (Hash : Bytes → uint256) (nStakeModifierPrev : BitVec 64) (pindex : Indexed) :
    uint256 :=
  let hashProof := if pindex.2.fProofOfStake then pindex.2.hashProofOfStake else pindex.1
  let hashSelection := Hash (leBytes 32 hashProof.toNat ++ leBytes 8 nStakeModifierPrev.toNat)
  -- a proof-of-stake block is always favoured over a proof-of-work block
  if pindex.2.fProofOfStake then hashSelection >>> 32 else hashSelection

/-- Loop of `SelectBlockFromCandidates`, entered with the
best candidate so far; `none` is the `false` return. -/
def selectBlockFromCandidates (Hash : Bytes → uint256) (m : StakeMap) (selected : List uint256)
    (nSelectionIntervalStop : Int) (nStakeModifierPrev : BitVec 64) :
    List (Nat × uint256) → Option (uint256 × Indexed) → Option (uint256 × Indexed)
  | [], best => best
  | (_, hash) :: rest, best =>
    match m hash with
    | none => none
    | some index =>
      if best.isSome && decide ((index.nTime : Int) > nSelectionIntervalStop) then best
      else if selected.contains hash then
        selectBlockFromCandidates Hash m selected nSelectionIntervalStop nStakeModifierPrev rest best
      else
        let hashSelection := selectionHash Hash nStakeModifierPrev (hash, index)
        let best' := match best with
          | some (hashBest, pindexSelected) =>
            if hashSelection < hashBest then some (hashSelection, (hash, index))
            else some (hashBest, pindexSelected)
          | none => some (hashSelection, (hash, index))
        selectBlockFromCandidates Hash m selected nSelectionIntervalStop nStakeModifierPrev rest best'

/- The low bit of the block hash. -/
def getStakeEntropyBit (hash : uint256) : BitVec 64 := if hash.getLsbD 0 then 1 else 0

/-- The selection rounds of `ComputeNextStakeModifier`,
entered at round `nRound` with `rounds` rounds to go. -/
def selectionRounds (Hash : Bytes → uint256) (m : StakeMap) (sorted : List (Nat × uint256))
    (nStakeModifierPrev : BitVec 64) :
    (rounds nRound : Nat) → (stop : Int) → (selected : List uint256) → (acc : BitVec 64) →
      Option (BitVec 64)
  | 0, _, _, _, acc => some acc
  | rounds + 1, nRound, stop, selected, acc =>
    let stop' := stop + getStakeModifierSelectionIntervalSection nRound
    match selectBlockFromCandidates Hash m selected stop' nStakeModifierPrev sorted none with
    | none => none
    | some (_, pindex) =>
      selectionRounds Hash m sorted nStakeModifierPrev rounds (nRound + 1) stop'
        (pindex.1 :: selected) (acc ||| getStakeEntropyBit pindex.1 <<< nRound)

def candidateLe (a b : Nat × uint256) : Bool := a.1 < b.1 || (a.1 == b.1 && a.2 ≤ b.2)

structure NextModifier where
  ok : Bool
  nStakeModifier : BitVec 64
  fGeneratedStakeModifier : Bool
deriving DecidableEq, Repr

/- kernel.cpp:139-227 for an entry with parent
`pprev` and time `nTime`. -/
def computeNextStakeModifier (Hash : Bytes → uint256) (m : StakeMap) (pprev : Option uint256)
    (nTime : Nat) : NextModifier :=
  match pprev with
  | none => ⟨true, 0, true⟩
  | some hashPrev =>
    let chain := ancestors m (some hashPrev)
    match chain, getLastStakeModifier chain with
    | (_, pindexPrev) :: _, some (nStakeModifier, nModifierTime) =>
      if nModifierTime / MODIFIER_INTERVAL ≥ pindexPrev.nTime / MODIFIER_INTERVAL then
        ⟨true, nStakeModifier, false⟩
      else if nModifierTime / MODIFIER_INTERVAL ≥ nTime / MODIFIER_INTERVAL then
        ⟨true, nStakeModifier, false⟩
      else
        let nSelectionIntervalStart : Int :=
          (pindexPrev.nTime / MODIFIER_INTERVAL * MODIFIER_INTERVAL : Nat) -
            (getStakeModifierSelectionInterval : Int)
        let candidates := chain.takeWhile fun c => decide ((c.2.nTime : Int) ≥ nSelectionIntervalStart)
        let sorted := ((candidates.map fun c => (c.2.nTime, c.1)).reverse).insertionSort fun a b => candidateLe a b = true
        match selectionRounds Hash m sorted nStakeModifier (min 64 sorted.length) 0
            nSelectionIntervalStart [] 0 with
        | none => ⟨false, nStakeModifier, false⟩
        | some nStakeModifierNew => ⟨true, nStakeModifierNew, true⟩
    | _, _ => ⟨false, 0, false⟩

structure KernelModifier where
  nStakeModifier : BitVec 64
  nStakeModifierHeight : Nat
  nStakeModifierTime : Nat
deriving DecidableEq, Repr

/-- Loop of `GetKernelStakeModifier`: `next` is the rest of
the active chain above `pindex`. -/
def kernelStakeModifierFrom (pindexFrom : StakeIndex) :
    StakeIndex → (next : List StakeIndex) → (height time : Nat) → KernelModifier
  | pindex, [], height, time =>
    if time < pindexFrom.nTime + getStakeModifierSelectionInterval then
      ⟨if pindex.fStakeModifier then pindex.nStakeModifier else 0, pindexFrom.nHeight,
        pindexFrom.nTime⟩
    else ⟨pindex.nStakeModifier, height, time⟩
  | pindex, pindexNext :: rest, height, time =>
    if time < pindexFrom.nTime + getStakeModifierSelectionInterval then
      if pindexNext.fStakeModifier then
        kernelStakeModifierFrom pindexFrom pindexNext rest pindexNext.nHeight pindexNext.nTime
      else kernelStakeModifierFrom pindexFrom pindexNext rest height time
    else ⟨pindex.nStakeModifier, height, time⟩

/- `chainActive` holds the hash
at every height; the walk starts one above the height of the staked block,
whichever branch that block is on. -/
def getKernelStakeModifier (m : StakeMap) (chainActive : List uint256) (hashBlockFrom : uint256) :
    Option KernelModifier :=
  match m hashBlockFrom with
  | none => none
  | some pindexFrom =>
    some (kernelStakeModifierFrom pindexFrom pindexFrom
      ((chainActive.drop (pindexFrom.nHeight + 1)).filterMap m) pindexFrom.nHeight pindexFrom.nTime)

end Alqo
