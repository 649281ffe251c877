import Alqo.BlockIndex
import Alqo.CompactForm

/-!
# The next target (pow.cpp)

An overflow of `int64_t` has no meaning: every such operation goes through `int64`, and `none` also
stands for a null pointer followed, a failed assertion and a division by zero. Targets are `uint256`
and wrap.
-/

namespace Alqo

/-- The value of an `int64_t` expression, if it has one. -/
def int64 (z : Int) : Option Int := if -2 ^ 63 ≤ z ∧ z < 2 ^ 63 then some z else none

/-- An `int64_t` where a `uint256` is expected is read as a `uint64_t` first. -/
def ofInt64 (z : Int) : uint256 := BitVec.ofNat 256 (z % 2 ^ 64).toNat

/-- An index entry with its ancestors, by height. Heights are `int`s, times are
`unsigned int`s. -/
structure IndexChain where
  nHeight : Nat
  block : Nat → CBlockIndex
  nHeight_lt : nHeight < 2 ^ 31
  height : ∀ i ≤ nHeight, (block i).nHeight = i
  time : ∀ i ≤ nHeight, (block i).nTime < 2 ^ 32

variable (params : CChainParams) (chain : IndexChain)

/-- `pindexLast->GetAncestor(height)`. -/
def IndexChain.getAncestor (height : Int) : Option CBlockIndex :=
  if height > chain.nHeight ∨ height < 0 then none else some (chain.block height.toNat)

/-- The constant `N`. -/
def lwmaN : Int := 25

/-- The constant `k`. -/
def lwmaK (T : Int) : Option Int := do
  let n ← int64 (lwmaN + 1)
  let n ← int64 (lwmaN * n)
  let n ← int64 (n * T)
  int64 (n.tdiv 2)

structure LwmaState where
  previousTimestamp : Int
  t : Int := 0
  j : Int := 0
  sumTarget : uint256 := 0
deriving DecidableEq, Repr

/-- One turn of the loop. -/
def lwmaRound (T k : Int) (block : CBlockIndex) (s : LwmaState) : Option LwmaState := do
  let thisTimestamp ← (if (block.nTime : Int) > s.previousTimestamp then some (block.nTime : Int)
    else int64 (s.previousTimestamp + 1))
  let slowest ← int64 (6 * T)
  let elapsed ← int64 (thisTimestamp - s.previousTimestamp)
  let j ← int64 (s.j + 1)
  let weighted ← int64 (min slowest elapsed * j)
  let t ← int64 (s.t + weighted)
  let divisor ← int64 (k * lwmaN)
  if ofInt64 divisor = 0 then none
  else some ⟨thisTimestamp, t, j, s.sumTarget + (setCompact block.nBits).bnTarget / ofInt64 divisor⟩

def lwmaRounds (chain : IndexChain) (T k : Int) : List Nat → LwmaState → Option LwmaState
  | [], s => some s
  | i :: rest, s => do
    let height ← int64 ((chain.nHeight : Int) - lwmaN + 1 + i)
    let block ← chain.getAncestor height
    let s ← lwmaRound T k block s
    lwmaRounds chain T k rest s

/-- From the window to its sums. -/
def lwmaWindow (k : Int) (chain : IndexChain) : Option LwmaState := do
  let height ← int64 ((chain.nHeight : Int) - lwmaN)
  let blockPreviousTimestamp ← chain.getAncestor height
  lwmaRounds chain params.nTargetSpacing k (List.range 25)
    { previousTimestamp := blockPreviousTimestamp.nTime }

def workLimit (fProofOfStake : Bool) : uint256 :=
  if fProofOfStake then params.bnProofOfStakeLimit else params.bnProofOfWorkLimit

/-- Too few blocks, of all or since the last proof-of-work block. -/
def tooFewBlocks (height : Int) : Bool :=
  decide (height < lwmaN) ||
    (decide (height > params.nLastPOWBlock) && decide (height - params.nLastPOWBlock < lwmaN))

/-- The target from the window, before it is made compact. -/
def lwmaNextTarget (k : Int) (chain : IndexChain) (fProofOfStake : Bool) :
    Option uint256 := do
  let s ← lwmaWindow params k chain
  let nextTarget := ofInt64 s.t * s.sumTarget
  return if nextTarget > workLimit params fProofOfStake then workLimit params fProofOfStake
    else nextTarget

def lwma3CalculateNextWorkRequired (fProofOfStake : Bool) : Option (BitVec 32) := do
  let k ← lwmaK params.nTargetSpacing
  if tooFewBlocks params chain.nHeight then getCompactChecked (workLimit params fProofOfStake)
  else
    let nextTarget ← lwmaNextTarget params k chain fProofOfStake
    getCompactChecked nextTarget

/-- The flag `GetNextWorkRequired` passes on. -/
def nextProofOfStake (height : Nat) : Bool :=
  decide (height > params.nLastPOWBlock)

def getNextWorkRequired : Option (BitVec 32) :=
  lwma3CalculateNextWorkRequired params chain (nextProofOfStake params chain.nHeight)

def IndexChain.window : List CBlockIndex :=
  (List.range 25).map fun i => chain.block (chain.nHeight - 24 + i)

theorem int64_eq {z : Int} (hlo : -2 ^ 63 ≤ z) (hhi : z < 2 ^ 63) : int64 z = some z :=
  if_pos ⟨hlo, hhi⟩

theorem IndexChain.getAncestor_eq {i : Nat} (h : i ≤ chain.nHeight) :
    chain.getAncestor i = some (chain.block i) := by
  rw [IndexChain.getAncestor, if_neg (by omega), Int.toNat_natCast]

theorem lwmaRounds_eq (T k : Int) (h : 25 ≤ chain.nHeight) (l : List Nat) (hl : ∀ i ∈ l, i < 25)
    (s : LwmaState) :
    lwmaRounds chain T k l s = (l.map fun i => chain.block (chain.nHeight - 24 + i)).foldlM
        (fun s block => lwmaRound T k block s) s := by
  induction l generalizing s with
  | nil => rfl
  | cons i rest ih =>
    have hi := hl i (List.mem_cons_self ..)
    have hsmall := chain.nHeight_lt
    have hheight : int64 ((chain.nHeight : Int) - lwmaN + 1 + i) =
        some ((chain.nHeight - 24 + i : Nat) : Int) := by
      rw [int64_eq (by unfold lwmaN; omega) (by unfold lwmaN; omega)]
      congr 1
      unfold lwmaN
      omega
    have hblock := chain.getAncestor_eq (by omega : chain.nHeight - 24 + i ≤ chain.nHeight)
    simp only [lwmaRounds, hheight, Option.bind_eq_bind, Option.bind_some, hblock, List.map_cons,
      List.foldlM_cons]
    congr 1
    funext s'
    exact ih (fun n hn => hl n (List.mem_cons_of_mem _ hn)) s'

theorem lwmaWindow_eq (k : Int) (chain : IndexChain) (h : 25 ≤ chain.nHeight) :
    lwmaWindow params k chain =
      chain.window.foldlM (fun s block => lwmaRound params.nTargetSpacing k block s)
        { previousTimestamp := (chain.block (chain.nHeight - 25)).nTime } := by
  have hsmall := chain.nHeight_lt
  have hheight : int64 ((chain.nHeight : Int) - lwmaN) =
      some ((chain.nHeight - 25 : Nat) : Int) := by
    rw [int64_eq (by unfold lwmaN; omega) (by unfold lwmaN; omega)]
    congr 1
    unfold lwmaN
    omega
  have hblock := chain.getAncestor_eq (by omega : chain.nHeight - 25 ≤ chain.nHeight)
  simp only [lwmaWindow, hheight, Option.bind_eq_bind, Option.bind_some, hblock]
  exact lwmaRounds_eq chain params.nTargetSpacing k h _ (fun i hi => List.mem_range.mp hi) _

end Alqo
