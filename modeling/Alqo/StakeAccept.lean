import Alqo.Kernel
import Alqo.IndexRuns

/-!
# Accepting a staked block (main.cpp)

The verdicts of the other checks come with the block, as in `ChainIndex.acceptBlock`, to which the
whole function agrees when it ends (`acceptStaked_eq`).
-/

namespace Alqo

/-- How a check ends; `undefined` is an access past the end of a vector or through a
null pointer. -/
inductive StakeOutcome where
  | accepted
  | rejected
  | undefined
deriving DecidableEq, Repr

def StakeNode.withIndex (node : StakeNode) (s : ChainIndex) : StakeNode :=
  { node with
    mapBlockIndex := s.mapBlockIndex
    chainActive := (s.branch s.tip).reverse }

/-- The loops over the transactions and inputs of a block of the fork. -/
def CBlock.spendsAny (bl : CBlock) (inputs : List CTxIn) : Bool :=
  bl.vtx.any fun t => t.vin.any fun txin =>
    inputs.any fun stakeIn => stakeIn.prevout == txin.prevout

namespace ChainIndex

variable (env : ChainEnv) (params : CChainParams) (node : StakeNode) (s : ChainIndex)

section
variable (block : CBlock) (other : BlockChecks)

/-- The check before the header is stored. -/
def stakeOutcome : StakeOutcome :=
  if !block.isProofOfStake then .accepted
  else match ((node.withIndex s).checkProofOfStake env.Hash params block 0).1 with
    | none => .accepted
    | some .undefined => .undefined
    | some _ => .rejected

/-- `ReadBlockFromDisk(bl, prev)`. -/
def readBlock (prev : uint256) : Option CBlock :=
  (s.mapBlockIndex.lookup prev).bind fun index => node.readIndexedBlock env.Hash params prev index

/-- Backwards on the forked chain up to the split: `prev` is the
first of the list, its ancestors the rest, `bl` the block read last. -/
def walkFork (pivInputs : List CTxIn) : Nat → List uint256 → CBlock → StakeOutcome
  | _, [], _ => .undefined
  | nRead, prev :: rest, bl =>
    if s.contains prev then .accepted
    else if nRead + 1 = params.nMaxReorganizationDepth then .rejected
    else if bl.spendsAny pivInputs then .rejected
    else match rest.head? with
      | none => .undefined
      | some pprev =>
        match s.readBlock env params node pprev with
        | none => .rejected
        | some bl => walkFork pivInputs (nRead + 1) rest bl

/-- The part for a block whose parent is not the tip. -/
def checkFork (pivInputs : List CTxIn) (pindexPrev : uint256) : StakeOutcome :=
  match s.readBlock env params node pindexPrev with
  | none => .rejected
  | some bl => s.walkFork env params node pivInputs 0 (s.branch pindexPrev) bl

/-- The look at the coins; on a fork nothing is required. -/
def checkCoins (stakeTxIn : CTransaction) : StakeOutcome :=
  if stakeTxIn.vin.any fun txin =>
      match node.accessCoins txin.prevout.hash with
      | none => true
      | some coin => !coin.isAvailable txin.prevout.n then .rejected
  else .accepted

/-- The checks after the header. -/
def checkStake : StakeOutcome :=
  if !block.isProofOfStake then .accepted
  else match block.vtx[1]? with
    | none => .undefined
    | some stakeTxIn =>
      -- declared and never filled (`main.cpp:3464`)
      let pivInputs : List CTxIn := []
      if s.tip ≠ block.hashPrevBlock then s.checkFork env params node pivInputs block.hashPrevBlock
      else checkCoins node stakeTxIn

/-- `AcceptBlock` after the header. -/
def acceptStakedBody (pos : CDiskBlockPos) :
    Option ChainIndex :=
  if (s.status (block.getHash env.Hash)).fHaveData then some s
  else match other.body with
    | .invalid => some (s.updateStatus (block.getHash env.Hash) BlockStatus.markFailedValid)
    | .refused => some s
    | .valid =>
      match s.checkStake env params node block with
      | .undefined => none
      | .rejected => some s
      | .accepted => some (s.receivedBlockTransactions env block pos)

/-- `AcceptBlock`; `none` for undefined behaviour. -/
def acceptStaked (pos : CDiskBlockPos) :
    Option ChainIndex :=
  if block.getHash env.Hash ≠ env.hashGenesisBlock ∧ block.hashPrevBlock ∉ s.mapBlockIndex then
    some s
  else if block.getHash env.Hash ≠ env.hashGenesisBlock ∧
      (s.status block.hashPrevBlock).failed = true then
    match s.checkpointParent env block with
    | some pindexPrev => some (s.reconsiderBlock env pindexPrev)
    | none => some s
  else if block.getHash env.Hash ≠ env.hashGenesisBlock ∧ other.work = false then some s
  else match s.stakeOutcome env params node block with
    | .undefined => none
    | .rejected => some s
    | .accepted =>
      if block.getHash env.Hash = env.hashGenesisBlock then some s
      else match s.acceptBlockHeader env block other.header with
        | none => some s
        | some t => t.acceptStakedBody env params node block other pos

def stakeBodyVerdict : BodyVerdict :=
  if other.body = .valid ∧ s.checkStake env params node block ≠ .accepted then .refused
  else other.body

def stakeVerdicts : BlockChecks :=
  { other with
    work := other.work && decide (s.stakeOutcome env params node block = .accepted)
    body := ((s.acceptBlockHeader env block other.header).getD s).stakeBodyVerdict env params node
      block other }

end

section Agreement

variable {env params node s} {block : CBlock} {other : BlockChecks} {pos : CDiskBlockPos}
  {t : ChainIndex}

theorem acceptStakedBody_eq {checks : BlockChecks}
    (hchecks : checks.body = s.stakeBodyVerdict env params node block other)
    (h : s.acceptStakedBody env params node block other pos = some t) :
    t = s.acceptBlockBody env block checks pos := by
  unfold acceptStakedBody at h
  unfold acceptBlockBody
  by_cases hdata : (s.status (block.getHash env.Hash)).fHaveData = true
  · simpa [hdata] using h.symm
  · simp only [hdata, Bool.false_eq_true, if_false, hchecks, stakeBodyVerdict] at h ⊢
    cases hbody : other.body with
    | invalid => simpa [hbody] using h.symm
    | refused => simpa [hbody] using h.symm
    | valid =>
      rw [hbody] at h
      by_cases hcheck : s.checkStake env params node block = .accepted
      · rw [hcheck] at h
        rw [if_neg (by simp [hcheck])]
        exact (Option.some.inj h).symm
      · rw [if_pos ⟨rfl, hcheck⟩]
        cases hcase : s.checkStake env params node block with
        | accepted => exact absurd hcase hcheck
        | rejected => simpa [hcase] using h.symm
        | undefined => simp [hcase] at h

/-- Where `AcceptBlock` ends, it does what the model of the index says. -/
theorem acceptStaked_eq (h : s.acceptStaked env params node block other pos = some t) :
    t = s.acceptBlock env block (s.stakeVerdicts env params node block other) pos := by
  unfold acceptStaked at h
  unfold acceptBlock
  by_cases hgenesis : block.getHash env.Hash = env.hashGenesisBlock
  · simp only [hgenesis, ne_eq, not_true_eq_false, false_and, if_false, if_true] at h ⊢
    cases hstake : s.stakeOutcome env params node block with
    | accepted => simpa [hstake] using h.symm
    | rejected => simpa [hstake] using h.symm
    | undefined => simp [hstake] at h
  · simp only [ne_eq, hgenesis, not_false_eq_true, true_and, if_false] at h ⊢
    by_cases hprev : block.hashPrevBlock ∈ s.mapBlockIndex
    · simp only [hprev, not_true_eq_false, if_false] at h ⊢
      by_cases hfailed : (s.status block.hashPrevBlock).failed = true
      · simp only [hfailed, if_true] at h ⊢
        cases hc : s.checkpointParent env block with
        | none => simpa [hc] using h.symm
        | some p => simpa [hc] using h.symm
      · simp only [hfailed, Bool.false_eq_true, if_false] at h ⊢
        cases hwork : other.work with
        | false => simpa [hwork, stakeVerdicts] using h.symm
        | true =>
          cases hstake : s.stakeOutcome env params node block with
          | undefined => simp [hstake, hwork] at h
          | rejected => simpa [hstake, hwork, stakeVerdicts] using h.symm
          | accepted =>
            simp only [hstake, hwork, Bool.true_eq_false, if_false] at h
            simp only [stakeVerdicts, hstake, hwork, decide_true, Bool.and_true, Bool.not_true,
              Bool.false_eq_true, if_false]
            cases hh : s.acceptBlockHeader env block other.header with
            | none => simpa [hh] using h.symm
            | some u =>
              simp only [hh] at h
              exact acceptStakedBody_eq rfl h
    · simpa [hprev] using h.symm

end Agreement

end ChainIndex

namespace StakeNode

variable (Hash : Bytes → uint256) (params : CChainParams) (node : StakeNode)

def StakesMissingOutput (block : CBlock) : Prop :=
  ∃ (tx : CTransaction) (txin : CTxIn) (txPrev : CTransaction) (hashBlock : uint256),
    block.vtx[1]? = some tx ∧ tx.vin[0]? = some txin ∧
    node.getTransaction Hash params txin.prevout.hash = some (txPrev, hashBlock) ∧
    txPrev.vout.length ≤ txin.prevout.n

variable {Hash params node} {block : CBlock}

theorem coinStake_of_isProofOfStake (h : block.isProofOfStake = true) :
    ∃ tx txin, block.vtx[1]? = some tx ∧ tx.isCoinStake = true ∧ tx.vin[0]? = some txin := by
  unfold CBlock.isProofOfStake at h
  split at h
  · rename_i coinbase tx rest hvtx
    cases hvin : tx.vin with
    | nil => simp [CTransaction.isCoinStake, hvin] at h
    | cons txin more => exact ⟨tx, txin, by simp [hvtx], h, by simp [hvin]⟩
  · cases h

/- The block type test puts the coinstake and its first input in range; nothing does so for
the output. -/
theorem stakedOutput_undefined_iff (h : block.isProofOfStake = true) :
    node.stakedOutput Hash params block = .error .undefined ↔
      node.StakesMissingOutput Hash params block := by
  obtain ⟨tx, txin, htx, hstake, hin⟩ := coinStake_of_isProofOfStake h
  unfold stakedOutput StakesMissingOutput
  simp only [htx, hstake, hin, Bool.not_true, Bool.false_eq_true, if_false, Option.some.injEq]
  cases hprev : node.getTransaction Hash params txin.prevout.hash with
  | none =>
    simp only [reduceCtorEq, false_iff, not_exists, Except.error.injEq]
    rintro tx' txin' txPrev hashBlock ⟨htx', hin', hfound, -⟩
    rw [← htx', hin, Option.some.injEq] at hin'
    rw [← hin', hprev] at hfound
    cases hfound
  | some found =>
    obtain ⟨txPrev, hashBlock⟩ := found
    dsimp only
    cases hout : txPrev.vout[txin.prevout.n]? with
    | none =>
      simp only [true_iff]
      exact ⟨tx, txin, txPrev, hashBlock, rfl, hin, hprev, List.getElem?_eq_none_iff.mp hout⟩
    | some out =>
      have hrange : ¬ txPrev.vout.length ≤ txin.prevout.n := by
        rw [← List.getElem?_eq_none_iff, hout]
        simp
      constructor
      · intro hundefined
        cases hindex : node.mapBlockIndex.lookup hashBlock with
        | none => simp [hindex] at hundefined
        | some pindex =>
          cases hread : node.readBlockFromDisk Hash params pindex.getBlockPos with
          | none => simp [hindex, hread] at hundefined
          | some blockFrom => simp [hindex, hread] at hundefined
      · rintro ⟨tx', txin', txPrev', hashBlock', htx', hin', hfound, hlong⟩
        rw [← htx', hin, Option.some.injEq] at hin'
        rw [← hin', hprev, Option.some.injEq, Prod.mk.injEq] at hfound
        rw [← hin', ← hfound.1] at hlong
        exact absurd hlong hrange

theorem checkProofOfStake_undefined_iff (h : uint256) :
    (node.checkProofOfStake Hash params block h).1 = some .undefined ↔
      node.stakedOutput Hash params block = .error .undefined := by
  unfold checkProofOfStake
  cases hs : node.stakedOutput Hash params block with
  | error e => simp
  | ok staked =>
    simp only [reduceCtorEq, iff_false]
    split_ifs
    · simp
    · simp

end StakeNode

namespace ChainIndex
open Lib.Branches Lib.Runs

variable {env : ChainEnv} {params : CChainParams} {node : StakeNode} {s t : ChainIndex}
  {block : CBlock} {other : BlockChecks} {pos : CDiskBlockPos}

theorem stakeOutcome_undefined_iff :
    s.stakeOutcome env params node block = .undefined ↔ block.isProofOfStake = true ∧
      (node.withIndex s).StakesMissingOutput env.Hash params block := by
  unfold stakeOutcome
  cases hpos : block.isProofOfStake with
  | false => simp
  | true =>
    rw [← StakeNode.stakedOutput_undefined_iff hpos, ← StakeNode.checkProofOfStake_undefined_iff 0]
    simp only [Bool.not_true, Bool.false_eq_true, if_false, true_and]
    cases ((node.withIndex s).checkProofOfStake env.Hash params block 0).1 with
    | none => simp
    | some e => cases e <;> simp

theorem walkFork_defined {pivInputs : List CTxIn} (l : List uint256) (nRead : Nat) (bl : CBlock)
    (h : ∃ x ∈ l, s.contains x = true) :
    s.walkFork env params node pivInputs nRead l bl ≠ .undefined := by
  induction l generalizing nRead bl with
  | nil => simp at h
  | cons prev rest ih =>
    unfold walkFork
    split_ifs with hactive hlong hspent
    · simp
    · simp
    · simp
    · have hrest : ∃ x ∈ rest, s.contains x = true := by
        obtain ⟨x, hx, hxactive⟩ := h
        rcases List.mem_cons.mp hx with heq | hmem
        · rw [heq] at hxactive
          exact absurd hxactive hactive
        · exact ⟨x, hmem, hxactive⟩
      cases hhead : rest.head? with
      | none =>
        rw [List.head?_eq_none_iff] at hhead
        simp [hhead] at hrest
      | some p =>
        cases hread : s.readBlock env params node p with
        | none => simp [hread]
        | some bl' =>
          simp only [hread]
          exact ih (nRead + 1) bl' hrest

theorem checkStake_defined (hb : s.Base env) (hprev : block.hashPrevBlock ∈ s.mapBlockIndex) :
    s.checkStake env params node block ≠ .undefined := by
  unfold checkStake
  cases hpos : block.isProofOfStake with
  | false => simp
  | true =>
    obtain ⟨tx, -, htx, -, -⟩ := StakeNode.coinStake_of_isProofOfStake hpos
    simp only [htx, Bool.not_true, Bool.false_eq_true, if_false]
    split_ifs with htip
    · unfold checkFork
      cases hread : s.readBlock env params node block.hashPrevBlock with
      | none => simp
      | some bl =>
        exact walkFork_defined _ _ _ ⟨_, genesis_mem_branch hb hprev, contains_genesis hb⟩
    · unfold checkCoins
      split_ifs <;> simp

/-- `AcceptBlock` gets as far as `CheckProofOfStake`. -/
def ReachesStakeCheck (env : ChainEnv) (s : ChainIndex) (block : CBlock) (other : BlockChecks) :
    Prop :=
  block.getHash env.Hash ≠ env.hashGenesisBlock → block.hashPrevBlock ∈ s.mapBlockIndex ∧
    (s.status block.hashPrevBlock).failed = false ∧ other.work = true

theorem acceptStakedBody_defined (hb : s.Base env) (hprev : block.hashPrevBlock ∈ s.mapBlockIndex) :
    s.acceptStakedBody env params node block other pos ≠ none := by
  unfold acceptStakedBody
  split_ifs with hdata
  · simp
  · cases other.body with
    | invalid => simp
    | refused => simp
    | valid =>
      cases hcheck : s.checkStake env params node block with
      | undefined => exact absurd hcheck (checkStake_defined hb hprev)
      | rejected => simp
      | accepted => simp

theorem acceptStaked_none_iff (hb : s.Base env) (pos : CDiskBlockPos) :
    s.acceptStaked env params node block other pos = none ↔ s.ReachesStakeCheck env block other ∧
        s.stakeOutcome env params node block = .undefined := by
  unfold acceptStaked ReachesStakeCheck
  by_cases hgenesis : block.getHash env.Hash = env.hashGenesisBlock
  · simp only [hgenesis, ne_eq, not_true_eq_false, false_and, if_false, if_true, false_implies,
      true_and]
    cases s.stakeOutcome env params node block <;> simp
  · simp only [ne_eq, hgenesis, not_false_eq_true, true_and, if_false, true_implies]
    by_cases hprev : block.hashPrevBlock ∈ s.mapBlockIndex
    · simp only [hprev, not_true_eq_false, if_false, true_and]
      cases hfailed : (s.status block.hashPrevBlock).failed with
      | true => cases s.checkpointParent env block <;> simp
      | false =>
        cases hwork : other.work with
        | false => simp
        | true =>
          cases hstake : s.stakeOutcome env params node block with
          | undefined => simp
          | rejected => simp
          | accepted =>
            cases hheader : s.acceptBlockHeader env block other.header with
            | none => simp
            | some u =>
              have hbody : u.acceptStakedBody env params node block other pos ≠ none := by
                rcases acceptBlockHeader_cases hheader with ⟨rfl, -, -⟩ | ⟨hgrown, -⟩
                · exact acceptStakedBody_defined hb hprev
                · exact acceptStakedBody_defined (hgrown.base hb) ((hgrown.mem _).mpr (.inr hprev))
              simp [hbody]
    · simp [hprev]

/-- In every state of every run: `AcceptBlock` leaves what the language defines exactly if
it comes to the stake check with a coinstake that names an output its previous transaction
does not have. -/
theorem acceptStaked_defined_iff (env : ChainEnv) (params : CChainParams) (node : StakeNode)
    (pos0 : CDiskBlockPos) (events : List IndexEvent) (s : ChainIndex)
    (hrun : run (step env) (some (initBlockIndex env pos0)) events = some s) (block : CBlock)
    (other : BlockChecks) (pos : CDiskBlockPos) :
    (∃ t, s.acceptStaked env params node block other pos = some t) ↔
      ¬ (s.ReachesStakeCheck env block other ∧ block.isProofOfStake = true ∧
        (node.withIndex s).StakesMissingOutput env.Hash params block) := by
  rw [← stakeOutcome_undefined_iff, ← acceptStaked_none_iff (base_of_run hrun) pos]
  exact Option.ne_none_iff_exists'.symm

def sideBlock : CBlock :=
  { nonceBlock 0 2 0x1e0fffff 0 with
    vtx := [{ hash := 0, vin := [], vout := [] },
      { hash := 21, vin := [{ prevout := ⟨7, 0⟩ }], vout := [] }] }

def sideStake (prevout : COutPoint) : CBlock :=
  { nonceBlock 2 3 0x1e0fffff 0 with
    vtx := [{ hash := 0, vin := [], vout := [] },
      { hash := 31, vin := [{ prevout := prevout }], vout := [⟨0, [], -10⟩, ⟨0, [], -10⟩] }] }

def sideRun : List IndexEvent :=
  [.block (nonceBlock 0 1 0x1e0fffff 1) {} ⟨0, 300⟩, .activate fun _ => .valid,
    .block sideBlock {} ⟨0, 600⟩, .activate fun _ => .valid]

def sideNode : StakeNode where
  mapBlockIndex := ∅
  chainActive := []
  fTxIndex := true
  txIndex := fun hash => some (.found (nonceBlock 0 1 0x1e0fffff 1).toCBlockHeader
    { hash := hash, vin := [], vout := [⟨0, [], -10⟩] })
  blockFiles := fun pos =>
    if pos = ⟨0, 8⟩ then some nonceEnv.genesis
    else if pos = ⟨0, 300⟩ then some (nonceBlock 0 1 0x1e0fffff 1)
    else if pos = ⟨0, 600⟩ then some sideBlock else none

def sideState : ChainIndex :=
  (run (step nonceEnv) nonceGenesis sideRun).get (by decide +kernel)

theorem sideState_run : run (step nonceEnv) nonceGenesis sideRun = some sideState :=
  (Option.some_get _).symm

theorem acceptStaked_sideStake :
    ∃ t, sideState.acceptStaked nonceEnv mainParams sideNode (sideStake ⟨7, 0⟩) {} ⟨0, 900⟩ =
      some t := by
  apply (acceptStaked_defined_iff nonceEnv mainParams sideNode ⟨0, 8⟩ sideRun sideState
    sideState_run (sideStake ⟨7, 0⟩) {} ⟨0, 900⟩).mpr
  rintro ⟨-, -, tx, txin, txPrev, hashBlock, htx, hin, hfound, hlong⟩
  cases htx
  cases hin
  cases hfound
  simp at hlong

/-- The coinstake names output 1 of a transaction with a single output. -/
theorem sideStake_outOfRange : (sideStake ⟨7, 1⟩).isProofOfStake = true ∧
    (sideState.acceptStaked nonceEnv mainParams sideNode (sideStake ⟨7, 1⟩) {} ⟨0, 900⟩).isNone =
      true := by
  decide +kernel

/-- One event of a node that makes the stake checks of a block itself, on what it then has. -/
def handleStaked (env : ChainEnv) (params : CChainParams) (s : ChainIndex) :
    StakeNode × IndexEvent → Option ChainIndex
  | (node, .block block other pos) =>
    if block.vtx.length = 0 ∨ MAX_BLOCK_SIZE_CURRENT < block.vtx.length then some s
    else if !other.checked then some s
    else s.acceptStaked env params node block other pos
  | (_, e) => s.handle env e

def stepStaked (env : ChainEnv) (params : CChainParams) (s : Option ChainIndex)
    (e : StakeNode × IndexEvent) : Option ChainIndex :=
  s.bind fun s => s.handleStaked env params e

/- The verdicts on a block may differ. -/
inductive SameMessage : IndexEvent → IndexEvent → Prop
  | block (b checks checks' pos) : SameMessage (.block b checks pos) (.block b checks' pos)
  | refl (e : IndexEvent) : SameMessage e e

theorem handleStaked_plain {e : StakeNode × IndexEvent} (h : s.handleStaked env params e = some t) :
    ∃ e', SameMessage e.2 e' ∧ s.handle env e' = some t := by
  obtain ⟨node, e⟩ := e
  cases e with
  | block block other pos =>
    refine ⟨.block block (s.stakeVerdicts env params node block other) pos,
      .block block other _ pos, ?_⟩
    rw [handleStaked] at h
    rw [handle, processNewBlock, stakeVerdicts]
    split_ifs at h ⊢
    · exact h
    · exact h
    · rw [acceptStaked_eq h]
      rfl
  -- the other messages are handled as they are
  | _ => exact ⟨_, .refl _, h⟩

/-- Every run with the stake checks is a run of the index on the same messages. -/
theorem run_staked_refines (env : ChainEnv) (params : CChainParams) (pos : CDiskBlockPos)
    (events : List (StakeNode × IndexEvent)) (t : ChainIndex)
    (h : run (stepStaked env params) (some (initBlockIndex env pos)) events = some t) :
    t.Base env ∧ ∃ plain, List.Forall₂ (fun e e' => SameMessage e.2 e') events plain ∧
      run (step env) (some (initBlockIndex env pos)) plain = some t := by
  induction events using List.reverseRecOn generalizing t with
  | nil =>
    have hnil : run (step env) (some (initBlockIndex env pos)) [] = some t := h
    exact ⟨base_of_run hnil, [], .nil, hnil⟩
  | append_singleton events e ih =>
    rw [run_concat] at h
    obtain ⟨mid, hmid, he⟩ := Option.bind_eq_some_iff.mp h
    obtain ⟨-, plain, hsame, hrun⟩ := ih mid hmid
    obtain ⟨e', hsame', he'⟩ := handleStaked_plain he
    have hlast : run (step env) (some (initBlockIndex env pos)) (plain ++ [e']) = some t := by
      rw [run_concat, hrun]
      exact he'
    exact ⟨base_of_run hlast, plain ++ [e'], List.rel_append hsame (.cons hsame' .nil), hlast⟩

def stakedRun : List (StakeNode × IndexEvent) :=
  sideRun.map (sideNode, ·) ++ [(sideNode, .block (sideStake ⟨7, 0⟩) {} ⟨0, 900⟩)]

theorem run_staked_refines_stakedRun :
    ∃ t, run (stepStaked nonceEnv mainParams) nonceGenesis stakedRun = some t ∧ t.Base nonceEnv := by
  have hsome : (run (stepStaked nonceEnv mainParams) nonceGenesis stakedRun).isSome = true := by
    decide +kernel
  obtain ⟨t, ht⟩ := Option.isSome_iff_exists.mp hsome
  exact ⟨t, ht, (run_staked_refines nonceEnv mainParams ⟨0, 8⟩ stakedRun t ht).1⟩

end ChainIndex

end Alqo
