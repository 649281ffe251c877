import Alqo.StakeAccept

/-!
# Stakes on a fork (main.cpp)

The walk of `AcceptBlock` down a fork does what it is for if its list of stake inputs is filled; the
list it is given is empty.
-/

namespace Alqo.ChainIndex
open Lib.Branches Lib.Runs List

variable {env : ChainEnv} {params : CChainParams} {node : StakeNode} {s t : ChainIndex}
  {block bl : CBlock} {other : BlockChecks} {pos : CDiskBlockPos} {inputs pivInputs : List CTxIn}
  {nRead : Nat} {prev : uint256} {rest : List uint256}

def ReadsUnspent (env : ChainEnv) (params : CChainParams) (node : StakeNode) (s : ChainIndex)
    (inputs : List CTxIn) (x : uint256) : Prop :=
  ∃ bl, s.readBlock env params node x = some bl ∧ bl.spendsAny inputs = false

/-- The list leaves the active chain for fewer blocks than the limit, all of them are read
and spend none of the inputs, and the block they leave it at is read too. -/
def ForkOk (env : ChainEnv) (params : CChainParams) (node : StakeNode) (s : ChainIndex)
    (inputs : List CTxIn) (nRead : Nat) (l : List uint256) : Prop :=
  ∃ off split below, l = off ++ split :: below ∧ (∀ x ∈ off, s.contains x = false) ∧
    s.contains split = true ∧
    (nRead < params.nMaxReorganizationDepth → nRead + off.length < params.nMaxReorganizationDepth) ∧
    (∀ x ∈ off, s.ReadsUnspent env params node inputs x) ∧
    ∃ bl, s.readBlock env params node split = some bl

theorem forkOk_of_contains (hactive : s.contains prev = true)
    (hread : s.readBlock env params node prev = some bl) :
    s.ForkOk env params node inputs nRead (prev :: rest) :=
  ⟨[], prev, rest, rfl, by simp, hactive, by simp, by simp, bl, hread⟩

theorem forkOk_cons (hinactive : s.contains prev = false)
    (hread : s.readBlock env params node prev = some bl) :
    s.ForkOk env params node inputs nRead (prev :: rest) ↔
      nRead + 1 ≠ params.nMaxReorganizationDepth ∧ bl.spendsAny inputs = false ∧
        s.ForkOk env params node inputs (nRead + 1) rest := by
  constructor
  · rintro ⟨off, split, below, hl, hoff, hsplit, hdepth, hreads, hbelow⟩
    cases off with
    | nil =>
      rw [nil_append, List.cons.injEq] at hl
      rw [← hl.1, hinactive] at hsplit
      cases hsplit
    | cons x off =>
      rw [cons_append, List.cons.injEq] at hl
      obtain ⟨bl', hbl', hunspent⟩ := hreads x (mem_cons_self ..)
      rw [← hl.1, hread, Option.some.injEq] at hbl'
      rw [length_cons] at hdepth
      refine ⟨by omega, by rw [hbl']; exact hunspent, off, split, below, hl.2, ?_, hsplit, ?_, ?_,
        hbelow⟩
      · exact fun y hy => hoff y (mem_cons_of_mem _ hy)
      · omega
      · exact fun y hy => hreads y (mem_cons_of_mem _ hy)
  · rintro ⟨hlong, hunspent, off, split, below, hl, hoff, hsplit, hdepth, hreads, hbelow⟩
    refine ⟨prev :: off, split, below, by rw [hl]; rfl, ?_, hsplit, ?_, ?_, hbelow⟩
    · intro y hy
      rcases mem_cons.mp hy with heq | hmem
      · rw [heq]
        exact hinactive
      · exact hoff y hmem
    · rw [length_cons]
      omega
    · intro y hy
      rcases mem_cons.mp hy with heq | hmem
      · rw [heq]
        exact ⟨bl, hread, hunspent⟩
      · exact hreads y hmem

theorem not_forkOk_nil : ¬ s.ForkOk env params node inputs nRead [] := by
  rintro ⟨off, split, below, hl, -⟩
  simp at hl

theorem ForkOk.head_read (h : s.ForkOk env params node inputs nRead (prev :: rest)) :
    ∃ bl, s.readBlock env params node prev = some bl := by
  obtain ⟨off, split, below, hl, -, -, -, hreads, hbelow⟩ := h
  cases off with
  | nil =>
    rw [nil_append, List.cons.injEq] at hl
    rw [hl.1]
    exact hbelow
  | cons x off =>
    rw [cons_append, List.cons.injEq] at hl
    obtain ⟨bl, hbl, -⟩ := hreads x (mem_cons_self ..)
    rw [hl.1]
    exact ⟨bl, hbl⟩

theorem walkFork_accepted_iff (rest : List uint256) (prev : uint256) (nRead : Nat) (bl : CBlock)
    (hread : s.readBlock env params node prev = some bl) :
    s.walkFork env params node pivInputs nRead (prev :: rest) bl = .accepted ↔
      s.ForkOk env params node pivInputs nRead (prev :: rest) := by
  induction rest generalizing prev nRead bl with
  | nil =>
    cases hactive : s.contains prev with
    | true => simp [walkFork, hactive, forkOk_of_contains hactive hread]
    | false =>
      rw [forkOk_cons hactive hread]
      simp only [not_forkOk_nil, and_false, iff_false]
      unfold walkFork
      simp only [hactive, Bool.false_eq_true, if_false, head?_nil]
      split_ifs <;> simp
  | cons p rest ih =>
    cases hactive : s.contains prev with
    | true => simp [walkFork, hactive, forkOk_of_contains hactive hread]
    | false =>
      rw [forkOk_cons hactive hread]
      unfold walkFork
      simp only [hactive, Bool.false_eq_true, if_false, head?_cons]
      by_cases hlong : nRead + 1 = params.nMaxReorganizationDepth
      · simp [hlong]
      · cases hspent : bl.spendsAny pivInputs with
        | true => simp [hlong]
        | false =>
          simp only [hlong, if_false, Bool.false_eq_true, ne_eq, not_false_eq_true, true_and]
          cases hp : s.readBlock env params node p with
          | none =>
            simp only [reduceCtorEq, false_iff]
            intro hok
            obtain ⟨bl', hbl'⟩ := hok.head_read
            rw [hp] at hbl'
            cases hbl'
          | some bl' => exact ih p (nRead + 1) bl' hp

theorem checkFork_accepted_iff (pindexPrev : uint256) :
    s.checkFork env params node pivInputs pindexPrev = .accepted ↔
      s.ForkOk env params node pivInputs 0 (s.branch pindexPrev) := by
  obtain ⟨tail, htail⟩ := s.branch_cons pindexPrev
  unfold checkFork
  rw [htail]
  cases hread : s.readBlock env params node pindexPrev with
  | none =>
    simp only [reduceCtorEq, false_iff]
    intro hok
    obtain ⟨bl, hbl⟩ := hok.head_read
    rw [hread] at hbl
    cases hbl
  | some bl => exact walkFork_accepted_iff tail pindexPrev 0 bl hread

theorem walkFork_congr (l : List uint256) (nRead : Nat) (bl : CBlock)
    (hcontains : ∀ x ∈ l, t.contains x = s.contains x)
    (hread : ∀ x ∈ l, t.readBlock env params node x = s.readBlock env params node x) :
    t.walkFork env params node pivInputs nRead l bl =
      s.walkFork env params node pivInputs nRead l bl := by
  induction l generalizing nRead bl with
  | nil => rfl
  | cons prev rest ih =>
    unfold walkFork
    rw [hcontains prev (mem_cons_self ..)]
    cases hhead : rest.head? with
    | none => rfl
    | some p =>
      have hp : p ∈ rest := mem_of_mem_head? hhead
      simp only [hread p (mem_cons_of_mem _ hp)]
      have hrest := fun bl => ih (nRead + 1) bl
        (fun x hx => hcontains x (mem_cons_of_mem _ hx))
        (fun x hx => hread x (mem_cons_of_mem _ hx))
      simp only [hrest]

theorem Grown.checkStake {hash : uint256} (h : Grown hash block.hashPrevBlock s t)
    (hb : s.Base env) :
    t.checkStake env params node block = s.checkStake env params node block := by
  have hcontains : ∀ x, t.contains x = s.contains x := by
    intro x
    unfold ChainIndex.contains
    rw [h.tip, h.branch hb hb.tip.mem]
  have hread : ∀ x ∈ s.mapBlockIndex,
      t.readBlock env params node x = s.readBlock env params node x := by
    intro x hx
    have hne : x ≠ hash := fun heq => h.fresh (heq ▸ hx)
    unfold readBlock
    rw [h.others x hne]
  have hwalk : ∀ pivInputs bl,
      t.walkFork env params node pivInputs 0 (s.branch block.hashPrevBlock) bl =
        s.walkFork env params node pivInputs 0 (s.branch block.hashPrevBlock) bl := by
    intro pivInputs bl
    apply walkFork_congr
    · exact fun x _ => hcontains x
    · exact fun x hx => hread x (branch_known hb h.parent hx)
  unfold ChainIndex.checkStake checkFork
  rw [h.tip, hread _ h.parent, h.branch hb h.parent]
  simp only [hwalk]

/-- Every check `AcceptBlock` makes lets the block through, and it is not stored yet. -/
structure Passes (env : ChainEnv) (params : CChainParams) (node : StakeNode) (s : ChainIndex)
    (block : CBlock) (other : BlockChecks) : Prop where
  notGenesis : block.getHash env.Hash ≠ env.hashGenesisBlock
  reaches : s.ReachesStakeCheck env block other
  stake : s.stakeOutcome env params node block = .accepted
  header : (s.acceptBlockHeader env block other.header).isSome = true
  missing : (s.status (block.getHash env.Hash)).fHaveData = false
  body : other.body = .valid
  check : s.checkStake env params node block = .accepted

theorem data_received (pos : CDiskBlockPos) (hknown : block.getHash env.Hash ∈ s.mapBlockIndex)
    (hmissing : (s.status (block.getHash env.Hash)).fHaveData = false)
    (hunfailed : (s.status (block.getHash env.Hash)).failed = false)
    (hvtx : block.vtx.length ≠ 0) :
    ((s.receivedBlockTransactions env block pos).status (block.getHash env.Hash)).fHaveData =
      true := by
  have hstored := stored_storeData pos hknown hmissing hunfailed hvtx
  have hmap : (s.receivedBlockTransactions env block pos).mapBlockIndex =
      (s.storeData env block pos).mapBlockIndex := by
    rcases received_cases (rfl : s.storeData env block pos = _) with ⟨-, heq⟩ | ⟨p, -, -, heq⟩
    · rw [heq, linkQueue_map]
    · rw [heq]
      split_ifs
      · unfold addUnlinked
        cases (s.storeData env block pos).pprev (block.getHash env.Hash) with
        | none => rfl
        | some q => rfl
      · rfl
  rw [status_of_map hmap]
  exact hstored.data_self

theorem acceptStakedBody_stores_iff (hknown : block.getHash env.Hash ∈ s.mapBlockIndex)
    (hmissing : (s.status (block.getHash env.Hash)).fHaveData = false)
    (hunfailed : (s.status (block.getHash env.Hash)).failed = false)
    (hvtx : block.vtx.length ≠ 0) :
    (∃ t, s.acceptStakedBody env params node block other pos = some t ∧
        (t.status (block.getHash env.Hash)).fHaveData = true) ↔
      other.body = .valid ∧ s.checkStake env params node block = .accepted := by
  have hmarked := (sameTree_updateStatus keepsData_markFailedValid s
    (block.getHash env.Hash)).data (block.getHash env.Hash)
  have hstored := data_received pos hknown hmissing hunfailed hvtx
  unfold acceptStakedBody
  rw [if_neg (by simp [hmissing])]
  cases other.body with
  | invalid => simp [hmarked, hmissing]
  | refused => simp [hmissing]
  | valid =>
    cases s.checkStake env params node block with
    | undefined => simp
    | rejected => simp [hmissing]
    | accepted => simp [hstored]

theorem acceptStaked_stores_iff (hb : s.Base env) (hvtx : block.vtx.length ≠ 0)
    (hmissing : (s.status (block.getHash env.Hash)).fHaveData = false) :
    (∃ t, s.acceptStaked env params node block other pos = some t ∧
        (t.status (block.getHash env.Hash)).fHaveData = true) ↔
      s.Passes env params node block other := by
  have hgenesis : block.getHash env.Hash ≠ env.hashGenesisBlock := by
    intro heq
    rw [heq, hb.genesis.data] at hmissing
    cases hmissing
  have hpasses : s.Passes env params node block other ↔
      s.ReachesStakeCheck env block other ∧ s.stakeOutcome env params node block = .accepted ∧
      (s.acceptBlockHeader env block other.header).isSome = true ∧ other.body = .valid ∧
      s.checkStake env params node block = .accepted := by
    constructor
    · intro h
      exact ⟨h.reaches, h.stake, h.header, h.body, h.check⟩
    · intro h
      exact ⟨hgenesis, h.1, h.2.1, h.2.2.1, hmissing, h.2.2.2.1, h.2.2.2.2⟩
  rw [hpasses]
  unfold acceptStaked ReachesStakeCheck
  simp only [ne_eq, hgenesis, not_false_eq_true, true_and, if_false, true_implies]
  by_cases hprev : block.hashPrevBlock ∈ s.mapBlockIndex
  · simp only [hprev, not_true_eq_false, if_false, true_and]
    cases hfailed : (s.status block.hashPrevBlock).failed with
    | true =>
      cases hc : s.checkpointParent env block with
      | none => simp [hmissing]
      | some p =>
        have hsame := (reconsiderBlock_spec hb (checkpointParent_mem hc)).sameTree
        simp [hsame.data, hmissing]
    | false =>
      cases hwork : other.work with
      | false => simp [hmissing]
      | true =>
        cases hstake : s.stakeOutcome env params node block with
        | undefined => simp
        | rejected => simp [hmissing]
        | accepted =>
          cases hheader : s.acceptBlockHeader env block other.header with
          | none => simp [hmissing]
          | some u =>
            simp only [Bool.false_eq_true, Bool.true_eq_false, if_false, Option.isSome_some,
              true_and]
            rcases acceptBlockHeader_cases hheader with ⟨rfl, hknown, hunfailed⟩ | ⟨hgrown, -⟩
            · exact acceptStakedBody_stores_iff hknown hmissing hunfailed hvtx
            · rw [← hgrown.checkStake hb]
              apply acceptStakedBody_stores_iff
              · exact (hgrown.mem _).mpr (.inl rfl)
              · rw [hgrown.data]
                exact hmissing
              · rw [hgrown.status_self]
                rfl
              · exact hvtx
  · simp [hprev, hmissing]

theorem forkOk_parts {l off below : List uint256} {split : uint256}
    (hl : l = off ++ split :: below) (hoff : ∀ x ∈ off, s.contains x = false)
    (hsplit : s.contains split = true) :
    l.takeWhile (fun x => !s.contains x) = off ∧ l.find? s.contains = some split := by
  rw [hl]
  constructor
  · rw [takeWhile_append_of_pos (by simpa using hoff)]
    simp [hsplit]
  · rw [find?_append, find?_eq_none.mpr (by simpa using hoff)]
    simp [hsplit]

theorem forkOk_iff (hb : s.Base env) (hprev : prev ∈ s.mapBlockIndex) :
    s.ForkOk env params node inputs 0 (s.branch prev) ↔ (0 < params.nMaxReorganizationDepth →
        (s.offChain prev).length < params.nMaxReorganizationDepth) ∧
      (∀ x ∈ s.offChain prev, s.ReadsUnspent env params node inputs x) ∧
      ∃ bl, s.readBlock env params node (s.findFork env prev) = some bl := by
  unfold offChain findFork
  constructor
  · rintro ⟨off, split, below, hl, hoff, hsplit, hdepth, hreads, hbelow⟩
    obtain ⟨htake, hfind⟩ := forkOk_parts hl hoff hsplit
    rw [htake, hfind]
    rw [Nat.zero_add] at hdepth
    exact ⟨hdepth, hreads, hbelow⟩
  · rintro ⟨hdepth, hreads, hbelow⟩
    have hfound : ((s.branch prev).find? s.contains).isSome = true := by
      rw [find?_isSome]
      exact ⟨_, genesis_mem_branch hb hprev, contains_genesis hb⟩
    obtain ⟨split, hsplit⟩ := Option.isSome_iff_exists.mp hfound
    obtain ⟨hactive, off, below, hl, hoff⟩ := find?_eq_some_iff_append.mp hsplit
    have hoff' : ∀ x ∈ off, s.contains x = false := by
      intro x hx
      simpa using hoff x hx
    obtain ⟨htake, -⟩ := forkOk_parts hl hoff' hactive
    rw [htake] at hdepth hreads
    rw [hsplit] at hbelow
    refine ⟨off, split, below, hl, hoff', hactive, ?_, hreads, hbelow⟩
    rw [Nat.zero_add]
    exact hdepth

def BranchUnspent (env : ChainEnv) (params : CChainParams) (node : StakeNode) (s : ChainIndex)
    (block : CBlock) : Prop :=
  ∀ tx, block.vtx[1]? = some tx → ∀ x ∈ s.offChain block.hashPrevBlock, ∀ bl,
    s.readBlock env params node x = some bl → bl.spendsAny tx.vin = false

instance decidableBranchUnspent (env : ChainEnv) (params : CChainParams) (node : StakeNode)
    (s : ChainIndex) (block : CBlock) : Decidable (s.BranchUnspent env params node block) :=
  decidable_of_iff ((block.vtx[1]?.all fun tx => (s.offChain block.hashPrevBlock).all fun x =>
      (s.readBlock env params node x).all fun bl => !bl.spendsAny tx.vin) = true)
    (by simp [BranchUnspent, Option.all_eq_true])

/-- The conditions under which a block on a fork is stored: none is about what the branch
spends. -/
structure PassesOnFork (env : ChainEnv) (params : CChainParams) (node : StakeNode)
    (s : ChainIndex) (block : CBlock) (other : BlockChecks) : Prop where
  reaches : s.ReachesStakeCheck env block other
  stake : s.stakeOutcome env params node block = .accepted
  header : (s.acceptBlockHeader env block other.header).isSome = true
  body : other.body = .valid
  short : 0 < params.nMaxReorganizationDepth →
    (s.offChain block.hashPrevBlock).length < params.nMaxReorganizationDepth
  readable : ∀ x ∈ s.offChain block.hashPrevBlock, ∃ bl, s.readBlock env params node x = some bl
  split : ∃ bl, s.readBlock env params node (s.findFork env block.hashPrevBlock) = some bl

theorem spendsAny_nil (bl : CBlock) : bl.spendsAny [] = false := by
  simp [CBlock.spendsAny]

theorem checkStake_onFork (hb : s.Base env) (hpos : block.isProofOfStake = true)
    (hfork : s.tip ≠ block.hashPrevBlock) (hprev : block.hashPrevBlock ∈ s.mapBlockIndex) :
    s.checkStake env params node block = .accepted ↔ (0 < params.nMaxReorganizationDepth →
        (s.offChain block.hashPrevBlock).length < params.nMaxReorganizationDepth) ∧
      (∀ x ∈ s.offChain block.hashPrevBlock, ∃ bl, s.readBlock env params node x = some bl) ∧
      ∃ bl, s.readBlock env params node (s.findFork env block.hashPrevBlock) = some bl := by
  obtain ⟨tx, -, htx, -, -⟩ := StakeNode.coinStake_of_isProofOfStake hpos
  unfold checkStake
  simp only [hpos, htx, hfork, ne_eq, not_false_eq_true, if_true, Bool.not_true,
    Bool.false_eq_true, if_false]
  rw [checkFork_accepted_iff, forkOk_iff hb hprev]
  simp only [ReadsUnspent, spendsAny_nil, and_true]

theorem passes_onFork_iff (hb : s.Base env) (hpos : block.isProofOfStake = true)
    (hfork : s.tip ≠ block.hashPrevBlock)
    (hmissing : (s.status (block.getHash env.Hash)).fHaveData = false) :
    s.Passes env params node block other ↔ s.PassesOnFork env params node block other := by
  have hgenesis : block.getHash env.Hash ≠ env.hashGenesisBlock := by
    intro heq
    rw [heq, hb.genesis.data] at hmissing
    cases hmissing
  constructor
  · intro h
    obtain ⟨hshort, hreadable, hsplit⟩ :=
      (checkStake_onFork hb hpos hfork (h.reaches hgenesis).1).mp h.check
    exact ⟨h.reaches, h.stake, h.header, h.body, hshort, hreadable, hsplit⟩
  · intro h
    exact ⟨hgenesis, h.reaches, h.stake, h.header, hmissing, h.body,
      (checkStake_onFork hb hpos hfork (h.reaches hgenesis).1).mpr ⟨h.short, h.readable, h.split⟩⟩

end Alqo.ChainIndex
