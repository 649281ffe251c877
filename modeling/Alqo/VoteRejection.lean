import Alqo.ChokeControl

/-!
# Blocks rejected on vote data (main.cpp)

`CheckBlock` judges by the locks and votes that the node knows at the time, when a block arrives and
again in `ConnectTip`. The events bring these data; they may differ from one check to the next.
-/

namespace Alqo
open Lib.Branches Lib.Runs

/-- `CheckBlock` fails on transaction locks or on the payee. -/
def voteRejects (Hash : Bytes → uint256) (node : Node) (block : CBlock) : Bool :=
  match checkBlock Hash node block true true with
  | .error (.reject verdict) =>
    verdict == ⟨0, "conflicting-tx-ix", false⟩ || verdict == ⟨0, "bad-cb-payee", false⟩
  | _ => false

structure StoredIndex where
  index : ChainIndex
  disk : uint256 → Option CBlock

/-- The parameters of one turn of `ActivateBestChain`: the block that has just been
processed, the data of the node when it connects each block, and what `ConnectBlock` says
of it after `CheckBlock`. -/
structure Turn where
  pblock : Option CBlock := none
  fAlreadyChecked : Bool := false
  nodes : uint256 → Node
  rest : uint256 → ConnectVerdict := fun _ => .valid

inductive VoteEvent where
  | header (block : CBlock) (checks : Bool)
  | block (node : Node) (block : CBlock) (other : BlockChecks) (pos : CDiskBlockPos)
  | activate (turn : Turn)
  | invalidate (hash : uint256)
  | reconsider (hash : uint256)

namespace ChainIndex

variable (env : ChainEnv) (s : ChainIndex)

/-- The block that `ConnectBlock` checks again: the
processed block if it is the most-work block and was not checked before, else the one on
disk. -/
def rechecked (turn : Turn) (disk : uint256 → Option CBlock) (pindexMostWork hash : uint256) :
    Option CBlock :=
  match turn.pblock with
  | none => disk hash
  | some block =>
    if block.getHash env.Hash = pindexMostWork ∧ hash = pindexMostWork then
      if turn.fAlreadyChecked then none else some block
    else disk hash

/-- How `ConnectBlock` ends; `none` when `CheckBlock` does not return. `CheckBlock` takes from
the index the height of the parent only, which is the same throughout the turn. -/
def turnVerdict (turn : Turn) (disk : uint256 → Option CBlock) (pindexMostWork hash : uint256) :
    Option ConnectVerdict :=
  match rechecked env turn disk pindexMostWork hash with
  | none => some (turn.rest hash)
  | some block =>
    match checkBlock env.Hash ((turn.nodes hash).withIndex env s) block true true with
    | .ok _ => some (turn.rest hash)
    | .error (.reject verdict) => some (.invalid verdict.corruptionPossible)
    | .error _ => none

def turnRejects (turn : Turn) (disk : uint256 → Option CBlock) (pindexMostWork hash : uint256) :
    Bool :=
  match rechecked env turn disk pindexMostWork hash with
  | none => false
  | some block => voteRejects env.Hash ((turn.nodes hash).withIndex env s) block

/-- `connectBlocks` where the verdicts may be missing. -/
def connectChecked (pindexOldTip : uint256) (verdict : uint256 → Option ConnectVerdict)
    (s : ChainIndex) : List uint256 → Option ChainIndex
  | [] => some s
  | pindexConnect :: rest =>
    match verdict pindexConnect with
    | none => none
    | some .valid =>
      match (s.connectTip pindexConnect).pruneBlockIndexCandidates env with
      | none => none
      | some s =>
        if s.nChainWork s.tip > s.nChainWork pindexOldTip then some s
        else connectChecked pindexOldTip verdict s rest
    | some v => connectBlocks env pindexOldTip (fun _ => v) s [pindexConnect]

/-- The block at which the loop stops because it is rejected on vote data. -/
def stopsOn (pindexOldTip : uint256) (rejects : uint256 → Bool)
    (verdict : uint256 → Option ConnectVerdict) (s : ChainIndex) : List uint256 → Option uint256
  | [] => none
  | pindexConnect :: rest =>
    if rejects pindexConnect then some pindexConnect
    else if verdict pindexConnect = some .valid then
      match (s.connectTip pindexConnect).pruneBlockIndexCandidates env with
      | none => none
      | some s =>
        if s.nChainWork s.tip > s.nChainWork pindexOldTip then none
        else stopsOn pindexOldTip rejects verdict s rest
    else none

end ChainIndex

namespace StoredIndex

variable (env : ChainEnv) (s : StoredIndex)

def activate (turn : Turn) : Option StoredIndex :=
  match s.index.findMostWorkChain env with
  | none => none
  | some (none, t) => some { s with index := t }
  | some (some m, t) =>
    if m = t.tip then some { s with index := t }
    else
      (ChainIndex.connectChecked env t.tip (t.turnVerdict env turn s.disk m)
        { t with tip := t.findFork env m } (t.offChain m).reverse).map fun u =>
          { s with index := u }

def activateRejects (turn : Turn) : Option uint256 :=
  match s.index.findMostWorkChain env with
  | none => none
  | some (none, _) => none
  | some (some m, t) =>
    if m = t.tip then none
    else
      ChainIndex.stopsOn env t.tip (t.turnRejects env turn s.disk m) (t.turnVerdict env turn s.disk m)
        { t with tip := t.findFork env m } (t.offChain m).reverse

/-- The verdict of `AcceptBlock` on the body. -/
def bodyVerdict (node : Node) (block : CBlock) (other : BodyVerdict)
    (fAlreadyCheckedBlock : Bool) : BodyVerdict :=
  if fAlreadyCheckedBlock then other
  else
    match checkBlock env.Hash (node.withIndex env s.index) block true true with
    | .ok _ => other
    | .error (.reject verdict) => if verdict.corruptionPossible then .refused else .invalid
    | .error _ => .refused

/-- `ProcessNewBlock` up to `ActivateBestChain`; of `other`, `checked`
is the verdict on the signature. -/
def processNewBlock (node : Node) (block : CBlock) (other : BlockChecks) (pos : CDiskBlockPos) :
    StoredIndex :=
  let hash := block.getHash env.Hash
  let checked := (checkBlock env.Hash (node.withIndex env s.index) block true true).isOk
  let t := s.index.processNewBlock env block { other with
      checked := checked && other.checked
      body := s.bodyVerdict env node block other.body checked } pos
  { index := t
    disk := if (s.index.status hash).fHaveData = false ∧ (t.status hash).fHaveData = true then
        Function.update s.disk hash (some block)
      else s.disk }

def handle : VoteEvent → Option StoredIndex
  | .header block checks => (s.index.handle env (.header block checks)).map ({ s with index := · })
  | .block node block other pos => some (s.processNewBlock env node block other pos)
  | .activate turn => s.activate env turn
  | .invalidate hash => (s.index.handle env (.invalidate hash)).map ({ s with index := · })
  | .reconsider hash => (s.index.handle env (.reconsider hash)).map ({ s with index := · })

def step (s : Option StoredIndex) (e : VoteEvent) : Option StoredIndex :=
  s.bind fun s => s.handle env e

/-- After `InitBlockIndex`. -/
def initial (pos : CDiskBlockPos) : StoredIndex where
  index := ChainIndex.initBlockIndex env pos
  disk := fun hash => if hash = env.hashGenesisBlock then some env.genesis else none

def Rejects (hash : uint256) : VoteEvent → Prop
  | .block node block _ _ => hash = block.getHash env.Hash ∧
      voteRejects env.Hash (node.withIndex env s.index) block = true
  | .activate turn => s.activateRejects env turn = some hash
  | _ => False

end StoredIndex

theorem voteRejects_verdict {Hash : Bytes → uint256} {node : Node} {block : CBlock}
    (h : voteRejects Hash node block = true) :
    ∃ verdict, checkBlock Hash node block true true = .error (.reject verdict) ∧
      verdict.corruptionPossible = false := by
  unfold voteRejects at h
  split at h
  · rename_i verdict hcheck
    refine ⟨verdict, hcheck, ?_⟩
    rw [Bool.or_eq_true, beq_iff_eq, beq_iff_eq] at h
    rcases h with hlock | hpayee
    · rw [hlock]
    · rw [hpayee]
  · cases h

namespace ChainIndex

variable {env : ChainEnv} {s t : ChainIndex} {old h : uint256} {rejects : uint256 → Bool}
  {verdict : uint256 → Option ConnectVerdict} {turn : Turn} {disk : uint256 → Option CBlock}
  {l : List uint256}

theorem turnVerdict_of_rejects {m : uint256} (hr : s.turnRejects env turn disk m h = true) :
    s.turnVerdict env turn disk m h = some (.invalid false) := by
  unfold turnRejects at hr
  unfold turnVerdict
  cases hblock : rechecked env turn disk m h with
  | none =>
    rw [hblock] at hr
    cases hr
  | some block =>
    rw [hblock] at hr
    obtain ⟨verdict, hcheck, hcorrupt⟩ := voteRejects_verdict hr
    simp only [hcheck, hcorrupt]

theorem connectBlocks_of_checked (h : connectChecked env old verdict s l = some t) :
    connectBlocks env old (fun x => (verdict x).getD .choked) s l = some t := by
  induction l generalizing s with
  | nil => exact h
  | cons x l ih =>
    unfold connectChecked at h
    unfold connectBlocks
    cases hv : verdict x with
    | none => simp [hv] at h
    | some v =>
      cases v with
      | valid =>
        simp only [hv] at h
        simp only [Option.getD_some]
        cases hp : (s.connectTip x).pruneBlockIndexCandidates env with
        | none => simp [hp] at h
        | some u =>
          simp only [hp] at h ⊢
          split_ifs at h ⊢ with hwork
          · exact h
          · exact ih h
      | invalid corruptionPossible => simpa [hv, connectBlocks] using h
      | choked => simpa [hv, connectBlocks] using h

theorem marked_of_stopsOn (hverdict : ∀ x, rejects x = true → verdict x = some (.invalid false))
    (hl : ∀ x ∈ l, x ∈ s.mapBlockIndex) (hstop : stopsOn env old rejects verdict s l = some h) :
    h ∈ l ∧ ∃ t, connectChecked env old verdict s l = some t ∧
      (t.status h).fFailedValid = true := by
  induction l generalizing s with
  | nil => cases hstop
  | cons x l ih =>
    unfold stopsOn at hstop
    unfold connectChecked
    cases hr : rejects x with
    | true =>
      simp only [hr, if_true, Option.some.injEq] at hstop
      rw [← hstop, hverdict x hr]
      refine ⟨List.mem_cons_self, s.markInvalid x, rfl, ?_⟩
      rw [status_markInvalid (hl x List.mem_cons_self), if_pos rfl]
      rfl
    | false =>
      simp only [hr, Bool.false_eq_true, if_false] at hstop
      by_cases hv : verdict x = some .valid
      · rw [if_pos hv] at hstop
        rw [hv]
        dsimp only
        cases hp : (s.connectTip x).pruneBlockIndexCandidates env with
        | none => simp [hp] at hstop
        | some u =>
          have hknown : ∀ y ∈ l, y ∈ u.mapBlockIndex := fun y hy =>
            ((connected_of_prune hp).sameTree.mem y).mpr (hl y (List.mem_cons_of_mem x hy))
          simp only [hp] at hstop ⊢
          split_ifs at hstop ⊢ with hwork
          obtain ⟨hmem, hmark⟩ := ih hknown hstop
          exact ⟨List.mem_cons_of_mem x hmem, hmark⟩
      · rw [if_neg hv] at hstop
        cases hstop

end ChainIndex

namespace StoredIndex

variable {env : ChainEnv} {s t : StoredIndex} {turn : Turn}

theorem activate_index (h : s.activate env turn = some t) :
    ∃ verdict, s.index.handle env (.activate verdict) = some t.index := by
  unfold activate at h
  unfold ChainIndex.handle ChainIndex.activateBestChain
  cases hfind : s.index.findMostWorkChain env with
  | none => simp [hfind] at h
  | some found =>
    obtain ⟨r, u⟩ := found
    cases r with
    | none =>
      simp only [hfind, Option.some.injEq] at h
      exact ⟨fun _ => .valid, by rw [← h]⟩
    | some m =>
      simp only [hfind] at h
      by_cases hm : m = u.tip
      · rw [if_pos hm, Option.some.injEq] at h
        refine ⟨fun _ => .valid, ?_⟩
        dsimp only
        rw [if_pos hm, ← h]
      · rw [if_neg hm] at h
        obtain ⟨v, hv, heq⟩ := Option.map_eq_some_iff.mp h
        refine ⟨fun x => (u.turnVerdict env turn s.disk m x).getD .choked, ?_⟩
        dsimp only
        rw [if_neg hm, ← heq]
        exact ChainIndex.connectBlocks_of_checked hv

theorem index_of_map {x : Option ChainIndex} (h : x.map ({ s with index := · }) = some t) :
    x = some t.index := by
  obtain ⟨u, hu, heq⟩ := Option.map_eq_some_iff.mp h
  rw [hu, ← heq]

theorem handle_index {e : VoteEvent} (h : s.handle env e = some t) :
    ∃ e', s.index.handle env e' = some t.index := by
  cases e with
  | header block checks => exact ⟨.header block checks, index_of_map h⟩
  | block node block other pos =>
    cases h
    exact ⟨.block block _ pos, rfl⟩
  | activate turn =>
    obtain ⟨verdict, hv⟩ := activate_index h
    exact ⟨_, hv⟩
  | invalidate hash => exact ⟨.invalidate hash, index_of_map h⟩
  | reconsider hash => exact ⟨.reconsider hash, index_of_map h⟩

theorem activate_marks (hb : s.index.Base env) {h : uint256}
    (hr : s.activateRejects env turn = some h) :
    (s.index.status h).fFailedValid = false ∧
      ∃ t, s.activate env turn = some t ∧ (t.index.status h).fFailedValid = true := by
  unfold activateRejects at hr
  unfold activate
  cases hfind : s.index.findMostWorkChain env with
  | none => simp [hfind] at hr
  | some found =>
    obtain ⟨r, u⟩ := found
    cases r with
    | none => simp [hfind] at hr
    | some m =>
      simp only [hfind] at hr ⊢
      by_cases hm : m = u.tip
      · rw [if_pos hm] at hr
        cases hr
      · rw [if_neg hm] at hr ⊢
        obtain ⟨hbu, hworn⟩ := ChainIndex.Worn.findMostWorkChain hb hfind
        have hclean := (ChainIndex.findMostWorkChain_rule (fun _ => True)
          (fun _ _ _ _ _ _ _ => trivial) trivial hfind).2.2 m rfl
        have hready : u.Ready m := hbu.candidate m (ChainIndex.find_candidate hfind)
        have hknown : ∀ x ∈ (u.offChain m).reverse,
            x ∈ ({ u with tip := u.findFork env m } : ChainIndex).mapBlockIndex := by
          intro x hx
          have hbranch := ChainIndex.offChain_subset (List.mem_reverse.mp hx)
          exact (hready.of_mem hbu hbranch).mem
        obtain ⟨hmem, v, hv, hmark⟩ := ChainIndex.marked_of_stopsOn
          (fun x hx => ChainIndex.turnVerdict_of_rejects hx) hknown hr
        refine ⟨?_, { s with index := v }, by rw [hv]; rfl, hmark⟩
        -- blocks above the fork are not failed, and the search removes no mark
        have husable := (hclean h (List.mem_reverse.mp hmem)).1
        cases hs : (s.index.status h).fFailedValid with
        | false => rfl
        | true =>
          have hafter := hworn.marked h hs
          simp [ChainIndex.unusable, BlockStatus.failed, hafter] at husable

theorem processNewBlock_of_rejects {node : Node} {block : CBlock} {other : BlockChecks}
    {pos : CDiskBlockPos} (h : voteRejects env.Hash (node.withIndex env s.index) block = true) :
    (s.processNewBlock env node block other pos).index = s.index := by
  obtain ⟨verdict, hcheck, -⟩ := voteRejects_verdict h
  unfold processNewBlock
  dsimp only
  rw [hcheck]
  unfold ChainIndex.processNewBlock
  split_ifs with hsize hchecked
  · rfl
  · rfl
  · simp [Except.isOk, Except.toBool] at hchecked

def KeepsRejected (env : ChainEnv) (s : Option StoredIndex) (e : VoteEvent) : Prop :=
  ∀ u, s = some u → ∀ t, u.handle env e = some t → ∀ hash, u.Rejects env hash e →
    t.index.status hash = u.index.status hash

/-- No block that `ConnectTip` checks again is rejected on vote data. -/
def RechecksPass (env : ChainEnv) (s : Option StoredIndex) (e : VoteEvent) : Prop :=
  ∀ u, s = some u → ∀ turn, e = .activate turn → u.activateRejects env turn = none

def Sound (env : ChainEnv) (s : Option StoredIndex) : Prop :=
  ∀ t, s = some t → t.index.Base env

theorem step_sound {s : Option StoredIndex} (hs : Sound env s) (e : VoteEvent) :
    Sound env (step env s e) := by
  intro t ht
  cases s with
  | none => cases ht
  | some u =>
    obtain ⟨e', he'⟩ := handle_index (show u.handle env e = some t from ht)
    exact ChainIndex.handle_base (hs u rfl) he'

theorem keepsRejected_iff {s : Option StoredIndex} (hs : Sound env s) (e : VoteEvent) :
    KeepsRejected env s e ↔ RechecksPass env s e := by
  constructor
  · intro hkeep u hu turn he
    subst he
    cases hr : u.activateRejects env turn with
    | none => rfl
    | some h =>
      obtain ⟨hclean, t, ht, hmark⟩ := activate_marks (hs u hu) hr
      have hstatus := hkeep u hu t ht h hr
      rw [hstatus, hclean] at hmark
      cases hmark
  · intro hpass u hu t ht hash hr
    cases e with
    | header block checks => cases hr
    | block node block other pos =>
      cases ht
      rw [processNewBlock_of_rejects hr.2]
    | activate turn =>
      have hnone := hpass u hu turn rfl
      rw [show u.activateRejects env turn = some hash from hr] at hnone
      cases hnone
    | invalidate hash => cases hr
    | reconsider hash => cases hr

/-- In every run from the genesis block, blocks rejected on vote data keep their flags exactly
if no block is rejected on vote data when `ConnectTip` checks it again. -/
theorem rejections_kept_iff (env : ChainEnv) (pos : CDiskBlockPos) (events : List VoteEvent) :
    Along (step env) (KeepsRejected env) (some (initial env pos)) events ↔
      Along (step env) (RechecksPass env) (some (initial env pos)) events := by
  have hinit : Sound env (some (initial env pos)) := by
    intro t ht
    cases ht
    exact ChainIndex.init_base env pos _ rfl
  have hstep : ∀ s e, Sound env s → Sound env (step env s e) := fun _ e hs => step_sound hs e
  exact along_congr hstep (fun _ e hs => keepsRejected_iff hs e) hinit

open ChainIndex

def plainNode : Node where
  sporkActive := fun _ => false
  synced := true
  budget := {}
  masternodePaymentValid := fun _ _ => true
  mapBlockIndex := ∅
  chainActive := []
  params := mainParams
  adjustedTime := 0
  initialBlockDownload := false
  verifyScript := fun _ _ _ _ => true

def lockedNode : Node :=
  { plainNode with
    sporkActive := fun spork => decide (spork = .swiftTxBlockFiltering)
    mapLockedInputs := fun prevout => if prevout = ⟨7, 0⟩ then some 99 else none }

def spendingBlock (hashPrevBlock : uint256) (nNonce : Nat) (prevout : COutPoint) : CBlock :=
  { nonceBlock hashPrevBlock nNonce 0x1e0fffff 0 with
    vtx := [{ hash := 10, vin := [{ prevout := COutPoint.null, scriptSig := [0x51] }],
              vout := [⟨0, [0x51], -10⟩] },
      { hash := 20, vin := [{ prevout := prevout }], vout := [⟨0, [0x51], -10⟩] }] }

def lockRun : List VoteEvent :=
  [.block plainNode (spendingBlock 0 1 ⟨5, 0⟩) {} ⟨0, 300⟩,
    .activate { pblock := some (spendingBlock 0 1 ⟨5, 0⟩), fAlreadyChecked := true,
                nodes := fun _ => plainNode },
    .block plainNode (spendingBlock 0 2 ⟨7, 0⟩) {} ⟨0, 600⟩,
    .block lockedNode (spendingBlock 2 3 ⟨8, 0⟩) {} ⟨0, 900⟩,
    .activate { pblock := some (spendingBlock 2 3 ⟨8, 0⟩), fAlreadyChecked := true,
                nodes := fun _ => lockedNode },
    .activate { nodes := fun _ => plainNode }]

/-- The lock is on an input of block 2, which no node without it objects to. Still block 2 is
failed for good, and the chain with more work is not connected. -/
theorem lockRun_fails : voteRejects nonceHash lockedNode (spendingBlock 0 2 ⟨7, 0⟩) = true ∧
    (checkBlock nonceHash plainNode (spendingBlock 0 2 ⟨7, 0⟩) true true).isOk = true ∧
    ((run (step nonceEnv) (some (initial nonceEnv ⟨0, 8⟩)) lockRun).map fun s =>
      (s.index.tip, (s.index.status 2).fFailedValid,
        decide (s.index.nChainWork 1 < s.index.nChainWork 3))) = some (1, true, true) := by
  decide +kernel

end StoredIndex

end Alqo
