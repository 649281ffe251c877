import Alqo.ChokeControl
import Alqo.ConnectBlock

/-!
# Checking a block without connecting it (main.cpp)

`ConnectBlock` with what it writes outside of its view: the index entry, the undo data and, under
choke control, the block index.
-/

namespace Alqo

/-- Where `pindex` points: to an object of the caller, which has no hash yet, or to an
entry of `mapBlockIndex`. -/
inductive IndexPointer where
  | dummy (index : CBlockIndex)
  | entry (hash : uint256)

namespace IndexPointer

def load (s : ChainIndex) : IndexPointer → CBlockIndex
  | .dummy index => index
  | .entry hash => (s.mapBlockIndex.lookup hash).getD {}

def store (s : ChainIndex) (index : CBlockIndex) : IndexPointer → ChainIndex
  | .dummy _ => s
  | .entry hash => { s with mapBlockIndex := s.mapBlockIndex.insert hash index }

def hash : IndexPointer → uint256
  | .dummy _ => 0
  | .entry hash => hash

def Valid (s : ChainIndex) : IndexPointer → Prop
  | .dummy _ => True
  | .entry hash => hash ∈ s.mapBlockIndex

end IndexPointer

abbrev UndoStore := uint256 → Option (List CTxUndo)

structure CallEffect where
  index : ChainIndex
  /-- A key that `mapBlockIndex[...]` has added, with a null pointer. -/
  nullEntry : Option uint256 := none
  undo : UndoStore

section
variable (Hash : Bytes → uint256) (node : Node) (block : CBlock) (hash : uint256)
  (pindex : CBlockIndex) (view : CoinsView) (fJustCheck fAlreadyChecked : Bool)

/-- `ConnectBlock` gets past the genesis block. -/
def entersConnect : Bool :=
  (checkBlockAgain Hash node block fJustCheck fAlreadyChecked).isOk &&
    decide (pindex.pprev.getD 0 = view.hashBlock) &&
    decide (block.getHash Hash ≠ node.params.hashGenesisBlock)

/-- It enters the branch of choke control. -/
def chokes : Bool :=
  entersConnect Hash node block pindex view fJustCheck fAlreadyChecked &&
    node.sporkActive .chokeControlMode

/-- The state after the loop over the transactions, if it gets there. -/
def connectLoop : Option ConnectState :=
  if entersConnect Hash node block pindex view fJustCheck fAlreadyChecked &&
      !node.sporkActive .chokeControlMode && (checkBeforeConnect node block hash pindex view).isOk
  then
    (connectVtx node (decide (pindex.nHeight ≥ node.totalBlocksEstimate)) pindex.nHeight block.vtx
      { view := view }).toOption
  else none

/-- The entry with its two amounts. -/
def mintedIndex (s : ConnectState) : CBlockIndex :=
  pindex.minted (((pindex.pprev.bind fun p => node.mapBlockIndex.lookup p).map fun pprev =>
    pprev.nMoneySupply).getD 0) s

end

/-- The globals after `ConnectBlock`; `rejected` is what `CheckBlock`
says of the stored blocks, `none` stands for a call that does not end in `fuel` turns of
`ActivateBestChain` or by a failed assertion there. -/
def connectBlockEffect (env : ChainEnv) (node : Node) (rejected : uint256 → Option Bool)
    (fuel : Nat) (s : ChainIndex) (undo : UndoStore) (block : CBlock) (pindex : IndexPointer)
    (view : CoinsView) (fJustCheck fAlreadyChecked : Bool) : Option CallEffect :=
  let hash := block.getHash env.Hash
  if chokes env.Hash (node.withIndex env s) block (pindex.load s) view fJustCheck
      fAlreadyChecked then
    -- `mapBlockIndex[invalidHash]` and then `pindex->nStatus`
    if hash ∉ s.mapBlockIndex then some { index := s, nullEntry := some hash, undo := undo }
    else
      (ChainIndex.activateChoked env rejected fuel (s.invalidateBlock env hash)).map fun t =>
        { index := t, undo := undo }
  else
    match connectLoop env.Hash (node.withIndex env s) block pindex.hash (pindex.load s) view
        fJustCheck fAlreadyChecked with
    | none => some { index := s, undo := undo }
    | some c =>
      match fJustCheck, connectBlock env.Hash (node.withIndex env s) block pindex.hash
          (pindex.load s) view fJustCheck fAlreadyChecked with
      | false, .ok connected =>
        some
          { index := pindex.store s connected.pindex
            undo := if (pindex.load s).nStatus.fHaveUndo then undo
              else Function.update undo pindex.hash (some connected.vtxundo) }
      | _, _ =>
        some
          { index := pindex.store s (mintedIndex (node.withIndex env s) (pindex.load s) c)
            undo := undo }

/-- The checks of `TestBlockValidity` before `ConnectBlock`; the
verdicts of the two contextual checks are given. -/
def testsPass (env : ChainEnv) (node : Node) (s : ChainIndex) (block : CBlock)
    (pindexPrev : uint256) (contextualHeader contextualBlock fCheckPOW fCheckMerkleRoot : Bool) :
    Bool :=
  decide (pindexPrev = s.tip) && contextualHeader &&
    (checkBlock env.Hash (node.withIndex env s) block fCheckPOW fCheckMerkleRoot).isOk &&
    contextualBlock

def indexDummy (s : ChainIndex) (block : CBlock) (pindexPrev : uint256) : CBlockIndex :=
  { CBlockIndex.ofBlock block with
    pprev := some pindexPrev
    nHeight := s.nHeight pindexPrev + 1 }

/-- The globals after `TestBlockValidity`. -/
def testBlockValidityEffect (env : ChainEnv) (node : Node) (rejected : uint256 → Option Bool)
    (fuel : Nat) (s : ChainIndex) (undo : UndoStore) (block : CBlock) (pindexPrev : uint256)
    (pcoinsTip : CoinsView) (contextualHeader contextualBlock fCheckPOW fCheckMerkleRoot : Bool) :
    Option CallEffect :=
  if testsPass env node s block pindexPrev contextualHeader contextualBlock fCheckPOW
      fCheckMerkleRoot then
    connectBlockEffect env node rejected fuel s undo block
      (.dummy (indexDummy s block pindexPrev)) pcoinsTip true false
  else some { index := s, undo := undo }

section
variable {Hash : Bytes → uint256} {node : Node} {block : CBlock} {hash : uint256}
  {pindex : CBlockIndex} {view : CoinsView} {fJustCheck fAlreadyChecked : Bool}

theorem checkBlockAgain_of_enters
    (h : entersConnect Hash node block pindex view fJustCheck fAlreadyChecked = true) :
    checkBlockAgain Hash node block fJustCheck fAlreadyChecked = .ok () ∧
      pindex.pprev.getD 0 = view.hashBlock ∧
      block.getHash Hash ≠ node.params.hashGenesisBlock := by
  simp only [entersConnect, Bool.and_eq_true, decide_eq_true_eq] at h
  obtain ⟨⟨hok, hprev⟩, hgenesis⟩ := h
  refine ⟨?_, hprev, hgenesis⟩
  cases hcheck : checkBlockAgain Hash node block fJustCheck fAlreadyChecked with
  | ok u => rfl
  | error e =>
    rw [hcheck] at hok
    cases hok

end

structure CallEffect.Unchanged (s : ChainIndex) (undo : UndoStore) (e : CallEffect) : Prop where
  entries : ∀ h, e.index.mapBlockIndex.lookup h = s.mapBlockIndex.lookup h
  nChainTx : e.index.nChainTx = s.nChainTx
  nSequenceId : e.index.nSequenceId = s.nSequenceId
  nullEntry : e.nullEntry = none
  tip : e.index.tip = s.tip
  candidates : ∀ c, c ∈ e.index.setBlockIndexCandidates ↔ c ∈ s.setBlockIndexCandidates
  undo : e.undo = undo

theorem CallEffect.unchanged_self (s : ChainIndex) (undo : UndoStore) :
    CallEffect.Unchanged s undo { index := s, undo := undo } :=
  ⟨fun _ => rfl, rfl, rfl, rfl, rfl, fun _ => Iff.rfl, rfl⟩

namespace ChainIndex
open Lib.Branches Lib.Runs List

structure Quiet (env : ChainEnv) (s : ChainIndex) (h : uint256) : Prop where
  known : h ∈ s.mapBlockIndex
  marked : (s.status h).fFailedValid = true
  inactive : s.contains h = false
  dropped : h ∉ s.setBlockIndexCandidates
  offered : ∀ x, s.Usable env x → x ∈ s.setBlockIndexCandidates
  settled : ∀ c, s.bestCandidate env = some c → c = s.tip

variable {env : ChainEnv} {rejected : uint256 → Option Bool} {s t : ChainIndex} {h : uint256}
  {undo : UndoStore} {pindex : IndexPointer}

theorem status_of_lookup (hl : ∀ x, t.mapBlockIndex.lookup x = s.mapBlockIndex.lookup x)
    (x : uint256) : t.status x = s.status x := by
  unfold status
  rw [hl]

theorem lookup_markInvalid (hmark : (s.status h).fFailedValid = true) (x : uint256) :
    (s.markInvalid h).mapBlockIndex.lookup x = s.mapBlockIndex.lookup x := by
  show (s.updateStatus h BlockStatus.markFailedValid).mapBlockIndex.lookup x = _
  rw [lookup_updateStatus]
  split_ifs with hx
  · rw [hx]
    cases hl : s.mapBlockIndex.lookup h with
    | none => rfl
    | some index =>
      have hindex : index.nStatus.fFailedValid = true := by simpa [status, hl] using hmark
      have hstatus : index.nStatus.markFailedValid = index.nStatus := by
        unfold BlockStatus.markFailedValid
        rw [← hindex]
      simp [hstatus]
  · rfl

theorem usable_congr (hstatus : ∀ x, t.status x = s.status x) (hsame : SameTree s t)
    (htip : t.tip = s.tip) (x : uint256) : t.Usable env x ↔ s.Usable env x := by
  unfold Usable
  rw [hstatus, hsame.nChainTx, hsame.worse, htip]

theorem rank_injective (env : ChainEnv) (s : ChainIndex) : Function.Injective (s.rank env) := by
  intro a b hab
  have haddress : env.address a = env.address b := by
    have hfst := congrArg (fun r => (ofLex (ofLex r).2).2) hab
    exact OrderDual.toDual.injective hfst
  exact env.address.injective haddress

theorem bestCandidate_congr (hsame : SameTree s t)
    (hcand : ∀ c, c ∈ t.setBlockIndexCandidates ↔ c ∈ s.setBlockIndexCandidates) :
    t.bestCandidate env = s.bestCandidate env := by
  have hrank : t.rank env = s.rank env := by
    funext x
    unfold rank
    rw [hsame.nChainWork, hsame.nSequenceId]
  unfold bestCandidate
  rw [hrank]
  cases hs : s.setBlockIndexCandidates.argmax (s.rank env) with
  | none =>
    rw [argmax_eq_none] at hs ⊢
    apply eq_nil_iff_forall_not_mem.mpr
    intro c hc
    rw [hcand, hs] at hc
    cases hc
  | some m =>
    have hm : m ∈ t.setBlockIndexCandidates := (hcand m).mpr (argmax_mem hs)
    cases ht : t.setBlockIndexCandidates.argmax (s.rank env) with
    | none =>
      rw [argmax_eq_none.mp ht] at hm
      cases hm
    | some m' =>
      have hle : s.rank env m' ≤ s.rank env m :=
        le_of_mem_argmax ((hcand m').mp (argmax_mem ht)) hs
      have hge : s.rank env m ≤ s.rank env m' := le_of_mem_argmax hm ht
      rw [rank_injective env s (le_antisymm hle hge)]

theorem invalidateBlock_of_inactive (hc : s.contains h = false) :
    s.invalidateBlock env h = (s.markInvalid h).offerAll env := by
  rw [invalidateBlock, hc, cutOff_of_inactive hc]
  rfl

theorem mem_invalidateBlock (env : ChainEnv) (hmark : (s.status h).fFailedValid = true)
    (hc : s.contains h = false) {c : uint256} :
    c ∈ (s.invalidateBlock env h).setBlockIndexCandidates ↔
      (c ∈ s.setBlockIndexCandidates ∧ c ≠ h) ∨ s.Usable env c := by
  rw [invalidateBlock_of_inactive hc, mem_offerAll, mem_markInvalid,
    usable_congr (status_of_lookup (lookup_markInvalid hmark)) (sameTree_markInvalid s h)
      (markInvalid_tip s h)]

theorem lookup_offerAll (env : ChainEnv) (s : ChainIndex) :
    (s.offerAll env).mapBlockIndex = s.mapBlockIndex := by
  unfold offerAll
  generalize s.mapBlockIndex.keys = l
  induction l generalizing s with
  | nil => rfl
  | cons x l ih =>
    rw [foldl_cons, ih, offerCandidate_eq]
    split_ifs
    · rfl
    · rfl

theorem lookup_invalidateBlock (env : ChainEnv) (hmark : (s.status h).fFailedValid = true)
    (hc : s.contains h = false) (x : uint256) :
    (s.invalidateBlock env h).mapBlockIndex.lookup x = s.mapBlockIndex.lookup x := by
  rw [invalidateBlock_of_inactive hc, lookup_offerAll]
  exact lookup_markInvalid hmark x

theorem tip_invalidateBlock (hc : s.contains h = false) :
    (s.invalidateBlock env h).tip = s.tip := by
  rw [invalidateBlock_of_inactive hc, (offerAll_keeps env _).1, markInvalid_tip]

theorem candidates_invalidateBlock (hmark : (s.status h).fFailedValid = true)
    (hc : s.contains h = false) (hdropped : h ∉ s.setBlockIndexCandidates)
    (hoffered : ∀ x, s.Usable env x → x ∈ s.setBlockIndexCandidates) (c : uint256) :
    c ∈ (s.invalidateBlock env h).setBlockIndexCandidates ↔ c ∈ s.setBlockIndexCandidates := by
  rw [mem_invalidateBlock env hmark hc]
  constructor
  · intro hnew
    rcases hnew with hold | hu
    · exact hold.1
    · exact hoffered c hu
  · intro hold
    have hne : c ≠ h := by
      intro heq
      rw [heq] at hold
      exact hdropped hold
    exact .inl ⟨hold, hne⟩

theorem find_of_tip (hbest : s.bestCandidate env = some s.tip) :
    s.findMostWorkChain env = some (some s.tip, s) := by
  have hoff : s.offChain s.tip = [] :=
    offChain_eq_nil_iff.mpr (contains_iff.mpr (s.self_mem s.tip))
  rw [findMostWorkChain]
  split
  · rename_i hnone
    rw [hnone] at hbest
    cases hbest
  · rename_i m hm
    rw [hm] at hbest
    cases hbest
    split
    · simp [hoff]
    · rename_i x rest hx
      simp [hoff] at hx

theorem find_of_empty (hbest : s.bestCandidate env = none) :
    s.findMostWorkChain env = some (none, s) := by
  rw [findMostWorkChain]
  split
  · rfl
  · rename_i m hm
    rw [hm] at hbest
    cases hbest

theorem activateChoked_settled (hs : ∀ c, s.bestCandidate env = some c → c = s.tip) :
    activateChoked env rejected 1 s = some s := by
  unfold activateChoked
  cases hbest : s.bestCandidate env with
  | none => rw [find_of_empty hbest]
  | some c =>
    rw [hs c hbest] at hbest
    simp [find_of_tip hbest]

theorem activateChoked_quiet (hq : s.Quiet env h) :
    activateChoked env rejected 1 (s.invalidateBlock env h) = some (s.invalidateBlock env h) := by
  have hsame : SameTree s (s.invalidateBlock env h) := by
    rw [invalidateBlock_of_inactive hq.inactive]
    exact (sameTree_markInvalid s h).trans (sameTree_offerAll env _)
  have hcand : ∀ c, c ∈ (s.invalidateBlock env h).setBlockIndexCandidates ↔
      c ∈ s.setBlockIndexCandidates :=
    candidates_invalidateBlock hq.marked hq.inactive hq.dropped hq.offered
  apply activateChoked_settled
  intro c hbest
  rw [bestCandidate_congr hsame hcand] at hbest
  rw [tip_invalidateBlock hq.inactive]
  exact hq.settled c hbest

theorem quiet_of_unchanged (hb : s.Base env) (hgenesis : h ≠ env.hashGenesisBlock)
    (hknown : h ∈ s.mapBlockIndex) {fuel : Nat}
    (hact : activateChoked env rejected fuel (s.invalidateBlock env h) = some t)
    (hlookup : ∀ x, t.mapBlockIndex.lookup x = s.mapBlockIndex.lookup x)
    (hcand : ∀ c, c ∈ t.setBlockIndexCandidates ↔ c ∈ s.setBlockIndexCandidates)
    (htip : t.tip = s.tip) : s.Quiet env h := by
  obtain ⟨hbi, hsame⟩ := invalidateBlock_base hb h
  have hworn := activateChoked_worn hbi hact
  have hstatus := status_of_lookup hlookup
  have hmark : (s.status h).fFailedValid = true := by
    rw [← hstatus]
    exact hworn.marked h (marked_invalidateBlock hb hknown)
  have hinactive : s.contains h = false := by
    by_contra hactive
    rw [Bool.not_eq_false] at hactive
    -- the tip has gone below the block and does not come back
    have hlow := hworn.tip
    cases hp : s.pprev h with
    | none => exact hgenesis (hb.root h hknown hp)
    | some p =>
      have hcut : (s.invalidateBlock env h).tip = p := by
        rw [invalidateBlock, hp, Option.isNone_some, Bool.and_false, if_neg (by simp),
          (offerAll_keeps env _).1, cutOff_of_active hactive, hp]
        rfl
      rw [hcut, hsame.branch, htip] at hlow
      have hup := height_le_of_mem hb.graded (contains_iff.mp hactive)
      have hdown := height_le_of_mem hb.graded hlow
      have hstep := hb.graded h p hp
      omega
  have hlookup' := lookup_invalidateBlock env hmark hinactive
  have hdropped : h ∉ s.setBlockIndexCandidates := by
    intro hc
    rw [← hcand] at hc
    have hfailed : (s.status h).failed = true := by simp [BlockStatus.failed, hmark]
    rcases hworn.gained h hc with hold | hclean
    · rcases (mem_invalidateBlock env hmark hinactive).mp hold with ⟨-, hne⟩ | hu
      · exact hne rfl
      · simp [Usable, BlockStatus.isValid, hfailed] at hu
    · rw [status_of_lookup hlookup', hfailed] at hclean
      cases hclean
  have hoffered : ∀ x, s.Usable env x → x ∈ s.setBlockIndexCandidates := by
    intro x hu
    have hoffer := (mem_invalidateBlock env hmark hinactive).mpr (.inr hu)
    rcases hworn.lost x hoffer with hkept | hfailed
    · exact (hcand x).mp hkept
    · rw [hstatus] at hfailed
      simp [Usable, BlockStatus.isValid, hfailed] at hu
  have hcand' : ∀ c, c ∈ (s.invalidateBlock env h).setBlockIndexCandidates ↔
      c ∈ s.setBlockIndexCandidates :=
    candidates_invalidateBlock hmark hinactive hdropped hoffered
  refine ⟨hknown, hmark, hinactive, hdropped, hoffered, fun c hbest => ?_⟩
  have hsettled := settled_of_unchanged (c := c) hbi hact
    (fun x => by rw [hstatus, status_of_lookup hlookup'])
    (fun x => by rw [hcand, hcand'])
    (by rw [htip, tip_invalidateBlock hinactive])
    (by rw [bestCandidate_congr hsame hcand', hbest])
  rw [hsettled, tip_invalidateBlock hinactive]

theorem chokeEffect_unchanged_iff (hb : s.Base env) (hgenesis : h ≠ env.hashGenesisBlock) :
    (∃ fuel e, (if h ∉ s.mapBlockIndex then
        some { index := s, nullEntry := some h, undo := undo : CallEffect }
      else (activateChoked env rejected fuel (s.invalidateBlock env h)).map fun t =>
        { index := t, undo := undo }) = some e ∧ e.Unchanged s undo) ↔ s.Quiet env h := by
  constructor
  · rintro ⟨fuel, e, he, hunchanged⟩
    by_cases hknown : h ∈ s.mapBlockIndex
    · rw [if_neg (not_not.mpr hknown)] at he
      obtain ⟨t, ht, heq⟩ := Option.map_eq_some_iff.mp he
      subst heq
      exact quiet_of_unchanged hb hgenesis hknown ht hunchanged.entries hunchanged.candidates
        hunchanged.tip
    · rw [if_pos hknown] at he
      cases he
      cases hunchanged.nullEntry
  · intro hq
    refine ⟨1, { index := s.invalidateBlock env h, undo := undo }, ?_, ?_⟩
    · rw [if_neg (not_not.mpr hq.known), activateChoked_quiet hq]
      rfl
    · have hsame := (invalidateBlock_base hb h).2
      exact ⟨lookup_invalidateBlock env hq.marked hq.inactive, hsame.nChainTx, hsame.nSequenceId,
        rfl, tip_invalidateBlock hq.inactive,
        candidates_invalidateBlock hq.marked hq.inactive hq.dropped hq.offered, rfl⟩

theorem store_unchanged_iff (hp : pindex.Valid s) {index : CBlockIndex} :
    CallEffect.Unchanged s undo { index := pindex.store s index, undo := undo } ↔
      ∀ hash, pindex = .entry hash → index = pindex.load s := by
  cases pindex with
  | dummy own =>
    simp only [reduceCtorEq, false_implies, implies_true, iff_true]
    exact CallEffect.unchanged_self s undo
  | entry hash =>
    obtain ⟨old, hold⟩ := mem_iff_lookup.mp hp
    have hload : (IndexPointer.entry hash).load s = old := by simp [IndexPointer.load, hold]
    rw [hload]
    constructor
    · intro hunchanged _ _
      have hentry := hunchanged.entries hash
      simpa [IndexPointer.store, hold] using hentry
    · intro hwritten
      rw [hwritten hash rfl]
      refine ⟨fun x => ?_, rfl, rfl, rfl, rfl, fun _ => Iff.rfl, rfl⟩
      by_cases hx : x = hash
      · rw [hx, hold]
        simp [IndexPointer.store]
      · simp [IndexPointer.store, AList.lookup_insert_ne hx]

/-- The condition under which `ConnectBlock` with `fJustCheck` leaves the globals alone. Under
choke control the block has to be known and invalidated already, with nothing to activate;
otherwise an entry of the index has to hold the amounts that the call computes for it. -/
def JustChecks (env : ChainEnv) (node : Node) (s : ChainIndex) (block : CBlock)
    (pindex : IndexPointer) (view : CoinsView) (fAlreadyChecked : Bool) : Prop :=
  if chokes env.Hash (node.withIndex env s) block (pindex.load s) view true fAlreadyChecked then
    s.Quiet env (block.getHash env.Hash)
  else
    ∀ hash c, pindex = .entry hash →
      connectLoop env.Hash (node.withIndex env s) block pindex.hash (pindex.load s) view true
        fAlreadyChecked = some c →
      mintedIndex (node.withIndex env s) (pindex.load s) c = pindex.load s

theorem connectBlockEffect_unchanged_iff (hb : s.Base env) (node : Node) (block : CBlock)
    (hp : pindex.Valid s) (view : CoinsView) (fAlreadyChecked : Bool) :
    (∃ fuel e, connectBlockEffect env node rejected fuel s undo block pindex view true
      fAlreadyChecked = some e ∧ e.Unchanged s undo) ↔
      s.JustChecks env node block pindex view fAlreadyChecked := by
  unfold connectBlockEffect JustChecks
  cases hchoke : chokes env.Hash (node.withIndex env s) block (pindex.load s) view true
      fAlreadyChecked with
  | true =>
    have hgenesis : block.getHash env.Hash ≠ env.hashGenesisBlock := by
      rw [chokes, Bool.and_eq_true] at hchoke
      exact (checkBlockAgain_of_enters hchoke.1).2.2
    simp only [if_true]
    exact chokeEffect_unchanged_iff hb hgenesis
  | false =>
    simp only [Bool.false_eq_true, if_false]
    cases hloop : connectLoop env.Hash (node.withIndex env s) block pindex.hash (pindex.load s)
        view true fAlreadyChecked with
    | none =>
      simp only [reduceCtorEq, false_implies, implies_true, iff_true]
      exact ⟨0, _, rfl, CallEffect.unchanged_self s undo⟩
    | some c =>
      simp only [Option.some.injEq, exists_eq_left', exists_const]
      rw [store_unchanged_iff hp]
      constructor
      · intro hwritten hash c' hentry hc
        rw [← hc]
        exact hwritten hash hentry
      · intro hwritten hash hentry
        exact hwritten hash c hentry rfl

/-- In every state the node reaches, a call of `ConnectBlock` with `fJustCheck` ends with
entries, chain, candidates, flags and undo data as they were exactly if `JustChecks` holds,
and so does `TestBlockValidity` once its own checks pass. -/
theorem justCheck_unchanged_iff (env : ChainEnv) (pos : CDiskBlockPos) (events : List IndexEvent)
    (s : ChainIndex) (hrun : run (step env) (some (initBlockIndex env pos)) events = some s)
    (node : Node) (rejected : uint256 → Option Bool) (undo : UndoStore) (block : CBlock)
    (view : CoinsView) :
    (∀ (pindex : IndexPointer) (fAlreadyChecked : Bool), pindex.Valid s →
      ((∃ fuel e, connectBlockEffect env node rejected fuel s undo block pindex view true
          fAlreadyChecked = some e ∧ e.Unchanged s undo) ↔
        s.JustChecks env node block pindex view fAlreadyChecked)) ∧
    ∀ (pindexPrev : uint256) (contextualHeader contextualBlock fCheckPOW fCheckMerkleRoot : Bool),
      (∃ fuel e, testBlockValidityEffect env node rejected fuel s undo block pindexPrev view
          contextualHeader contextualBlock fCheckPOW fCheckMerkleRoot = some e ∧
          e.Unchanged s undo) ↔
        (testsPass env node s block pindexPrev contextualHeader contextualBlock fCheckPOW
            fCheckMerkleRoot = true →
          chokes env.Hash (node.withIndex env s) block (indexDummy s block pindexPrev) view true
            false = true →
          s.Quiet env (block.getHash env.Hash)) := by
  have hb := base_of_run hrun
  refine ⟨fun pindex fAlreadyChecked hp =>
    connectBlockEffect_unchanged_iff hb node block hp view fAlreadyChecked, ?_⟩
  intro pindexPrev contextualHeader contextualBlock fCheckPOW fCheckMerkleRoot
  unfold testBlockValidityEffect
  cases htests : testsPass env node s block pindexPrev contextualHeader contextualBlock fCheckPOW
      fCheckMerkleRoot with
  | false =>
    simp only [Bool.false_eq_true, if_false, false_implies, iff_true]
    exact ⟨0, _, rfl, CallEffect.unchanged_self s undo⟩
  | true =>
    have hp : (IndexPointer.dummy (indexDummy s block pindexPrev)).Valid s := trivial
    simp only [if_true, true_implies]
    rw [connectBlockEffect_unchanged_iff hb node block hp view false]
    unfold JustChecks
    simp only [IndexPointer.load, reduceCtorEq, false_implies, implies_true, if_true_right]

def chokedNode : Node :=
  { Node.afterFirst with
    sporkActive := fun spork => decide (spork = .chokeControlMode)
    initialBlockDownload := true }

def proposedBlock : CBlock :=
  { nonceBlock 0 1 0x1e0fffff 0 with
    vtx := [{ hash := 11, vin := [{ prevout := COutPoint.null, scriptSig := [0x51] }],
              vout := [⟨0, [0x51], -10⟩] }] }

def genesisView : CoinsView where
  coins := fun _ => none
  hashBlock := 0

/-- Without the spork the check leaves no trace. -/
theorem justCheck_unchanged_proposed :
    ∃ fuel e, testBlockValidityEffect nonceEnv { chokedNode with sporkActive := fun _ => false }
      (fun _ => none) fuel (initBlockIndex nonceEnv ⟨0, 8⟩) (fun _ => none) proposedBlock 0
      genesisView true true false false = some e ∧
      e.Unchanged (initBlockIndex nonceEnv ⟨0, 8⟩) (fun _ => none) := by
  apply ((justCheck_unchanged_iff nonceEnv ⟨0, 8⟩ [] _ rfl _ _ _ _ _).2 _ _ _ _ _).mpr
  intro _ hchokes
  simp [chokes, Node.withIndex] at hchokes

/-- With it, the check of a new block adds a null pointer to `mapBlockIndex`, and the check of
a block that is known marks it failed. -/
theorem proposedBlock_choked :
    (testBlockValidityEffect nonceEnv chokedNode (fun _ => none) 1 (initBlockIndex nonceEnv ⟨0, 8⟩)
      (fun _ => none) proposedBlock 0 genesisView true true false false).bind
        (fun e => e.nullEntry) = some 1 ∧
    ((run (step nonceEnv) nonceGenesis [.header proposedBlock true]).bind fun s =>
      (testBlockValidityEffect nonceEnv chokedNode (fun _ => none) 1 s (fun _ => none)
        proposedBlock 0 genesisView true true false false).map fun e =>
          ((s.status 1).fFailedValid, (e.index.status 1).fFailedValid)) = some (false, true) := by
  decide +kernel

end ChainIndex

end Alqo
