import Alqo.CompactForm
import Alqo.Masternodes
import Alqo.Lib.Runs

/-!
# Masternode scores (masternode.cpp, masternodeman.cpp)

`GetBlockHash` remembers every answer in `mapCacheBlockHashes` and nothing removes one, so its
answer for a height is the block that stood there when it was first asked for. The active chain is
the list of its block hashes, genesis first.
-/

namespace Alqo
open Lib.Runs

structure ScoreNode where
  chainActive : List uint256
  mapCacheBlockHashes : Int → Option uint256 := fun _ => none

/-- The walk down from the tip. The list holds the
block being read and everything below it; genesis itself is never returned. -/
def readBlock (nBlocksAgo : Int) : Int → List uint256 → Option uint256
  | n, blockReading :: pprev :: below =>
    if nBlocksAgo ≤ n then some blockReading
    else readBlock nBlocksAgo (n + 1) (pprev :: below)
  | _, _ => none

def askedHeight (chain : List uint256) (nBlockHeight : Int) : Int :=
  if nBlockHeight = 0 then chain.length - 1 else nBlockHeight

/-- The part of `GetBlockHash` that reads the chain. -/
def findBlockHash (chain : List uint256) (nBlockHeight : Int) : Option uint256 :=
  let nTipHeight : Int := chain.length - 1
  if nTipHeight = 0 ∨ nTipHeight + 1 < nBlockHeight then none
  else
    let nBlocksAgo := if 0 < nBlockHeight then nTipHeight + 1 - nBlockHeight else 0
    readBlock nBlocksAgo 0 chain.reverse

/- `none` is its `return false`. -/
def getBlockHash (s : ScoreNode) (nBlockHeight : Int) : Option uint256 × ScoreNode :=
  if s.chainActive = [] then (none, s)
  else
    let nBlockHeight := askedHeight s.chainActive nBlockHeight
    match s.mapCacheBlockHashes nBlockHeight with
    | some hash => (some hash, s)
    | none =>
      match findBlockHash s.chainActive nBlockHeight with
      | none => (none, s)
      | some hash =>
        (some hash, { s with
          mapCacheBlockHashes :=
            Function.update s.mapCacheBlockHashes nBlockHeight (some hash) })

def calculateScore (Hash : Bytes → uint256) (s : ScoreNode) (mn : CMasternode)
    (nBlockHeight : Int) : uint256 × ScoreNode :=
  if s.chainActive = [] then (0, s)
  else
    let aux := mn.prevout.hash + BitVec.ofNat 256 mn.prevout.n
    match getBlockHash s nBlockHeight with
    | (none, s) => (0, s)
    | (some hash, s) =>
      let hash2 := Hash (leBytes 32 hash.toNat)
      let hash3 := Hash (leBytes 32 hash.toNat ++ leBytes 32 aux.toNat)
      (if hash3 > hash2 then hash3 - hash2 else hash2 - hash3, s)

def MN_WINNER_MINIMUM_AGE : Int := 2000

/-- The masternodes that take part in the ranking. -/
def CMasternodeMan.ranked (m : CMasternodeMan) (minProtocol : Int) (fOnlyActive : Bool) :
    List CMasternode :=
  m.vMasternodes.filter fun mn =>
    decide (minProtocol ≤ mn.protocolVersion) &&
      (!m.fPaymentEnforcement || decide (MN_WINNER_MINIMUM_AGE ≤ m.nAdjustedTime - mn.sigTime)) &&
      (!fOnlyActive || mn.fEnabled)

/-- `vecMasternodeScores`, in the order of the list. -/
def masternodeScores (Hash : Bytes → uint256) (nBlockHeight : Int) :
    ScoreNode → List CMasternode → List (Nat × COutPoint) × ScoreNode
  | s, [] => ([], s)
  | s, mn :: rest =>
    let score := calculateScore Hash s mn nBlockHeight
    let others := masternodeScores Hash nBlockHeight score.2 rest
    ((getCompact score.1, mn.prevout) :: others.1, others.2)

/- Best score
first. Equal scores keep their order here; `std::sort` leaves it open. -/
def getMasternodeRank (Hash : Bytes → uint256) (s : ScoreNode) (m : CMasternodeMan)
    (prevout : COutPoint) (nBlockHeight minProtocol : Int) (fOnlyActive : Bool) :
    Int × ScoreNode :=
  match getBlockHash s nBlockHeight with
  | (none, s) => (-1, s)
  | (some _, s) =>
    let scores := masternodeScores Hash nBlockHeight s (m.ranked minProtocol fOnlyActive)
    let sorted := scores.1.insertionSort fun a b => b.1 ≤ a.1
    match sorted.findIdx? fun entry => entry.2 == prevout with
    | none => (-1, scores.2)
    | some i => (i + 1, scores.2)

def blockBelow (chain : List uint256) (h : Int) : Option uint256 :=
  if 1 < h then chain[(h - 1).toNat]? else none

theorem readBlock_eq (k n : Int) (l : List uint256) (hn : n ≤ k) :
    readBlock k n l = if (k - n).toNat + 1 < l.length then l[(k - n).toNat]? else none := by
  induction l generalizing n with
  | nil => simp [readBlock]
  | cons b l ih =>
    cases l with
    | nil =>
      have hlen : ¬ (k - n).toNat + 1 < [b].length := by
        simp only [List.length_singleton]
        omega
      rw [if_neg hlen]
      rfl
    | cons p below =>
      rw [readBlock]
      by_cases hk : k ≤ n
      · have hzero : (k - n).toNat = 0 := by omega
        rw [if_pos hk, hzero, if_pos (by simp)]
        rfl
      · have hstep : (k - n).toNat = (k - (n + 1)).toNat + 1 := by omega
        rw [if_neg hk, ih (n + 1) (by omega), hstep]
        simp only [List.length_cons, List.getElem?_cons_succ]
        congr 1
        simp only [Nat.add_lt_add_iff_right]

theorem readBlock_reverse (chain : List uint256) (h : Int) (hpos : 0 < h) (hle : h ≤ chain.length) :
    readBlock (chain.length - h) 0 chain.reverse = blockBelow chain h := by
  rw [readBlock_eq _ _ _ (by omega), blockBelow, List.length_reverse]
  by_cases hone : 1 < h
  · rw [if_pos hone, if_pos (by omega), List.getElem?_reverse (by omega)]
    congr 1
    omega
  · rw [if_neg hone, if_neg (by omega)]

theorem findBlockHash_eq (chain : List uint256) (h : Int) (hpos : 0 < h) (hchain : chain ≠ []) :
    findBlockHash chain h = blockBelow chain h := by
  have hlen : 0 < chain.length := List.length_pos_of_ne_nil hchain
  simp only [findBlockHash]
  by_cases hout : (chain.length : Int) - 1 = 0 ∨ (chain.length : Int) - 1 + 1 < h
  · rw [if_pos hout, blockBelow]
    split_ifs with hone
    · exact (List.getElem?_eq_none (by omega)).symm
    · rfl
  · have hago : (chain.length : Int) - 1 + 1 - h = chain.length - h := by omega
    rw [if_neg hout, if_pos hpos, hago, readBlock_reverse _ _ hpos (by omega)]

variable {h : Int} {chain : List uint256} {events : List ChainEvent}

theorem getBlockHash_answer {s : ScoreNode} (hpos : 0 < askedHeight s.chainActive h)
    (hchain : s.chainActive ≠ []) :
    (getBlockHash s h).1 = (s.mapCacheBlockHashes (askedHeight s.chainActive h)).or
      (blockBelow s.chainActive (askedHeight s.chainActive h)) := by
  rw [← findBlockHash_eq _ _ hpos hchain]
  simp only [getBlockHash, if_neg hchain]
  cases s.mapCacheBlockHashes (askedHeight s.chainActive h) with
  | some hash => rfl
  | none => cases findBlockHash s.chainActive (askedHeight s.chainActive h) <;> rfl

variable (s : ScoreNode)

theorem getBlockHash_chain (h : Int) : (getBlockHash s h).2.chainActive = s.chainActive := by
  unfold getBlockHash
  by_cases hchain : s.chainActive = []
  · rw [if_pos hchain]
  · simp only [if_neg hchain]
    cases s.mapCacheBlockHashes (askedHeight s.chainActive h) with
    | some hash => rfl
    | none => cases findBlockHash s.chainActive (askedHeight s.chainActive h) <;> rfl

theorem getBlockHash_cache (h k : Int) : (getBlockHash s h).2.mapCacheBlockHashes k =
      (s.mapCacheBlockHashes k).or
        (if askedHeight s.chainActive h = k then (getBlockHash s h).1 else none) := by
  unfold getBlockHash
  by_cases hchain : s.chainActive = []
  · simp [if_pos hchain]
  simp only [if_neg hchain]
  cases hold : s.mapCacheBlockHashes (askedHeight s.chainActive h) with
  | some hash =>
    by_cases hk : askedHeight s.chainActive h = k
    · subst hk
      simp [hold]
    · simp [hk]
  | none =>
    cases findBlockHash s.chainActive (askedHeight s.chainActive h) with
    | none => simp
    | some hash =>
      by_cases hk : askedHeight s.chainActive h = k
      · subst hk
        simp [hold]
      · simp [hk, Function.update_of_ne (Ne.symm hk)]

theorem getBlockHash_again (h : Int) :
    (getBlockHash (getBlockHash s h).2 h).1 = (getBlockHash s h).1 := by
  by_cases hchain : s.chainActive = []
  · simp only [getBlockHash, if_pos hchain]
  have hchain' : (getBlockHash s h).2.chainActive ≠ [] := by
    rw [getBlockHash_chain]
    exact hchain
  cases hans : (getBlockHash s h).1 with
  | some hash =>
    have hcache := getBlockHash_cache s h (askedHeight s.chainActive h)
    have hsome : (getBlockHash s h).2.mapCacheBlockHashes (askedHeight s.chainActive h) =
        some hash := by
      rw [hcache, if_pos rfl, hans]
      cases hold : s.mapCacheBlockHashes (askedHeight s.chainActive h) with
      | none => rfl
      | some old =>
        simp only [getBlockHash, if_neg hchain, hold] at hans
        exact hans
    rw [getBlockHash, if_neg hchain', getBlockHash_chain]
    simp only [hsome]
  | none =>
    have hsame : (getBlockHash s h).2 = s := by
      simp only [getBlockHash, if_neg hchain] at hans ⊢
      cases hold : s.mapCacheBlockHashes (askedHeight s.chainActive h) with
      | some old =>
        simp only [hold] at hans
        cases hans
      | none =>
        simp only [hold] at hans
        cases hfind : findBlockHash s.chainActive (askedHeight s.chainActive h) with
        | none => rfl
        | some hash =>
          simp only [hfind] at hans
          cases hans
    rw [hsame, hans]

inductive ChainEvent where
  /-- `ConnectTip` has moved the tip up to this block. -/
  | connectTip (hash : uint256)
  /-- `DisconnectTip` -/
  | disconnectTip
  /-- Some caller asks for a height. -/
  | getBlockHash (nBlockHeight : Int)
deriving DecidableEq, Repr

def chainStep (chain : List uint256) : ChainEvent → List uint256
  | .connectTip hash => chain ++ [hash]
  | .disconnectTip => chain.dropLast
  | .getBlockHash _ => chain

def scoreStep : ChainEvent → ScoreNode
  | .getBlockHash nBlockHeight => (getBlockHash s nBlockHeight).2
  | e => { s with chainActive := chainStep s.chainActive e }

def ScoreNode.start (chain : List uint256) : ScoreNode := { chainActive := chain }

def answerTo (h : Int) (chain : List uint256) : ChainEvent → Option uint256
  | .getBlockHash nBlockHeight =>
    if askedHeight chain nBlockHeight = h then blockBelow chain h else none
  | _ => none

def firstAnswer (h : Int) : List uint256 → List ChainEvent → Option uint256
  | _, [] => none
  | chain, e :: es => (answerTo h chain e).or (firstAnswer h (chainStep chain e) es)

theorem scoreStep_chain (e : ChainEvent) :
    (scoreStep s e).chainActive = chainStep s.chainActive e := by
  cases e with
  | connectTip hash => rfl
  | disconnectTip => rfl
  | getBlockHash nBlockHeight => exact getBlockHash_chain s nBlockHeight

theorem run_chain (events : List ChainEvent) :
    (run scoreStep s events).chainActive = run chainStep s.chainActive events := by
  induction events generalizing s with
  | nil => rfl
  | cons e es ih => rw [run_cons, run_cons, ih, scoreStep_chain]

theorem scoreStep_cache (e : ChainEvent) (h : Int) (hpos : 0 < h) :
    (scoreStep s e).mapCacheBlockHashes h =
      (s.mapCacheBlockHashes h).or (answerTo h s.chainActive e) := by
  cases e with
  | connectTip hash => simp [scoreStep, answerTo]
  | disconnectTip => simp [scoreStep, answerTo]
  | getBlockHash nBlockHeight =>
    rw [scoreStep, getBlockHash_cache, answerTo]
    by_cases hk : askedHeight s.chainActive nBlockHeight = h
    · subst hk
      rw [if_pos rfl, if_pos rfl]
      by_cases hchain : s.chainActive = []
      · simp [getBlockHash, blockBelow, hchain]
      · rw [getBlockHash_answer hpos hchain]
        cases s.mapCacheBlockHashes (askedHeight s.chainActive nBlockHeight) <;> rfl
    · rw [if_neg hk, if_neg hk]

theorem run_cache (events : List ChainEvent) (h : Int) (hpos : 0 < h) :
    (run scoreStep s events).mapCacheBlockHashes h =
      (s.mapCacheBlockHashes h).or (firstAnswer h s.chainActive events) := by
  induction events generalizing s with
  | nil => simp [firstAnswer]
  | cons e es ih =>
    rw [run_cons, ih, scoreStep_cache s e h hpos, scoreStep_chain, firstAnswer, Option.or_assoc]

/-- The block below height `h` when the height was first asked for is still
there. -/
def FirstAnswerHolds (chain : List uint256) (events : List ChainEvent) (h : Int) : Prop :=
  run chainStep chain events = [] ∨ ∀ hash, firstAnswer h chain events = some hash →
      (run chainStep chain events)[(h - 1).toNat]? = some hash

theorem askedHeight_of_pos (chain : List uint256) (hpos : 0 < h) :
    askedHeight chain h = h := if_neg (by omega)

theorem getBlockHash_run (chain : List uint256) (events : List ChainEvent) (h : Int)
    (hpos : 0 < h) (hchain : run chainStep chain events ≠ []) :
    (getBlockHash (run scoreStep (ScoreNode.start chain) events) h).1 =
      (firstAnswer h chain events).or (blockBelow (run chainStep chain events) h) := by
  have hrun := run_chain (ScoreNode.start chain) events
  have hasked := askedHeight_of_pos (run scoreStep (ScoreNode.start chain) events).chainActive hpos
  rw [getBlockHash_answer (by rw [hasked]; exact hpos) (by rw [hrun]; exact hchain), hasked,
    run_cache _ _ _ hpos, hrun]
  rfl

theorem firstAnswer_one_lt {hash : uint256} (hfirst : firstAnswer h chain events = some hash) :
    1 < h := by
  induction events generalizing chain with
  | nil => cases hfirst
  | cons e es ih =>
    rw [firstAnswer, Option.or_eq_some_iff] at hfirst
    rcases hfirst with hans | ⟨-, hrest⟩
    · by_contra hle
      cases e with
      | connectTip hash => cases hans
      | disconnectTip => cases hans
      | getBlockHash nBlockHeight => simp [answerTo, blockBelow, hle] at hans
    · exact ih hrest

theorem getBlockHash_eq_blockBelow (hpos : 0 < h) (hholds : FirstAnswerHolds chain events h) :
    (getBlockHash (run scoreStep (ScoreNode.start chain) events) h).1 =
      blockBelow (run chainStep chain events) h := by
  by_cases hchain : run chainStep chain events = []
  · have hrun := run_chain (ScoreNode.start chain) events
    rw [getBlockHash, if_pos (hrun.trans hchain), hchain]
    simp [blockBelow]
  · rw [getBlockHash_run chain events h hpos hchain]
    cases hfirst : firstAnswer h chain events with
    | none => rfl
    | some hash =>
      have hthere := (hholds.resolve_left hchain) hash hfirst
      rw [blockBelow, if_pos (firstAnswer_one_lt hfirst), hthere]
      rfl

theorem calculateScore_eq (Hash : Bytes → uint256) (mn : CMasternode) (h : Int) :
    ∃ score : Option uint256 → uint256, ∀ s : ScoreNode,
      calculateScore Hash s mn h = (score (getBlockHash s h).1, (getBlockHash s h).2) := by
  refine ⟨fun answer => answer.elim 0 fun hash =>
    let hash2 := Hash (leBytes 32 hash.toNat)
    let hash3 := Hash (leBytes 32 hash.toNat ++
      leBytes 32 (mn.prevout.hash + BitVec.ofNat 256 mn.prevout.n).toNat)
    if hash3 > hash2 then hash3 - hash2 else hash2 - hash3, fun s => ?_⟩
  unfold calculateScore
  by_cases hchain : s.chainActive = []
  · simp [hchain, getBlockHash]
  · rw [if_neg hchain]
    rcases getBlockHash s h with ⟨answer, after⟩
    cases answer <;> rfl

theorem calculateScore_congr (Hash : Bytes → uint256) (s t : ScoreNode) (mn : CMasternode)
    (h : Int) (heq : (getBlockHash s h).1 = (getBlockHash t h).1) :
    (calculateScore Hash s mn h).1 = (calculateScore Hash t mn h).1 := by
  obtain ⟨score, hscore⟩ := calculateScore_eq Hash mn h
  rw [hscore s, hscore t, heq]

theorem calculateScore_answer (Hash : Bytes → uint256) (s : ScoreNode) (mn : CMasternode)
    (h : Int) : (getBlockHash (calculateScore Hash s mn h).2 h).1 = (getBlockHash s h).1 := by
  obtain ⟨score, hscore⟩ := calculateScore_eq Hash mn h
  rw [hscore s, getBlockHash_again]

theorem getBlockHash_active_iff (Hash : Bytes → uint256) (chain : List uint256)
    (events : List ChainEvent) (h : Int) (hpos : 0 < h) :
    ((∀ hash, (getBlockHash (run scoreStep (ScoreNode.start chain) events) h).1 = some hash →
        (run chainStep chain events)[(h - 1).toNat]? = some hash) ↔
      FirstAnswerHolds chain events h) ∧
    ∀ chain' events', run chainStep chain' events' = run chainStep chain events →
      FirstAnswerHolds chain events h → FirstAnswerHolds chain' events' h →
      ∀ mn, (calculateScore Hash (run scoreStep (ScoreNode.start chain) events) mn h).1 =
        (calculateScore Hash (run scoreStep (ScoreNode.start chain') events') mn h).1 := by
  refine ⟨⟨fun hright => ?_, fun hholds hash hans => ?_⟩, ?_⟩
  · by_cases hchain : run chainStep chain events = []
    · exact .inl hchain
    · refine .inr fun hash hfirst => hright hash ?_
      rw [getBlockHash_run chain events h hpos hchain, hfirst]
      rfl
  · rw [getBlockHash_eq_blockBelow hpos hholds, blockBelow] at hans
    split_ifs at hans
    exact hans
  · intro chain' events' hsame hholds hholds' mn
    apply calculateScore_congr
    rw [getBlockHash_eq_blockBelow hpos hholds, getBlockHash_eq_blockBelow hpos hholds', hsame]

/-- Asked for height 3 once its block is there, and the chain only grows. -/
theorem growingChain_active :
    FirstAnswerHolds [1] [.connectTip 2, .connectTip 3, .getBlockHash 3, .connectTip 4] 3 ∧
      ∀ hash, (getBlockHash (run scoreStep (ScoreNode.start [1])
          [.connectTip 2, .connectTip 3, .getBlockHash 3, .connectTip 4]) 3).1 = some hash →
        (run chainStep [1] [.connectTip 2, .connectTip 3, .getBlockHash 3, .connectTip 4])[2]? =
          some hash := by
  have hholds : FirstAnswerHolds [1]
      [.connectTip 2, .connectTip 3, .getBlockHash 3, .connectTip 4] 3 := by
    refine .inr fun hash hfirst => ?_
    cases hfirst
    rfl
  exact ⟨hholds, (getBlockHash_active_iff hash256 _ _ 3 (by decide)).1.mpr hholds⟩

/-- Two nodes on one chain: the first saw block 3 replaced by block 5 after it
had answered for that height. -/
theorem reorganised_scores_differ :
    let reorganised : List ChainEvent :=
      [.connectTip 2, .connectTip 3, .getBlockHash 3, .disconnectTip, .connectTip 5]
    let straight : List ChainEvent := [.connectTip 2, .connectTip 5]
    let first := run scoreStep (ScoreNode.start [1]) reorganised
    let second := run scoreStep (ScoreNode.start [1]) straight
    let mn : CMasternode := { prevout := ⟨7, 0⟩ }
    first.chainActive = [1, 2, 5] ∧ second.chainActive = [1, 2, 5] ∧
      (getBlockHash first 3).1 = some 3 ∧ (getBlockHash second 3).1 = some 5 ∧
      (calculateScore hash256 first mn 3).1 ≠ (calculateScore hash256 second mn 3).1 := by
  decide +kernel

end Alqo
