import Alqo.MasternodeScore

/-!
# Masternode payment votes (masternode-payments.h, masternode-payments.cpp)

`CanVote` remembers the height a masternode last tried to vote at. Each message comes with what the
handler reads of the rest of the node.
-/

namespace Alqo
open Lib.Runs Function List

structure CMasternodePaymentWinner where
  /-- `vinMasternode.prevout` -/
  vinMasternode : COutPoint
  nBlockHeight : Int
  payee : CScript
  vchSig : Bytes := []
  nMessVersion : Int := MESS_VER_HASH
deriving DecidableEq, Repr

def CMasternodePaymentWinner.getHash (Hash : Bytes → uint256) (w : CMasternodePaymentWinner) :
    uint256 :=
  Hash (compactSize w.payee.length ++ w.payee ++ leBytes 4 (w.nBlockHeight % 2 ^ 32).toNat ++
    leBytes 32 w.vinMasternode.hash.toNat ++ leBytes 4 w.vinMasternode.n)

structure CMasternodePayee where
  scriptPubKey : CScript
  nVotes : Int
deriving DecidableEq, Repr

def addPayee (payeeIn : CScript) (nIncrement : Int) : List CMasternodePayee → List CMasternodePayee
  | [] => [⟨payeeIn, nIncrement⟩]
  | payee :: rest =>
    if payee.scriptPubKey = payeeIn then
      { payee with nVotes := payee.nVotes + nIncrement } :: rest
    else payee :: addPayee payeeIn nIncrement rest

structure CMasternodePayments where
  mapMasternodePayeeVotes : AList fun _ : uint256 => CMasternodePaymentWinner := ∅
  /-- `vecPayments` of each height -/
  mapMasternodeBlocks : Int → Option (List CMasternodePayee) := fun _ => none
  mapMasternodesLastVote : uint256 → Option Int := fun _ => none

/-- Key of `mapMasternodesLastVote`. -/
def lastVoteKey (outMasternode : COutPoint) : uint256 :=
  outMasternode.hash + BitVec.ofNat 256 outMasternode.n

namespace CMasternodePayments

def recordLastVote (s : CMasternodePayments) (outMasternode : COutPoint) (nBlockHeight : Int) :
    CMasternodePayments :=
  { s with
    mapMasternodesLastVote :=
      update s.mapMasternodesLastVote (lastVoteKey outMasternode) (some nBlockHeight) }

def canVote (s : CMasternodePayments) (outMasternode : COutPoint) (nBlockHeight : Int) :
    Bool × CMasternodePayments :=
  if s.mapMasternodesLastVote (lastVoteKey outMasternode) = some nBlockHeight then (false, s)
  else (true, s.recordLastVote outMasternode nBlockHeight)

/-- The vote is stored and counted. -/
def countVote (Hash : Bytes → uint256) (s : CMasternodePayments)
    (winnerIn : CMasternodePaymentWinner) : CMasternodePayments :=
  { s with
    mapMasternodePayeeVotes := s.mapMasternodePayeeVotes.insert (winnerIn.getHash Hash) winnerIn
    mapMasternodeBlocks := update s.mapMasternodeBlocks winnerIn.nBlockHeight
      (some (addPayee winnerIn.payee 1 ((s.mapMasternodeBlocks winnerIn.nBlockHeight).getD []))) }

def addWinningMasternode (Hash : Bytes → uint256) (node : ScoreNode) (s : CMasternodePayments)
    (winnerIn : CMasternodePaymentWinner) : Bool × CMasternodePayments :=
  match (getBlockHash node (winnerIn.nBlockHeight - 100)).1 with
  | none => (false, s)
  | some _ =>
    if winnerIn.getHash Hash ∈ s.mapMasternodePayeeVotes then (false, s)
    else (true, s.countVote Hash winnerIn)

end CMasternodePayments

def MNPAYMENTS_SIGNATURES_TOTAL : Int := 6

/-- An `mnw` message, and what its handler reads of the node when it comes in. -/
structure MnwMessage where
  winner : CMasternodePaymentWinner
  /-- `pfrom->nVersion < ActiveProtocol()` -/
  fPeerTooOld : Bool := false
  /-- `TRY_LOCK(cs_main, locked)` -/
  fLocked : Bool := true
  node : ScoreNode
  mnodeman : CMasternodeMan
  /-- `mnodeman.CountEnabled()` -/
  nCountEnabled : Int
  nActiveProtocol : Int := 0

namespace MnwMessage

def nHeight (e : MnwMessage) : Int := e.node.chainActive.length - 1

/-- `int nFirstBlock = nHeight - (CountEnabled() * 1.25)`, rounded to zero. -/
def nFirstBlock (e : MnwMessage) : Int := (4 * e.nHeight - 5 * e.nCountEnabled).tdiv 4

/- A
masternode without a rank, which has rank -1, passes. -/
def isValid (Hash : Bytes → uint256) (e : MnwMessage) : Bool :=
  match e.mnodeman.find e.winner.vinMasternode with
  | none => false
  | some pmn =>
    if pmn.protocolVersion < e.nActiveProtocol then false
    else
      let n := (getMasternodeRank Hash e.node e.mnodeman e.winner.vinMasternode
        (e.winner.nBlockHeight - 100) e.nActiveProtocol true).1
      decide (n ≤ MNPAYMENTS_SIGNATURES_TOTAL)

/-- `winner.CheckSignature()`; the hash that is signed is the vote's own. -/
def signed (Hash : Bytes → uint256) (v : Verifier CMasternodePaymentWinner) (e : MnwMessage) :
    Bool :=
  e.mnodeman.checkSignature e.winner.vinMasternode true
    (v.checkSignature e.winner.nMessVersion (e.winner.getHash Hash) e.winner e.winner.vchSig)

end MnwMessage

/-- From `CanVote` on. -/
def castVote (Hash : Bytes → uint256) (v : Verifier CMasternodePaymentWinner)
    (s : CMasternodePayments) (e : MnwMessage) : CMasternodePayments :=
  match s.canVote e.winner.vinMasternode e.winner.nBlockHeight with
  | (false, s) => s
  | (true, s) =>
    if ¬ e.signed Hash v then s
    else (s.addWinningMasternode Hash e.node e.winner).2

/-- The branch for `mnw` of `ProcessMessageMasternodePayments`. `NewSigsActive` is constantly true, so only votes that sign their hash are taken. -/
def processMnw (Hash : Bytes → uint256) (v : Verifier CMasternodePaymentWinner)
    (s : CMasternodePayments) (e : MnwMessage) : CMasternodePayments :=
  if e.fPeerTooOld then s
  else if ¬ e.fLocked ∨ e.node.chainActive = [] then s
  else if e.winner.getHash Hash ∈ s.mapMasternodePayeeVotes then s
  else if e.winner.nBlockHeight < e.nFirstBlock ∨ e.nHeight + 20 < e.winner.nBlockHeight then s
  else if e.winner.nMessVersion ≠ MESS_VER_HASH then s
  else if ¬ e.isValid Hash then s
  else castVote Hash v s e

section
variable {Hash : Bytes → uint256} {v : Verifier CMasternodePaymentWinner} {s : CMasternodePayments}
  {e : MnwMessage} {w : CMasternodePaymentWinner}

/-- The message comes as far as `CanVote`. -/
structure Arrives (Hash : Bytes → uint256) (s : CMasternodePayments) (e : MnwMessage) : Prop where
  peer : e.fPeerTooOld = false
  tip : e.fLocked = true ∧ e.node.chainActive ≠ []
  new : e.winner.getHash Hash ∉ s.mapMasternodePayeeVotes
  range : e.nFirstBlock ≤ e.winner.nBlockHeight ∧ e.winner.nBlockHeight ≤ e.nHeight + 20
  version : e.winner.nMessVersion = MESS_VER_HASH
  valid : e.isValid Hash = true

/-- What stands between `CanVote` and the count. -/
structure Counts (Hash : Bytes → uint256) (v : Verifier CMasternodePaymentWinner)
    (e : MnwMessage) : Prop where
  signed : e.signed Hash v = true
  known : (getBlockHash e.node (e.winner.nBlockHeight - 100)).1.isSome = true

def LastTried (s : CMasternodePayments) (w : CMasternodePaymentWinner) : Prop :=
  s.mapMasternodesLastVote (lastVoteKey w.vinMasternode) = some w.nBlockHeight

theorem processMnw_refused (h : ¬ Arrives Hash s e) : processMnw Hash v s e = s := by
  unfold processMnw
  split_ifs with hpeer htip hnew hrange hversion hvalid
  · rfl
  · rfl
  · rfl
  · rfl
  · rfl
  · refine absurd ⟨?_, ?_, hnew, ?_, ?_, hvalid⟩ h
    · simpa using hpeer
    · simpa [not_or] using htip
    · omega
    · simpa using hversion
  · rfl

theorem processMnw_arrives (h : Arrives Hash s e) :
    processMnw Hash v s e = castVote Hash v s e := by
  unfold processMnw
  have hrange := h.range
  rw [if_neg (by simp [h.peer]), if_neg (by simp [h.tip.1, h.tip.2]), if_neg h.new,
    if_neg (by omega), if_neg (by simp [h.version]), if_neg (by simp [h.valid])]

theorem canVote_of_not_lastTried (hlast : ¬ LastTried s e.winner) :
    s.canVote e.winner.vinMasternode e.winner.nBlockHeight =
      (true, s.recordLastVote e.winner.vinMasternode e.winner.nBlockHeight) := if_neg hlast

theorem processMnw_lastTried (h : Arrives Hash s e) (hlast : LastTried s e.winner) :
    processMnw Hash v s e = s := by
  have hcan : s.canVote e.winner.vinMasternode e.winner.nBlockHeight = (false, s) := if_pos hlast
  rw [processMnw_arrives h, castVote, hcan]

theorem processMnw_uncounted (h : Arrives Hash s e) (hlast : ¬ LastTried s e.winner)
    (hcount : ¬ Counts Hash v e) :
    processMnw Hash v s e = s.recordLastVote e.winner.vinMasternode e.winner.nBlockHeight := by
  rw [processMnw_arrives h, castVote, canVote_of_not_lastTried hlast]
  by_cases hsigned : e.signed Hash v = true
  · cases hknown : (getBlockHash e.node (e.winner.nBlockHeight - 100)).1 with
    | none => simp [hsigned, CMasternodePayments.addWinningMasternode, hknown]
    | some hash => exact absurd ⟨hsigned, by rw [hknown]; rfl⟩ hcount
  · simp [hsigned]

theorem processMnw_counted (h : Arrives Hash s e) (hlast : ¬ LastTried s e.winner)
    (hcount : Counts Hash v e) :
    processMnw Hash v s e =
      (s.recordLastVote e.winner.vinMasternode e.winner.nBlockHeight).countVote Hash e.winner := by
  obtain ⟨hash, hknown⟩ := Option.isSome_iff_exists.mp hcount.known
  rw [processMnw_arrives h, castVote, canVote_of_not_lastTried hlast]
  have hnew : e.winner.getHash Hash ∉
      (s.recordLastVote e.winner.vinMasternode e.winner.nBlockHeight).mapMasternodePayeeVotes :=
    h.new
  simp [hcount.signed, CMasternodePayments.addWinningMasternode, hknown, hnew]

def CMasternodePayments.winners (s : CMasternodePayments) : List CMasternodePaymentWinner :=
  s.mapMasternodePayeeVotes.entries.map Sigma.snd

/-- The votes counted for a height in `mapMasternodeBlocks`. -/
def CMasternodePayments.votesFor (s : CMasternodePayments) (nBlockHeight : Int) : Int :=
  (((s.mapMasternodeBlocks nBlockHeight).getD []).map CMasternodePayee.nVotes).sum

theorem sum_addPayee (payeeIn : CScript) (nIncrement : Int) (payees : List CMasternodePayee) :
    ((addPayee payeeIn nIncrement payees).map CMasternodePayee.nVotes).sum =
      (payees.map CMasternodePayee.nVotes).sum + nIncrement := by
  induction payees with
  | nil => simp [addPayee]
  | cons payee rest ih =>
    rw [addPayee]
    split_ifs
    · simp only [map_cons, sum_cons]
      omega
    · simp only [map_cons, sum_cons, ih]
      omega

theorem winners_countVote (hnew : w.getHash Hash ∉ s.mapMasternodePayeeVotes) :
    (s.countVote Hash w).winners = w :: s.winners := by
  unfold CMasternodePayments.winners CMasternodePayments.countVote
  rw [AList.entries_insert_of_notMem hnew]
  rfl

theorem winners_recordLastVote (outMasternode : COutPoint) (nBlockHeight : Int) :
    (s.recordLastVote outMasternode nBlockHeight).winners = s.winners := rfl

theorem votesFor_countVote (w : CMasternodePaymentWinner) (h : Int) :
    (s.countVote Hash w).votesFor h = s.votesFor h + if w.nBlockHeight = h then 1 else 0 := by
  unfold CMasternodePayments.votesFor CMasternodePayments.countVote
  by_cases hh : w.nBlockHeight = h
  · subst hh
    simp only [update_self, Option.getD_some, sum_addPayee, if_true]
  · simp only [update_of_ne (Ne.symm hh), if_neg hh, add_zero]

theorem processMnw_votes (Hash : Bytes → uint256) (v : Verifier CMasternodePaymentWinner)
    (s : CMasternodePayments) (e : MnwMessage) :
    ((processMnw Hash v s e).winners = s.winners ∧
      ∀ h, (processMnw Hash v s e).votesFor h = s.votesFor h) ∨
    (Arrives Hash s e ∧ ¬ LastTried s e.winner ∧ Counts Hash v e ∧
      (processMnw Hash v s e).winners = e.winner :: s.winners ∧
      ∀ h, (processMnw Hash v s e).votesFor h =
        s.votesFor h + if e.winner.nBlockHeight = h then 1 else 0) := by
  by_cases harrives : Arrives Hash s e
  · by_cases hlast : LastTried s e.winner
    · rw [processMnw_lastTried harrives hlast]
      exact .inl ⟨rfl, fun _ => rfl⟩
    · by_cases hcount : Counts Hash v e
      · rw [processMnw_counted harrives hlast hcount]
        exact .inr ⟨harrives, hlast, hcount, winners_countVote harrives.new,
          fun h => votesFor_countVote e.winner h⟩
      · rw [processMnw_uncounted harrives hlast hcount]
        exact .inl ⟨rfl, fun _ => rfl⟩
  · rw [processMnw_refused harrives]
    exact .inl ⟨rfl, fun _ => rfl⟩

def Tallied (s : CMasternodePayments) : Prop :=
  ∀ h, s.votesFor h = s.winners.countP fun w => w.nBlockHeight = h

theorem tallied_processMnw (Hash : Bytes → uint256) (v : Verifier CMasternodePaymentWinner)
    (s : CMasternodePayments) (e : MnwMessage) (hs : Tallied s) :
    Tallied (processMnw Hash v s e) := by
  intro h
  rcases processMnw_votes Hash v s e with ⟨hwin, hvotes⟩ | ⟨-, -, -, hwin, hvotes⟩
  · rw [hwin, hvotes, hs h]
  · rw [hwin, hvotes, hs h, countP_cons]
    simp only [decide_eq_true_eq, Nat.cast_add, Nat.cast_ite, Nat.cast_one, Nat.cast_zero]

def OneVoteEach (s : CMasternodePayments) : Prop :=
  ∀ m h, (s.winners.countP fun w => w.vinMasternode = m ∧ w.nBlockHeight = h) ≤ 1

/-- If a vote that would be counted comes from a masternode whose vote for that
height has been counted, `CanVote` still remembers the height. -/
def Remembered (Hash : Bytes → uint256) (v : Verifier CMasternodePaymentWinner)
    (s : CMasternodePayments) (e : MnwMessage) : Prop :=
  Arrives Hash s e → Counts Hash v e → (∃ w ∈ s.winners, w.vinMasternode = e.winner.vinMasternode ∧
      w.nBlockHeight = e.winner.nBlockHeight) → LastTried s e.winner

theorem oneVoteEach_cons_iff {l : List CMasternodePaymentWinner}
    (hl : ∀ m h, (l.countP fun w => w.vinMasternode = m ∧ w.nBlockHeight = h) ≤ 1) :
    (∀ m h, ((w :: l).countP fun w => w.vinMasternode = m ∧ w.nBlockHeight = h) ≤ 1) ↔
      ¬ ∃ w' ∈ l, w'.vinMasternode = w.vinMasternode ∧ w'.nBlockHeight = w.nBlockHeight := by
  constructor
  · rintro h ⟨w', hmem, hsame⟩
    have hpos : 0 < l.countP fun x => x.vinMasternode = w.vinMasternode ∧
        x.nBlockHeight = w.nBlockHeight :=
      countP_pos_iff.mpr ⟨w', hmem, by simpa using hsame⟩
    have hle := h w.vinMasternode w.nBlockHeight
    rw [countP_cons] at hle
    simp only [and_self, decide_true, if_true] at hle
    omega
  · intro h m height
    rw [countP_cons]
    by_cases hw : w.vinMasternode = m ∧ w.nBlockHeight = height
    · obtain ⟨rfl, rfl⟩ := hw
      have hzero : (l.countP fun x => x.vinMasternode = w.vinMasternode ∧
          x.nBlockHeight = w.nBlockHeight) = 0 := by
        rw [countP_eq_zero]
        intro x hx hsame
        exact h ⟨x, hx, by simpa using hsame⟩
      rw [hzero]
      simp
    · have hle := hl m height
      simpa [hw] using hle

theorem oneVoteEach_step (Hash : Bytes → uint256) (v : Verifier CMasternodePaymentWinner)
    (s : CMasternodePayments) (e : MnwMessage) (hs : OneVoteEach s) :
    OneVoteEach (processMnw Hash v s e) ↔ Remembered Hash v s e := by
  unfold OneVoteEach at hs ⊢
  rcases processMnw_votes Hash v s e with ⟨hwin, -⟩ | ⟨harrives, hlast, hcount, hwin, -⟩
  · rw [hwin]
    refine iff_of_true hs fun harrives hcount hold => ?_
    by_contra hlast
    have hnew : e.winner.getHash Hash ∉ (s.recordLastVote e.winner.vinMasternode
        e.winner.nBlockHeight).mapMasternodePayeeVotes := harrives.new
    rw [processMnw_counted harrives hlast hcount, winners_countVote hnew,
      winners_recordLastVote] at hwin
    exact absurd (congrArg List.length hwin) (by simp)
  · rw [hwin, oneVoteEach_cons_iff hs]
    exact ⟨fun hnone _ _ hold => absurd hold hnone, fun hrem hold => hlast (hrem harrives hcount hold)⟩

theorem oneVoteEach_back (Hash : Bytes → uint256) (v : Verifier CMasternodePaymentWinner)
    (s : CMasternodePayments) (e : MnwMessage) (h : OneVoteEach (processMnw Hash v s e)) :
    OneVoteEach s := by
  intro m height
  rcases processMnw_votes Hash v s e with ⟨hwin, -⟩ | ⟨-, -, -, hwin, -⟩
  · rw [← hwin]
    exact h m height
  · have hle := h m height
    rw [hwin, countP_cons] at hle
    omega

def signers (Hash : Bytes → uint256) (v : Verifier CMasternodePaymentWinner)
    (events : List MnwMessage) (nBlockHeight : Int) : List COutPoint :=
  ((events.filter fun e => e.signed Hash v && e.winner.nBlockHeight == nBlockHeight).map
    fun e => e.winner.vinMasternode).dedup

theorem winners_run (Hash : Bytes → uint256) (v : Verifier CMasternodePaymentWinner)
    (s : CMasternodePayments) (events : List MnwMessage)
    (hw : w ∈ (run (processMnw Hash v) s events).winners) :
    w ∈ s.winners ∨ ∃ e ∈ events, e.winner = w ∧ e.signed Hash v = true := by
  induction events generalizing s with
  | nil => exact .inl hw
  | cons e es ih =>
    rcases ih (processMnw Hash v s e) hw with hin | ⟨e', hmem, hsame⟩
    · rcases processMnw_votes Hash v s e with ⟨hwin, -⟩ | ⟨-, -, hcount, hwin, -⟩
      · rw [hwin] at hin
        exact .inl hin
      · rw [hwin, mem_cons] at hin
        rcases hin with rfl | hin
        · exact .inr ⟨e, mem_cons_self, rfl, hcount.signed⟩
        · exact .inl hin
    · exact .inr ⟨e', mem_cons_of_mem e hmem, hsame⟩

theorem votesFor_le_signers (Hash : Bytes → uint256) (v : Verifier CMasternodePaymentWinner)
    (events : List MnwMessage) (h : Int)
    (hone : OneVoteEach (run (processMnw Hash v) {} events)) :
    (run (processMnw Hash v) {} events).votesFor h ≤ (signers Hash v events h).length := by
  have htally : Tallied (run (processMnw Hash v) {} events) :=
    run_induct (tallied_processMnw Hash v) {} events fun _ => rfl
  generalize hrun : run (processMnw Hash v) {} events = final at hone htally
  let voters := (final.winners.filter fun w => w.nBlockHeight = h).map
    CMasternodePaymentWinner.vinMasternode
  have hlength : voters.length = final.winners.countP fun w => w.nBlockHeight = h := by
    rw [length_map, countP_eq_length_filter]
  have hnodup : voters.Nodup := by
    rw [nodup_iff_count_le_one]
    intro m
    have hm := hone m h
    rw [count_eq_countP, countP_map, countP_filter]
    refine le_trans (le_of_eq (countP_congr fun w _ => ?_)) hm
    simp
  have hsubset : voters ⊆ signers Hash v events h := by
    intro m hm
    obtain ⟨w, hw, rfl⟩ := mem_map.mp hm
    obtain ⟨hin, hheight⟩ := mem_filter.mp hw
    rcases winners_run Hash v {} events (by rw [hrun]; exact hin) with hnil | ⟨e, he, rfl, hsigned⟩
    · simp [CMasternodePayments.winners] at hnil
    · refine mem_dedup.mpr (mem_map.mpr ⟨e, mem_filter.mpr ⟨he, ?_⟩, rfl⟩)
      simpa [hsigned] using hheight
  rw [htally h, ← hlength]
  exact_mod_cast (hnodup.subperm hsubset).length_le

theorem oneVoteEach_iff (Hash : Bytes → uint256) (v : Verifier CMasternodePaymentWinner)
    (events : List MnwMessage) :
    (OneVoteEach (run (processMnw Hash v) {} events) ↔
      Along (processMnw Hash v) (Remembered Hash v) {} events) ∧
    (OneVoteEach (run (processMnw Hash v) {} events) →
      ∀ h, (run (processMnw Hash v) {} events).votesFor h ≤ (signers Hash v events h).length) := by
  refine ⟨?_, fun hone h => votesFor_le_signers Hash v events h hone⟩
  refine last_iff_along (oneVoteEach_back Hash v) (oneVoteEach_step Hash v) {} events ?_
  intro m h
  exact Nat.zero_le 1

def loneVote (nBlockHeight : Int) (payee : CScript) (vchSig : Bytes) : MnwMessage where
  winner := { vinMasternode := ⟨7, 0⟩, nBlockHeight, payee, vchSig }
  node := ScoreNode.start ((List.range 101).map fun i => BitVec.ofNat 256 (i + 1))
  mnodeman := { vMasternodes := [{ prevout := ⟨7, 0⟩, pubKeyMasternode := [2] }] }
  nCountEnabled := 1

def loneVerifier : Verifier CMasternodePaymentWinner where
  verifyHash _ _ vchSig := vchSig == [1]
  verifyMessage _ _ _ := false

/-- Voting at another height in between, one masternode is counted twice. -/
theorem alternatingVotes_counted_twice :
    let events := [loneVote 105 [0x51] [1], loneVote 106 [0x51] [1], loneVote 105 [0x52] [1]]
    (run (processMnw hash256 loneVerifier) {} events).votesFor 105 = 2 ∧
      signers hash256 loneVerifier events 105 = [⟨7, 0⟩] := by
  decide +kernel

def CMasternodePayments.counted (s : CMasternodePayments) :
    (AList fun _ : uint256 => CMasternodePaymentWinner) × (Int → Option (List CMasternodePayee)) :=
  (s.mapMasternodePayeeVotes, s.mapMasternodeBlocks)

/-- `CanVote` does not take note of the message: it is refused before, or it
repeats the height remembered for its masternode. -/
def Unnoted (Hash : Bytes → uint256) (s : CMasternodePayments) (e : MnwMessage) : Prop :=
  Arrives Hash s e → LastTried s e.winner

theorem processMnw_unnoted (h : Unnoted Hash s e) : processMnw Hash v s e = s := by
  by_cases harrives : Arrives Hash s e
  · exact processMnw_lastTried harrives (h harrives)
  · exact processMnw_refused harrives

theorem run_filter_signed (events : List MnwMessage) (halong : Along (processMnw Hash v)
      (fun s e => e.signed Hash v = false → Unnoted Hash s e) s events) :
    run (processMnw Hash v) s events =
      run (processMnw Hash v) s (events.filter fun e => e.signed Hash v) := by
  induction events generalizing s with
  | nil => rfl
  | cons e es ih =>
    obtain ⟨hfirst, hrest⟩ := halong
    cases hsigned : e.signed Hash v with
    | true =>
      rw [filter_cons_of_pos (by simpa using hsigned), run_cons, run_cons]
      exact ih hrest
    | false =>
      rw [filter_cons_of_neg (by simp [hsigned]), run_cons]
      rw [processMnw_unnoted (hfirst hsigned)] at hrest ⊢
      exact ih hrest

theorem arrives_recordLastVote (outMasternode : COutPoint) (nBlockHeight : Int)
    (h : Arrives Hash s e) : Arrives Hash (s.recordLastVote outMasternode nBlockHeight) e :=
  ⟨h.peer, h.tip, h.new, h.range, h.version, h.valid⟩

theorem lastTried_recordLastVote {outMasternode : COutPoint} {nBlockHeight : Int}
    (hmn : w.vinMasternode = outMasternode) (hheight : w.nBlockHeight = nBlockHeight) :
    LastTried (s.recordLastVote outMasternode nBlockHeight) w := by
  subst hmn hheight
  exact update_self _ _ _

theorem badVote_no_trace_iff {bad : MnwMessage} (hbad : bad.signed Hash v = false)
    (hvoter : ∃ e, e.winner.vinMasternode = bad.winner.vinMasternode ∧
      e.winner.nBlockHeight = bad.winner.nBlockHeight ∧ Arrives Hash s e ∧ Counts Hash v e) :
    ((∀ rest, (run (processMnw Hash v) s (bad :: rest)).counted =
        (run (processMnw Hash v) s rest).counted) ↔ Unnoted Hash s bad) ∧
    ∀ events, Along (processMnw Hash v)
        (fun s e => e.signed Hash v = false → Unnoted Hash s e) s events →
      (run (processMnw Hash v) s events).counted =
        (run (processMnw Hash v) s (events.filter fun e => e.signed Hash v)).counted := by
  refine ⟨⟨fun hsame harrives => ?_, fun hunnoted rest => ?_⟩, fun events halong => ?_⟩
  · -- the masternode's own vote is lost behind the bad one
    by_contra hlast
    obtain ⟨e, hmn, hheight, he, hcount⟩ := hvoter
    have hbadstep := processMnw_uncounted (v := v) harrives hlast
      (fun hc => by rw [hc.signed] at hbad; cases hbad)
    have hblocked : processMnw Hash v
        (s.recordLastVote bad.winner.vinMasternode bad.winner.nBlockHeight) e =
        s.recordLastVote bad.winner.vinMasternode bad.winner.nBlockHeight :=
      processMnw_lastTried (arrives_recordLastVote _ _ he) (lastTried_recordLastVote hmn hheight)
    have hfree : ¬ LastTried s e.winner := by
      unfold LastTried at hlast ⊢
      rw [hmn, hheight]
      exact hlast
    have hboth := congrArg Prod.fst (hsame [e])
    simp only [run_cons, run_nil, CMasternodePayments.counted, hbadstep, hblocked,
      processMnw_counted he hfree hcount] at hboth
    have hvotes : s.mapMasternodePayeeVotes =
        s.mapMasternodePayeeVotes.insert (e.winner.getHash Hash) e.winner := hboth
    apply he.new
    rw [hvotes]
    exact (AList.mem_insert _).mpr (.inl rfl)
  · rw [run_cons, processMnw_unnoted hunnoted]
  · rw [run_filter_signed events halong]

end

theorem repeated_badVote_no_trace :
    (run (processMnw hash256 loneVerifier) (CMasternodePayments.recordLastVote {} ⟨7, 0⟩ 105)
        [loneVote 105 [0x52] [], loneVote 106 [0x51] [1]]).counted =
      (run (processMnw hash256 loneVerifier) (CMasternodePayments.recordLastVote {} ⟨7, 0⟩ 105)
        [loneVote 106 [0x51] [1]]).counted := by
  have hchecks : (loneVote 105 [0x52] []).signed hash256 loneVerifier = false ∧
      (loneVote 105 [0x51] [1]).isValid hash256 = true ∧
      (loneVote 105 [0x51] [1]).signed hash256 loneVerifier = true ∧
      (getBlockHash (loneVote 105 [0x51] [1]).node 5).1.isSome = true := by
    decide +kernel
  have harrives : Arrives hash256 (CMasternodePayments.recordLastVote {} ⟨7, 0⟩ 105)
      (loneVote 105 [0x51] [1]) :=
    ⟨rfl, ⟨rfl, by decide⟩, AList.notMem_empty _, by decide, rfl, hchecks.2.1⟩
  have hcounts : Counts hash256 loneVerifier (loneVote 105 [0x51] [1]) :=
    ⟨hchecks.2.2.1, hchecks.2.2.2⟩
  refine (badVote_no_trace_iff hchecks.1 ⟨loneVote 105 [0x51] [1], rfl, rfl, harrives,
    hcounts⟩).1.mpr (fun _ => ?_) _
  exact lastTried_recordLastVote rfl rfl

/-- A vote with a worthless signature, and the masternode's own vote after it. -/
theorem badVote_blocks :
    let bad := loneVote 105 [0x51] []
    let good := loneVote 105 [0x51] [1]
    bad.signed hash256 loneVerifier = false ∧
      (run (processMnw hash256 loneVerifier) {} [good]).votesFor 105 = 1 ∧
      (run (processMnw hash256 loneVerifier) {} [good]).winners = [good.winner] ∧
      (run (processMnw hash256 loneVerifier) {} [bad, good]).votesFor 105 = 0 ∧
      (run (processMnw hash256 loneVerifier) {} [bad, good]).winners = [] := by
  decide +kernel

end Alqo
