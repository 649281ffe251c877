import Alqo.Lib.FirstSeen
import Alqo.LockedInputs

/-!
# Votes for a lock that do not verify (swifttx.cpp)

A `txlvote` is noted under `GetHash`, which leaves out the height and the signature, before anything
about it is checked.
-/

namespace Alqo
open Lib.Runs Lib.FirstSeen Function List

namespace SwiftTx

abbrev LockVote := CConsensusVote × SwiftContext

section
variable (Hash : Bytes → uint256) (v : Verifier CConsensusVote)

def hearVote (s : SwiftTx) (m : LockVote) : SwiftTx := s.processTxlvote Hash v m.2 m.1

def noted (m : LockVote) : Option uint256 := if m.2.listens then some m.1.getHash else none

def genuine (m : LockVote) : Bool := voteValid Hash v m.2 m.1

def hasVote (s : SwiftTx) (k : uint256) : Bool := (s.mapTxLockVote k).isSome

def countVote (votes : uint256 → Option (Int × List CConsensusVote)) (m : LockVote) :
    uint256 → Option (Int × List CConsensusVote) :=
  if m.2.listens then
    update votes m.1.txHash
      (some (((votes m.1.txHash).getD (0, [])).1, ((votes m.1.txHash).getD (0, [])).2 ++ [m.1]))
  else votes

end

section
variable {Hash : Bytes → uint256} {v : Verifier CConsensusVote} {s : SwiftTx}
  {ctx : SwiftContext} {vote : CConsensusVote}

theorem processTxlvote_noted (hlisten : ctx.listens = true)
    (hseen : s.mapTxLockVote vote.getHash = none) :
    (s.processTxlvote Hash v ctx vote).mapTxLockVote =
        update s.mapTxLockVote vote.getHash (some vote) ∧
      (s.processTxlvote Hash v ctx vote).votesOf =
        if voteValid Hash v ctx vote then (s.addSignature ctx vote).votesOf else s.votesOf := by
  unfold processTxlvote processConsensusVote
  rw [if_neg (by simp [hlisten]), if_neg (by simp [hseen])]
  cases hvalid : voteValid Hash v ctx vote with
  | false => exact ⟨rfl, rfl⟩
  | true =>
    rw [if_neg (by simp), if_pos rfl]
    dsimp only
    split
    · exact ⟨rfl, rfl⟩
    · split_ifs
      · obtain ⟨hvotes, hnoted, -⟩ := completeLock_frame (addSignature { s with
              mapTxLockVote := update s.mapTxLockVote vote.getHash (some vote) }
            ctx vote)
          ctx vote.txHash
        exact ⟨hnoted, hvotes.votesOf⟩
      · exact ⟨rfl, rfl⟩

theorem processTxlvote_ignored (h : ctx.listens = false ∨ (s.mapTxLockVote vote.getHash).isSome) :
    s.processTxlvote Hash v ctx vote = s := by
  unfold processTxlvote
  rcases h with hlisten | hseen
  · rw [if_pos (by simp [hlisten])]
  · rw [if_pos hseen, ite_self]

theorem addSignature_countVote (hlisten : ctx.listens = true) :
    (s.addSignature ctx vote).votesOf = countVote s.votesOf (vote, ctx) := by
  funext h
  rw [addSignature_votesOf, countVote, if_pos hlisten, update_apply]

variable (Hash v) in
theorem hearVote_screens :
    Screens noted (genuine Hash v) (hearVote Hash v) votesOf hasVote countVote := by
  refine ⟨?_, ?_, ?_, ?_⟩
  · rintro s ⟨vote, ctx⟩ k
    unfold hearVote mark noted hasVote
    cases hlisten : ctx.listens with
    | false =>
      rw [processTxlvote_ignored (.inl hlisten)]
      simp
    | true =>
      cases hseen : s.mapTxLockVote vote.getHash with
      | some noted =>
        rw [processTxlvote_ignored (.inr (by rw [hseen]; rfl))]
        by_cases hk : vote.getHash = k
        · simp [← hk, hseen]
        · simp [hk]
      | none =>
        rw [(processTxlvote_noted hlisten hseen).1, update_apply]
        by_cases hk : k = vote.getHash
        · simp [hk]
        · simp [hk, Ne.symm hk]
  · rintro s ⟨vote, ctx⟩ hstale
    unfold fresh noted at hstale
    cases hlisten : ctx.listens with
    | false => rw [hearVote, processTxlvote_ignored (.inl hlisten)]
    | true =>
      simp only [hlisten, if_true, Bool.not_eq_false'] at hstale
      rw [hearVote, processTxlvote_ignored (.inr hstale)]
  · rintro s ⟨vote, ctx⟩ hbad
    unfold genuine at hbad
    by_cases hact : ctx.listens = true ∧ s.mapTxLockVote vote.getHash = none
    · rw [hearVote, (processTxlvote_noted hact.1 hact.2).2, hbad]
      rfl
    · rw [hearVote, processTxlvote_ignored]
      rw [not_and_or, Bool.not_eq_true] at hact
      exact hact.imp_right Option.isSome_iff_ne_none.mpr
  · rintro s ⟨vote, ctx⟩ hfresh hgood
    unfold fresh noted at hfresh
    unfold genuine at hgood
    cases hlisten : ctx.listens with
    | false => rw [hearVote, processTxlvote_ignored (.inl hlisten), countVote, hlisten]; rfl
    | true =>
      simp only [hlisten, if_true, Bool.not_eq_true', hasVote, Option.isSome_eq_false_iff,
        Option.isNone_iff_eq_none] at hfresh
      rw [hearVote, (processTxlvote_noted hlisten hfresh).2, hgood, if_pos rfl,
        addSignature_countVote hlisten]

theorem votes_foldl_countVote (votes : uint256 → Option (Int × List CConsensusVote))
    (ms : List LockVote) (h : uint256) :
    ((ms.foldl countVote votes h).getD (0, [])).2 = ((votes h).getD (0, [])).2 ++
      (ms.filter fun m => m.2.listens && m.1.txHash == h).map (·.1) := by
  induction ms generalizing votes with
  | nil => simp
  | cons m ms ih =>
    rw [foldl_cons, ih, countVote]
    cases hlisten : m.2.listens with
    | false =>
      rw [if_neg (by decide), filter_cons_of_neg (by simp [hlisten])]
    | true =>
      rw [if_pos rfl, update_apply]
      by_cases hh : h = m.1.txHash
      · rw [if_pos hh, filter_cons_of_pos (by simp [hlisten, hh]), hh]
        simp
      · rw [if_neg hh, filter_cons_of_neg (by simp [Ne.symm hh])]

theorem exists_noted_of_foldl_eq {votes : uint256 → Option (Int × List CConsensusVote)}
    {ms ms' : List LockVote} (heq : ms.foldl countVote votes = ms'.foldl countVote votes)
    {k : uint256} (hk : ∃ m ∈ ms', noted m = some k) : ∃ m ∈ ms, noted m = some k := by
  obtain ⟨m, hm, hnoted⟩ := hk
  unfold noted at hnoted
  split_ifs at hnoted with hlisten
  have hvotes : ((ms.foldl countVote votes m.1.txHash).getD (0, [])).2 =
      ((ms'.foldl countVote votes m.1.txHash).getD (0, [])).2 := by rw [heq]
  rw [votes_foldl_countVote, votes_foldl_countVote] at hvotes
  have hlists := append_cancel_left hvotes
  have hmem : m.1 ∈ (ms'.filter fun m' => m'.2.listens && m'.1.txHash == m.1.txHash).map (·.1) :=
    mem_map.mpr ⟨m, mem_filter.mpr ⟨hm, by simp [hlisten]⟩, rfl⟩
  rw [← hlists] at hmem
  obtain ⟨m', hm', hsame⟩ := mem_map.mp hmem
  obtain ⟨hmem', hheard⟩ := mem_filter.mp hm'
  rw [Bool.and_eq_true] at hheard
  refine ⟨m', hmem', ?_⟩
  rw [noted, if_pos hheard.1, hsame]
  exact hnoted

end

/- From any state, the bad votes of a list leave no trace in the locks exactly if none of
them comes first under the identifier of a genuine vote that has not been noted before. -/
theorem badVotes_no_trace_iff (Hash : Bytes → uint256) (v : Verifier CConsensusVote)
    (s : SwiftTx) (ms : List LockVote) :
    (run (hearVote Hash v) s ms).votesOf =
        (run (hearVote Hash v) s (ms.filter (genuine Hash v))).votesOf ↔
      Unshadowed noted (genuine Hash v) s.hasVote ms := by
  rw [(hearVote_screens Hash v).run, (hearVote_screens Hash v).run]
  constructor
  · intro heq
    by_contra hlost
    obtain ⟨k, hk, hnone⟩ := exists_lost hlost
    obtain ⟨m, hm, hnoted⟩ := exists_noted_of_foldl_eq heq hk
    exact hnone m hm hnoted
  · intro h
    rw [counted_filter_iff.mpr h]

def signedVerifier : Verifier CConsensusVote where
  verifyHash _ _ vchSig := vchSig == [1]
  verifyMessage _ vchSig _ := vchSig == [1]

def firstVote (vchSig : Bytes) : LockVote :=
  ({ vinMasternode := { prevout := ⟨7, 0⟩ }, txHash := 1, nBlockHeight := 9, vchSig },
    sixContext true)

theorem unsignedVote_takes_identifier :
    let bad := firstVote [0]
    let vote := firstVote [1]
    genuine lengthHash signedVerifier bad = false ∧ genuine lengthHash signedVerifier vote = true ∧
      (run (hearVote lengthHash signedVerifier) {} [bad, vote]).votesOf 1 = none ∧
      (run (hearVote lengthHash signedVerifier) {} [vote]).votesOf 1 = some (0, [vote.1]) := by
  decide +kernel

end SwiftTx

end Alqo
