import Alqo.Lib.FirstSeen
import Alqo.BudgetDelivery

/-!
# Budget votes that are badly signed (masternode-budget.cpp)

A vote is noted under a hash that leaves out the signature, before the signature is checked. All a
badly signed vote does is that the genuine vote with its hash is ignored.
-/

namespace Alqo.BudgetVotes
open Lib.Runs Lib.FirstSeen

namespace VoteBook
variable {I V : Type}

def forget (s : VoteBook I V) : VoteBook I V := { s with mapSeenVotes := fun _ => none }

section
variable (L : ItemKind I) (K : VoteKind V) (ctx : BudgetContext) (s : VoteBook I V)

theorem checkOrphans_forget : s.forget.checkOrphans K ctx = (s.checkOrphans K ctx).forget := by
  refine (checkOrphans_withSeen K ctx s s.mapSeenItems _).trans ?_
  rw [checkOrphans_seen]
  rfl

theorem processItem_withVotes (mapSeenVotes : uint256 → Option V) (item : I) :
    { s with mapSeenVotes }.processItem L ctx item =
      ((s.processItem L ctx item).1, { (s.processItem L ctx item).2 with mapSeenVotes }) := by
  unfold processItem
  cases (s.mapSeenItems (L.getHash item)).isSome with
  | true => rfl
  | false =>
    rw [if_neg Bool.false_ne_true, if_neg Bool.false_ne_true]
    cases isBudgetCollateralValid ctx (L.nFeeTXHash item) (L.getHash item)
        L.fBudgetFinalization with
    | mk fValid nConf =>
      cases fValid with
      | false =>
        dsimp only
        split_ifs <;> rfl
      | true =>
        dsimp only
        unfold addItem
        split_ifs <;> rfl

theorem processItem_forget (item : I) : s.forget.processItem L ctx item =
    ((s.processItem L ctx item).1, (s.processItem L ctx item).2.forget) :=
  processItem_withVotes L ctx s _ item

end

section
variable {K : VoteKind V} {ctx : BudgetContext} {s : VoteBook I V} {vote : V}

theorem processVote_stale (h : (s.mapSeenVotes (K.getHash vote)).isSome = true ∨
      (ctx.mnodeman.find (K.vin vote).prevout).isNone = true) :
    s.processVote K ctx vote = s := by
  unfold processVote
  rcases h with hseen | hunknown
  · rw [if_pos hseen]
  · rw [if_pos hunknown, ite_self]

theorem processVote_fresh (hseen : s.mapSeenVotes (K.getHash vote) = none)
    (hknown : (ctx.mnodeman.find (K.vin vote).prevout).isSome = true) :
    (s.processVote K ctx vote).mapSeenVotes =
        Function.update s.mapSeenVotes (K.getHash vote) (some vote) ∧
      (s.processVote K ctx vote).forget =
        if K.checkSignature ctx.mnodeman vote then (s.forget.update K ctx true vote).2
        else s.forget := by
  unfold processVote
  rw [if_neg (by simp [hseen]), if_neg (by simp [Option.isSome_iff_ne_none.mp hknown])]
  cases hsig : K.checkSignature ctx.mnodeman vote with
  | false => exact ⟨rfl, rfl⟩
  | true =>
    rw [if_neg (by simp), if_pos rfl]
    have hupdate := update_withSeen K ctx s s.mapSeenItems
    refine ⟨by rw [update_seen]; rfl, ?_⟩
    exact (congrArg (fun r => r.2.forget) (hupdate _ true vote)).trans
      (congrArg Prod.snd (hupdate (fun _ => none) true vote)).symm

theorem processVote_seen (h : uint256) :
    ((s.processVote K ctx vote).mapSeenVotes h).isSome = ((s.mapSeenVotes h).isSome ||
      ((ctx.mnodeman.find (K.vin vote).prevout).isSome && decide (K.getHash vote = h))) := by
  by_cases hact : s.mapSeenVotes (K.getHash vote) = none ∧
      (ctx.mnodeman.find (K.vin vote).prevout).isSome = true
  · rw [(processVote_fresh hact.1 hact.2).1, hact.2, Function.update_apply, Bool.true_and]
    by_cases hh : h = K.getHash vote
    · simp [hh]
    · simp [hh, Ne.symm hh]
  · rw [not_and_or, Bool.not_eq_true] at hact
    rcases hact with hseen | hunknown
    · have hsome := Option.isSome_iff_ne_none.mpr hseen
      rw [processVote_stale (.inl hsome)]
      by_cases hh : K.getHash vote = h
      · rw [← hh, hsome, Bool.true_or]
      · simp [hh]
    · rw [processVote_stale (.inr (by simpa using hunknown)), hunknown, Bool.false_and,
        Bool.or_false]

theorem processVote_badSignature (h : K.checkSignature ctx.mnodeman vote = false) :
    (s.processVote K ctx vote).forget = s.forget := by
  by_cases hact : s.mapSeenVotes (K.getHash vote) = none ∧
      (ctx.mnodeman.find (K.vin vote).prevout).isSome = true
  · rw [(processVote_fresh hact.1 hact.2).2, h, if_neg Bool.false_ne_true]
  · rw [processVote_stale]
    rw [not_and_or, Bool.not_eq_true] at hact
    exact hact.imp Option.isSome_iff_ne_none.mpr (by simp)

theorem processItem_seen (s : VoteBook I V) (ctx : BudgetContext) (L : ItemKind I) (item : I) :
    (s.processItem L ctx item).2.mapSeenVotes = s.mapSeenVotes :=
  congrArg (fun r => r.2.mapSeenVotes) (processItem_withVotes L ctx s s.mapSeenVotes item)

theorem processVote_forget (h : s.mapSeenVotes (K.getHash vote) = none ∨
      (ctx.mnodeman.find (K.vin vote).prevout).isNone = true) :
    (s.forget.processVote K ctx vote).forget = (s.processVote K ctx vote).forget := by
  cases hknown : (ctx.mnodeman.find (K.vin vote).prevout).isSome with
  | false =>
    have hunknown : (ctx.mnodeman.find (K.vin vote).prevout).isNone = true := by
      simpa using hknown
    rw [processVote_stale (.inr hunknown), processVote_stale (.inr hunknown)]
    rfl
  | true =>
    have hseen : s.mapSeenVotes (K.getHash vote) = none := by
      rcases h with hseen | hunknown
      · exact hseen
      · rw [Option.isNone_iff_eq_none] at hunknown
        rw [hunknown] at hknown
        cases hknown
    rw [(processVote_fresh (s := s.forget) rfl hknown).2, (processVote_fresh hseen hknown).2]
    rfl

end

end VoteBook

inductive VoteId where
  | budgetVote (hash : uint256)
  | finalizedBudgetVote (hash : uint256)
deriving DecidableEq, Repr

def BudgetContext.hears (ctx : BudgetContext) : Bool := !ctx.fLiteMode && ctx.fBlockchainSynced

section
variable (keys : BudgetKeys)

def noted : BudgetMessage → Option VoteId
  | .mvote vote ctx =>
    if ctx.hears && (ctx.mnodeman.find vote.vin.prevout).isSome then
      some (.budgetVote (vote.getHash keys.Hash))
    else none
  | .fbvote vote ctx =>
    if ctx.hears && (ctx.mnodeman.find vote.vin.prevout).isSome then
      some (.finalizedBudgetVote (vote.getHash keys.Hash))
    else none
  | .mprop _ _ => none
  | .fbs _ _ => none

def wellSigned : BudgetMessage → Bool
  | .mvote vote ctx => (budgetVoteKind keys).checkSignature ctx.mnodeman vote
  | .fbvote vote ctx => (finalizedBudgetVoteKind keys).checkSignature ctx.mnodeman vote
  | .mprop _ _ => true
  | .fbs _ _ => true

namespace CBudgetManager

section
variable (s : CBudgetManager)

def hasSeen : VoteId → Bool
  | .budgetVote hash => (s.proposals.mapSeenVotes hash).isSome
  | .finalizedBudgetVote hash => (s.finalizedBudgets.mapSeenVotes hash).isSome

def forget : CBudgetManager where
  proposals := s.proposals.forget
  finalizedBudgets := s.finalizedBudgets.forget

def tally :
    (uint256 → uint256 → Option CBudgetVote) × (uint256 → uint256 → Option CFinalizedBudgetVote) :=
  (s.proposals.recorded, s.finalizedBudgets.recorded)

theorem tally_forget : s.forget.tally = s.tally := rfl

theorem checkOrphanVotes_forget (ctx : BudgetContext) (s : CBudgetManager) :
    s.forget.checkOrphanVotes keys ctx = (s.checkOrphanVotes keys ctx).forget := by
  unfold checkOrphanVotes forget
  rw [VoteBook.checkOrphans_forget, VoteBook.checkOrphans_forget]

theorem processMessage_eq (e : BudgetMessage) :
    s.processMessage keys e = if e.ctx.hears then s.handle keys e else s := by
  unfold processMessage BudgetContext.hears
  cases e.ctx.fLiteMode <;> cases e.ctx.fBlockchainSynced <;> rfl

theorem checkOrphanVotes_hasSeen (ctx : BudgetContext) (s : CBudgetManager) :
    (s.checkOrphanVotes keys ctx).hasSeen = s.hasSeen := by
  funext k
  cases k with
  | budgetVote hash =>
    exact congrArg (fun b => (b.mapSeenVotes hash).isSome)
      (VoteBook.checkOrphans_seen (budgetVoteKind keys) ctx s.proposals)
  | finalizedBudgetVote hash =>
    exact congrArg (fun b => (b.mapSeenVotes hash).isSome)
      (VoteBook.checkOrphans_seen (finalizedBudgetVoteKind keys) ctx s.finalizedBudgets)

theorem handle_hasSeen (e : BudgetMessage) (hears : e.ctx.hears = true) (k : VoteId) :
    (s.handle keys e).hasSeen k = mark (noted keys) s.hasSeen e k := by
  cases e with
  | mprop item ctx =>
    have hsame := VoteBook.processItem_seen s.proposals ctx (proposalKind keys) item
    simp only [handle, mark, noted, reduceCtorEq, decide_false, Bool.or_false]
    cases hp : s.proposals.processItem (proposalKind keys) ctx item with
    | mk fReached proposals =>
      rw [hp] at hsame
      dsimp only at hsame
      cases fReached with
      | true =>
        rw [checkOrphanVotes_hasSeen]
        cases k <;> simp [hasSeen, hsame]
      | false => cases k <;> simp [hasSeen, hsame]
  | fbs item ctx =>
    have hsame := VoteBook.processItem_seen s.finalizedBudgets ctx (finalizedBudgetKind keys) item
    simp only [handle, mark, noted, reduceCtorEq, decide_false, Bool.or_false]
    cases hp : s.finalizedBudgets.processItem (finalizedBudgetKind keys) ctx item with
    | mk fReached finalizedBudgets =>
      rw [hp] at hsame
      dsimp only at hsame
      cases fReached with
      | true =>
        rw [checkOrphanVotes_hasSeen]
        cases k <;> simp [hasSeen, hsame]
      | false => cases k <;> simp [hasSeen, hsame]
  | mvote vote ctx =>
    change ctx.hears = true at hears
    rw [mark, noted, hears, Bool.true_and]
    cases k with
    | budgetVote hash =>
      refine (VoteBook.processVote_seen hash).trans (congrArg _ ?_)
      change ((ctx.mnodeman.find vote.vin.prevout).isSome &&
        decide (vote.getHash keys.Hash = hash)) = _
      cases (ctx.mnodeman.find vote.vin.prevout).isSome <;> simp
    | finalizedBudgetVote hash =>
      cases (ctx.mnodeman.find vote.vin.prevout).isSome <;> simp [hasSeen, handle]
  | fbvote vote ctx =>
    change ctx.hears = true at hears
    rw [mark, noted, hears, Bool.true_and]
    cases k with
    | budgetVote hash =>
      cases (ctx.mnodeman.find vote.vin.prevout).isSome <;> simp [hasSeen, handle]
    | finalizedBudgetVote hash =>
      refine (VoteBook.processVote_seen hash).trans (congrArg _ ?_)
      change ((ctx.mnodeman.find vote.vin.prevout).isSome &&
        decide (vote.getHash keys.Hash = hash)) = _
      cases (ctx.mnodeman.find vote.vin.prevout).isSome <;> simp

end

variable {e : BudgetMessage} {s : CBudgetManager}

theorem noted_of_deaf (hdeaf : e.ctx.hears = false) : noted keys e = none := by
  cases e with
  | mprop item ctx => rfl
  | fbs item ctx => rfl
  | mvote vote ctx =>
    change ctx.hears = false at hdeaf
    rw [noted, hdeaf]
    rfl
  | fbvote vote ctx =>
    change ctx.hears = false at hdeaf
    rw [noted, hdeaf]
    rfl

theorem handle_stale (hstale : fresh (noted keys) s.hasSeen e = false) : s.handle keys e = s := by
  unfold fresh at hstale
  cases e with
  | mprop item ctx => cases hstale
  | fbs item ctx => cases hstale
  | mvote vote ctx =>
    rw [noted] at hstale
    split_ifs at hstale
    · have hseen : (s.proposals.mapSeenVotes (vote.getHash keys.Hash)).isSome = true := by
        simpa [hasSeen] using hstale
      rw [handle, VoteBook.processVote_stale (.inl hseen)]
  | fbvote vote ctx =>
    rw [noted] at hstale
    split_ifs at hstale
    · have hseen : (s.finalizedBudgets.mapSeenVotes (vote.getHash keys.Hash)).isSome = true := by
        simpa [hasSeen] using hstale
      rw [handle, VoteBook.processVote_stale (.inl hseen)]

theorem handle_badSignature (hbad : wellSigned keys e = false) :
    (s.handle keys e).forget = s.forget := by
  cases e with
  | mprop item ctx => cases hbad
  | fbs item ctx => cases hbad
  | mvote vote ctx => rw [handle, forget, VoteBook.processVote_badSignature hbad]; rfl
  | fbvote vote ctx => rw [handle, forget, VoteBook.processVote_badSignature hbad]; rfl

theorem handle_forget (hears : e.ctx.hears = true)
    (hfresh : fresh (noted keys) s.hasSeen e = true) : (s.forget.handle keys e).forget = (s.handle keys e).forget := by
  unfold fresh at hfresh
  cases e with
  | mprop item ctx =>
    have hitem := VoteBook.processItem_forget (proposalKind keys) ctx s.proposals item
    have hsame : s.forget.proposals = s.proposals.forget := rfl
    rw [handle, handle, hsame, hitem]
    cases s.proposals.processItem (proposalKind keys) ctx item with
    | mk fReached proposals =>
      cases fReached with
      | true =>
        have horphans := congrArg forget (checkOrphanVotes_forget keys ctx { s with proposals })
        exact horphans
      | false => rfl
  | fbs item ctx =>
    have hitem := VoteBook.processItem_forget (finalizedBudgetKind keys) ctx s.finalizedBudgets item
    have hsame : s.forget.finalizedBudgets = s.finalizedBudgets.forget := rfl
    rw [handle, handle, hsame, hitem]
    cases s.finalizedBudgets.processItem (finalizedBudgetKind keys) ctx item with
    | mk fReached finalizedBudgets =>
      cases fReached with
      | true =>
        have horphans := congrArg forget (checkOrphanVotes_forget keys ctx { s with finalizedBudgets })
        exact horphans
      | false => rfl
  | mvote vote ctx =>
    change ctx.hears = true at hears
    have hvote : s.proposals.mapSeenVotes ((budgetVoteKind keys).getHash vote) = none ∨
        (ctx.mnodeman.find ((budgetVoteKind keys).vin vote).prevout).isNone = true := by
      rw [noted, hears, Bool.true_and] at hfresh
      split_ifs at hfresh with hknown
      · exact .inl (by simpa [hasSeen, budgetVoteKind] using hfresh)
      · exact .inr (by simpa [budgetVoteKind] using hknown)
    exact congrArg (fun proposals => CBudgetManager.mk proposals s.finalizedBudgets.forget)
      (VoteBook.processVote_forget hvote)
  | fbvote vote ctx =>
    change ctx.hears = true at hears
    have hvote : s.finalizedBudgets.mapSeenVotes ((finalizedBudgetVoteKind keys).getHash vote) =
          none ∨
        (ctx.mnodeman.find ((finalizedBudgetVoteKind keys).vin vote).prevout).isNone = true := by
      rw [noted, hears, Bool.true_and] at hfresh
      split_ifs at hfresh with hknown
      · exact .inl (by simpa [hasSeen, finalizedBudgetVoteKind] using hfresh)
      · exact .inr (by simpa [finalizedBudgetVoteKind] using hknown)
    exact congrArg (CBudgetManager.mk s.proposals.forget) (VoteBook.processVote_forget hvote)

theorem processMessage_screens :
    Screens (noted keys) (wellSigned keys) (processMessage keys) forget hasSeen
      (fun s e => (s.processMessage keys e).forget) := by
  refine ⟨?_, ?_, ?_, ?_⟩
  · intro s e k
    rw [processMessage_eq]
    cases hears : e.ctx.hears with
    | false => simp [mark, noted_of_deaf keys hears]
    | true => exact handle_hasSeen keys s e hears k
  · intro s e hstale
    rw [processMessage_eq, handle_stale keys hstale, ite_self]
  · intro s e hbad
    rw [processMessage_eq]
    split_ifs
    · exact handle_badSignature keys hbad
    · rfl
  · intro s e hfresh _
    rw [processMessage_eq, processMessage_eq]
    cases hears : e.ctx.hears with
    | false => rfl
    | true => exact (handle_forget keys hears hfresh).symm

end CBudgetManager

end

/- From any state, the votes recorded from a list of messages are those that its well-signed
messages leave when those are left out whose hash a badly signed vote has taken before them.
So the badly signed votes do not show in the tally exactly if these do not; in particular if
there are none. -/
theorem badlySigned_tally_iff (keys : BudgetKeys) (s : CBudgetManager) (ms : List BudgetMessage) :
    let step := CBudgetManager.processMessage keys
    let signed := ms.filter (wellSigned keys)
    let heard := counted (noted keys) (wellSigned keys) s.hasSeen ms
    (run step s ms).tally = (run step s heard).tally ∧
      ((run step s ms).tally = (run step s signed).tally ↔
        (run step s heard).tally = (run step s signed).tally) ∧
      (Unshadowed (noted keys) (wellSigned keys) s.hasSeen ms →
        (run step s ms).tally = (run step s signed).tally) := by
  intro step signed heard
  have hscreens := CBudgetManager.processMessage_screens keys
  have hheard : (run step s ms).tally = (run step s heard).tally := by
    rw [← CBudgetManager.tally_forget, hscreens.run_counted, CBudgetManager.tally_forget]
  refine ⟨hheard, by rw [hheard], fun hunshadowed => ?_⟩
  have hsigned : (run step s ms).forget = (run step s signed).forget := by
    rw [hscreens.run, hscreens.run, counted_filter_iff.mpr hunshadowed]
  rw [← CBudgetManager.tally_forget, hsigned, CBudgetManager.tally_forget]

def signedKeys : BudgetKeys where
  Hash := rollingHash
  budgetVote := ⟨fun _ _ vchSig => vchSig == [1], fun _ vchSig _ => vchSig == [1]⟩
  finalizedBudgetVote := ⟨fun _ _ vchSig => vchSig == [1], fun _ vchSig _ => vchSig == [1]⟩

theorem unsignedCopy_first :
    let vote := { schoolVote 0 with vchSig := [1] }
    let ms : List BudgetMessage :=
      [.mprop school schoolContext, .mvote (schoolVote 0) schoolContext, .mvote vote schoolContext]
    let step := CBudgetManager.processMessage signedKeys
    ms.map (wellSigned signedKeys) = [true, false, true] ∧
      (run step {} ms).proposals.recorded
        (school.getHash rollingHash) (outPointHash rollingHash ⟨7, 0⟩) = none ∧
      (run step {} (ms.filter (wellSigned signedKeys))).proposals.recorded
        (school.getHash rollingHash) (outPointHash rollingHash ⟨7, 0⟩) = some vote := by
  decide +kernel

end Alqo.BudgetVotes
