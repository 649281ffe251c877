import Alqo.BlockPayee
import Alqo.Lib.TopRanked

/-!
# Ranks and the payment queue (masternodeman.cpp, masternode.cpp)

Neither comparison breaks ties, so the order of the list can decide. `Check()` has been called on
the list, as in the model of the ranks.
-/

namespace Alqo
open Lib.TopRanked List

structure QueueView where
  Hash : Bytes → uint256
  score : ScoreNode
  payments : CMasternodePayments
  /-- `nTime` of the active block at a height -/
  blockTime : Nat → Int
  /-- `GetScriptForDestination(pubKeyCollateralAddress.GetID())` -/
  collateralScript : CMasternode → CScript
  /-- the hash of `vin` and `sigTime` -/
  vinHash : CMasternode → uint256
  /-- `GetMasternodeInputAge()` -/
  inputAge : CMasternode → Int
  nActiveProtocol : Int
  /-- `TRY_LOCK(cs_main, locked)` in `IsScheduled` -/
  fLocked : Bool := true

def countEnabled (nActiveProtocol : Int) (vMasternodes : List CMasternode) : Nat :=
  vMasternodes.countP fun mn => decide (nActiveProtocol ≤ mn.protocolVersion) && mn.fEnabled

def hasPayeeWithVotes (vecPayments : List CMasternodePayee) (payee : CScript) (nVotesReq : Int) :
    Bool :=
  vecPayments.any fun p => decide (nVotesReq ≤ p.nVotes) && p.scriptPubKey == payee

namespace QueueView
variable (view : QueueView)

def isScheduled (mn : CMasternode) (nNotBlockHeight : Int) : Bool :=
  if !view.fLocked || view.score.chainActive.isEmpty then false
  else
    (List.range 9).any fun i =>
      let h : Int := view.score.chainActive.length - 1 + i
      decide (h ≠ nNotBlockHeight) &&
        view.payments.getBlockPayee h == some (view.collateralScript mn)

/-- The walk of `GetLastPaid` down the chain. -/
def lastPaidFrom (mn : CMasternode) (nMnCount : Nat) : (n nHeight : Nat) → Int
  | _, 0 => 0
  | n, nHeight + 1 =>
    if nMnCount ≤ n then 0
    else if hasPayeeWithVotes ((view.payments.mapMasternodeBlocks (nHeight + 1)).getD [])
        (view.collateralScript mn) 2 then
      view.blockTime (nHeight + 1) + (getCompact (view.vinHash mn) % 150 : Nat)
    else lastPaidFrom mn nMnCount (n + 1) nHeight

def getLastPaid (nEnabled : Nat) (mn : CMasternode) : Int :=
  view.lastPaidFrom mn (5 * nEnabled / 4) 0 (view.score.chainActive.length - 1)

def secondsSincePayment (nAdjustedTime : Int) (nEnabled : Nat) (mn : CMasternode) : Int :=
  let sec := nAdjustedTime - view.getLastPaid nEnabled mn
  let month : Int := 60 * 60 * 24 * 30
  if sec < month then sec else month + getCompact (view.vinHash mn)

/-- A masternode that waits for a payment; `2.6 * 60`
seconds are 156. -/
def waits (nBlockHeight : Int) (fFilterSigTime : Bool) (nAdjustedTime : Int) (nMnCount : Nat)
    (mn : CMasternode) : Bool :=
  mn.fEnabled && decide (view.nActiveProtocol ≤ mn.protocolVersion) &&
    !view.isScheduled mn nBlockHeight &&
    !(fFilterSigTime && decide (mn.sigTime + nMnCount * 156 > nAdjustedTime)) &&
    decide ((nMnCount : Int) ≤ view.inputAge mn)

def waiting (nBlockHeight : Int) (fFilterSigTime : Bool) (m : CMasternodeMan) : List CMasternode :=
  m.vMasternodes.filter (view.waits nBlockHeight fFilterSigTime m.nAdjustedTime
    (countEnabled view.nActiveProtocol m.vMasternodes))

/-- Those that are left: everybody who waits if the filter leaves less than a third. -/
def queue (nBlockHeight : Int) (fFilterSigTime : Bool) (m : CMasternodeMan) : List CMasternode :=
  if fFilterSigTime && decide ((view.waiting nBlockHeight true m).length <
      countEnabled view.nActiveProtocol m.vMasternodes / 3) then
    view.waiting nBlockHeight false m
  else view.waiting nBlockHeight fFilterSigTime m

/-- The loop over the sorted list. -/
def payBest (m : CMasternodeMan) (nBlockHeight : Int) (nTenthNetwork : Nat) :
    ScoreNode → (nCountTenth : Nat) → (nHigh : uint256) → Option CMasternode →
      List (Int × COutPoint) → Option CMasternode
  | _, _, _, pBestMasternode, [] => pBestMasternode
  | s, nCountTenth, nHigh, pBestMasternode, entry :: rest =>
    match m.find entry.2 with
    | none => pBestMasternode
    | some pmn =>
      let n := calculateScore view.Hash s pmn (nBlockHeight - 100)
      let nHigh' := if nHigh < n.1 then n.1 else nHigh
      let pBestMasternode' := if nHigh < n.1 then some pmn else pBestMasternode
      if nTenthNetwork ≤ nCountTenth + 1 then pBestMasternode'
      else payBest m nBlockHeight nTenthNetwork n.2 (nCountTenth + 1) nHigh' pBestMasternode' rest

def getNextMasternodeInQueueForPayment (nBlockHeight : Int) (fFilterSigTime : Bool)
    (m : CMasternodeMan) : Option CMasternode :=
  let nEnabled := countEnabled view.nActiveProtocol m.vMasternodes
  let vecMasternodeLastPaid := (view.queue nBlockHeight fFilterSigTime m).map fun mn =>
    (view.secondsSincePayment m.nAdjustedTime nEnabled mn, mn.prevout)
  view.payBest m nBlockHeight (nEnabled / 10) view.score 0 0 none
    (vecMasternodeLastPaid.insertionSort fun a b => b.1 ≤ a.1)

end QueueView

section
variable (Hash : Bytes → uint256) (s : ScoreNode)

theorem masternodeScores_eq (h : Int) (mns : List CMasternode) : (masternodeScores Hash h s mns).1 =
      mns.map fun mn => (getCompact (calculateScore Hash s mn h).1, mn.prevout) := by
  induction mns generalizing s with
  | nil => rfl
  | cons mn rest ih =>
    simp only [masternodeScores, map_cons, ih, List.cons.injEq, true_and]
    refine map_congr_left fun other _ => ?_
    rw [calculateScore_congr Hash _ s other h (calculateScore_answer Hash s mn h)]

def rankOrder (h : Int) (mns : List CMasternode) :
    List CMasternode :=
  sortDesc (fun mn => getCompact (calculateScore Hash s mn h).1) mns

theorem getMasternodeRank_eq (m : CMasternodeMan) (prevout : COutPoint) (h minProtocol : Int)
    (fOnlyActive : Bool) :
    (getMasternodeRank Hash s m prevout h minProtocol fOnlyActive).1 =
      match (getBlockHash s h).1 with
      | none => -1
      | some _ =>
        match (rankOrder Hash s h (m.ranked minProtocol fOnlyActive)).findIdx?
          fun mn => mn.prevout == prevout with
        | none => -1
        | some i => (i : Int) + 1 := by
  have hafter : ∀ mn, (calculateScore Hash (getBlockHash s h).2 mn h).1 =
      (calculateScore Hash s mn h).1 :=
    fun mn => calculateScore_congr Hash _ s mn h (getBlockHash_again s h)
  have hscores := masternodeScores_eq Hash (getBlockHash s h).2 h (m.ranked minProtocol fOnlyActive)
  simp only [hafter] at hscores
  unfold getMasternodeRank
  rcases hblock : getBlockHash s h with ⟨answer, after⟩
  rw [hblock] at hscores
  cases answer with
  | none => rfl
  | some hash =>
    simp only [hscores, insertionSort_map_key, findIdx?_map, rankOrder, Function.comp_def]
    cases (sortDesc (fun mn => getCompact (calculateScore Hash s mn h).1)
      (m.ranked minProtocol fOnlyActive)).findIdx? fun mn => mn.prevout == prevout with
    | none => rfl
    | some i => rfl

end

def CMasternodeMan.reordered (m : CMasternodeMan) (l : List CMasternode) : CMasternodeMan :=
  { m with vMasternodes := l }

section
variable {Hash : Bytes → uint256} {s : ScoreNode} {m : CMasternodeMan} {h minProtocol : Int}
  {fOnlyActive : Bool} {l pre post : List CMasternode} {a : CMasternode}

def RanksDecided (Hash : Bytes → uint256) (s : ScoreNode) (h : Int) (mns : List CMasternode) :
    Prop :=
  (getBlockHash s h).1 = none ∨ ∀ a ∈ mns, ∀ b ∈ mns, getCompact (calculateScore Hash s a h).1 =
      getCompact (calculateScore Hash s b h).1 → a = b

theorem ranked_perm (hperm : l.Perm m.vMasternodes) :
    ((m.reordered l).ranked minProtocol fOnlyActive).Perm (m.ranked minProtocol fOnlyActive) :=
  hperm.filter _

theorem rank_eq_of_decided (hdecided : RanksDecided Hash s h (m.ranked minProtocol fOnlyActive))
    (hperm : l.Perm m.vMasternodes) (prevout : COutPoint) :
    (getMasternodeRank Hash s (m.reordered l) prevout h minProtocol fOnlyActive).1 =
      (getMasternodeRank Hash s m prevout h minProtocol fOnlyActive).1 := by
  rw [getMasternodeRank_eq, getMasternodeRank_eq]
  rcases hdecided with hnone | hdistinct
  · rw [hnone]
  · have horder : rankOrder Hash s h ((m.reordered l).ranked minProtocol fOnlyActive) =
        rankOrder Hash s h (m.ranked minProtocol fOnlyActive) :=
      (sortDesc_eq_of_perm _ (ranked_perm hperm).symm hdistinct).symm
    rw [horder]

theorem findIdx?_prevout (hpre : ∀ b ∈ pre, b.prevout ≠ a.prevout) :
    (pre ++ a :: post).findIdx? (fun mn => mn.prevout == a.prevout) = some pre.length := by
  have hnone : pre.findIdx? (fun mn => mn.prevout == a.prevout) = none := by
    rw [findIdx?_eq_none_iff]
    intro b hb
    simpa using hpre b hb
  rw [findIdx?_append, hnone, Option.none_or, findIdx?_cons]
  simp

theorem rankOrder_nodup (hset : (l.map CMasternode.prevout).Nodup) (p : CMasternode → Bool) :
    ((rankOrder Hash s h (l.filter p)).map CMasternode.prevout).Nodup := by
  have hperm := (sortDesc_perm (fun mn => getCompact (calculateScore Hash s mn h).1)
    (l.filter p)).map CMasternode.prevout
  exact hperm.nodup_iff.mpr (hset.sublist (filter_sublist.map _))

theorem prevout_ne_of_nodup (hnodup : ((pre ++ a :: post).map CMasternode.prevout).Nodup) :
    ∀ b ∈ pre, b.prevout ≠ a.prevout := by
  intro b hb
  rw [map_append, map_cons, nodup_append] at hnodup
  exact hnodup.2.2 b.prevout (List.mem_map_of_mem hb) a.prevout mem_cons_self

theorem ranked_cons (ha : a ∈ m.ranked minProtocol fOnlyActive) (l : List CMasternode) :
    (m.reordered (a :: l)).ranked minProtocol fOnlyActive =
      a :: (m.reordered l).ranked minProtocol fOnlyActive := by
  have hq := (mem_filter.mp ha).2
  simp only [CMasternodeMan.ranked, CMasternodeMan.reordered, filter_cons]
  exact if_pos hq

theorem ranks_differ (hset : (m.vMasternodes.map CMasternode.prevout).Nodup) {hash : uint256}
    (hblock : (getBlockHash s h).1 = some hash) {b : CMasternode}
    (ha : a ∈ m.ranked minProtocol fOnlyActive) (hb : b ∈ m.ranked minProtocol fOnlyActive)
    (hne : a ≠ b)
    (htie : getCompact (calculateScore Hash s a h).1 = getCompact (calculateScore Hash s b h).1) :
    ∃ l l', l.Perm m.vMasternodes ∧ l'.Perm m.vMasternodes ∧
      (getMasternodeRank Hash s (m.reordered l) a.prevout h minProtocol fOnlyActive).1 ≠
        (getMasternodeRank Hash s (m.reordered l') a.prevout h minProtocol fOnlyActive).1 := by
  have hal := (mem_filter.mp ha).1
  have hbl := (mem_filter.mp hb).1
  let rest := (m.vMasternodes.erase a).erase b
  have hl : (a :: b :: rest).Perm m.vMasternodes :=
    (((perm_cons_erase ((mem_erase_of_ne hne.symm).mpr hbl)).symm).cons a).trans
      (perm_cons_erase hal).symm
  have hl' : (b :: a :: rest).Perm m.vMasternodes := (List.Perm.swap a b rest).trans hl
  refine ⟨_, _, hl, hl', ?_⟩
  rw [getMasternodeRank_eq, getMasternodeRank_eq, hblock]
  obtain ⟨pre, post, hfirst, hsecond⟩ := sortDesc_tie
    (fun mn => getCompact (calculateScore Hash s mn h).1) htie
    ((m.reordered rest).ranked minProtocol fOnlyActive)
  have hranked := (ranked_cons ha (b :: rest)).trans (congrArg (List.cons a) (ranked_cons hb rest))
  have hranked' := (ranked_cons hb (a :: rest)).trans (congrArg (List.cons b) (ranked_cons ha rest))
  have hnodup : ((pre ++ b :: a :: post).map CMasternode.prevout).Nodup := by
    rw [← hsecond, ← hranked']
    exact rankOrder_nodup ((hl'.map _).nodup_iff.mpr hset) _
  have hapart : ∀ c ∈ pre ++ [b], c.prevout ≠ a.prevout :=
    prevout_ne_of_nodup (by rw [← append_cons]; exact hnodup)
  have hplace : (rankOrder Hash s h ((m.reordered (a :: b :: rest)).ranked minProtocol
      fOnlyActive)).findIdx? (fun mn => mn.prevout == a.prevout) = some pre.length := by
    rw [rankOrder, hranked, hfirst]
    exact findIdx?_prevout fun c hc => hapart c (mem_append_left _ hc)
  have hplace' : (rankOrder Hash s h ((m.reordered (b :: a :: rest)).ranked minProtocol
      fOnlyActive)).findIdx? (fun mn => mn.prevout == a.prevout) = some (pre.length + 1) := by
    rw [rankOrder, hranked', hsecond, append_cons, findIdx?_prevout hapart]
    simp
  rw [hplace, hplace']
  show ((pre.length : Int) + 1) ≠ ((pre.length + 1 : Nat) : Int) + 1
  omega

end

variable {m : CMasternodeMan}

theorem find_of_mem (hset : (m.vMasternodes.map CMasternode.prevout).Nodup) {mn : CMasternode}
    (h : mn ∈ m.vMasternodes) : m.find mn.prevout = some mn := by
  obtain ⟨pre, post, hsplit⟩ := append_of_mem h
  rw [CMasternodeMan.find, hsplit]
  rw [hsplit] at hset
  rw [find?_append, find?_eq_none.mpr, Option.none_or]
  · simp
  · intro b hb
    simpa using prevout_ne_of_nodup hset b hb

theorem countEnabled_perm {nActiveProtocol : Int} {l l' : List CMasternode} (h : l.Perm l') :
    countEnabled nActiveProtocol l = countEnabled nActiveProtocol l' := h.countP_eq _

namespace QueueView
variable {view : QueueView} {m : CMasternodeMan} {nBlockHeight : Int} {fFilterSigTime : Bool}
  {l : List CMasternode}

def payScore (view : QueueView) (nBlockHeight : Int) (mn : CMasternode) : Nat :=
  (calculateScore view.Hash view.score mn (nBlockHeight - 100)).1.toNat

def nLooked (view : QueueView) (m : CMasternodeMan) : Nat :=
  max 1 (countEnabled view.nActiveProtocol m.vMasternodes / 10)

/-- `SecondsSincePayment()` with the list as it is. -/
def waitingTime (view : QueueView) (m : CMasternodeMan) : CMasternode → Int :=
  view.secondsSincePayment m.nAdjustedTime (countEnabled view.nActiveProtocol m.vMasternodes)

theorem payBest_eq (view : QueueView) (nBlockHeight : Int)
    (hset : (m.vMasternodes.map CMasternode.prevout).Nodup) (nTenthNetwork : Nat)
    (t : CMasternode → Int) {mns : List CMasternode} (hmns : ∀ mn ∈ mns, mn ∈ m.vMasternodes)
    {s : ScoreNode} (hs : (getBlockHash s (nBlockHeight - 100)).1 =
      (getBlockHash view.score (nBlockHeight - 100)).1)
    (nCountTenth : Nat) (nHigh : uint256) (winner : Option CMasternode) :
    view.payBest m nBlockHeight nTenthNetwork s nCountTenth nHigh winner
        (mns.map fun mn => (t mn, mn.prevout)) =
      best (view.payScore nBlockHeight) nHigh.toNat winner
        (mns.take (max 1 (nTenthNetwork - nCountTenth))) := by
  induction mns generalizing s nCountTenth nHigh winner with
  | nil => simp [payBest, best]
  | cons mn rest ih =>
    rw [forall_mem_cons] at hmns
    have hscore : (calculateScore view.Hash s mn (nBlockHeight - 100)).1 =
        (calculateScore view.Hash view.score mn (nBlockHeight - 100)).1 :=
      calculateScore_congr view.Hash s _ mn _ hs
    have hnext := (calculateScore_answer view.Hash s mn (nBlockHeight - 100)).trans hs
    simp only [map_cons, payBest, find_of_mem hset hmns.1, hscore, BitVec.lt_def]
    by_cases hstop : nTenthNetwork ≤ nCountTenth + 1
    · rw [if_pos hstop, show max 1 (nTenthNetwork - nCountTenth) = 0 + 1 by omega,
        take_succ_cons, take_zero, best, payScore]
      split_ifs
      · rfl
      · rfl
    · rw [if_neg hstop, ih hmns.2 hnext, show max 1 (nTenthNetwork - nCountTenth) =
        max 1 (nTenthNetwork - (nCountTenth + 1)) + 1 by omega, take_succ_cons, best, payScore]
      split_ifs
      · rfl
      · rfl

theorem waiting_subset (fFilterSigTime : Bool) :
    view.waiting nBlockHeight fFilterSigTime m ⊆ m.vMasternodes := filter_subset_self _

theorem queue_subset : view.queue nBlockHeight fFilterSigTime m ⊆ m.vMasternodes := by
  unfold queue
  split_ifs
  · exact waiting_subset false
  · exact waiting_subset fFilterSigTime

theorem getNext_eq (hset : (m.vMasternodes.map CMasternode.prevout).Nodup) :
    view.getNextMasternodeInQueueForPayment nBlockHeight fFilterSigTime m =
      bestOfTop (view.waitingTime m) (view.payScore nBlockHeight) 0 (view.nLooked m)
        (view.queue nBlockHeight fFilterSigTime m) := by
  have hmem : ∀ mn ∈ sortDesc (view.waitingTime m) (view.queue nBlockHeight fFilterSigTime m),
      mn ∈ m.vMasternodes := fun mn hmn => queue_subset ((mem_sortDesc _).mp hmn)
  have hloop := view.payBest_eq nBlockHeight hset
    (countEnabled view.nActiveProtocol m.vMasternodes / 10) (view.waitingTime m) hmem rfl 0 0 none
  rw [bestOfTop, nLooked]
  rw [Nat.sub_zero, show BitVec.toNat (0 : uint256) = 0 from rfl] at hloop
  rw [← hloop, ← insertionSort_map_key]
  rfl

theorem waiting_reordered (hperm : l.Perm m.vMasternodes) :
    view.waiting nBlockHeight fFilterSigTime (m.reordered l) =
      l.filter (view.waits nBlockHeight fFilterSigTime m.nAdjustedTime
        (countEnabled view.nActiveProtocol m.vMasternodes)) := by
  rw [← countEnabled_perm hperm]
  rfl

theorem exists_queue_eq_filter (view : QueueView) (m : CMasternodeMan) (nBlockHeight : Int)
    (fFilterSigTime : Bool) :
    ∃ p : CMasternode → Bool, ∀ l, l.Perm m.vMasternodes →
      view.queue nBlockHeight fFilterSigTime (m.reordered l) = l.filter p := by
  refine ⟨if fFilterSigTime && decide ((view.waiting nBlockHeight true m).length <
      countEnabled view.nActiveProtocol m.vMasternodes / 3) then
    view.waits nBlockHeight false m.nAdjustedTime (countEnabled view.nActiveProtocol m.vMasternodes)
    else view.waits nBlockHeight fFilterSigTime m.nAdjustedTime
      (countEnabled view.nActiveProtocol m.vMasternodes), fun l hperm => ?_⟩
  have hlen : (view.waiting nBlockHeight true (m.reordered l)).length =
      (view.waiting nBlockHeight true m).length := by
    rw [waiting_reordered hperm]
    exact (hperm.filter _).length_eq
  have hcount : countEnabled view.nActiveProtocol (m.reordered l).vMasternodes =
      countEnabled view.nActiveProtocol m.vMasternodes := countEnabled_perm hperm
  rw [queue, hlen, hcount]
  split_ifs
  · exact waiting_reordered hperm
  · exact waiting_reordered hperm

theorem getNext_reordered (hset : (m.vMasternodes.map CMasternode.prevout).Nodup)
    (hperm : l.Perm m.vMasternodes) :
    view.getNextMasternodeInQueueForPayment nBlockHeight fFilterSigTime (m.reordered l) =
      bestOfTop (view.waitingTime m) (view.payScore nBlockHeight) 0 (view.nLooked m)
        (view.queue nBlockHeight fFilterSigTime (m.reordered l)) := by
  have hcount : countEnabled view.nActiveProtocol (m.reordered l).vMasternodes =
      countEnabled view.nActiveProtocol m.vMasternodes := countEnabled_perm hperm
  have htime : view.waitingTime (m.reordered l) = view.waitingTime m := by
    rw [waitingTime, hcount]
    rfl
  have hlooked : view.nLooked (m.reordered l) = view.nLooked m := by
    rw [nLooked, hcount]
    rfl
  rw [getNext_eq ((hperm.map _).nodup_iff.mpr hset), htime, hlooked]

def QueueDecided (view : QueueView) (nBlockHeight : Int) (fFilterSigTime : Bool)
    (m : CMasternodeMan) : Prop :=
  Decided (view.waitingTime m) (view.payScore nBlockHeight) (view.nLooked m)
    (view.queue nBlockHeight fFilterSigTime m)

theorem next_free_iff (view : QueueView) (nBlockHeight : Int) (fFilterSigTime : Bool)
    (hset : (m.vMasternodes.map CMasternode.prevout).Nodup)
    (hscores : ∀ a ∈ m.vMasternodes, ∀ b ∈ m.vMasternodes,
      view.payScore nBlockHeight a = view.payScore nBlockHeight b → a = b) :
    (∀ l, l.Perm m.vMasternodes →
      view.getNextMasternodeInQueueForPayment nBlockHeight fFilterSigTime (m.reordered l) =
        view.getNextMasternodeInQueueForPayment nBlockHeight fFilterSigTime m) ↔
      view.QueueDecided nBlockHeight fFilterSigTime m := by
  obtain ⟨p, hqueue⟩ := exists_queue_eq_filter view m nBlockHeight fFilterSigTime
  have hself : view.queue nBlockHeight fFilterSigTime m = m.vMasternodes.filter p :=
    hqueue _ (List.Perm.refl _)
  have hinj : ∀ a ∈ m.vMasternodes.filter p, ∀ b ∈ m.vMasternodes.filter p,
      view.payScore nBlockHeight a = view.payScore nBlockHeight b → a = b :=
    fun a ha b hb => hscores a (mem_filter.mp ha).1 b (mem_filter.mp hb).1
  refine ⟨?_, ?_⟩
  · intro hfree
    by_contra hundecided
    rw [QueueDecided, hself] at hundecided
    have hnodup : (m.vMasternodes.filter p).Nodup := (hset.of_map _).filter _
    obtain ⟨e, he, hdiffer⟩ := exists_bestOfTop_ne hundecided hnodup hinj fun _ => Nat.zero_le _
    obtain ⟨hel, hpe⟩ := mem_filter.mp he
    have hfirst : (e :: m.vMasternodes.erase e).Perm m.vMasternodes :=
      (perm_cons_erase hel).symm
    have hlast : (m.vMasternodes.erase e ++ [e]).Perm m.vMasternodes :=
      (perm_append_singleton e _).trans hfirst
    have hboth := (hfree _ hfirst).trans (hfree _ hlast).symm
    rw [getNext_reordered hset hfirst, getNext_reordered hset hlast, hqueue _ hfirst,
      hqueue _ hlast, filter_cons_of_pos hpe, filter_append,
      filter_cons_of_pos hpe, filter_nil] at hboth
    refine hdiffer _ ?_ hboth
    rw [← filter_cons_of_pos hpe]
    exact hfirst.filter p
  · intro hdecided l hperm
    rw [getNext_reordered hset hperm, getNext_eq hset, hqueue l hperm]
    rw [QueueDecided, hself] at hdecided
    rw [hself]
    exact bestOfTop_eq_of_perm hdecided (by simp [nLooked]) hinj (hperm.filter p)

end QueueView

theorem ranks_free_iff {Hash : Bytes → uint256} {s : ScoreNode} {h minProtocol : Int}
    {fOnlyActive : Bool} (hset : (m.vMasternodes.map CMasternode.prevout).Nodup) :
    (∀ l, l.Perm m.vMasternodes → ∀ prevout,
      (getMasternodeRank Hash s (m.reordered l) prevout h minProtocol fOnlyActive).1 =
        (getMasternodeRank Hash s m prevout h minProtocol fOnlyActive).1) ↔
      RanksDecided Hash s h (m.ranked minProtocol fOnlyActive) := by
  refine ⟨?_, ?_⟩
  · intro hfree
    cases hblock : (getBlockHash s h).1 with
    | none => exact .inl hblock
    | some hash =>
      refine .inr fun a ha b hb htie => ?_
      by_contra hne
      obtain ⟨l, l', hl, hl', hdiffer⟩ := ranks_differ hset hblock ha hb hne htie
      exact hdiffer ((hfree l hl a.prevout).trans (hfree l' hl' a.prevout).symm)
  · intro hdecided l hperm prevout
    exact rank_eq_of_decided hdecided hperm prevout

/-- For masternodes with different outpoints and scores, no rank and no choice of the
next one to be paid depends on the order of the list if and only if no two ranked
ones have one compact score and none that ties for the last place looked at has the
best score. -/
theorem orderFree_iff (view : QueueView) (m : CMasternodeMan) (nRankHeight minProtocol : Int)
    (fOnlyActive : Bool) (nBlockHeight : Int) (fFilterSigTime : Bool)
    (hset : (m.vMasternodes.map CMasternode.prevout).Nodup)
    (hscores : ∀ a ∈ m.vMasternodes, ∀ b ∈ m.vMasternodes,
      (calculateScore view.Hash view.score a (nBlockHeight - 100)).1 =
        (calculateScore view.Hash view.score b (nBlockHeight - 100)).1 → a = b) :
    (∀ l, l.Perm m.vMasternodes →
      (∀ prevout, (getMasternodeRank view.Hash view.score (m.reordered l) prevout nRankHeight
          minProtocol fOnlyActive).1 =
        (getMasternodeRank view.Hash view.score m prevout nRankHeight minProtocol fOnlyActive).1) ∧
      view.getNextMasternodeInQueueForPayment nBlockHeight fFilterSigTime (m.reordered l) =
        view.getNextMasternodeInQueueForPayment nBlockHeight fFilterSigTime m) ↔
      RanksDecided view.Hash view.score nRankHeight (m.ranked minProtocol fOnlyActive) ∧
        view.QueueDecided nBlockHeight fFilterSigTime m := by
  have hnext := view.next_free_iff nBlockHeight fFilterSigTime hset
    fun a ha b hb heq => hscores a ha b hb (BitVec.eq_of_toNat_eq heq)
  rw [← ranks_free_iff hset, ← hnext]
  exact ⟨fun h => ⟨fun l hl => (h l hl).1, fun l hl => (h l hl).2⟩,
    fun h l hl => ⟨h.1 l hl, h.2 l hl⟩⟩

/-- Scores that differ in the last byte of the outpoint's hash, `shift` bits up. -/
def lowByteView (shift : Nat) : QueueView where
  Hash := fun bytes =>
    if bytes.length = 32 then 0
    else BitVec.ofNat 256 (2 ^ 200 + (bytes.getD 32 0).toNat * 2 ^ shift)
  score := { chainActive := [1, 2, 3] }
  payments := {}
  blockTime := fun _ => 0
  collateralScript := fun _ => []
  vinHash := fun mn => BitVec.ofNat 256 (mn.prevout.hash.toNat * shift)
  inputAge := fun _ => 10
  nActiveProtocol := 0

def mnOne : CMasternode := { prevout := ⟨1, 0⟩ }
def mnTwo : CMasternode := { prevout := ⟨2, 0⟩ }

def twoMasternodes : CMasternodeMan where
  vMasternodes := [mnOne, mnTwo]
  nAdjustedTime := 100000000

/-- Scores that differ in the bits that the compact form keeps. -/
theorem twoMasternodes_orderFree :
    let view := lowByteView 190
    ∀ l, l.Perm twoMasternodes.vMasternodes →
      (∀ prevout, (getMasternodeRank view.Hash view.score (twoMasternodes.reordered l) prevout 2
          0 true).1 =
        (getMasternodeRank view.Hash view.score twoMasternodes prevout 2 0 true).1) ∧
      view.getNextMasternodeInQueueForPayment 102 true (twoMasternodes.reordered l) =
        view.getNextMasternodeInQueueForPayment 102 true twoMasternodes :=
  (orderFree_iff (lowByteView 190) twoMasternodes 2 0 true 102 true (by decide)
    (by decide +kernel)).mpr ⟨.inr (by decide +kernel), by
      show Decided _ _ _ _
      decide +kernel⟩

/-- Scores that differ in their last byte only: who is listed first ranks first and
is paid. -/
theorem twoMasternodes_orderMatters :
    let view := lowByteView 0
    let swapped := twoMasternodes.reordered [mnTwo, mnOne]
    (calculateScore view.Hash view.score mnOne 2).1 ≠
        (calculateScore view.Hash view.score mnTwo 2).1 ∧
      (getMasternodeRank view.Hash view.score twoMasternodes mnOne.prevout 2 0 true).1 = 1 ∧
      (getMasternodeRank view.Hash view.score swapped mnOne.prevout 2 0 true).1 = 2 ∧
      view.getNextMasternodeInQueueForPayment 102 true twoMasternodes = some mnOne ∧
      view.getNextMasternodeInQueueForPayment 102 true swapped = some mnTwo := by
  decide +kernel

end Alqo
