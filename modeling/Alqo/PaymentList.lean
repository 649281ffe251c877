import Alqo.PaymentVotes

/-!
# Pruning the payment votes (masternode-payments.cpp)

Votes are held under their hash and counted under their height. `CleanPaymentList` goes by the
height alone, so the votes of a height and their counts leave together.
-/

namespace Alqo
open Lib.Runs Function List

namespace CMasternodePayments

/-- What `CleanPaymentList` reads of the node. -/
structure CleanCall where
  /-- `TRY_LOCK(cs_main, locked)` -/
  fLocked : Bool := true
  /-- The height of `chainActive.Tip()`, if there is one. -/
  nTipHeight : Option Int
  /-- `mnodeman.size()` -/
  nMasternodes : Nat

/-- `std::max(int(mnodeman.size() * 1.25), 1000)` -/
def CleanCall.nLimit (c : CleanCall) : Int := max ((c.nMasternodes * 5 / 4 : Nat) : Int) 1000

/-- One turn of the loop of `CleanPaymentList`. -/
def cleanVote (nHeight nLimit : Int) (s : CMasternodePayments)
    (it : Sigma fun _ : uint256 => CMasternodePaymentWinner) : CMasternodePayments :=
  if nHeight - it.2.nBlockHeight > nLimit then
    { s with
      mapMasternodePayeeVotes := s.mapMasternodePayeeVotes.erase it.1
      mapMasternodeBlocks := update s.mapMasternodeBlocks it.2.nBlockHeight none }
  else s

/- The order of the votes is that of their arrival here. -/
def cleanPaymentList (s : CMasternodePayments) (c : CleanCall) : CMasternodePayments :=
  match c.nTipHeight with
  | none => s
  | some nHeight =>
    if ¬ c.fLocked then s
    else s.mapMasternodePayeeVotes.entries.foldl (cleanVote nHeight c.nLimit) s

/-- The votes held for a height. -/
def votesAt (s : CMasternodePayments) (nBlockHeight : Int) : List CMasternodePaymentWinner :=
  s.winners.filter fun w => w.nBlockHeight = nBlockHeight

section
variable {Hash : Bytes → uint256} {s : CMasternodePayments} {nHeight nLimit : Int}
  {d l : List (Sigma fun _ : uint256 => CMasternodePaymentWinner)}

theorem entries_foldl_cleanVote (hs : s.mapMasternodePayeeVotes.entries = d ++ l) :
    (l.foldl (cleanVote nHeight nLimit) s).mapMasternodePayeeVotes.entries =
      d ++ l.filter fun it => nHeight - it.2.nBlockHeight ≤ nLimit := by
  induction l generalizing s d with
  | nil => simpa using hs
  | cons it l ih =>
    rw [foldl_cons, filter_cons]
    by_cases hold : nHeight - it.2.nBlockHeight > nLimit
    · have hkey : it.1 ∉ d.keys := by
        have hnodup := s.mapMasternodePayeeVotes.nodupKeys
        rw [hs, List.NodupKeys, List.keys, map_append, map_cons,
          nodup_middle, nodup_cons, mem_append, not_or] at hnodup
        exact hnodup.1.1
      rw [if_neg (by simpa only [decide_eq_true_eq, not_le] using hold), cleanVote, if_pos hold]
      apply ih
      show List.kerase it.1 s.mapMasternodePayeeVotes.entries = d ++ l
      rw [hs, kerase_append_right hkey, kerase_cons_eq rfl]
    · rw [if_pos (by simpa only [decide_eq_true_eq, not_lt] using hold), cleanVote, if_neg hold]
      rw [ih (d := d ++ [it]) (by simpa using hs), append_assoc, singleton_append]

theorem blocks_foldl_cleanVote (h : Int) :
    (l.foldl (cleanVote nHeight nLimit) s).mapMasternodeBlocks h =
      if nHeight - h > nLimit ∧ ∃ it ∈ l, it.2.nBlockHeight = h then none
      else s.mapMasternodeBlocks h := by
  induction l generalizing s with
  | nil => simp
  | cons it l ih =>
    rw [foldl_cons, ih, cleanVote]
    simp only [exists_mem_cons_iff]
    by_cases hh : it.2.nBlockHeight = h
    · subst hh
      by_cases hold : nHeight - it.2.nBlockHeight > nLimit
      · simp only [hold, true_and, true_or, if_true, update_self, ite_self]
      · simp only [hold, false_and, if_false]
    · simp only [hh, false_or]
      split_ifs
      · rfl
      · exact update_of_ne (Ne.symm hh) _ _
      · rfl

/-- A height leaves both maps or neither. -/
def LeavesTogether (s t : CMasternodePayments) (h : Int) : Prop :=
  s.votesAt h ≠ [] ∧ t.votesAt h = [] ∧ t.mapMasternodeBlocks h = none ∨
    t.votesAt h = s.votesAt h ∧ t.mapMasternodeBlocks h = s.mapMasternodeBlocks h

theorem cleanPaymentList_leavesTogether (s : CMasternodePayments) (c : CleanCall) (h : Int) :
    LeavesTogether s (s.cleanPaymentList c) h := by
  unfold cleanPaymentList
  cases c.nTipHeight with
  | none => exact .inr ⟨rfl, rfl⟩
  | some nHeight =>
    dsimp only
    by_cases hlocked : c.fLocked = true
    swap
    · rw [if_pos hlocked]
      exact .inr ⟨rfl, rfl⟩
    rw [if_neg (not_not.mpr hlocked)]
    have hvotes : (s.mapMasternodePayeeVotes.entries.foldl (cleanVote nHeight c.nLimit) s).votesAt h
        = (s.votesAt h).filter fun _ => nHeight - h ≤ c.nLimit := by
      rw [votesAt, votesAt, winners, winners, entries_foldl_cleanVote (d := []) rfl,
        nil_append, filter_filter, filter_map, filter_map, filter_filter]
      congr 2
      funext it
      by_cases hh : it.2.nBlockHeight = h
      · simp [hh]
      · simp [hh]
    rw [LeavesTogether, hvotes, blocks_foldl_cleanVote]
    by_cases hold : nHeight - h > c.nLimit
    · rw [filter_eq_nil_iff.mpr fun _ _ => by simpa only [decide_eq_true_eq, not_le] using hold]
      by_cases hnone : s.votesAt h = []
      · refine .inr ⟨hnone.symm, if_neg ?_⟩
        rintro ⟨-, it, hit, hh⟩
        exact filter_eq_nil_iff.mp hnone it.2 (mem_map_of_mem hit) (by simpa using hh)
      · obtain ⟨w, hw⟩ := exists_mem_of_ne_nil _ hnone
        obtain ⟨hin, hh⟩ := mem_filter.mp hw
        obtain ⟨it, hit, rfl⟩ := mem_map.mp hin
        exact .inl ⟨hnone, rfl, if_pos ⟨hold, it, hit, by simpa using hh⟩⟩
    · rw [if_neg fun hboth => hold hboth.1,
        filter_eq_self.mpr fun _ _ => by simpa only [decide_eq_true_eq, not_lt] using hold]
      exact .inr ⟨rfl, rfl⟩

/-- What stands in `vecPayments` for a payee with `n` votes. -/
def payeeEntry (payee : CScript) : Nat → List CMasternodePayee
  | 0 => []
  | n + 1 => [⟨payee, n + 1⟩]

def PayeesTallied (s : CMasternodePayments) : Prop :=
  ∀ h payee, (((s.mapMasternodeBlocks h).getD []).filter fun p => p.scriptPubKey = payee) =
    payeeEntry payee ((s.votesAt h).countP fun w => w.payee = payee)

theorem filter_addPayee_ne {payee payeeIn : CScript} (hne : payeeIn ≠ payee)
    (payees : List CMasternodePayee) :
    ((addPayee payeeIn 1 payees).filter fun p => p.scriptPubKey = payee) =
      payees.filter fun p => p.scriptPubKey = payee := by
  induction payees with
  | nil => simp [addPayee, hne]
  | cons p payees ih =>
    rw [addPayee]
    split_ifs with hin
    · simp [hin, hne]
    · simp only [filter_cons, ih]

theorem filter_addPayee_self {payee : CScript} {payees : List CMasternodePayee} {n : Nat}
    (h : (payees.filter fun p => p.scriptPubKey = payee) = payeeEntry payee n) :
    ((addPayee payee 1 payees).filter fun p => p.scriptPubKey = payee) =
      payeeEntry payee (n + 1) := by
  induction payees with
  | nil =>
    cases n with
    | zero => simp [addPayee, payeeEntry]
    | succ n => cases h
  | cons p payees ih =>
    rw [addPayee]
    split_ifs with hp
    · rw [filter_cons_of_pos (by simpa using hp)] at h ⊢
      cases n with
      | zero => cases h
      | succ n =>
        obtain ⟨rfl, hrest⟩ := List.cons.inj h
        rw [hrest]
        rfl
    · rw [filter_cons_of_neg (by simpa using hp)] at h ⊢
      exact ih h

theorem votesAt_countVote {w : CMasternodePaymentWinner}
    (hnew : w.getHash Hash ∉ s.mapMasternodePayeeVotes) (h : Int) :
    (s.countVote Hash w).votesAt h =
      if w.nBlockHeight = h then w :: s.votesAt h else s.votesAt h := by
  rw [votesAt, winners_countVote hnew, filter_cons]
  simp only [decide_eq_true_eq, votesAt]

theorem payeesTallied_countVote {w : CMasternodePaymentWinner}
    (hnew : w.getHash Hash ∉ s.mapMasternodePayeeVotes) (hs : PayeesTallied s) :
    PayeesTallied (s.countVote Hash w) := by
  intro h payee
  rw [votesAt_countVote hnew]
  by_cases hh : w.nBlockHeight = h
  · subst hh
    have hblocks : (s.countVote Hash w).mapMasternodeBlocks w.nBlockHeight =
        some (addPayee w.payee 1 ((s.mapMasternodeBlocks w.nBlockHeight).getD [])) :=
      update_self _ _ _
    rw [hblocks, if_pos rfl, Option.getD_some, countP_cons]
    by_cases hp : w.payee = payee
    · subst hp
      rw [filter_addPayee_self (hs _ _)]
      simp
    · rw [filter_addPayee_ne hp, hs]
      simp [hp]
  · have hblocks : (s.countVote Hash w).mapMasternodeBlocks h = s.mapMasternodeBlocks h :=
      update_of_ne (Ne.symm hh) _ _
    rw [hblocks, if_neg hh]
    exact hs h payee

end

inductive PaymentCall where
  | addWinningMasternode (node : ScoreNode) (winnerIn : CMasternodePaymentWinner)
  | cleanPaymentList (c : CleanCall)

def paymentStep (Hash : Bytes → uint256) (s : CMasternodePayments) :
    PaymentCall → CMasternodePayments
  | .addWinningMasternode node winnerIn => (s.addWinningMasternode Hash node winnerIn).2
  | .cleanPaymentList c => s.cleanPaymentList c

theorem payeesTallied_step (Hash : Bytes → uint256) (s : CMasternodePayments) (call : PaymentCall)
    (hs : PayeesTallied s) : PayeesTallied (paymentStep Hash s call) := by
  cases call with
  | addWinningMasternode node winnerIn =>
    dsimp only [paymentStep]
    unfold addWinningMasternode
    split
    · exact hs
    · split_ifs with hseen
      · exact hs
      · exact payeesTallied_countVote hseen hs
  | cleanPaymentList c =>
    intro h payee
    dsimp only [paymentStep]
    rcases cleanPaymentList_leavesTogether s c h with ⟨-, hvotes, hblocks⟩ | ⟨hvotes, hblocks⟩
    · rw [hvotes, hblocks]
      rfl
    · rw [hvotes, hblocks]
      exact hs h payee

theorem payee_counts_match_votes (Hash : Bytes → uint256) (calls : List PaymentCall) :
    Always (paymentStep Hash) (fun s =>
        (∀ h payee, (((s.mapMasternodeBlocks h).getD []).filter fun p => p.scriptPubKey = payee) =
          payeeEntry payee (s.winners.countP fun w => w.nBlockHeight = h ∧ w.payee = payee)) ∧
        ∀ c h, LeavesTogether s (s.cleanPaymentList c) h) {} calls := by
  have htallied := always_of_step (payeesTallied_step Hash) {} calls fun _ _ => rfl
  refine htallied.mono fun s hs => ⟨fun h payee => ?_, cleanPaymentList_leavesTogether s⟩
  rw [hs h payee, votesAt, countP_filter]
  congr 1
  refine countP_congr fun w _ => ?_
  simp [and_comm]

end CMasternodePayments

end Alqo
