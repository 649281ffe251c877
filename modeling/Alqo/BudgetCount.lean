import Alqo.BudgetVotes

/-!
# The vote count of a finalized budget (masternode-budget.h, masternode-budget.cpp)

`CleanAndRemove` marks votes of masternodes that are gone and leaves them in `mapVotes`;
`GetVoteCount` is the size of `mapVotes` and does not read the marks.
-/

namespace Alqo.BudgetVotes
open Lib.Runs List AList

structure MarkedVote where
  vote : CFinalizedBudgetVote
  fValid : Bool := true
deriving DecidableEq, Repr

structure Ballot (Hash : Bytes → uint256) where
  nBlockStart : Nat
  vecBudgetPayments : List CTxBudgetPayment
  mapVotes : AList fun _ : uint256 => MarkedVote
  filed : ∀ e ∈ mapVotes.entries, outPointHash Hash e.2.vote.vin.prevout = e.1

namespace Ballot
variable {Hash : Bytes → uint256} {b : Ballot Hash} {nTime : Int64} {vote : CFinalizedBudgetVote}
  {o : COutPoint}

def voters (b : Ballot Hash) : List COutPoint :=
  b.mapVotes.entries.map fun e => e.2.vote.vin.prevout

def getVoteCount (b : Ballot Hash) : Nat := b.mapVotes.entries.length

/- `mapVotes[hash] = vote`, unless the vote is from the future -/
def storeVote (b : Ballot Hash) (nTime : Int64) (vote : CFinalizedBudgetVote) : Ballot Hash :=
  if vote.nTime > nTime + 60 * 60 then b
  else
    { b with
      mapVotes := b.mapVotes.insert (outPointHash Hash vote.vin.prevout) { vote }
      filed := fun e he => by
        rw [entries_insert] at he
        rcases mem_cons.mp he with rfl | he
        · rfl
        · exact b.filed e ((kerase_sublist _ _).subset he) }

def addOrUpdateVote (b : Ballot Hash) (nTime : Int64) (vote : CFinalizedBudgetVote) :
    Ballot Hash :=
  match b.mapVotes.lookup (outPointHash Hash vote.vin.prevout) with
  | some old =>
    if old.vote.nTime > vote.nTime then b
    else if vote.nTime - old.vote.nTime < BUDGET_VOTE_UPDATE_MIN then b
    else b.storeVote nTime vote
  | none => b.storeVote nTime vote

def cleanAndRemove (b : Ballot Hash) (check : CFinalizedBudgetVote → Bool) : Ballot Hash :=
  { b with
    mapVotes := ⟨b.mapVotes.entries.map (.map id fun _ v => { v with fValid := check v.vote }),
      List.NodupKeys.map₂ _ _ b.mapVotes.nodupKeys⟩
    filed := fun e he => by
      obtain ⟨old, hold, rfl⟩ := mem_map.mp he
      exact b.filed old hold }

def listedVoters (m : CMasternodeMan) (b : Ballot Hash) : Finset COutPoint :=
  b.voters.toFinset.filter fun o => o ∈ m.vMasternodes.map CMasternode.prevout

theorem voters_nodup (b : Ballot Hash) : b.voters.Nodup := by
  have hkeys : b.voters.map (outPointHash Hash) = b.mapVotes.keys := by
    rw [voters, map_map]
    exact map_congr_left b.filed
  have hnodup := b.mapVotes.keys_nodup
  rw [← hkeys] at hnodup
  exact hnodup.of_map _

theorem getVoteCount_eq (b : Ballot Hash) : b.getVoteCount = b.voters.toFinset.card := by
  rw [toFinset_card_of_nodup b.voters_nodup, voters, length_map, getVoteCount]

theorem getVoteCount_eq_listed_iff (m : CMasternodeMan) (b : Ballot Hash) :
    b.getVoteCount = (b.listedVoters m).card ↔
      ∀ o ∈ b.voters, o ∈ m.vMasternodes.map CMasternode.prevout := by
  rw [getVoteCount_eq, listedVoters, eq_comm, Finset.card_filter_eq_iff]
  simp only [mem_toFinset]

theorem voters_cleanAndRemove (b : Ballot Hash) (check : CFinalizedBudgetVote → Bool) :
    (b.cleanAndRemove check).voters = b.voters := by
  rw [voters, cleanAndRemove, map_map]
  rfl

theorem mem_voters_storeVote (ho : o ∈ (b.storeVote nTime vote).voters) :
    o ∈ b.voters ∨ o = vote.vin.prevout := by
  unfold storeVote at ho
  split_ifs at ho
  · exact .inl ho
  · obtain ⟨e, he, rfl⟩ := mem_map.mp ho
    rw [entries_insert] at he
    rcases mem_cons.mp he with rfl | he
    · exact .inr rfl
    · exact .inl (mem_map.mpr ⟨e, (kerase_sublist _ _).subset he, rfl⟩)

theorem mem_voters_addOrUpdateVote (ho : o ∈ (b.addOrUpdateVote nTime vote).voters) :
    o ∈ b.voters ∨ o = vote.vin.prevout := by
  unfold addOrUpdateVote at ho
  split at ho
  · split_ifs at ho
    · exact .inl ho
    · exact .inl ho
    · exact mem_voters_storeVote ho
  · exact mem_voters_storeVote ho

def recorded (b : Ballot Hash) (voter : uint256) : Option CFinalizedBudgetVote :=
  (b.mapVotes.lookup voter).map MarkedVote.vote

theorem recorded_storeVote (keys : BudgetKeys) (b : Ballot keys.Hash) (nTime : Int64)
    (vote : CFinalizedBudgetVote) :
    (b.storeVote nTime vote).recorded =
      (BudgetVotes.storeVote (finalizedBudgetVoteKind keys) nTime b.recorded vote).2 := by
  funext k
  unfold storeVote BudgetVotes.storeVote recorded finalizedBudgetVoteKind
  split_ifs
  · rfl
  · dsimp only
    rw [Function.update_apply]
    by_cases hk : k = outPointHash keys.Hash vote.vin.prevout
    · rw [if_pos hk, hk, lookup_insert]
      rfl
    · rw [if_neg hk, lookup_insert_ne hk]

theorem recorded_addOrUpdateVote (keys : BudgetKeys) (b : Ballot keys.Hash) (nTime : Int64)
    (vote : CFinalizedBudgetVote) :
    (b.addOrUpdateVote nTime vote).recorded =
      (BudgetVotes.addOrUpdateVote (finalizedBudgetVoteKind keys) nTime b.recorded vote).2 := by
  unfold addOrUpdateVote BudgetVotes.addOrUpdateVote
  have hvoter : (finalizedBudgetVoteKind keys).voter vote =
      outPointHash keys.Hash vote.vin.prevout := rfl
  rw [hvoter, recorded]
  cases hold : b.mapVotes.lookup (outPointHash keys.Hash vote.vin.prevout) with
  | none => exact recorded_storeVote keys b nTime vote
  | some old =>
    have htime : ∀ v, (finalizedBudgetVoteKind keys).nTime v = v.nTime := fun _ => rfl
    dsimp only [Option.map_some]
    rw [htime, htime]
    split_ifs
    · rfl
    · rfl
    · exact recorded_storeVote keys b nTime vote

end Ballot

structure BudgetRoll (Hash : Bytes → uint256) where
  mnodeman : CMasternodeMan := { vMasternodes := [] }
  mapFinalizedBudgets : AList fun _ : uint256 => Ballot Hash := ∅

inductive RollEvent where
  /- The list of masternodes is another one. -/
  | masternodes (mnodeman : CMasternodeMan)
  /- `AddFinalizedBudget`, of a budget that is valid -/
  | addFinalizedBudget (hash : uint256) (nBlockStart : Nat)
      (vecBudgetPayments : List CTxBudgetPayment)
  /- `UpdateFinalizedBudget`, with `GetTime()` -/
  | updateFinalizedBudget (vote : CFinalizedBudgetVote) (nTime : Int64)
  /- The loop of `NewBlock` -/
  | cleanAndRemove (fSignatureCheck : Bool)
  /- `CheckAndRemove` drops a budget. -/
  | remove (hash : uint256)

namespace BudgetRoll
variable (keys : BudgetKeys)

def step (s : BudgetRoll keys.Hash) : RollEvent → BudgetRoll keys.Hash
  | .masternodes mnodeman => { s with mnodeman }
  | .addFinalizedBudget hash nBlockStart vecBudgetPayments =>
    if (s.mapFinalizedBudgets.lookup hash).isSome then s
    else
      { s with
        mapFinalizedBudgets :=
          s.mapFinalizedBudgets.insert hash ⟨nBlockStart, vecBudgetPayments, ∅, nofun⟩ }
  | .updateFinalizedBudget vote nTime =>
    match s.mapFinalizedBudgets.lookup vote.nBudgetHash with
    | none => s
    | some b =>
      { s with
        mapFinalizedBudgets :=
          s.mapFinalizedBudgets.insert vote.nBudgetHash (b.addOrUpdateVote nTime vote) }
  | .cleanAndRemove fSignatureCheck =>
    { s with
      mapFinalizedBudgets :=
        ⟨s.mapFinalizedBudgets.entries.map (.map id fun _ b => b.cleanAndRemove fun vote =>
            s.mnodeman.checkSignature vote.vin.prevout fSignatureCheck
              (keys.finalizedBudgetVote.checkSignature vote.nMessVersion (vote.getHash keys.Hash)
                vote vote.vchSig)),
          List.NodupKeys.map₂ _ _ s.mapFinalizedBudgets.nodupKeys⟩ }
  | .remove hash => { s with mapFinalizedBudgets := s.mapFinalizedBudgets.erase hash }

variable {keys} (s : BudgetRoll keys.Hash)

def budgets (count : Ballot keys.Hash → Nat) : List Alqo.CFinalizedBudget :=
  s.mapFinalizedBudgets.entries.map fun e =>
    ⟨e.2.nBlockStart, e.2.vecBudgetPayments, count e.2⟩

def CountsListed : Prop :=
  s.budgets Ballot.getVoteCount = s.budgets fun b => (b.listedVoters s.mnodeman).card

def VotersListed : Prop :=
  ∀ e ∈ s.mapFinalizedBudgets.entries, ∀ o ∈ e.2.voters,
    o ∈ s.mnodeman.vMasternodes.map CMasternode.prevout

def Stays : RollEvent → Prop
  | .masternodes mnodeman => ∀ e ∈ s.mapFinalizedBudgets.entries, ∀ o ∈ e.2.voters,
      o ∈ mnodeman.vMasternodes.map CMasternode.prevout
  | .updateFinalizedBudget vote nTime => ∀ b,
      s.mapFinalizedBudgets.lookup vote.nBudgetHash = some b →
      vote.vin.prevout ∈ (b.addOrUpdateVote nTime vote).voters →
      vote.vin.prevout ∈ s.mnodeman.vMasternodes.map CMasternode.prevout
  | _ => True

theorem countsListed_iff : s.CountsListed ↔ s.VotersListed := by
  unfold CountsListed budgets VotersListed
  rw [map_inj_left]
  refine forall₂_congr fun e _ => ?_
  rw [Alqo.CFinalizedBudget.mk.injEq]
  exact ⟨fun h => (e.2.getVoteCount_eq_listed_iff s.mnodeman).mp h.2.2,
    fun h => ⟨rfl, rfl, (e.2.getVoteCount_eq_listed_iff s.mnodeman).mpr h⟩⟩

theorem mem_entries_insert {m : AList fun _ : uint256 => Ballot keys.Hash} {h : uint256}
    {b : Ballot keys.Hash} {e : Sigma fun _ : uint256 => Ballot keys.Hash}
    (he : e ∈ (m.insert h b).entries) : e = ⟨h, b⟩ ∨ e ∈ m.entries := by
  rw [entries_insert] at he
  exact (mem_cons.mp he).imp_right fun he => (kerase_sublist _ _).subset he

theorem votersListed_step (e : RollEvent) (hs : s.VotersListed) :
    (s.step keys e).VotersListed ↔ s.Stays e := by
  cases e with
  | masternodes mnodeman => exact Iff.rfl
  | addFinalizedBudget hash nBlockStart vecBudgetPayments =>
    refine iff_of_true ?_ trivial
    unfold step
    dsimp only
    split_ifs
    · exact hs
    · intro e he o ho
      rcases mem_entries_insert he with rfl | he
      · cases ho
      · exact hs e he o ho
  | updateFinalizedBudget vote nTime =>
    unfold step Stays
    dsimp only
    cases hlookup : s.mapFinalizedBudgets.lookup vote.nBudgetHash with
    | none => exact iff_of_true hs nofun
    | some b =>
      constructor
      · intro hnext b' hb' ho
        cases hb'
        refine hnext ⟨vote.nBudgetHash, b.addOrUpdateVote nTime vote⟩ ?_ _ ho
        rw [entries_insert]
        exact mem_cons_self
      · intro hvote e he o ho
        rcases mem_entries_insert he with rfl | he
        · rcases Ballot.mem_voters_addOrUpdateVote ho with hold | rfl
          · exact hs ⟨_, b⟩ (mem_lookup_iff.mp hlookup) o hold
          · exact hvote b rfl ho
        · exact hs e he o ho
  | cleanAndRemove fSignatureCheck =>
    refine iff_of_true (fun e he o ho => ?_) trivial
    obtain ⟨old, hold, rfl⟩ := mem_map.mp he
    refine hs old hold o ?_
    rwa [Sigma.map, Ballot.voters_cleanAndRemove] at ho
  | remove hash =>
    refine iff_of_true (fun e he o ho => ?_) trivial
    exact hs e ((kerase_sublist _ _).subset he) o ho

theorem budgets_cleanAndRemove (fSignatureCheck : Bool) :
    (s.step keys (.cleanAndRemove fSignatureCheck)).budgets Ballot.getVoteCount =
      s.budgets Ballot.getVoteCount := by
  unfold budgets step
  rw [map_map]
  refine map_congr_left fun e _ => ?_
  dsimp only [Function.comp_apply, Sigma.map]
  rw [Ballot.getVoteCount_eq, Ballot.getVoteCount_eq, Ballot.voters_cleanAndRemove]
  rfl

/- After every run the votes by which the finalized budgets are chosen are those of the
masternodes in the list exactly if everyone who has voted is in it; `CleanAndRemove` does not
change the counts. They are the right ones all along the run exactly if nobody who has voted
leaves the list and no vote is taken of someone who is not in it. -/
theorem voteCount_listed_iff (keys : BudgetKeys) (events : List RollEvent) :
    let s := run (step keys) {} events
    (s.CountsListed ↔ s.VotersListed) ∧
      (∀ fSignatureCheck, (s.step keys (.cleanAndRemove fSignatureCheck)).budgets
        Ballot.getVoteCount = s.budgets Ballot.getVoteCount) ∧
      (Always (step keys) CountsListed {} events ↔ Along (step keys) Stays {} events) := by
  intro s
  refine ⟨countsListed_iff s, budgets_cleanAndRemove s, ?_⟩
  have hstep : ∀ (s : BudgetRoll keys.Hash) e, True → s.CountsListed →
      ((s.step keys e).CountsListed ↔ s.Stays e) := by
    intro s e _ hs
    rw [countsListed_iff] at hs ⊢
    exact votersListed_step s e hs
  exact always_iff_along (fun _ _ _ => trivial) hstep {} events trivial rfl

end BudgetRoll

/- Two masternodes vote for a budget; when one of them has left the list and the votes are
cleaned its vote is marked, and still counts. -/
theorem goneVoter_counts :
    let mn (n : Nat) : CMasternode := { prevout := ⟨7, n⟩, pubKeyMasternode := [2] }
    let vote (n : Nat) : CFinalizedBudgetVote :=
      { vin := { prevout := ⟨7, n⟩ }, nBudgetHash := 5, nTime := 100 }
    let keys : BudgetKeys := ⟨fun bytes => BitVec.ofNat 256 (bytes.getD 32 0).toNat,
      ⟨fun _ _ _ => true, fun _ _ _ => true⟩, ⟨fun _ _ _ => true, fun _ _ _ => true⟩⟩
    let s := run (BudgetRoll.step keys) {} [.masternodes ⟨[mn 0, mn 1], false, 0⟩,
      .addFinalizedBudget 5 10 [⟨1, [0x51], 100⟩], .updateFinalizedBudget (vote 0) 100,
      .updateFinalizedBudget (vote 1) 100, .masternodes ⟨[mn 0], false, 0⟩, .cleanAndRemove false]
    (s.mapFinalizedBudgets.lookup 5).map (fun b => b.mapVotes.entries.map fun e =>
        (e.2.vote.vin.prevout.n, e.2.fValid)) = some [(1, false), (0, true)] ∧
      (s.budgets Ballot.getVoteCount).map (·.nVoteCount) = [2] ∧
      (s.budgets fun b => (b.listedVoters s.mnodeman).card).map (·.nVoteCount) = [1] := by
  decide +kernel

end Alqo.BudgetVotes
