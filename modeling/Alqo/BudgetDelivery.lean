import Alqo.VoteBook

/-!
# Delivery orders of budget messages (masternode-budget.cpp)

All votes of a delivery are recorded exactly if each masternode's newest vote on each item reaches
the box of the item, which keeps only one vote waiting before it opens.
-/

namespace Alqo.BudgetVotes
open Lib.Runs Lib.Latest Lib.BallotBox List

section
variable (keys : BudgetKeys)

def proposalsIn (D : List BudgetMessage) : List CBudgetProposal :=
  D.filterMap fun | .mprop item _ => some item | _ => none

def finalizedBudgetsIn (D : List BudgetMessage) : List CFinalizedBudget :=
  D.filterMap fun | .fbs item _ => some item | _ => none

def budgetVotesIn (D : List BudgetMessage) : List CBudgetVote :=
  D.filterMap fun | .mvote vote _ => some vote | _ => none

def finalizedBudgetVotesIn (D : List BudgetMessage) : List CFinalizedBudgetVote :=
  D.filterMap fun | .fbvote vote _ => some vote | _ => none

def proposalArrival (h : uint256) : BudgetMessage → List (Arrival CBudgetVote Int64)
  | .mprop item ctx => [if item.getHash keys.Hash = h then .opening ctx.nTime else .check ctx.nTime]
  | .mvote vote ctx =>
    if vote.nProposalHash = h then [.vote vote ctx.nTime ctx.fSynced] else []
  | .fbs _ ctx => [.check ctx.nTime]
  | .fbvote _ _ => []

def finalizedBudgetArrival (h : uint256) : BudgetMessage → List (Arrival CFinalizedBudgetVote Int64)
  | .mprop _ ctx => [.check ctx.nTime]
  | .mvote _ _ => []
  | .fbs item ctx => [if item.getHash keys.Hash = h then .opening ctx.nTime else .check ctx.nTime]
  | .fbvote vote ctx =>
    if vote.nBudgetHash = h then [.vote vote ctx.nTime ctx.fSynced] else []

def proposalArrivals (D : List BudgetMessage) (h : uint256) : List (Arrival CBudgetVote Int64) :=
  D.flatMap (proposalArrival keys h)

def finalizedBudgetArrivals (D : List BudgetMessage) (h : uint256) :
    List (Arrival CFinalizedBudgetVote Int64) :=
  D.flatMap (finalizedBudgetArrival keys h)

def BudgetMessage.Valid (e : BudgetMessage) : Prop :=
  e.ctx.fLiteMode = false ∧ e.ctx.fBlockchainSynced = true ∧ match e with
    | .mprop item ctx => (proposalKind keys).Valid ctx item
    | .mvote vote ctx => (budgetVoteKind keys).Valid ctx vote
    | .fbs item ctx => (finalizedBudgetKind keys).Valid ctx item
    | .fbvote vote ctx => (finalizedBudgetVoteKind keys).Valid ctx vote

structure Delivery (D : List BudgetMessage) : Prop where
  valid : ∀ e ∈ D, e.Valid keys
  proposals : ((proposalsIn D).map (proposalKind keys).getHash).Nodup
  budgetVotes : ((budgetVotesIn D).map (budgetVoteKind keys).getHash).Nodup
  finalizedBudgets : ((finalizedBudgetsIn D).map (finalizedBudgetKind keys).getHash).Nodup
  finalizedBudgetVotes :
    ((finalizedBudgetVotesIn D).map (finalizedBudgetVoteKind keys).getHash).Nodup

structure VotesApart (D : List BudgetMessage) : Prop where
  budgetVotes : (budgetVoteKind keys).Apart (budgetVotesIn D)
  finalizedBudgetVotes : (finalizedBudgetVoteKind keys).Apart (finalizedBudgetVotesIn D)
  budgetVoters : (budgetVoteKind keys).Keyed (budgetVotesIn D)
  finalizedBudgetVoters : (finalizedBudgetVoteKind keys).Keyed (finalizedBudgetVotesIn D)

variable {keys} {D : List BudgetMessage} {e : BudgetMessage} {s : CBudgetManager}

theorem Delivery.init (h : Delivery keys (D ++ [e])) : Delivery keys D := by
  have hsub : ∀ {α : Type} (f : BudgetMessage → Option α) (key : α → uint256),
      ((D.filterMap f).map key).Sublist (((D ++ [e]).filterMap f).map key) :=
    fun f key => ((sublist_append_left D [e]).filterMap f).map key
  exact ⟨fun a ha => h.valid a (mem_append_left _ ha), h.proposals.sublist (hsub _ _),
    h.budgetVotes.sublist (hsub _ _), h.finalizedBudgets.sublist (hsub _ _),
    h.finalizedBudgetVotes.sublist (hsub _ _)⟩

theorem fresh_of_nodup {α : Type} {f : BudgetMessage → Option α} {key : α → uint256} {a : α}
    (h : (((D ++ [e]).filterMap f).map key).Nodup) (he : f e = some a) :
    key a ∉ (D.filterMap f).map key := by
  rw [filterMap_append, map_append, filterMap_cons_some he] at h
  intro ha
  exact (nodup_append.mp h).2.2 _ ha _ mem_cons_self rfl

def FollowsBoth (keys : BudgetKeys) (D : List BudgetMessage) (s : CBudgetManager) : Prop :=
  Follows (proposalKind keys) (budgetVoteKind keys) (proposalsIn D) (budgetVotesIn D)
      (proposalArrivals keys D) s.proposals ∧
    Follows (finalizedBudgetKind keys) (finalizedBudgetVoteKind keys) (finalizedBudgetsIn D)
      (finalizedBudgetVotesIn D) (finalizedBudgetArrivals keys D) s.finalizedBudgets

theorem proposalArrivals_append (D : List BudgetMessage) (e : BudgetMessage) :
    proposalArrivals keys (D ++ [e]) =
      fun h => proposalArrivals keys D h ++ proposalArrival keys h e := by
  funext h
  rw [proposalArrivals, flatMap_append, flatMap_singleton, proposalArrivals]

theorem finalizedBudgetArrivals_append (D : List BudgetMessage) (e : BudgetMessage) :
    finalizedBudgetArrivals keys (D ++ [e]) =
      fun h => finalizedBudgetArrivals keys D h ++ finalizedBudgetArrival keys h e := by
  funext h
  rw [finalizedBudgetArrivals, flatMap_append, flatMap_singleton, finalizedBudgetArrivals]

theorem processMessage_listens (h : e.Valid keys) : s.processMessage keys e = s.handle keys e := by
  unfold CBudgetManager.processMessage
  rw [h.1, h.2.1, if_neg Bool.false_ne_true, if_neg (by simp)]

theorem followsBoth_step (hs : FollowsBoth keys D s) (hD : Delivery keys (D ++ [e])) :
    FollowsBoth keys (D ++ [e]) (s.processMessage keys e) := by
  obtain ⟨hp, hf⟩ := hs
  have hvalid : e.Valid keys := hD.valid e (by simp)
  rw [processMessage_listens hvalid]
  simp only [FollowsBoth, proposalArrivals_append, finalizedBudgetArrivals_append, proposalsIn,
    budgetVotesIn, finalizedBudgetsIn, finalizedBudgetVotesIn, filterMap_append]
  unfold CBudgetManager.handle
  cases e with
  | mprop item ctx =>
    obtain ⟨htaken, hp'⟩ := hp.processItem hvalid.2.2 (fresh_of_nodup hD.proposals rfl)
    dsimp only
    split
    · next heq =>
      rw [heq] at hp'
      simpa using ⟨hp', hf.checkOrphans ctx⟩
    · next heq =>
      rw [heq] at htaken
      cases htaken
  | mvote vote ctx =>
    have hp' := hp.processVote hvalid.2.2 (fresh_of_nodup hD.budgetVotes rfl)
    simpa [finalizedBudgetArrival] using ⟨hp', hf⟩
  | fbs item ctx =>
    obtain ⟨htaken, hf'⟩ := hf.processItem hvalid.2.2 (fresh_of_nodup hD.finalizedBudgets rfl)
    dsimp only
    split
    · next heq =>
      rw [heq] at hf'
      simpa using ⟨hp.checkOrphans ctx, hf'⟩
    · next heq =>
      rw [heq] at htaken
      cases htaken
  | fbvote vote ctx =>
    have hf' := hf.processVote hvalid.2.2 (fresh_of_nodup hD.finalizedBudgetVotes rfl)
    simpa [proposalArrival] using ⟨hp, hf'⟩

theorem followsBoth_run (hD : Delivery keys D) :
    FollowsBoth keys D (run (CBudgetManager.processMessage keys) {} D) := by
  refine run_history (R := fun D s => Delivery keys D → FollowsBoth keys D s) (fun _ => ?_)
    (fun D s e ih hD => followsBoth_step (ih hD.init) hD) D hD
  refine ⟨⟨?_, ?_, ?_, ?_, fun _ => rfl⟩, ⟨?_, ?_, ?_, ?_, fun _ => rfl⟩⟩ <;> exact fun _ => nofun

variable {V : Type}

theorem isVote_flatMap {f : BudgetMessage → List (Arrival V Int64)} {g : BudgetMessage → Option V}
    {P : V → Prop} (hfg : ∀ e v, IsVote (f e) v ↔ g e = some v ∧ P v) (now : Int64) (v : V) :
    IsVote (D.flatMap f ++ [.check now]) v ↔ v ∈ D.filterMap g ∧ P v := by
  have hvote : IsVote (D.flatMap f ++ [.check now]) v ↔ ∃ e ∈ D, IsVote (f e) v := by
    simp only [IsVote, mem_append, mem_flatMap, mem_singleton, reduceCtorEq, or_false]
    tauto
  simp only [hvote, hfg, mem_filterMap, ← and_assoc, exists_and_right]

theorem isVote_singleton {vote v : V} {nTime : Int64} {fSynced : Bool} {p : Prop} [Decidable p] :
    IsVote (if p then [.vote vote nTime fSynced] else []) v ↔ p ∧ vote = v := by
  by_cases hp : p
  · simp [IsVote, hp, eq_comm]
  · simp [IsVote, hp]

theorem isVote_proposalArrivals (now : Int64) (h : uint256) (v : CBudgetVote) :
    IsVote (proposalArrivals keys D h ++ [.check now]) v ↔
      v ∈ budgetVotesIn D ∧ v.nProposalHash = h := by
  refine isVote_flatMap (P := fun v => v.nProposalHash = h) (fun e v => ?_) now v
  cases e with
  | mprop item ctx => by_cases hh : item.getHash keys.Hash = h <;> simp [IsVote, proposalArrival, hh]
  | mvote vote ctx =>
    rw [proposalArrival, isVote_singleton, Option.some.injEq]
    exact ⟨fun hv => ⟨hv.2, hv.2 ▸ hv.1⟩, fun hv => ⟨hv.1 ▸ hv.2, hv.1⟩⟩
  | fbs item ctx => simp [IsVote, proposalArrival]
  | fbvote vote ctx => simp [IsVote, proposalArrival]

theorem isVote_finalizedBudgetArrivals (now : Int64) (h : uint256) (v : CFinalizedBudgetVote) :
    IsVote (finalizedBudgetArrivals keys D h ++ [.check now]) v ↔
      v ∈ finalizedBudgetVotesIn D ∧ v.nBudgetHash = h := by
  refine isVote_flatMap (P := fun v => v.nBudgetHash = h) (fun e v => ?_) now v
  cases e with
  | mprop item ctx => simp [IsVote, finalizedBudgetArrival]
  | mvote vote ctx => simp [IsVote, finalizedBudgetArrival]
  | fbs item ctx =>
    by_cases hh : item.getHash keys.Hash = h <;> simp [IsVote, finalizedBudgetArrival, hh]
  | fbvote vote ctx =>
    rw [finalizedBudgetArrival, isVote_singleton, Option.some.injEq]
    exact ⟨fun hv => ⟨hv.2, hv.2 ▸ hv.1⟩, fun hv => ⟨hv.1 ▸ hv.2, hv.1⟩⟩

variable (keys D) in
def deliver (ctx : BudgetContext) : CBudgetManager :=
  (run (CBudgetManager.processMessage keys) {} D).checkOrphanVotes keys ctx

variable (keys D s) in
def NoVoteLost : Prop :=
  s.proposals.RecordsAll (proposalKind keys) (budgetVoteKind keys) (proposalsIn D)
      (budgetVotesIn D) ∧
    s.finalizedBudgets.RecordsAll (finalizedBudgetKind keys) (finalizedBudgetVoteKind keys)
      (finalizedBudgetsIn D) (finalizedBudgetVotesIn D)

variable (keys D) in
def NewestReach (ctx : BudgetContext) : Prop :=
  NewestCounted (proposalKind keys) (budgetVoteKind keys) (proposalsIn D) (budgetVotesIn D)
      (fun h => proposalArrivals keys D h ++ [.check ctx.nTime]) ∧
    NewestCounted (finalizedBudgetKind keys) (finalizedBudgetVoteKind keys)
      (finalizedBudgetsIn D) (finalizedBudgetVotesIn D)
      (fun h => finalizedBudgetArrivals keys D h ++ [.check ctx.nTime])

def SameMessages (D D' : List BudgetMessage) : Prop :=
  (∀ item, item ∈ proposalsIn D ↔ item ∈ proposalsIn D') ∧
    (∀ vote, vote ∈ budgetVotesIn D ↔ vote ∈ budgetVotesIn D') ∧
    (∀ item, item ∈ finalizedBudgetsIn D ↔ item ∈ finalizedBudgetsIn D') ∧
    ∀ vote, vote ∈ finalizedBudgetVotesIn D ↔ vote ∈ finalizedBudgetVotesIn D'

variable (keys D) in
def SameRecords (s t : CBudgetManager) : Prop :=
  (∀ item ∈ proposalsIn D, ∀ voter, s.proposals.recorded ((proposalKind keys).getHash item) voter =
      t.proposals.recorded ((proposalKind keys).getHash item) voter) ∧
    ∀ item ∈ finalizedBudgetsIn D, ∀ voter,
      s.finalizedBudgets.recorded ((finalizedBudgetKind keys).getHash item) voter =
        t.finalizedBudgets.recorded ((finalizedBudgetKind keys).getHash item) voter

theorem noVoteLost_iff (hD : Delivery keys D) (hapart : VotesApart keys D) (ctx : BudgetContext) :
    NoVoteLost keys D (deliver keys D ctx) ↔ NewestReach keys D ctx := by
  obtain ⟨hp, hf⟩ := followsBoth_run hD
  refine and_congr ?_ ?_
  · exact (hp.checkOrphans ctx).recordsAll_iff hapart.budgetVotes hapart.budgetVoters
      fun h v => isVote_proposalArrivals ctx.nTime h v
  · exact (hf.checkOrphans ctx).recordsAll_iff hapart.finalizedBudgetVotes
      hapart.finalizedBudgetVoters fun h v => isVote_finalizedBudgetArrivals ctx.nTime h v

/-- A delivery order loses no vote exactly if the newest votes reach their items;
and compared with an order that loses none, another order of the same messages
leaves the same records exactly if it loses none either. -/
theorem deliveryOrders_agree_iff (hD : Delivery keys D) (hapart : VotesApart keys D)
    (ctx : BudgetContext) :
    (NoVoteLost keys D (deliver keys D ctx) ↔ NewestReach keys D ctx) ∧
    (NewestReach keys D ctx → ∀ D' ctx', Delivery keys D' → SameMessages D D' →
      (SameRecords keys D (deliver keys D ctx) (deliver keys D' ctx') ↔
        NewestReach keys D' ctx')) := by
  refine ⟨noVoteLost_iff hD hapart ctx, fun hreach D' ctx' hD' hsame => ?_⟩
  obtain ⟨hproposals, hvotes, hbudgets, hbudgetVotes⟩ := hsame
  have hapart' : VotesApart keys D' := by
    refine ⟨fun v hv w hw => ?_, fun v hv w hw => ?_, fun v hv w hw => ?_, fun v hv w hw => ?_⟩
    · exact hapart.budgetVotes v ((hvotes v).mpr hv) w ((hvotes w).mpr hw)
    · exact hapart.finalizedBudgetVotes v ((hbudgetVotes v).mpr hv) w ((hbudgetVotes w).mpr hw)
    · exact hapart.budgetVoters v ((hvotes v).mpr hv) w ((hvotes w).mpr hw)
    · exact hapart.finalizedBudgetVoters v ((hbudgetVotes v).mpr hv) w ((hbudgetVotes w).mpr hw)
  obtain ⟨hp, hf⟩ := (noVoteLost_iff hD hapart ctx).mpr hreach
  rw [← noVoteLost_iff hD' hapart' ctx']
  refine (and_congr ?_ ?_).symm
  · exact VoteBook.recordsAll_iff_same hapart.budgetVotes hapart.budgetVoters hproposals hvotes hp
  · exact VoteBook.recordsAll_iff_same hapart.finalizedBudgetVotes hapart.finalizedBudgetVoters
      hbudgets hbudgetVotes hf

def rollingHash (bytes : Bytes) : uint256 :=
  bytes.foldl (fun n b => n * 257 + BitVec.ofNat 256 b.toNat) 1

def rollingKeys : BudgetKeys where
  Hash := rollingHash
  budgetVote := ⟨fun _ _ _ => true, fun _ _ _ => true⟩
  finalizedBudgetVote := ⟨fun _ _ _ => true, fun _ _ _ => true⟩

def school : CBudgetProposal where
  strProposalName := [0x41]
  strURL := []
  nBlockStart := 43200
  nBlockEnd := 86400
  nAmount := 10 * COIN
  address := [0x51]
  nFeeTXHash := 3

def schoolContext : BudgetContext where
  params := mainParams
  nTime := 1600000000
  mnodeman := { vMasternodes := (List.range 2).map fun i =>
    { prevout := ⟨7, i⟩, pubKeyMasternode := [2] } }
  getTransaction _ := some ({ hash := 3, vin := [], vout := [{
    nValue := 50 * COIN
    scriptPubKey := findScript (school.getHash rollingHash) }] }, 1)
  activeHeight _ := some 1
  tipHeight := some 10

def schoolVote (i : Nat) : CBudgetVote where
  vin := { prevout := ⟨7, i⟩ }
  nProposalHash := school.getHash rollingHash
  nVote := 1
  nTime := 1600000000

def itemFirst : List BudgetMessage :=
  [.mprop school schoolContext, .mvote (schoolVote 0) schoolContext,
    .mvote (schoolVote 1) schoolContext]

def votesFirst : List BudgetMessage :=
  [.mvote (schoolVote 0) schoolContext, .mvote (schoolVote 1) schoolContext,
    .mprop school schoolContext]

theorem school_valid : (proposalKind rollingKeys).Valid schoolContext school ∧
    (budgetVoteKind rollingKeys).Valid schoolContext (schoolVote 0) ∧
    (budgetVoteKind rollingKeys).Valid schoolContext (schoolVote 1) := by
  unfold ItemKind.Valid VoteKind.Valid
  decide +kernel

theorem itemFirst_delivery : Delivery rollingKeys itemFirst := by
  refine ⟨fun e he => ?_, by decide +kernel, by decide +kernel, nodup_nil, nodup_nil⟩
  simp only [itemFirst, mem_cons, not_mem_nil, or_false] at he
  rcases he with rfl | rfl | rfl
  · exact ⟨rfl, rfl, school_valid.1⟩
  · exact ⟨rfl, rfl, school_valid.2.1⟩
  · exact ⟨rfl, rfl, school_valid.2.2⟩

theorem votesFirst_delivery : Delivery rollingKeys votesFirst := by
  refine ⟨fun e he => ?_, by decide +kernel, by decide +kernel, nodup_nil, nodup_nil⟩
  simp only [votesFirst, mem_cons, not_mem_nil, or_false] at he
  rcases he with rfl | rfl | rfl
  · exact ⟨rfl, rfl, school_valid.2.1⟩
  · exact ⟨rfl, rfl, school_valid.2.2⟩
  · exact ⟨rfl, rfl, school_valid.1⟩

theorem itemFirst_apart : VotesApart rollingKeys itemFirst := by
  refine ⟨?_, fun v => nofun, ?_, fun v => nofun⟩
  · unfold VoteKind.Apart
    decide +kernel
  · unfold VoteKind.Keyed
    decide +kernel

theorem deliveryOrders_agree_itemFirst :
    NoVoteLost rollingKeys itemFirst (deliver rollingKeys itemFirst schoolContext) := by
  refine (deliveryOrders_agree_iff itemFirst_delivery itemFirst_apart schoolContext).1.mpr
    ⟨fun item hitem v hv _ _ => ?_, fun item => nofun⟩
  have hschool : item = school := mem_singleton.mp hitem
  subst hschool
  have hvotes : v = schoolVote 0 ∨ v = schoolVote 1 := by
    simpa [budgetVotesIn, itemFirst] using hv
  rcases hvotes with rfl | rfl
  · exact .inl ⟨1600000000, true, by decide +kernel, by decide +kernel⟩
  · exact .inl ⟨1600000000, true, by decide +kernel, by decide +kernel⟩

/-- Of two votes that arrive before their proposal the first is lost, for good; in
another order both are recorded. -/
theorem firstVote_lost : Delivery rollingKeys itemFirst ∧ Delivery rollingKeys votesFirst ∧
      VotesApart rollingKeys itemFirst ∧ SameMessages itemFirst votesFirst ∧
      (deliver rollingKeys itemFirst schoolContext).proposals.recorded
        (school.getHash rollingHash) (outPointHash rollingHash ⟨7, 0⟩) = some (schoolVote 0) ∧
      (deliver rollingKeys votesFirst schoolContext).proposals.recorded
        (school.getHash rollingHash) (outPointHash rollingHash ⟨7, 0⟩) = none := by
  refine ⟨itemFirst_delivery, votesFirst_delivery, itemFirst_apart, ?_, by decide +kernel,
    by decide +kernel⟩
  exact ⟨fun _ => Iff.rfl, fun _ => Iff.rfl, fun _ => Iff.rfl, fun _ => Iff.rfl⟩

end

end Alqo.BudgetVotes
