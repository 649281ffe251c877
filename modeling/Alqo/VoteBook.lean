import Alqo.BudgetVotes

/-!
# Books of votes as ballot boxes (masternode-budget.cpp)

For one item a `VoteBook` is a ballot box that opens when the item arrives (`VoteBook.box`). Each
handler is a step of every box, and `Follows` carries that along.
-/

namespace Alqo.BudgetVotes
open Lib.Runs Lib.Latest Lib.BallotBox List AList

section
variable {I V : Type} {K : VoteKind V} {L : ItemKind I} {ctx : BudgetContext} {s : VoteBook I V}
  {h : uint256} {vote : V} {item : I} {now : Int64}

/-- `AddOrUpdateVote` as the rules of a box. -/
def VoteKind.rules (K : VoteKind V) : Rules uint256 V Int64 Int where
  key := K.voter
  time v := (K.nTime v).toInt
  mayReplace old new := !decide (K.nTime new - K.nTime old < BUDGET_VOTE_UPDATE_MIN)
  inTime v now := !decide (K.nTime v > now + 60 * 60)

theorem addOrUpdateVote_eq (K : VoteKind V) (nTime : Int64) (mapVotes : uint256 → Option V)
    (vote : V) :
    addOrUpdateVote K nTime mapVotes vote =
      (K.rules.accepts mapVotes vote nTime, K.rules.add mapVotes vote nTime) := by
  have hkey : mapVotes (K.rules.key vote) = mapVotes (K.voter vote) := rfl
  have htime : ∀ old, K.rules.time old ≤ K.rules.time vote ↔ ¬ K.nTime old > K.nTime vote :=
    fun old => Int64.le_iff_toInt_le.symm.trans Int64.not_lt.symm
  unfold addOrUpdateVote storeVote Rules.add Rules.accepts
  rw [hkey]
  cases mapVotes (K.voter vote) with
  | none =>
    dsimp only
    split_ifs <;> simp_all [VoteKind.rules]
  | some old =>
    simp only [htime]
    split_ifs <;> simp_all [VoteKind.rules]

namespace VoteBook

def box (s : VoteBook I V) (h : uint256) : Box uint256 V where
  isOpen := (s.mapItems h).isSome
  waiting := s.mapOrphanVotes.lookup h
  held voter := (s.mapItems h).bind fun entry => entry.2 voter

def recorded (s : VoteBook I V) (h voter : uint256) : Option V :=
  (s.mapItems h).bind fun entry => entry.2 voter

def Filed (K : VoteKind V) (s : VoteBook I V) : Prop :=
  ∀ h v, s.mapOrphanVotes.lookup h = some v → K.nItemHash v = h

theorem update_none (fFromPeer : Bool) (hitem : s.mapItems (K.nItemHash vote) = none) :
    s.update K ctx fFromPeer vote = (false, if fFromPeer && ctx.fSynced then
      { s with mapOrphanVotes := s.mapOrphanVotes.insert (K.nItemHash vote) vote } else s) := by
  rw [update, hitem]
  dsimp only
  split_ifs <;> rfl

theorem update_some (fFromPeer : Bool) {mapVotes : uint256 → Option V}
    (hitem : s.mapItems (K.nItemHash vote) = some (item, mapVotes)) :
    s.update K ctx fFromPeer vote =
      (K.rules.accepts mapVotes vote ctx.nTime, { s with
        mapItems := Function.update s.mapItems (K.nItemHash vote)
          (some (item, K.rules.add mapVotes vote ctx.nTime)) }) := by
  rw [update, hitem]
  dsimp only
  rw [addOrUpdateVote_eq]

theorem update_box (K : VoteKind V) (ctx : BudgetContext) (s : VoteBook I V) (vote : V)
    (h : uint256) :
    (s.update K ctx true vote).2.box h =
      if K.nItemHash vote = h then K.rules.step (s.box h) (.vote vote ctx.nTime ctx.fSynced)
      else s.box h := by
  by_cases hh : K.nItemHash vote = h
  · subst hh
    rw [if_pos rfl, Rules.step]
    cases hitem : s.mapItems (K.nItemHash vote) with
    | none =>
      rw [update_none true hitem, Bool.true_and]
      split_ifs <;> simp_all [box]
    | some entry =>
      rw [update_some true hitem]
      simp [box, hitem]
  · rw [if_neg hh]
    cases hitem : s.mapItems (K.nItemHash vote) with
    | none =>
      rw [update_none true hitem]
      split_ifs <;> simp [box, lookup_insert_ne (Ne.symm hh)]
    | some entry =>
      rw [update_some true hitem]
      simp [box, Ne.symm hh]

/- The handlers of votes do not read what was seen. -/
def withSeen (s : VoteBook I V) (mapSeenItems : uint256 → Option I)
    (mapSeenVotes : uint256 → Option V) : VoteBook I V :=
  { s with mapSeenItems, mapSeenVotes }

section
variable (K ctx s) (items : uint256 → Option I) (votes : uint256 → Option V)

theorem update_withSeen (fFromPeer : Bool) (vote : V) :
    (s.withSeen items votes).update K ctx fFromPeer vote =
      ((s.update K ctx fFromPeer vote).1,
        (s.update K ctx fFromPeer vote).2.withSeen items votes) := by
  unfold update withSeen
  dsimp only
  cases s.mapItems (K.nItemHash vote) with
  | none =>
    dsimp only
    split_ifs <;> rfl
  | some entry => rfl

theorem checkOrphan_withSeen (orphan : Sigma fun _ : uint256 => V) :
    (s.withSeen items votes).checkOrphan K ctx orphan =
      (s.checkOrphan K ctx orphan).withSeen items votes := by
  unfold checkOrphan
  rw [update_withSeen]
  cases s.update K ctx false orphan.2 with
  | mk fAdded s => cases fAdded <;> rfl

theorem checkOrphans_withSeen : (s.withSeen items votes).checkOrphans K ctx =
    (s.checkOrphans K ctx).withSeen items votes :=
  foldl_hom (withSeen · items votes) fun s orphan => checkOrphan_withSeen K ctx s items votes orphan

theorem update_seen (fFromPeer : Bool) (vote : V) : (s.update K ctx fFromPeer vote).2 =
    (s.update K ctx fFromPeer vote).2.withSeen s.mapSeenItems s.mapSeenVotes :=
  congrArg Prod.snd (update_withSeen K ctx s s.mapSeenItems s.mapSeenVotes fFromPeer vote)

theorem checkOrphans_seen : s.checkOrphans K ctx =
    (s.checkOrphans K ctx).withSeen s.mapSeenItems s.mapSeenVotes :=
  checkOrphans_withSeen K ctx s s.mapSeenItems s.mapSeenVotes

end

theorem update_filed (fFromPeer : Bool) (vote : V) (hfiled : s.Filed K) :
    (s.update K ctx fFromPeer vote).2.Filed K := by
  cases hitem : s.mapItems (K.nItemHash vote) with
  | some entry =>
    rw [update_some fFromPeer hitem]
    exact hfiled
  | none =>
    rw [update_none fFromPeer hitem]
    split_ifs
    · intro h v hv
      by_cases hh : h = K.nItemHash vote
      · subst hh
        rw [lookup_insert] at hv
        cases hv
        rfl
      · rw [lookup_insert_ne hh] at hv
        exact hfiled h v hv
    · exact hfiled

theorem checkOrphan_none {orphan : Sigma fun _ : uint256 => V}
    (hitem : s.mapItems (K.nItemHash orphan.2) = none) : s.checkOrphan K ctx orphan = s := by
  rw [checkOrphan, update_none false hitem]
  rfl

theorem checkOrphan_some {orphan : Sigma fun _ : uint256 => V} {mapVotes : uint256 → Option V}
    (hitem : s.mapItems (K.nItemHash orphan.2) = some (item, mapVotes)) :
    s.checkOrphan K ctx orphan = { s with
      mapItems := Function.update s.mapItems (K.nItemHash orphan.2)
        (some (item, K.rules.add mapVotes orphan.2 ctx.nTime))
      mapOrphanVotes := if K.rules.accepts mapVotes orphan.2 ctx.nTime then
        s.mapOrphanVotes.erase orphan.1 else s.mapOrphanVotes } := by
  rw [checkOrphan, update_some false hitem]
  cases K.rules.accepts mapVotes orphan.2 ctx.nTime <;> rfl

theorem checkOrphan_lookup {orphan : Sigma fun _ : uint256 => V} (hne : h ≠ orphan.1) :
    (s.checkOrphan K ctx orphan).mapOrphanVotes.lookup h = s.mapOrphanVotes.lookup h := by
  cases hitem : s.mapItems (K.nItemHash orphan.2) with
  | none => rw [checkOrphan_none hitem]
  | some entry =>
    rw [checkOrphan_some hitem]
    dsimp only
    split_ifs
    · exact lookup_erase_ne hne
    · rfl

theorem checkOrphan_box {orphan : Sigma fun _ : uint256 => V}
    (hlookup : s.mapOrphanVotes.lookup orphan.1 = some orphan.2)
    (hitem : K.nItemHash orphan.2 = orphan.1) (h : uint256) :
    (s.checkOrphan K ctx orphan).box h =
      if h = orphan.1 then K.rules.recheck (s.box h) ctx.nTime else s.box h := by
  rw [← hitem] at hlookup ⊢
  by_cases hh : h = K.nItemHash orphan.2
  · subst hh
    rw [if_pos rfl, Rules.recheck]
    cases hentry : s.mapItems (K.nItemHash orphan.2) with
    | none =>
      rw [checkOrphan_none hentry]
      simp [box, hentry]
    | some entry =>
      rw [checkOrphan_some hentry, ← hitem]
      simp only [box, hentry, hlookup, Option.isSome_some, Option.bind_some, Function.update_self]
      split_ifs <;> simp [hlookup]
  · rw [if_neg hh]
    have horphan : (s.checkOrphan K ctx orphan).mapOrphanVotes.lookup h = s.mapOrphanVotes.lookup h :=
      checkOrphan_lookup (hitem ▸ hh)
    cases hentry : s.mapItems (K.nItemHash orphan.2) with
    | none => rw [checkOrphan_none hentry]
    | some entry =>
      rw [checkOrphan_some hentry] at horphan ⊢
      simp only [box, horphan, Function.update_of_ne hh]

theorem foldl_checkOrphan_box (l : List (Sigma fun _ : uint256 => V)) (s : VoteBook I V)
    (hkeys : l.NodupKeys) (hlookup : ∀ e ∈ l, s.mapOrphanVotes.lookup e.1 = some e.2)
    (hitem : ∀ e ∈ l, K.nItemHash e.2 = e.1) (h : uint256) :
    (l.foldl (checkOrphan K ctx) s).box h =
      if h ∈ l.keys then K.rules.recheck (s.box h) ctx.nTime else s.box h := by
  induction l generalizing s with
  | nil => rfl
  | cons e l ih =>
    rw [nodupKeys_cons] at hkeys
    have hrest : ∀ e' ∈ l,
        (s.checkOrphan K ctx e).mapOrphanVotes.lookup e'.1 = some e'.2 := by
      intro e' he'
      have hne : e'.1 ≠ e.1 := by
        intro heq
        exact hkeys.1 (heq ▸ mem_keys_of_mem he')
      rw [checkOrphan_lookup hne]
      exact hlookup e' (mem_cons_of_mem e he')
    rw [foldl_cons, ih _ hkeys.2 hrest fun e' he' => hitem e' (mem_cons_of_mem e he'),
      checkOrphan_box (hlookup e mem_cons_self) (hitem e mem_cons_self), keys_cons]
    by_cases hh : h = e.1
    · subst hh
      rw [if_neg hkeys.1, if_pos rfl, if_pos mem_cons_self]
    · rw [if_neg hh]
      simp only [mem_cons, hh, false_or]

theorem checkOrphans_box (hfiled : s.Filed K) (h : uint256) :
    (s.checkOrphans K ctx).box h = K.rules.recheck (s.box h) ctx.nTime := by
  have hmem : ∀ e ∈ s.mapOrphanVotes.entries, s.mapOrphanVotes.lookup e.1 = some e.2 :=
    fun e he => mem_lookup_iff.mpr he
  rw [checkOrphans, foldl_checkOrphan_box _ s s.mapOrphanVotes.nodupKeys hmem
    fun e he => hfiled e.1 e.2 (hmem e he)]
  split_ifs with hin
  · rfl
  · -- nothing is waiting for this item
    have hnone : (s.box h).waiting = none := lookup_eq_none.mpr hin
    unfold Rules.recheck
    rw [hnone]
    cases (s.box h).isOpen <;> rfl

theorem checkOrphans_filed (hfiled : s.Filed K) : (s.checkOrphans K ctx).Filed K := by
  intro h v hv
  have hwaiting : (s.box h).waiting = some v := by
    have hbox : ((s.checkOrphans K ctx).box h).waiting = some v := hv
    rw [checkOrphans_box hfiled, Rules.recheck] at hbox
    split at hbox
    · next hw =>
      dsimp only at hbox
      split_ifs at hbox
      rw [hw, hbox]
    · exact hbox
  exact hfiled h v hwaiting

end VoteBook

def ItemKind.Valid (L : ItemKind I) (ctx : BudgetContext) (item : I) : Prop :=
  (isBudgetCollateralValid ctx (L.nFeeTXHash item) (L.getHash item) L.fBudgetFinalization).1 =
    true ∧ L.isValid ctx item = true

def VoteKind.Valid (K : VoteKind V) (ctx : BudgetContext) (vote : V) : Prop :=
  (ctx.mnodeman.find (K.vin vote).prevout).isSome = true ∧
    K.checkSignature ctx.mnodeman vote = true

namespace VoteBook

theorem processItem_valid (hvalid : L.Valid ctx item)
    (hseen : s.mapSeenItems (L.getHash item) = none) (hitem : s.mapItems (L.getHash item) = none) :
    s.processItem L ctx item = (true, { s with
      mapSeenItems := Function.update s.mapSeenItems (L.getHash item) (some item)
      mapItems := Function.update s.mapItems (L.getHash item) (some (item, fun _ => none)) }) := by
  obtain ⟨hcollateral, hisValid⟩ := hvalid
  unfold processItem addItem
  rw [hseen, if_neg (by simp)]
  split
  · next heq =>
    rw [heq] at hcollateral
    cases hcollateral
  · simp [hisValid, hitem]

theorem opened_box {mapSeenItems : uint256 → Option I} (hitem : s.mapItems (L.getHash item) = none)
    (h : uint256) :
    VoteBook.box { s with
      mapSeenItems := mapSeenItems
      mapItems := Function.update s.mapItems (L.getHash item) (some (item, fun _ => none)) } h =
      if L.getHash item = h then { s.box h with isOpen := true } else s.box h := by
  by_cases hh : L.getHash item = h
  · subst hh
    simp [box, hitem]
  · simp [box, hh, Ne.symm hh]

theorem processVote_valid (hvalid : K.Valid ctx vote)
    (hseen : s.mapSeenVotes (K.getHash vote) = none) :
    s.processVote K ctx vote =
      (({ s with
        mapSeenVotes := Function.update s.mapSeenVotes (K.getHash vote) (some vote) } :
          VoteBook I V).update K ctx true vote).2 := by
  obtain ⟨hfind, hsign⟩ := hvalid
  unfold processVote
  rw [hseen, if_neg (by simp), if_neg (by simp [Option.isSome_iff_ne_none.mp hfind])]
  dsimp only
  rw [if_neg (by simp [hsign])]

end VoteBook

structure Follows (L : ItemKind I) (K : VoteKind V) (items : List I) (votes : List V)
    (arrivals : uint256 → List (Arrival V Int64)) (s : VoteBook I V) : Prop where
  seenItems : ∀ h, (s.mapSeenItems h).isSome = true → h ∈ items.map L.getHash
  seenVotes : ∀ h, (s.mapSeenVotes h).isSome = true → h ∈ votes.map K.getHash
  added : ∀ h, (s.mapItems h).isSome = true → h ∈ items.map L.getHash
  filed : s.Filed K
  box : ∀ h, s.box h = run K.rules.step {} (arrivals h)

variable {items : List I} {votes : List V} {arrivals : uint256 → List (Arrival V Int64)}

theorem eq_none_of_not_mem {α β : Type} {m : α → Option β} {l : List α} {a : α}
    (h : (m a).isSome = true → a ∈ l) (hnot : a ∉ l) : m a = none := by
  rw [← Option.not_isSome_iff_eq_none]
  exact fun hsome => hnot (h hsome)

theorem mem_of_isSome_update {α β : Type} {m : uint256 → Option β} {l : List α} {key : α → uint256}
    (hm : ∀ h, (m h).isSome = true → h ∈ l.map key) (a : α) (b : Option β) (h : uint256)
    (hsome : (Function.update m (key a) b h).isSome = true) : h ∈ (l ++ [a]).map key := by
  rw [map_append]
  by_cases hh : h = key a
  · exact mem_append_right _ (by simp [hh])
  · rw [Function.update_of_ne hh] at hsome
    exact mem_append_left _ (hm h hsome)

/-- The check of the orphan votes, after the boxes have changed as `arrivals` will say. -/
theorem VoteBook.follows_checkOrphans
    (hseenItems : ∀ h, (s.mapSeenItems h).isSome = true → h ∈ items.map L.getHash)
    (hseenVotes : ∀ h, (s.mapSeenVotes h).isSome = true → h ∈ votes.map K.getHash)
    (hadded : ∀ h, (s.mapItems h).isSome = true → h ∈ items.map L.getHash) (hfiled : s.Filed K)
    (hbox : ∀ h, K.rules.recheck (s.box h) ctx.nTime = run K.rules.step {} (arrivals h)) :
    Follows L K items votes arrivals (s.checkOrphans K ctx) := by
  have hseen := VoteBook.checkOrphans_seen K ctx s
  refine ⟨by rwa [hseen], by rwa [hseen], fun h hopen => hadded h ?_,
    VoteBook.checkOrphans_filed hfiled, fun h => (VoteBook.checkOrphans_box hfiled h).trans (hbox h)⟩
  have hopen' : ((s.checkOrphans K ctx).box h).isOpen = true := hopen
  rwa [VoteBook.checkOrphans_box hfiled, recheck_isOpen] at hopen'

section
variable (hs : Follows L K items votes arrivals s)
include hs

theorem Follows.checkOrphans (ctx : BudgetContext) :
    Follows L K items votes (fun h => arrivals h ++ [.check ctx.nTime]) (s.checkOrphans K ctx) := by
  refine VoteBook.follows_checkOrphans hs.seenItems hs.seenVotes hs.added hs.filed fun h => ?_
  rw [run_concat, ← hs.box h]
  rfl

theorem Follows.processItem (hvalid : L.Valid ctx item)
    (hnew : L.getHash item ∉ items.map L.getHash) :
    (s.processItem L ctx item).1 = true ∧
      Follows L K (items ++ [item]) votes
        (fun h => arrivals h ++
          [if L.getHash item = h then .opening ctx.nTime else .check ctx.nTime])
        ((s.processItem L ctx item).2.checkOrphans K ctx) := by
  have hseen : s.mapSeenItems (L.getHash item) = none := eq_none_of_not_mem (hs.seenItems _) hnew
  have hitem : s.mapItems (L.getHash item) = none := eq_none_of_not_mem (hs.added _) hnew
  rw [VoteBook.processItem_valid hvalid hseen hitem]
  refine ⟨rfl, VoteBook.follows_checkOrphans (mem_of_isSome_update hs.seenItems item _)
    hs.seenVotes (mem_of_isSome_update hs.added item _) hs.filed fun h => ?_⟩
  rw [run_concat, ← hs.box h, VoteBook.opened_box hitem]
  split_ifs <;> rfl

theorem Follows.processVote (hvalid : K.Valid ctx vote)
    (hnew : K.getHash vote ∉ votes.map K.getHash) :
    Follows L K items (votes ++ [vote])
      (fun h => arrivals h ++
        if K.nItemHash vote = h then [.vote vote ctx.nTime ctx.fSynced] else [])
      (s.processVote K ctx vote) := by
  have hseen : s.mapSeenVotes (K.getHash vote) = none := eq_none_of_not_mem (hs.seenVotes _) hnew
  rw [VoteBook.processVote_valid hvalid hseen]
  set t : VoteBook I V := { s with
      mapSeenVotes := Function.update s.mapSeenVotes (K.getHash vote) (some vote) } with ht
  have hsame := VoteBook.update_seen K ctx t true vote
  have hbox := VoteBook.update_box K ctx t vote
  refine ⟨by rw [hsame]; exact hs.seenItems,
    by rw [hsame]; exact mem_of_isSome_update hs.seenVotes vote _, fun h hh => hs.added h ?_, VoteBook.update_filed true vote (show t.Filed K from hs.filed),
    fun h => ?_⟩
  · -- a vote opens no box
    have hopen : ((t.update K ctx true vote).2.box h).isOpen = true := hh
    rw [hbox] at hopen
    split_ifs at hopen
    · rwa [step_vote_isOpen] at hopen
    · exact hopen
  · rw [hbox, run_append, ← hs.box h]
    split_ifs <;> rfl

/-- The votes of a masternode on an item are at least `BUDGET_VOTE_UPDATE_MIN`
seconds apart. -/
def VoteKind.Apart (K : VoteKind V) (votes : List V) : Prop :=
  ∀ v ∈ votes, ∀ w ∈ votes, K.nItemHash v = K.nItemHash w →
    (K.vin v).prevout = (K.vin w).prevout →
    v = w ∨ (K.nTime v < K.nTime w ∧ BUDGET_VOTE_UPDATE_MIN ≤ K.nTime w - K.nTime v) ∨
      (K.nTime w < K.nTime v ∧ BUDGET_VOTE_UPDATE_MIN ≤ K.nTime v - K.nTime w)

/-- Different masternodes have different keys in `mapVotes`. -/
def VoteKind.Keyed (K : VoteKind V) (votes : List V) : Prop :=
  ∀ v ∈ votes, ∀ w ∈ votes, K.voter v = K.voter w → (K.vin v).prevout = (K.vin w).prevout

def VoteBook.RecordsAll (L : ItemKind I) (K : VoteKind V) (items : List I) (votes : List V)
    (s : VoteBook I V) : Prop :=
  ∀ item ∈ items, ∀ voter, IsLatest (fun v => (K.nTime v).toInt)
    (fun v => v ∈ votes ∧ K.nItemHash v = L.getHash item ∧ K.voter v = voter)
    (s.recorded (L.getHash item) voter)

def NewestCounted (L : ItemKind I) (K : VoteKind V) (items : List I) (votes : List V)
    (arrivals : uint256 → List (Arrival V Int64)) : Prop :=
  ∀ item ∈ items, ∀ v ∈ votes, K.nItemHash v = L.getHash item →
    (∀ w ∈ votes, K.nItemHash w = L.getHash item → K.voter w = K.voter v →
      (K.nTime w).toInt ≤ (K.nTime v).toInt) →
    Counted K.rules (arrivals (L.getHash item)) v

omit hs in
theorem separated_of_apart (hapart : K.Apart votes) (hkeyed : K.Keyed votes)
    (hvotes : ∀ v, IsVote (arrivals h) v ↔ v ∈ votes ∧ K.nItemHash v = h) :
    Separated K.rules (arrivals h) := by
  intro v w hv hw hkey
  obtain ⟨hv, hvitem⟩ := (hvotes v).mp hv
  obtain ⟨hw, hwitem⟩ := (hvotes w).mp hw
  have hmay : ∀ {a b : V}, BUDGET_VOTE_UPDATE_MIN ≤ K.nTime b - K.nTime a →
      K.rules.mayReplace a b = true := by
    intro a b hle
    show (!decide (K.nTime b - K.nTime a < BUDGET_VOTE_UPDATE_MIN)) = true
    rw [decide_eq_false (Int64.not_lt.mpr hle)]
    rfl
  rcases hapart v hv w hw (hvitem.trans hwitem.symm) (hkeyed v hv w hw hkey) with
    heq | ⟨hlt, hle⟩ | ⟨hlt, hle⟩
  · exact .inl heq
  · exact .inr (.inl ⟨Int64.lt_iff_toInt_lt.mp hlt, hmay hle⟩)
  · exact .inr (.inr ⟨Int64.lt_iff_toInt_lt.mp hlt, hmay hle⟩)

theorem Follows.recordsAll_iff (hapart : K.Apart votes) (hkeyed : K.Keyed votes)
    (hvotes : ∀ h v, IsVote (arrivals h) v ↔ v ∈ votes ∧ K.nItemHash v = h) :
    s.RecordsAll L K items votes ↔ NewestCounted L K items votes arrivals := by
  refine forall₂_congr fun item _ => ?_
  have hheld : ∀ voter, s.recorded (L.getHash item) voter =
      (run K.rules.step {} (arrivals (L.getHash item))).held voter := by
    intro voter
    rw [← hs.box]
    rfl
  have hiff := held_latest_iff (separated_of_apart hapart hkeyed (hvotes (L.getHash item)))
  constructor
  · intro hrecords v hv hitem hnewest
    refine hiff.mp (fun voter => ?_) v ((hvotes _ v).mpr ⟨hv, hitem⟩) fun w hw hkey => ?_
    · rw [← hheld]
      refine (hrecords voter).congr fun w => ?_
      rw [hvotes, and_assoc]
      rfl
    · obtain ⟨hw, hwitem⟩ := (hvotes _ w).mp hw
      exact hnewest w hw hwitem hkey
  · intro hcounted voter
    have hlatest := hiff.mpr (fun v hv hnewest => ?_) voter
    · rw [hheld]
      refine hlatest.congr fun w => ?_
      rw [hvotes, and_assoc]
      rfl
    · obtain ⟨hv, hvitem⟩ := (hvotes _ v).mp hv
      refine hcounted v hv hvitem fun w hw hwitem hkey => ?_
      exact hnewest w ((hvotes _ w).mpr ⟨hw, hwitem⟩) hkey

end

theorem VoteBook.recordsAll_iff_same {t : VoteBook I V} {items' : List I} {votes' : List V}
    (hapart : K.Apart votes) (hkeyed : K.Keyed votes) (hitems : ∀ i, i ∈ items ↔ i ∈ items')
    (hvotes : ∀ v, v ∈ votes ↔ v ∈ votes') (hs : s.RecordsAll L K items votes) :
    t.RecordsAll L K items' votes' ↔
      ∀ item ∈ items, ∀ voter,
        s.recorded (L.getHash item) voter = t.recorded (L.getHash item) voter := by
  constructor
  · intro ht item hitem voter
    have htlatest := (ht item ((hitems item).mp hitem) voter).congr fun v =>
      and_congr_left fun _ => (hvotes v).symm
    refine (hs item hitem voter).unique htlatest fun v w hv hw htime => ?_
    obtain ⟨hv, hvitem, hvkey⟩ := hv
    obtain ⟨hw, hwitem, hwkey⟩ := hw
    rcases hapart v hv w hw (hvitem.trans hwitem.symm)
        (hkeyed v hv w hw (hvkey.trans hwkey.symm)) with heq | ⟨hlt, -⟩ | ⟨hlt, -⟩
    · exact heq
    · exact absurd htime (ne_of_lt (Int64.lt_iff_toInt_lt.mp hlt))
    · exact absurd htime.symm (ne_of_lt (Int64.lt_iff_toInt_lt.mp hlt))
  · intro hsame item hitem voter
    rw [← hsame item ((hitems item).mpr hitem) voter]
    exact (hs item ((hitems item).mpr hitem) voter).congr fun v =>
      and_congr_left fun _ => hvotes v

end

end Alqo.BudgetVotes
