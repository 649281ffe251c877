import Alqo.SwiftTx

/-!
# What an entry of `mapLockedInputs` is worth (swifttx.cpp)

Completing a lock with six votes locks the inputs of its transaction. A request that the memory pool
refuses locks its inputs too, with no vote at all. `LockedComplete` says that every locked input
stands for a complete lock.
-/

namespace Alqo
open Lib.Runs Function List Option

namespace SwiftTx

def votesOf (s : SwiftTx) (txHash : uint256) : Option (Int × List CConsensusVote) :=
  (s.mapTxLocks txHash).map fun lock => (lock.nBlockHeight, lock.vecConsensusVotes)

def HasLock (s : SwiftTx) (txHash : uint256) : Prop :=
  ∃ lock, s.mapTxLocks txHash = some lock ∧ SWIFTTX_SIGNATURES_REQUIRED ≤ lock.countSignatures

def LockedComplete (s : SwiftTx) : Prop :=
  ∀ o txHash, s.mapLockedInputs o = some txHash → s.HasLock txHash

def Requested (s : SwiftTx) : Prop :=
  ∀ txHash p, s.votesOf txHash = some p → p.1 ≠ 0 →
    (s.mapTxLockReq txHash).isSome = true ∨ (s.mapTxLockReqRejected txHash).isSome = true

variable {s t : SwiftTx} {txHash : uint256}

theorem hasLock_iff : s.HasLock txHash ↔ ∃ p, s.votesOf txHash = some p ∧ p.1 ≠ 0 ∧
      SWIFTTX_SIGNATURES_REQUIRED ≤ ((p.2.filter fun v => v.nBlockHeight = p.1).length : Int) := by
  unfold HasLock votesOf CTransactionLock.countSignatures
  constructor
  · rintro ⟨lock, hlock, hcount⟩
    refine ⟨(lock.nBlockHeight, lock.vecConsensusVotes), by rw [hlock]; rfl, ?_⟩
    by_cases hzero : lock.nBlockHeight = 0
    · rw [if_pos hzero] at hcount
      exact absurd hcount (by decide)
    · rw [if_neg hzero] at hcount
      exact ⟨hzero, hcount⟩
  · rintro ⟨p, hp, hzero, hcount⟩
    obtain ⟨lock, hlock, rfl⟩ := map_eq_some_iff.mp hp
    exact ⟨lock, hlock, by rw [if_neg hzero]; exact hcount⟩

theorem HasLock.congr (h : t.votesOf txHash = s.votesOf txHash) :
    t.HasLock txHash ↔ s.HasLock txHash := by
  rw [hasLock_iff, hasLock_iff, h]

/- The locks are the same but for the times at which they expire. -/
def SameLocks (s t : SwiftTx) : Prop :=
  ∀ h, (t.mapTxLocks h).map (fun lock => (lock.txHash, lock.nBlockHeight, lock.vecConsensusVotes)) =
    (s.mapTxLocks h).map fun lock => (lock.txHash, lock.nBlockHeight, lock.vecConsensusVotes)

theorem SameLocks.votesOf (h : SameLocks s t) : t.votesOf = s.votesOf := by
  funext k
  have hk := congrArg (Option.map Prod.snd) (h k)
  rw [Option.map_map, Option.map_map] at hk
  exact hk

structure SameButExpiry (s t : SwiftTx) : Prop where
  req : t.mapTxLockReq = s.mapTxLockReq
  rejected : t.mapTxLockReqRejected = s.mapTxLockReqRejected
  vote : t.mapTxLockVote = s.mapTxLockVote
  locks : t.votesOf = s.votesOf
  locked : t.mapLockedInputs = s.mapLockedInputs

theorem SameButExpiry.trans {u : SwiftTx} (h : SameButExpiry s t ∧ SameLocks s t)
    (h' : SameButExpiry t u ∧ SameLocks t u) : SameButExpiry s u ∧ SameLocks s u :=
  ⟨⟨h'.1.req.trans h.1.req, h'.1.rejected.trans h.1.rejected, h'.1.vote.trans h.1.vote,
    h'.1.locks.trans h.1.locks, h'.1.locked.trans h.1.locked⟩, fun k => (h'.2 k).trans (h.2 k)⟩

theorem votesOf_update {lock : CTransactionLock} (h : uint256) :
    votesOf { s with mapTxLocks := update s.mapTxLocks txHash (some lock) } h =
      if h = txHash then some (lock.nBlockHeight, lock.vecConsensusVotes) else s.votesOf h := by
  by_cases hh : h = txHash
  · subst hh
    simp [votesOf]
  · simp [votesOf, hh]

theorem expire_same (s : SwiftTx) (nTime : Int) (hash : uint256) :
    SameButExpiry s (s.expire nTime hash) ∧ SameLocks s (s.expire nTime hash) := by
  unfold expire
  cases hlock : s.mapTxLocks hash with
  | none => exact ⟨⟨rfl, rfl, rfl, rfl, rfl⟩, fun _ => rfl⟩
  | some lock =>
    have hsame : SameLocks s { s with
        mapTxLocks := update s.mapTxLocks hash (some { lock with nExpiration := nTime }) } := by
      intro h
      by_cases hh : h = hash
      · simp [hh, hlock]
      · simp [hh]
    exact ⟨⟨rfl, rfl, rfl, hsame.votesOf, rfl⟩, hsame⟩

theorem checkForConflictingLocks_same (s : SwiftTx) (nTime : Int) (hash : uint256)
    (vin : List CTxIn) : SameButExpiry s (s.checkForConflictingLocks nTime hash vin).2 ∧
      SameLocks s (s.checkForConflictingLocks nTime hash vin).2 := by
  induction vin with
  | nil => exact ⟨⟨rfl, rfl, rfl, rfl, rfl⟩, fun _ => rfl⟩
  | cons txin rest ih =>
    unfold checkForConflictingLocks
    cases s.mapLockedInputs txin.prevout with
    | none => exact ih
    | some other =>
      dsimp only
      split_ifs
      · exact SameButExpiry.trans (expire_same s nTime hash) (expire_same _ nTime other)
      · exact ih

theorem lockInputs_apply (m : COutPoint → Option uint256) (txHash : uint256) (vin : List CTxIn)
    (o : COutPoint) :
    lockInputs m txHash vin o =
      (m o).or (if o ∈ vin.map CTxIn.prevout then some txHash else none) := by
  induction vin generalizing m with
  | nil => simp [lockInputs]
  | cons txin rest ih =>
    have hstep : lockInputs m txHash (txin :: rest) =
        lockInputs (update m txin.prevout ((m txin.prevout).or (some txHash))) txHash rest := by
      cases hm : m txin.prevout with
      | some other =>
        rw [some_or, ← hm, update_eq_self]
        simp only [lockInputs, hm]
      | none => simp only [lockInputs, hm, none_or]
    rw [hstep, ih]
    by_cases ho : o = txin.prevout
    · subst ho
      cases m txin.prevout <;> simp
    · simp [ho]

theorem lockInputs_eq_some {m : COutPoint → Option uint256} {vin : List CTxIn} {o : COutPoint}
    {h : uint256} (ho : lockInputs m txHash vin o = some h) :
    m o = some h ∨ m o = none ∧ o ∈ vin.map CTxIn.prevout ∧ h = txHash := by
  rw [lockInputs_apply] at ho
  cases hm : m o with
  | some other =>
    rw [hm] at ho
    exact .inl ho
  | none =>
    rw [hm, none_or] at ho
    split_ifs at ho with hmem
    exact .inr ⟨rfl, hmem, (Option.some.inj ho).symm⟩

theorem isSome_update {α β : Type} [DecidableEq α] {m : α → Option β} {k x : α} (y : β)
    (h : (m x).isSome = true) : (update m k (some y) x).isSome = true := by
  by_cases hx : x = k
  · subst hx
    simp
  · rw [update_of_ne hx]
    exact h

structure Taken (s : SwiftTx) (ctx : SwiftContext) (tx : CTransaction) : Prop where
  listens : ctx.listens = true
  new : s.mapTxLockReq tx.hash = none ∧ s.mapTxLockReqRejected tx.hash = none
  valid : isIXTXValid ctx tx = true
  scripts : (tx.vout.any fun o =>
    !isNormalPaymentScript o.scriptPubKey && !isUnspendable o.scriptPubKey) = false

section
variable {Hash : Bytes → uint256} {v : Verifier CConsensusVote} {s : SwiftTx} {ctx : SwiftContext}
  {tx : CTransaction} {vote : CConsensusVote} {h : uint256}

theorem createNewLock_frame (s : SwiftTx) (ctx : SwiftContext) (tx : CTransaction) :
    let t := (s.createNewLock ctx tx).2
    t.mapTxLockReq = s.mapTxLockReq ∧ t.mapTxLockReqRejected = s.mapTxLockReqRejected ∧
      t.mapTxLockVote = s.mapTxLockVote ∧ t.mapLockedInputs = s.mapLockedInputs := by
  unfold createNewLock
  cases lockAge ctx.getInputAge tx.vin.reverse 0 <;> exact ⟨rfl, rfl, rfl, rfl⟩

theorem createNewLock_votesOf_ne (s : SwiftTx) (ctx : SwiftContext) (tx : CTransaction)
    (hne : h ≠ tx.hash) :
    (s.createNewLock ctx tx).2.votesOf h = s.votesOf h := by
  unfold createNewLock
  cases lockAge ctx.getInputAge tx.vin.reverse 0 with
  | none => rfl
  | some nTxAge =>
    rw [votesOf_update, if_neg hne]

theorem createNewLock_votes {p : Int × List CConsensusVote}
    (h : (s.createNewLock ctx tx).2.votesOf tx.hash = some p) :
    p.2 = [] ∨ ∃ q, s.votesOf tx.hash = some q ∧ q.2 = p.2 := by
  unfold createNewLock at h
  cases hage : lockAge ctx.getInputAge tx.vin.reverse 0 with
  | none =>
    rw [hage] at h
    exact .inr ⟨p, h, rfl⟩
  | some nTxAge =>
    rw [hage] at h
    rw [votesOf_update, if_pos rfl] at h
    cases hlock : s.mapTxLocks tx.hash with
    | none =>
      rw [hlock] at h
      cases h
      exact .inl rfl
    | some lock =>
      rw [hlock] at h
      cases h
      exact .inr ⟨(lock.nBlockHeight, lock.vecConsensusVotes), by simp [votesOf, hlock], rfl⟩

variable (Hash v) in
theorem doConsensusVote_frame (s : SwiftTx) (ctx : SwiftContext) (tx : CTransaction)
    (nBlockHeight : Int) :
    let t := s.doConsensusVote Hash v ctx tx nBlockHeight
    t.mapTxLockReq = s.mapTxLockReq ∧ t.mapTxLockReqRejected = s.mapTxLockReqRejected ∧
      t.mapTxLocks = s.mapTxLocks ∧ t.mapLockedInputs = s.mapLockedInputs ∧
      ∀ h, (s.mapTxLockVote h).isSome = true → (t.mapTxLockVote h).isSome = true := by
  unfold doConsensusVote
  cases ctx.activeMasternode with
  | none => exact ⟨rfl, rfl, rfl, rfl, fun h hh => hh⟩
  | some vinMasternode =>
    dsimp only
    split_ifs
    · exact ⟨rfl, rfl, rfl, rfl, fun h hh => hh⟩
    · split
      · exact ⟨rfl, rfl, rfl, rfl, fun h hh => hh⟩
      · split_ifs
        · exact ⟨rfl, rfl, rfl, rfl, fun h hh => isSome_update _ hh⟩
        · exact ⟨rfl, rfl, rfl, rfl, fun h hh => hh⟩

variable (Hash v) in
theorem acceptRequest_frame (s : SwiftTx) (ctx : SwiftContext) (tx : CTransaction)
    (nBlockHeight : Int) :
    let t := s.acceptRequest Hash v ctx tx nBlockHeight
    t.mapTxLocks = s.mapTxLocks ∧ t.mapLockedInputs = s.mapLockedInputs ∧
      t.mapTxLockReqRejected = s.mapTxLockReqRejected ∧
      t.mapTxLockReq = update s.mapTxLockReq tx.hash (some tx) ∧
      ∀ h, (s.mapTxLockVote h).isSome = true → (t.mapTxLockVote h).isSome = true := by
  obtain ⟨hreq, hrej, hlocks, hlocked, hvote⟩ :=
    doConsensusVote_frame Hash v s ctx tx nBlockHeight
  refine ⟨hlocks, hlocked, hrej, ?_, hvote⟩
  rw [acceptRequest, hreq]

theorem rejectRequest_frame (s : SwiftTx) (ctx : SwiftContext) (tx : CTransaction) :
    let t := s.rejectRequest ctx tx
    SameLocks s t ∧ t.mapLockedInputs = lockInputs s.mapLockedInputs tx.hash tx.vin ∧
      t.mapTxLockVote = s.mapTxLockVote ∧
      t.mapTxLockReqRejected = update s.mapTxLockReqRejected tx.hash (some tx) ∧
      ∀ h, (s.mapTxLockReq h).isSome = true → (t.mapTxLockReq h).isSome = true := by
  unfold rejectRequest
  dsimp only
  cases s.mapTxLocks tx.hash with
  | none => exact ⟨fun _ => rfl, rfl, rfl, rfl, fun h hh => hh⟩
  | some lock =>
    dsimp only
    split_ifs
    · obtain ⟨⟨hreq, hrej, hvote, -, hlocked⟩, hlocks⟩ := checkForConflictingLocks_same { s with
          mapTxLockReqRejected := update s.mapTxLockReqRejected tx.hash (some tx)
          mapLockedInputs := lockInputs s.mapLockedInputs tx.hash tx.vin }
        ctx.nTime tx.hash tx.vin
      split
      · next heq =>
        rw [heq] at hreq hrej hvote hlocks hlocked
        exact ⟨hlocks, hlocked, hvote, hrej, fun h hh => by rw [hreq]; exact hh⟩
      · next heq =>
        rw [heq] at hreq hrej hvote hlocks hlocked
        refine ⟨hlocks, hlocked, hvote, hrej, fun h hh => isSome_update _ ?_⟩
        rw [hreq]
        exact hh
    · exact ⟨fun _ => rfl, rfl, rfl, rfl, fun h hh => hh⟩

theorem processIx_ignored (h : ¬ s.Taken ctx tx) : s.processIx Hash v ctx tx = s := by
  unfold processIx
  split_ifs with hlisten hnew hvalid hscripts
  · rfl
  · rfl
  · exfalso
    apply h
    rw [not_or, Bool.not_eq_true, Bool.not_eq_true, isSome_eq_false_iff,
      isSome_eq_false_iff, isNone_iff_eq_none, isNone_iff_eq_none] at hnew
    exact ⟨hlisten, hnew, hvalid, by simpa using hscripts⟩
  · rfl
  · rfl

theorem processIx_taken (h : s.Taken ctx tx) : s.processIx Hash v ctx tx =
      if ctx.fAcceptable && !lockConflict s.mapLockedInputs tx then
        (s.createNewLock ctx tx).2.acceptRequest Hash v ctx tx (s.createNewLock ctx tx).1
      else (s.createNewLock ctx tx).2.rejectRequest ctx tx := by
  obtain ⟨hlisten, hnew, hvalid, hscripts⟩ := h
  have hknown : ¬ ((s.mapTxLockReq tx.hash).isSome = true ∨
      (s.mapTxLockReqRejected tx.hash).isSome = true) := by simp [hnew]
  unfold processIx
  rw [if_neg (by simp [hlisten]), if_neg hknown, if_neg (by simp [hvalid]),
    if_neg (by simp [hscripts])]
  dsimp only
  rw [(createNewLock_frame s ctx tx).2.2.2]

theorem addSignature_votesOf (s : SwiftTx) (ctx : SwiftContext) (vote : CConsensusVote)
    (h : uint256) :
    (s.addSignature ctx vote).votesOf h = if h = vote.txHash then
        some (((s.votesOf vote.txHash).getD (0, [])).1,
          ((s.votesOf vote.txHash).getD (0, [])).2 ++ [vote])
      else s.votesOf h := by
  unfold addSignature
  rw [votesOf_update]
  cases hlock : s.mapTxLocks vote.txHash <;> simp [votesOf, hlock]

theorem completeLock_frame (s : SwiftTx) (ctx : SwiftContext) (txHash : uint256) :
    let t := s.completeLock ctx txHash
    let tx := (s.mapTxLockReq txHash).getD { hash := 0, vin := [], vout := [] }
    SameLocks s t ∧ t.mapTxLockVote = s.mapTxLockVote ∧
      t.mapTxLockReqRejected = s.mapTxLockReqRejected ∧
      t.mapTxLockReq = update s.mapTxLockReq txHash (some tx) ∧
      (t.mapLockedInputs = s.mapLockedInputs ∨
        t.mapLockedInputs = lockInputs s.mapLockedInputs txHash tx.vin) := by
  intro t tx
  obtain ⟨⟨hreq, hrej, hvote, -, hlocked⟩, hlocks⟩ := checkForConflictingLocks_same
    { s with mapTxLockReq := update s.mapTxLockReq txHash (some tx) }
    ctx.nTime tx.hash tx.vin
  unfold t completeLock
  dsimp only
  split
  · next heq =>
    rw [heq] at hreq hrej hvote hlocks hlocked
    exact ⟨hlocks, hvote, hrej, hreq, .inl hlocked⟩
  · next heq =>
    rw [heq] at hreq hrej hvote hlocks hlocked
    refine ⟨hlocks, hvote, hrej, hreq, .inr ?_⟩
    rw [hlocked]

variable (Hash v) in
theorem processTxlvote_frame (s : SwiftTx) (ctx : SwiftContext) (vote : CConsensusVote) :
    let t := s.processTxlvote Hash v ctx vote
    t.mapTxLockReqRejected = s.mapTxLockReqRejected ∧
      (∀ h, (s.mapTxLockReq h).isSome = true → (t.mapTxLockReq h).isSome = true) ∧
      (∀ h, (s.mapTxLockVote h).isSome = true → (t.mapTxLockVote h).isSome = true) ∧
      (t.votesOf = s.votesOf ∨
        (s.mapTxLockVote vote.getHash = none ∧ voteValid Hash v ctx vote = true ∧
          (t.mapTxLockVote vote.getHash).isSome = true ∧
          t.votesOf = (s.addSignature ctx vote).votesOf)) ∧
      ∀ o h, t.mapLockedInputs o = some h → s.mapLockedInputs o = some h ∨ t.HasLock h := by
  unfold processTxlvote
  split_ifs with hlisten hseen
  · exact ⟨rfl, fun _ h => h, fun _ h => h, .inl rfl, fun _ _ h => .inl h⟩
  · rw [Bool.not_eq_true, isSome_eq_false_iff, isNone_iff_eq_none] at hseen
    unfold processConsensusVote
    split_ifs with hvalid
    · have hnoted : (update s.mapTxLockVote vote.getHash (some vote)
          vote.getHash).isSome = true := by simp
      dsimp only
      split
      · exact ⟨rfl, fun _ h => h, fun _ h => isSome_update _ h,
          .inr ⟨hseen, hvalid, hnoted, rfl⟩, fun _ _ h => .inl h⟩
      · next lock hlock =>
        split_ifs with hcount
        · obtain ⟨hlocks, hvote, hrej, hreq, hlocked⟩ := completeLock_frame (addSignature { s with
                mapTxLockVote := update s.mapTxLockVote vote.getHash (some vote) }
              ctx vote)
            ctx vote.txHash
          have hcomplete := (HasLock.congr (congrFun hlocks.votesOf _)).mpr ⟨lock, hlock, hcount⟩
          refine ⟨hrej, fun h hh => ?_, fun h hh => ?_, .inr ⟨hseen, hvalid, ?_, hlocks.votesOf⟩,
            fun o h ho => ?_⟩
          · rw [hreq]
            exact isSome_update _ hh
          · rw [hvote]
            exact isSome_update _ hh
          · rw [hvote]
            exact hnoted
          · rcases hlocked with hsame | hinputs
            · rw [hsame] at ho
              exact .inl ho
            · rw [hinputs] at ho
              rcases lockInputs_eq_some ho with hold | ⟨-, -, rfl⟩
              · exact .inl hold
              · exact .inr hcomplete
        · exact ⟨rfl, fun _ h => h, fun _ h => isSome_update _ h,
            .inr ⟨hseen, hvalid, hnoted, rfl⟩, fun _ _ h => .inl h⟩
    · exact ⟨rfl, fun _ h => h, fun _ h => isSome_update _ h, .inl rfl, fun _ _ h => .inl h⟩
  · exact ⟨rfl, fun _ h => h, fun _ h => h, .inl rfl, fun _ _ h => .inl h⟩

theorem HasLock.addSignature (hlock : s.HasLock h) (ctx : SwiftContext) (vote : CConsensusVote) :
    (s.addSignature ctx vote).HasLock h := by
  rw [hasLock_iff] at hlock ⊢
  obtain ⟨p, hp, hzero, hcount⟩ := hlock
  rw [addSignature_votesOf]
  by_cases hh : h = vote.txHash
  · subst hh
    rw [if_pos rfl, hp, getD_some]
    refine ⟨(p.1, p.2 ++ [vote]), rfl, hzero, ?_⟩
    rw [filter_append, length_append]
    push_cast
    omega
  · rw [if_neg hh]
    exact ⟨p, hp, hzero, hcount⟩

def RefusalCovered (s : SwiftTx) : SwiftMessage → Prop
  | .txlvote _ _ => True
  | .ix tx ctx => s.Taken ctx tx →
      (ctx.fAcceptable && !lockConflict s.mapLockedInputs tx) = false →
      (∀ txin ∈ tx.vin, (s.mapLockedInputs txin.prevout).isSome = true) ∨
        (s.createNewLock ctx tx).2.HasLock tx.hash

theorem requested_step (h : s.Requested) (e : SwiftMessage) :
    (s.processMessage Hash v e).Requested := by
  cases e with
  | ix tx ctx =>
    show (s.processIx Hash v ctx tx).Requested
    by_cases htaken : s.Taken ctx tx
    · obtain ⟨hreq, hrej, -, -⟩ := createNewLock_frame s ctx tx
      rw [processIx_taken htaken]
      intro hash p hp hzero
      split_ifs at hp ⊢
      · obtain ⟨hlocks, -, hrej', hreq', -⟩ := acceptRequest_frame Hash v
          (s.createNewLock ctx tx).2 ctx tx (s.createNewLock ctx tx).1
        rw [hreq', hrej', hreq, hrej]
        by_cases hhash : hash = tx.hash
        · subst hhash
          simp
        · rw [votesOf, hlocks, ← votesOf, createNewLock_votesOf_ne s ctx tx hhash] at hp
          rw [update_of_ne hhash]
          exact h hash p hp hzero
      · obtain ⟨hlocks, -, -, hrej', hreq'⟩ :=
          rejectRequest_frame (s.createNewLock ctx tx).2 ctx tx
        rw [hrej', hrej]
        by_cases hhash : hash = tx.hash
        · subst hhash
          simp
        · rw [hlocks.votesOf, createNewLock_votesOf_ne s ctx tx hhash] at hp
          rw [update_of_ne hhash]
          refine (h hash p hp hzero).imp_left fun hsome => hreq' hash ?_
          rw [hreq]
          exact hsome
    · rw [processIx_ignored htaken]
      exact h
  | txlvote vote ctx =>
    obtain ⟨hrej, hreq, -, hlocks, -⟩ := processTxlvote_frame Hash v s ctx vote
    intro hash p hp hzero
    -- a vote never sets the height of a lock
    have hold : ∃ q, s.votesOf hash = some q ∧ q.1 ≠ 0 := by
      change (s.processTxlvote Hash v ctx vote).votesOf hash = some p at hp
      rcases hlocks with hsame | ⟨-, -, -, hadd⟩
      · rw [hsame] at hp
        exact ⟨p, hp, hzero⟩
      · rw [hadd, addSignature_votesOf] at hp
        split_ifs at hp with hhash
        · subst hhash
          cases hq : s.votesOf vote.txHash with
          | none =>
            rw [hq] at hp
            cases hp
            exact absurd rfl hzero
          | some q =>
            rw [hq] at hp
            cases hp
            exact ⟨q, rfl, hzero⟩
        · exact ⟨p, hp, hzero⟩
    obtain ⟨q, hq, hzero⟩ := hold
    show ((s.processTxlvote Hash v ctx vote).mapTxLockReq hash).isSome = true ∨
      ((s.processTxlvote Hash v ctx vote).mapTxLockReqRejected hash).isSome = true
    rw [hrej]
    exact (h hash q hq hzero).imp_left (hreq hash)

theorem Taken.not_hasLock (htaken : s.Taken ctx tx) (h : s.Requested) : ¬ s.HasLock tx.hash := by
  intro hlock
  obtain ⟨p, hp, hzero, -⟩ := hasLock_iff.mp hlock
  rcases h tx.hash p hp hzero with hreq | hrej
  · rw [htaken.new.1] at hreq
    cases hreq
  · rw [htaken.new.2] at hrej
    cases hrej

theorem lockedComplete_createNewLock (htaken : s.Taken ctx tx) (h : s.Requested)
    (hcomplete : s.LockedComplete) : (s.createNewLock ctx tx).2.LockedComplete := by
  intro o hash ho
  rw [(createNewLock_frame s ctx tx).2.2.2] at ho
  have hlock := hcomplete o hash ho
  have hne : hash ≠ tx.hash := by
    intro heq
    subst heq
    exact htaken.not_hasLock h hlock
  exact (HasLock.congr (createNewLock_votesOf_ne s ctx tx hne)).mpr hlock

theorem lockedComplete_rejectRequest_iff (hcomplete : s.LockedComplete) :
    (s.rejectRequest ctx tx).LockedComplete ↔
      (∀ txin ∈ tx.vin, (s.mapLockedInputs txin.prevout).isSome = true) ∨ s.HasLock tx.hash := by
  obtain ⟨hlocks, hlocked, -, -, -⟩ := rejectRequest_frame s ctx tx
  have hcongr : ∀ hash, (s.rejectRequest ctx tx).HasLock hash ↔ s.HasLock hash :=
    fun hash => HasLock.congr (congrFun hlocks.votesOf hash)
  constructor
  · intro hafter
    by_cases hall : ∀ txin ∈ tx.vin, (s.mapLockedInputs txin.prevout).isSome = true
    · exact .inl hall
    · right
      push Not at hall
      obtain ⟨txin, hmem, hfree⟩ := hall
      rw [ne_eq, Bool.not_eq_true, isSome_eq_false_iff, isNone_iff_eq_none] at hfree
      refine (hcongr tx.hash).mp (hafter txin.prevout tx.hash ?_)
      rw [hlocked, lockInputs_apply, hfree, none_or, if_pos (mem_map_of_mem hmem)]
  · intro hcovered o hash ho
    rw [hlocked] at ho
    rw [hcongr]
    rcases lockInputs_eq_some ho with hold | ⟨hnone, hmem, rfl⟩
    · exact hcomplete o hash hold
    · obtain ⟨txin, htxin, rfl⟩ := mem_map.mp hmem
      refine hcovered.resolve_left fun hall => ?_
      have hsome := hall txin htxin
      rw [hnone] at hsome
      cases hsome

theorem lockedComplete_step_iff (h : s.Requested) (hcomplete : s.LockedComplete)
    (e : SwiftMessage) :
    (s.processMessage Hash v e).LockedComplete ↔ s.RefusalCovered e := by
  cases e with
  | ix tx ctx =>
    show (s.processIx Hash v ctx tx).LockedComplete ↔ _
    by_cases htaken : s.Taken ctx tx
    · have hnew := lockedComplete_createNewLock htaken h hcomplete
      rw [processIx_taken htaken]
      split_ifs with haccept
      · obtain ⟨hlocks, hlocked, -, -, -⟩ := acceptRequest_frame Hash v
          (s.createNewLock ctx tx).2 ctx tx (s.createNewLock ctx tx).1
        refine iff_of_true (fun o hash ho => ?_) fun _ hrefused => ?_
        · rw [hlocked] at ho
          exact (HasLock.congr (by rw [votesOf, hlocks, votesOf])).mpr (hnew o hash ho)
        · rw [haccept] at hrefused
          cases hrefused
      · rw [lockedComplete_rejectRequest_iff hnew, (createNewLock_frame s ctx tx).2.2.2]
        exact ⟨fun hcovered _ _ => hcovered,
          fun hcovered => hcovered htaken (Bool.not_eq_true _ ▸ haccept)⟩
    · rw [processIx_ignored htaken]
      exact iff_of_true hcomplete fun htaken' => absurd htaken' htaken
  | txlvote vote ctx =>
    obtain ⟨-, -, -, hlocks, hlocked⟩ := processTxlvote_frame Hash v s ctx vote
    refine iff_of_true (fun o hash ho => ?_) trivial
    rcases hlocked o hash ho with hold | hlock
    · have hlock := hcomplete o hash hold
      rcases hlocks with hsame | ⟨-, -, -, hadd⟩
      · exact (HasLock.congr (congrFun hsame hash)).mpr hlock
      · exact (HasLock.congr (congrFun hadd hash)).mpr (hlock.addSignature ctx vote)
    · exact hlock

end

section
variable (Hash : Bytes → uint256) (v : Verifier CConsensusVote)

def voterOf (txHash : uint256) : SwiftMessage → Option COutPoint
  | .ix _ _ => none
  | .txlvote vote ctx =>
    if vote.txHash = txHash ∧ voteValid Hash v ctx vote = true then
      some vote.vinMasternode.prevout
    else none

def validVoters (events : List SwiftMessage) (txHash : uint256) : List COutPoint :=
  (events.filterMap (voterOf Hash v txHash)).dedup

def Collected (seen : List SwiftMessage) (s : SwiftTx) : Prop :=
  ∀ txHash p, s.votesOf txHash = some p → (p.2.map fun vote => vote.vinMasternode.prevout).Nodup ∧
    ∀ vote ∈ p.2, vote.txHash = txHash ∧ (s.mapTxLockVote vote.getHash).isSome = true ∧
      vote.vinMasternode.prevout ∈ validVoters Hash v seen txHash

variable {Hash v} {s t : SwiftTx} {seen : List SwiftMessage}

theorem validVoters_mono (e : SwiftMessage) {o : COutPoint} (h : o ∈ validVoters Hash v seen txHash) :
    o ∈ validVoters Hash v (seen ++ [e]) txHash := by
  rw [validVoters, mem_dedup, filterMap_append] at *
  exact mem_append_left _ h

theorem Collected.keep (h : Collected Hash v seen s) (e : SwiftMessage)
    (hvotes : ∀ txHash p, t.votesOf txHash = some p →
      p.2 = [] ∨ ∃ q, s.votesOf txHash = some q ∧ q.2 = p.2)
    (hnoted : ∀ hash, (s.mapTxLockVote hash).isSome = true → (t.mapTxLockVote hash).isSome = true) :
    Collected Hash v (seen ++ [e]) t := by
  intro txHash p hp
  rcases hvotes txHash p hp with hnil | ⟨q, hq, hsame⟩
  · rw [hnil]
    exact ⟨nodup_nil, fun vote hvote => absurd hvote not_mem_nil⟩
  · rw [← hsame]
    obtain ⟨hnodup, hall⟩ := h txHash q hq
    refine ⟨hnodup, fun vote hvote => ?_⟩
    obtain ⟨htx, hsome, hvoter⟩ := hall vote hvote
    exact ⟨htx, hnoted _ hsome, validVoters_mono e hvoter⟩

variable {vote : CConsensusVote}

theorem getHash_eq_of_prevout {vote' : CConsensusVote} (htx : vote.txHash = vote'.txHash)
    (ho : vote.vinMasternode.prevout = vote'.vinMasternode.prevout) :
    vote.getHash = vote'.getHash := by
  rw [CConsensusVote.getHash, CConsensusVote.getHash, htx, ho]

theorem Collected.add (h : Collected Hash v seen s) {ctx : SwiftContext}
    (hnew : s.mapTxLockVote vote.getHash = none) (hvalid : voteValid Hash v ctx vote = true)
    (hadd : t.votesOf = (s.addSignature ctx vote).votesOf)
    (hself : (t.mapTxLockVote vote.getHash).isSome = true)
    (hnoted : ∀ hash, (s.mapTxLockVote hash).isSome = true → (t.mapTxLockVote hash).isSome = true) :
    Collected Hash v (seen ++ [.txlvote vote ctx]) t := by
  have hvoter : vote.vinMasternode.prevout ∈
      validVoters Hash v (seen ++ [.txlvote vote ctx]) vote.txHash := by
    rw [validVoters, mem_dedup, filterMap_append]
    refine mem_append_right _ ?_
    simp [voterOf, hvalid]
  intro txHash p hp
  rw [hadd, addSignature_votesOf] at hp
  split_ifs at hp with htx
  · subst htx
    cases hp
    -- the votes that were there, none of them of this masternode
    have hold : (((s.votesOf vote.txHash).getD (0, [])).2.map
          fun vote => vote.vinMasternode.prevout).Nodup ∧
        ∀ old ∈ ((s.votesOf vote.txHash).getD (0, [])).2, old.txHash = vote.txHash ∧
          (s.mapTxLockVote old.getHash).isSome = true ∧
          old.vinMasternode.prevout ∈ validVoters Hash v seen vote.txHash := by
      cases hq : s.votesOf vote.txHash with
      | none => exact ⟨nodup_nil, fun old hmem => absurd hmem not_mem_nil⟩
      | some q => exact h vote.txHash q hq
    obtain ⟨hnodup, hall⟩ := hold
    refine ⟨?_, fun old hmem => ?_⟩
    · rw [map_append, nodup_append]
      refine ⟨hnodup, nodup_singleton _, fun a ha b hb heq => ?_⟩
      obtain ⟨old, hmem, rfl⟩ := mem_map.mp ha
      rw [map_singleton, mem_singleton] at hb
      obtain ⟨htx, hsome, -⟩ := hall old hmem
      rw [getHash_eq_of_prevout htx (heq.trans hb), hnew] at hsome
      cases hsome
    · rcases mem_append.mp hmem with hmem | hmem
      · obtain ⟨htx, hsome, hvoter⟩ := hall old hmem
        exact ⟨htx, hnoted _ hsome, validVoters_mono _ hvoter⟩
      · rw [mem_singleton] at hmem
        subst hmem
        exact ⟨rfl, hself, hvoter⟩
  · obtain ⟨hnodup, hall⟩ := h txHash p hp
    refine ⟨hnodup, fun old hmem => ?_⟩
    obtain ⟨htx, hsome, hvoter⟩ := hall old hmem
    exact ⟨htx, hnoted _ hsome, validVoters_mono _ hvoter⟩

theorem collected_step (h : Collected Hash v seen s) (e : SwiftMessage) :
    Collected Hash v (seen ++ [e]) (s.processMessage Hash v e) := by
  cases e with
  | ix tx ctx =>
    by_cases htaken : s.Taken ctx tx
    · have hcreate : ∀ txHash p, (s.createNewLock ctx tx).2.votesOf txHash = some p →
          p.2 = [] ∨ ∃ q, s.votesOf txHash = some q ∧ q.2 = p.2 := by
        intro txHash p hp
        by_cases htx : txHash = tx.hash
        · subst htx
          exact createNewLock_votes hp
        · rw [createNewLock_votesOf_ne s ctx tx htx] at hp
          exact .inr ⟨p, hp, rfl⟩
      have hvote := (createNewLock_frame s ctx tx).2.2.1
      apply h.keep
      · show ∀ txHash p, (s.processIx Hash v ctx tx).votesOf txHash = some p → _
        rw [processIx_taken htaken]
        split_ifs
        · simp only [votesOf, (acceptRequest_frame Hash v _ ctx tx _).1]
          exact hcreate
        · rw [(rejectRequest_frame _ ctx tx).1.votesOf]
          exact hcreate
      · intro hash hsome
        show ((s.processIx Hash v ctx tx).mapTxLockVote hash).isSome = true
        rw [processIx_taken htaken]
        split_ifs
        · refine (acceptRequest_frame Hash v _ ctx tx _).2.2.2.2 hash ?_
          rw [hvote]
          exact hsome
        · rw [(rejectRequest_frame _ ctx tx).2.2.1, hvote]
          exact hsome
    · have hsame : s.processMessage Hash v (.ix tx ctx) = s := processIx_ignored htaken
      rw [hsame]
      exact h.keep _ (fun _ p hp => .inr ⟨p, hp, rfl⟩) fun _ hsome => hsome
  | txlvote vote ctx =>
    obtain ⟨-, -, hnoted, hlocks, -⟩ := processTxlvote_frame Hash v s ctx vote
    rcases hlocks with hsame | ⟨hnew, hvalid, hself, hadd⟩
    · refine h.keep _ (fun txHash p hp => ?_) hnoted
      rw [processMessage, hsame] at hp
      exact .inr ⟨p, hp, rfl⟩
    · exact h.add hnew hvalid hadd hself hnoted

variable (Hash v) in
theorem collected_run (events : List SwiftMessage) :
    Collected Hash v events (run (processMessage Hash v) {} events) := by
  refine run_history (R := Collected Hash v) (fun txHash p hp => ?_)
    (fun seen s e h => collected_step h e) events
  cases hp

theorem HasLock.voters {events : List SwiftMessage} (h : s.HasLock txHash)
    (hcollected : Collected Hash v events s) :
    SWIFTTX_SIGNATURES_REQUIRED ≤ (validVoters Hash v events txHash).length := by
  obtain ⟨p, hp, -, hcount⟩ := hasLock_iff.mp h
  obtain ⟨hnodup, hall⟩ := hcollected txHash p hp
  set signed := p.2.filter fun vote => vote.nBlockHeight = p.1 with hsigned
  have hsub : signed.Sublist p.2 := filter_sublist
  have hle : (signed.map fun vote => vote.vinMasternode.prevout).length ≤
      (validVoters Hash v events txHash).length := by
    refine ((hnodup.sublist (hsub.map _)).subperm fun o ho => ?_).length_le
    obtain ⟨vote, hmem, rfl⟩ := mem_map.mp ho
    exact (hall vote (hsub.subset hmem)).2.2
  rw [length_map] at hle
  omega

theorem lockConflict_iff {locked : COutPoint → Option uint256} {tx : CTransaction} :
    lockConflict locked tx = true ↔
      ∃ txin ∈ tx.vin, ∃ txHash, locked txin.prevout = some txHash ∧ txHash ≠ tx.hash := by
  rw [lockConflict, List.any_eq_true]
  refine exists_congr fun txin => and_congr_right fun _ => ?_
  cases locked txin.prevout <;> simp

theorem checkLockedInputs_ok_iff {node : Node} {block : CBlock} :
    checkLockedInputs node block = .ok () ↔
      (node.sporkActive .swiftTxBlockFiltering = true → ∀ tx ∈ block.vtx,
        tx.isCoinBase = false → lockConflict node.mapLockedInputs tx = false) := by
  unfold checkLockedInputs
  split_ifs with hconflict
  · refine iff_of_false (fun h => by cases h) fun hall => ?_
    rw [Bool.and_eq_true, List.any_eq_true] at hconflict
    obtain ⟨hspork, tx, hmem, htx⟩ := hconflict
    rw [Bool.and_eq_true, Bool.not_eq_true'] at htx
    have hfound : lockConflict node.mapLockedInputs tx = true := htx.2
    rw [hall hspork tx hmem htx.1] at hfound
    cases hfound
  · refine iff_of_true rfl fun hspork tx hmem hcoinbase => ?_
    rw [Bool.and_eq_true, not_and, List.any_eq_true] at hconflict
    rw [← Bool.not_eq_true]
    intro htx
    refine hconflict hspork ⟨tx, hmem, ?_⟩
    rw [Bool.and_eq_true, Bool.not_eq_true']
    exact ⟨hcoinbase, htx⟩

/-- Locked inputs stand for complete locks throughout a run exactly if every
refused request finds its inputs locked or its lock complete. Each input is then
locked by six masternodes, and only to such a transaction can the memory pool or
a block lose a transaction that conflicts. -/
theorem lockedInputs_complete_iff (Hash : Bytes → uint256) (v : Verifier CConsensusVote)
    (events : List SwiftMessage) :
    (Always (processMessage Hash v) LockedComplete {} events ↔
      Along (processMessage Hash v) RefusalCovered {} events) ∧
    (Along (processMessage Hash v) RefusalCovered {} events → (∀ o txHash,
        (run (processMessage Hash v) {} events).mapLockedInputs o = some txHash →
        SWIFTTX_SIGNATURES_REQUIRED ≤ (validVoters Hash v events txHash).length) ∧
      (∀ tx, lockConflict (run (processMessage Hash v) {} events).mapLockedInputs tx = true →
        ∃ txHash, txHash ≠ tx.hash ∧ (run (processMessage Hash v) {} events).HasLock txHash ∧
          SWIFTTX_SIGNATURES_REQUIRED ≤ (validVoters Hash v events txHash).length) ∧
      ∀ (node : Node) (block : CBlock),
        node.mapLockedInputs = (run (processMessage Hash v) {} events).mapLockedInputs →
        checkLockedInputs node block ≠ .ok () →
        ∃ tx ∈ block.vtx, ∃ txHash, txHash ≠ tx.hash ∧
          (run (processMessage Hash v) {} events).HasLock txHash ∧
          SWIFTTX_SIGNATURES_REQUIRED ≤ (validVoters Hash v events txHash).length) := by
  have hiff : Always (processMessage Hash v) LockedComplete {} events ↔
      Along (processMessage Hash v) RefusalCovered {} events := by
    refine always_iff_along (fun s e (h : s.Requested) => requested_step h e)
      (fun s e h hcomplete => lockedComplete_step_iff h hcomplete e) {} events ?_ ?_
    · intro txHash p hp
      cases hp
    · intro o txHash ho
      cases ho
  refine ⟨hiff, fun hcovered => ?_⟩
  have hcomplete : (run (processMessage Hash v) {} events).LockedComplete :=
    (hiff.mpr hcovered).last
  have hcollected := collected_run Hash v events
  have hconflict : ∀ tx,
      lockConflict (run (processMessage Hash v) {} events).mapLockedInputs tx = true →
      ∃ txHash, txHash ≠ tx.hash ∧ (run (processMessage Hash v) {} events).HasLock txHash ∧
        SWIFTTX_SIGNATURES_REQUIRED ≤ (validVoters Hash v events txHash).length := by
    intro tx htx
    obtain ⟨txin, -, txHash, ho, hne⟩ := lockConflict_iff.mp htx
    have hlock := hcomplete _ _ ho
    exact ⟨txHash, hne, hlock, hlock.voters hcollected⟩
  refine ⟨fun o txHash ho => (hcomplete o txHash ho).voters hcollected, hconflict, ?_⟩
  intro node block hnode herror
  rw [ne_eq, checkLockedInputs_ok_iff] at herror
  push Not at herror
  obtain ⟨-, tx, hmem, -, htx⟩ := herror
  rw [hnode, ne_eq, Bool.not_eq_false] at htx
  exact ⟨tx, hmem, hconflict tx htx⟩

def sixContext (fAcceptable : Bool) : SwiftContext where
  node := { chainActive := (List.range 11).map fun i => BitVec.ofNat 256 (i + 1) }
  mnodeman := { vMasternodes := (List.range 6).map fun i =>
    { prevout := ⟨7, i⟩, pubKeyMasternode := [2], protocolVersion := 70103 } }
  getTransaction _ := none
  getInputAge _ := 5
  fAcceptable := fAcceptable

def payment (hash : uint256) : CTransaction where
  hash := hash
  vin := [{ prevout := ⟨9, 0⟩ }]
  vout := [{
    nValue := 1
    scriptPubKey := [0x76, 0xa9, 0x14] ++ List.replicate 20 0 ++ [0x88, 0xac] }]

def sixVotes (hash : uint256) : List SwiftMessage :=
  (List.range 6).map fun i =>
    .txlvote { vinMasternode := { prevout := ⟨7, i⟩ }, txHash := hash, nBlockHeight := 9 }
      (sixContext true)

def anyVerifier : Verifier CConsensusVote where
  verifyHash _ _ _ := true
  verifyMessage _ _ _ := true

def lengthHash (bytes : Bytes) : uint256 := BitVec.ofNat 256 bytes.length

theorem lockedInputs_complete_sixVotes :
    let events := .ix (payment 1) (sixContext true) :: sixVotes 1
    (run (processMessage lengthHash anyVerifier) {} events).mapLockedInputs ⟨9, 0⟩ = some 1 ∧
      SWIFTTX_SIGNATURES_REQUIRED ≤ (validVoters lengthHash anyVerifier events 1).length := by
  intro events
  have hcovered : Along (processMessage lengthHash anyVerifier) RefusalCovered {} events :=
    ⟨fun _ hrefused => absurd hrefused (by decide), trivial, trivial, trivial, trivial, trivial,
      trivial, trivial⟩
  have hlocked :
      (run (processMessage lengthHash anyVerifier) {} events).mapLockedInputs ⟨9, 0⟩ = some 1 := by
    decide +kernel
  exact ⟨hlocked, ((lockedInputs_complete_iff lengthHash anyVerifier events).2 hcovered).1 _ _ hlocked⟩

/-- A request that the memory pool refuses locks its input although nobody voted,
and the pool and every block then lose the transaction that spends it. -/
theorem refusedRequest_locks :
    let s := run (processMessage hash256 anyVerifier) {} [.ix (payment 1) (sixContext false)]
    s.mapLockedInputs ⟨9, 0⟩ = some 1 ∧
      validVoters hash256 anyVerifier [.ix (payment 1) (sixContext false)] 1 = [] ∧
      lockConflict s.mapLockedInputs (payment 2) = true ∧
      ∀ (node : Node) (block : CBlock), node.mapLockedInputs = s.mapLockedInputs →
        node.sporkActive .swiftTxBlockFiltering = true → payment 2 ∈ block.vtx →
        checkLockedInputs node block ≠ .ok () := by
  intro s
  have hfacts : s.mapLockedInputs ⟨9, 0⟩ = some 1 ∧
      validVoters hash256 anyVerifier [.ix (payment 1) (sixContext false)] 1 = [] ∧
      lockConflict s.mapLockedInputs (payment 2) = true := by decide +kernel
  refine ⟨hfacts.1, hfacts.2.1, hfacts.2.2, fun node block hnode hspork hmem hok => ?_⟩
  have hfree := checkLockedInputs_ok_iff.mp hok hspork (payment 2) hmem (by decide)
  rw [hnode, hfacts.2.2] at hfree
  cases hfree

end

end SwiftTx

end Alqo
