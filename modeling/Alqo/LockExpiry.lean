import Alqo.LockedInputs

/-!
# The release of expired locks (swifttx.cpp)

`CleanTransactionLocksList` takes the inputs of the request in `mapTxLockReq` out of
`mapLockedInputs`, whichever transaction they are locked to; a refused request is not in that table
although its inputs are locked.
-/

namespace Alqo
open Lib.Runs Function List Option

namespace SwiftTx

def Keyed (s : SwiftTx) : Prop := ∀ h lock, s.mapTxLocks h = some lock → lock.txHash = h

structure Touches (h0 : uint256) (s t : SwiftTx) : Prop where
  keyed : s.Keyed → t.Keyed
  others : ∀ h, h ≠ h0 → (t.mapTxLocks h).isSome = (s.mapTxLocks h).isSome
  kept : (s.mapTxLocks h0).isSome = true → (t.mapTxLocks h0).isSome = true

section
variable {h0 : uint256} {s t u : SwiftTx} {ctx : SwiftContext} {tx : CTransaction}
  {vote : CConsensusVote}

theorem Touches.of_eq (h : t.mapTxLocks = s.mapTxLocks) : Touches h0 s t := by
  refine ⟨fun hs => ?_, fun _ _ => by rw [h], fun hs => by rw [h]; exact hs⟩
  unfold Keyed
  rw [h]
  exact hs

theorem Touches.trans (h : Touches h0 s t) (h' : Touches h0 t u) : Touches h0 s u :=
  ⟨fun hs => h'.keyed (h.keyed hs), fun k hk => (h'.others k hk).trans (h.others k hk),
    fun hs => h'.kept (h.kept hs)⟩

theorem Touches.between {s' t' : SwiftTx} (h : Touches h0 s t)
    (hs : s.mapTxLocks = s'.mapTxLocks) (ht : t'.mapTxLocks = t.mapTxLocks) : Touches h0 s' t' :=
  (Touches.of_eq hs).trans (h.trans (.of_eq ht))

theorem Touches.insert {lock : CTransactionLock}
    (h : t.mapTxLocks = update s.mapTxLocks h0 (some lock))
    (hlock : s.Keyed → lock.txHash = h0) : Touches h0 s t := by
  refine ⟨fun hs k lock' hk => ?_, fun k hk => ?_, fun _ => ?_⟩
  · rw [h, update_apply] at hk
    split_ifs at hk with hkey
    · cases hk
      exact (hlock hs).trans hkey.symm
    · exact hs k lock' hk
  · rw [h, update_of_ne hk]
  · rw [h, update_self]
    rfl

theorem SameLocks.touches (h : SameLocks s t) : Touches h0 s t := by
  have hsome : ∀ k, (t.mapTxLocks k).isSome = (s.mapTxLocks k).isSome := fun k => by
    have hk := congrArg Option.isSome (h k)
    rwa [isSome_map, isSome_map] at hk
  refine ⟨fun hkeyed k lock hk => ?_, fun k _ => hsome k, fun hs => (hsome h0).trans hs⟩
  have hlock := h k
  rw [hk] at hlock
  obtain ⟨old, hold, hsame⟩ := map_eq_some_iff.mp hlock.symm
  exact (congrArg Prod.fst hsame).symm.trans (hkeyed k old hold)

theorem createNewLock_touches (s : SwiftTx) (ctx : SwiftContext) (tx : CTransaction) :
    Touches tx.hash s (s.createNewLock ctx tx).2 := by
  unfold createNewLock
  cases lockAge ctx.getInputAge tx.vin.reverse 0 with
  | none => exact .of_eq rfl
  | some nTxAge =>
    refine .insert rfl fun hkeyed => ?_
    cases hlock : s.mapTxLocks tx.hash with
    | none => rfl
    | some lock => exact hkeyed tx.hash lock hlock

theorem addSignature_touches (s : SwiftTx) (ctx : SwiftContext) (vote : CConsensusVote) :
    Touches vote.txHash s (s.addSignature ctx vote) := by
  refine .insert rfl fun hkeyed => ?_
  cases hlock : s.mapTxLocks vote.txHash with
  | none => rfl
  | some lock => exact hkeyed vote.txHash lock hlock

end

def namedBy : SwiftMessage → uint256
  | .ix tx _ => tx.hash
  | .txlvote vote _ => vote.txHash

section
variable (Hash : Bytes → uint256) (v : Verifier CConsensusVote)

theorem processMessage_touches (s : SwiftTx) (e : SwiftMessage) :
    Touches (namedBy e) s (s.processMessage Hash v e) := by
  cases e with
  | ix tx ctx =>
    by_cases htaken : s.Taken ctx tx
    · rw [processMessage, processIx_taken htaken]
      split_ifs
      · exact (createNewLock_touches s ctx tx).trans
          (.of_eq (doConsensusVote_frame Hash v _ ctx tx _).2.2.1)
      · exact (createNewLock_touches s ctx tx).trans (rejectRequest_frame _ ctx tx).1.touches
    · rw [processMessage, processIx_ignored htaken]
      exact .of_eq rfl
  | txlvote vote ctx =>
    rw [processMessage, processTxlvote]
    split_ifs
    · exact .of_eq rfl
    · unfold processConsensusVote
      split_ifs
      · dsimp only
        have hadd : Touches vote.txHash s (addSignature
            { s with mapTxLockVote := update s.mapTxLockVote vote.getHash (some vote) }
            ctx vote) := (addSignature_touches _ ctx vote).between rfl rfl
        split
        · exact hadd
        · split_ifs
          · exact hadd.trans (completeLock_frame _ ctx vote.txHash).1.touches
          · exact hadd
      · exact .of_eq rfl
    · exact .of_eq rfl

end

/- `GetTime() > it->second.nExpiration` for the lock of a transaction. -/
def expired (nTime : Int) (s : SwiftTx) (h : uint256) : Bool :=
  match s.mapTxLocks h with
  | some lock => decide (nTime > lock.nExpiration)
  | none => false

def unlockInputs (mapLockedInputs : COutPoint → Option uint256) (vin : List CTxIn) :
    COutPoint → Option uint256 :=
  vin.foldl (fun locked txin => update locked txin.prevout none) mapLockedInputs

/- One turn of the loop. -/
def cleanLock (nTime : Int) (s : SwiftTx) (key : uint256) : SwiftTx :=
  match s.mapTxLocks key with
  | none => s
  | some lock =>
    if nTime > lock.nExpiration then
      let s :=
        match s.mapTxLockReq lock.txHash with
        | none => s
        | some tx =>
          { s with
            mapLockedInputs := unlockInputs s.mapLockedInputs tx.vin
            mapTxLockReq := update s.mapTxLockReq lock.txHash none
            mapTxLockReqRejected := update s.mapTxLockReqRejected lock.txHash none
            mapTxLockVote := lock.vecConsensusVotes.foldl
              (fun votes vote => update votes (CConsensusVote.getHash vote) none)
              s.mapTxLockVote }
      { s with mapTxLocks := update s.mapTxLocks key none }
    else s

def RequestSpends (s : SwiftTx) (h : uint256) (o : COutPoint) : Prop :=
  ∃ tx, s.mapTxLockReq h = some tx ∧ o ∈ tx.vin.map CTxIn.prevout

/- What the loop has done to the tables that matter here, after the locks of a list. -/
structure Cleaned (nTime : Int) (keys : List uint256) (s t : SwiftTx) : Prop where
  locks : ∀ h lock, t.mapTxLocks h = some lock ↔
    s.mapTxLocks h = some lock ∧ ¬ (h ∈ keys ∧ s.expired nTime h = true)
  req : ∀ h tx, t.mapTxLockReq h = some tx ↔
    s.mapTxLockReq h = some tx ∧ ¬ (h ∈ keys ∧ s.expired nTime h = true)
  locked : ∀ o h, t.mapLockedInputs o = some h ↔ s.mapLockedInputs o = some h ∧
      ∀ k ∈ keys, s.expired nTime k = true → ¬ s.RequestSpends k o

section
variable {nTime : Int} {s t u : SwiftTx} {key h : uint256} {keys : List uint256}

theorem expired_iff : s.expired nTime h = true ↔
    ∃ lock, s.mapTxLocks h = some lock ∧ nTime > lock.nExpiration := by
  unfold expired
  cases s.mapTxLocks h with
  | none => simp
  | some lock => simp

theorem unlockInputs_eq_some {m : COutPoint → Option uint256} {vin : List CTxIn} {o : COutPoint} :
    unlockInputs m vin o = some h ↔ m o = some h ∧ o ∉ vin.map CTxIn.prevout := by
  induction vin generalizing m with
  | nil => simp [unlockInputs]
  | cons txin rest ih =>
    show unlockInputs (update m txin.prevout none) rest o = some h ↔ _
    rw [ih, update_apply]
    by_cases ho : o = txin.prevout
    · simp [ho]
    · simp [ho]

theorem cleaned_nil : Cleaned nTime [] s s := by
  refine ⟨?_, ?_, ?_⟩ <;> simp

theorem Cleaned.keyed (h : Cleaned nTime keys s t) (hs : s.Keyed) : t.Keyed :=
  fun k lock hk => hs k lock ((h.locks k lock).mp hk).1

theorem Cleaned.expired_iff (h : Cleaned nTime keys s t) (k : uint256) :
    t.expired nTime k = true ↔ s.expired nTime k = true ∧ k ∉ keys := by
  rw [SwiftTx.expired_iff]
  constructor
  · rintro ⟨lock, hlock, htime⟩
    obtain ⟨hlock, hkept⟩ := (h.locks k lock).mp hlock
    have hexpired : s.expired nTime k = true := SwiftTx.expired_iff.mpr ⟨lock, hlock, htime⟩
    exact ⟨hexpired, fun hk => hkept ⟨hk, hexpired⟩⟩
  · rintro ⟨hexpired, hk⟩
    obtain ⟨lock, hlock, htime⟩ := SwiftTx.expired_iff.mp hexpired
    exact ⟨lock, (h.locks k lock).mpr ⟨hlock, fun hboth => hk hboth.1⟩, htime⟩

theorem Cleaned.requestSpends_iff (h : Cleaned nTime keys s t) (k : uint256) (o : COutPoint) :
    t.RequestSpends k o ↔ s.RequestSpends k o ∧ ¬ (k ∈ keys ∧ s.expired nTime k = true) := by
  constructor
  · rintro ⟨tx, htx, ho⟩
    obtain ⟨htx, hkept⟩ := (h.req k tx).mp htx
    exact ⟨⟨tx, htx, ho⟩, hkept⟩
  · rintro ⟨⟨tx, htx, ho⟩, hkept⟩
    exact ⟨tx, (h.req k tx).mpr ⟨htx, hkept⟩, ho⟩

theorem cleaned_of_not_expired (h : s.expired nTime key = false) : Cleaned nTime [key] s s := by
  have hnone : ∀ k, ¬ (k ∈ [key] ∧ s.expired nTime k = true) := by
    rintro k ⟨hk, hexpired⟩
    rw [mem_singleton.mp hk, h] at hexpired
    cases hexpired
  refine ⟨fun k lock => ?_, fun k tx => ?_, fun o k => ?_⟩
  · exact (and_iff_left (hnone k)).symm
  · exact (and_iff_left (hnone k)).symm
  · exact (and_iff_left fun k hk hexpired => absurd ⟨hk, hexpired⟩ (hnone k)).symm

theorem update_none_eq_some {α β : Type} [DecidableEq α] {m : α → Option β} {k x : α} {y : β} :
    update m k none x = some y ↔ m x = some y ∧ x ≠ k := by
  rw [update_apply]
  by_cases hx : x = k
  · simp [hx]
  · simp [hx]

theorem cleanLock_cleaned (hs : s.Keyed) : Cleaned nTime [key] s (s.cleanLock nTime key) := by
  unfold cleanLock
  cases hlock : s.mapTxLocks key with
  | none => exact cleaned_of_not_expired (by simp [expired, hlock])
  | some lock =>
  dsimp only
  split_ifs with htime
  · have hkey : lock.txHash = key := hs key lock hlock
    have hexpired : s.expired nTime key = true := expired_iff.mpr ⟨lock, hlock, htime⟩
    have hremoved : ∀ k, ¬ (k ∈ [key] ∧ s.expired nTime k = true) ↔ k ≠ key := by
      intro k
      rw [mem_singleton]
      constructor
      · rintro hkept rfl
        exact hkept ⟨rfl, hexpired⟩
      · rintro hne ⟨hk, -⟩
        exact hne hk
    rw [hkey]
    cases hreq : s.mapTxLockReq key with
    | none =>
      refine ⟨fun k lock' => ?_, fun k tx => ?_, fun o k => ?_⟩
      · rw [hremoved]
        exact update_none_eq_some
      · rw [hremoved]
        refine (and_iff_left_of_imp ?_).symm
        rintro htx rfl
        rw [hreq] at htx
        cases htx
      · refine (and_iff_left ?_).symm
        rintro k' hk' - ⟨tx, htx, -⟩
        rw [mem_singleton.mp hk', hreq] at htx
        cases htx
    | some tx =>
      refine ⟨fun k lock' => ?_, fun k tx' => ?_, fun o k => ?_⟩
      · rw [hremoved]
        exact update_none_eq_some
      · rw [hremoved]
        exact update_none_eq_some
      · refine unlockInputs_eq_some.trans (and_congr_right fun _ => ?_)
        constructor
        · rintro ho k' hk' - ⟨tx', htx', ho'⟩
          rw [mem_singleton.mp hk', hreq] at htx'
          cases htx'
          exact ho ho'
        · intro hfree ho
          exact hfree key mem_cons_self hexpired ⟨tx, hreq, ho⟩
  · refine cleaned_of_not_expired ?_
    rw [expired, hlock]
    exact decide_eq_false htime

theorem Cleaned.trans {keys' : List uint256} (h : Cleaned nTime keys s t)
    (h' : Cleaned nTime keys' t u) : Cleaned nTime (keys ++ keys') s u := by
  have hremoved : ∀ k, ¬ (k ∈ keys ++ keys' ∧ s.expired nTime k = true) ↔
      ¬ (k ∈ keys ∧ s.expired nTime k = true) ∧ ¬ (k ∈ keys' ∧ t.expired nTime k = true) := by
    intro k
    rw [h.expired_iff, mem_append]
    tauto
  refine ⟨fun k lock => ?_, fun k tx => ?_, fun o k => ?_⟩
  · rw [h'.locks, h.locks, hremoved, and_assoc]
  · rw [h'.req, h.req, hremoved, and_assoc]
  · rw [h'.locked, h.locked, and_assoc]
    refine and_congr_right fun _ => ?_
    constructor
    · rintro ⟨hfirst, hsecond⟩ k' hk' hexpired hspends
      by_cases hkeys : k' ∈ keys
      · exact hfirst k' hkeys hexpired hspends
      · refine hsecond k' ((mem_append.mp hk').resolve_left hkeys)
          ((h.expired_iff k').mpr ⟨hexpired, hkeys⟩)
          ((h.requestSpends_iff k' o).mpr ⟨hspends, fun hboth => hkeys hboth.1⟩)
    · intro hall
      refine ⟨fun k' hk' => hall k' (mem_append_left _ hk'), fun k' hk' hexpired hspends => ?_⟩
      exact hall k' (mem_append_right _ hk') ((h.expired_iff k').mp hexpired).1
        ((h.requestSpends_iff k' o).mp hspends).1

theorem cleaned_foldl (keys : List uint256) (hs : s.Keyed) :
    Cleaned nTime keys s (keys.foldl (cleanLock nTime) s) := by
  induction keys generalizing s with
  | nil => exact cleaned_nil
  | cons key keys ih =>
    have hfirst : Cleaned nTime [key] s (s.cleanLock nTime key) := cleanLock_cleaned hs
    exact hfirst.trans (ih (hfirst.keyed hs))

end

end SwiftTx

structure LockTables where
  swift : SwiftTx
  keys : List uint256
  keyed : swift.Keyed
  listed : ∀ h, h ∈ keys ↔ (swift.mapTxLocks h).isSome = true

inductive LockEvent where
  | message (e : SwiftMessage)
  /- `sendrawtransaction` and `RelayWalletTransaction` ask for a lock themselves. -/
  | request (tx : CTransaction) (ctx : SwiftContext)
  /- `CleanTransactionLocksList`, with `GetTime()` and `chainActive.Tip() != NULL` -/
  | clean (nTime : Int) (fTip : Bool)

namespace LockTables
open SwiftTx

def empty : LockTables where
  swift := {}
  keys := []
  keyed _ _ h := by cases h
  listed h := by simp

def next (s : LockTables) (h0 : uint256) (t : SwiftTx) (h : Touches h0 s.swift t) : LockTables where
  swift := t
  keys := if (t.mapTxLocks h0).isSome then s.keys.insert h0 else s.keys
  keyed := h.keyed s.keyed
  listed k := by
    by_cases hk : k = h0
    · rw [hk]
      cases hnew : (t.mapTxLocks h0).isSome with
      | true => simp
      | false =>
        rw [if_neg Bool.false_ne_true, s.listed]
        refine iff_of_false (fun hold => ?_) Bool.false_ne_true
        rw [h.kept hold] at hnew
        cases hnew
    · rw [h.others k hk, ← s.listed]
      split_ifs
      · simp [hk]
      · rfl

/- The loop of `CleanTransactionLocksList`. -/
def cleanTransactionLocksList (s : LockTables) (nTime : Int) (fTip : Bool) : LockTables :=
  if fTip then
    { swift := s.keys.foldl (cleanLock nTime) s.swift
      keys := s.keys.filter fun h =>
        ((s.keys.foldl (cleanLock nTime) s.swift).mapTxLocks h).isSome
      keyed := (cleaned_foldl s.keys s.keyed).keyed s.keyed
      listed := fun h => by
        rw [mem_filter]
        refine and_iff_right_of_imp fun hsome => ?_
        obtain ⟨lock, hlock⟩ := isSome_iff_exists.mp hsome
        rw [s.listed, ((cleaned_foldl s.keys s.keyed).locks h lock).mp hlock |>.1]
        rfl }
  else s

def addRequest (s : SwiftTx) (ctx : SwiftContext) (tx : CTransaction) : SwiftTx :=
  ({ s with
    mapTxLockReq := update s.mapTxLockReq tx.hash
      (some ((s.mapTxLockReq tx.hash).getD tx)) }.createNewLock ctx tx).2

theorem addRequest_touches (s : SwiftTx) (ctx : SwiftContext) (tx : CTransaction) :
    Touches tx.hash s (addRequest s ctx tx) := by
  have hlock := createNewLock_touches { s with
      mapTxLockReq := update s.mapTxLockReq tx.hash
        (some ((s.mapTxLockReq tx.hash).getD tx)) } ctx tx
  exact hlock.between rfl rfl

def step (Hash : Bytes → uint256) (v : Verifier CConsensusVote) (s : LockTables) :
    LockEvent → LockTables
  | .message e =>
    s.next (namedBy e) (s.swift.processMessage Hash v e) (processMessage_touches Hash v s.swift e)
  | .request tx ctx => s.next tx.hash (addRequest s.swift ctx tx) (addRequest_touches s.swift ctx tx)
  | .clean nTime fTip => s.cleanTransactionLocksList nTime fTip

def ReleasesExpired (s : LockTables) (nTime : Int) (fTip : Bool) : Prop :=
  let t := s.cleanTransactionLocksList nTime fTip
  (∀ h, (s.swift.mapTxLocks h).isSome = true → t.swift.mapTxLocks h = none →
      ∀ o, t.swift.mapLockedInputs o ≠ some h) ∧
    ∀ h lock, s.swift.mapTxLocks h = some lock → ¬ nTime > lock.nExpiration →
      ∀ o, s.swift.mapLockedInputs o = some h → t.swift.mapLockedInputs o = some h

/- What is locked to a transaction is spent by a request that expires with it, and by none
that expires before. -/
def ExpiresAlone (s : LockTables) (nTime : Int) (fTip : Bool) : Prop :=
  fTip = true → ∀ o h, s.swift.mapLockedInputs o = some h → (s.swift.expired nTime h = true →
      ∃ k, s.swift.expired nTime k = true ∧ s.swift.RequestSpends k o) ∧
    ((s.swift.mapTxLocks h).isSome = true → s.swift.expired nTime h = false →
      ∀ k, s.swift.expired nTime k = true → ¬ s.swift.RequestSpends k o)

section
variable {s : LockTables} {nTime : Int}

theorem mem_keys_of_expired {h : uint256} (hexpired : s.swift.expired nTime h = true) :
    h ∈ s.keys := by
  obtain ⟨lock, hlock, -⟩ := expired_iff.mp hexpired
  rw [s.listed, hlock]
  rfl

theorem clean_locks (h : uint256) (lock : CTransactionLock) :
    (s.cleanTransactionLocksList nTime true).swift.mapTxLocks h = some lock ↔
      s.swift.mapTxLocks h = some lock ∧ s.swift.expired nTime h = false := by
  refine ((cleaned_foldl s.keys s.keyed).locks h lock).trans (and_congr_right fun _ => ?_)
  rw [← Bool.not_eq_true]
  exact not_congr (and_iff_right_of_imp mem_keys_of_expired)

theorem clean_req (h : uint256) (tx : CTransaction) :
    (s.cleanTransactionLocksList nTime true).swift.mapTxLockReq h = some tx ↔
      s.swift.mapTxLockReq h = some tx ∧ s.swift.expired nTime h = false := by
  refine ((cleaned_foldl s.keys s.keyed).req h tx).trans (and_congr_right fun _ => ?_)
  rw [← Bool.not_eq_true]
  exact not_congr (and_iff_right_of_imp mem_keys_of_expired)

theorem clean_locked (o : COutPoint) (h : uint256) :
    (s.cleanTransactionLocksList nTime true).swift.mapLockedInputs o = some h ↔
      s.swift.mapLockedInputs o = some h ∧
        ∀ k, s.swift.expired nTime k = true → ¬ s.swift.RequestSpends k o := by
  refine ((cleaned_foldl s.keys s.keyed).locked o h).trans (and_congr_right fun _ => ?_)
  constructor
  · intro hall k hexpired
    exact hall k (mem_keys_of_expired hexpired) hexpired
  · intro hall k _
    exact hall k

theorem releasesExpired_iff (fTip : Bool) :
    s.ReleasesExpired nTime fTip ↔ s.ExpiresAlone nTime fTip := by
  cases fTip with
  | false =>
    refine iff_of_true ⟨fun h hsome hnone => ?_, fun h lock _ _ o ho => ho⟩ (fun hfalse => by cases hfalse)
    change s.swift.mapTxLocks h = none at hnone
    rw [hnone] at hsome
    cases hsome
  | true =>
    have hremoved : ∀ h, (s.swift.mapTxLocks h).isSome = true →
        ((s.cleanTransactionLocksList nTime true).swift.mapTxLocks h = none ↔
          s.swift.expired nTime h = true) := by
      intro h hsome
      obtain ⟨lock, hlock⟩ := isSome_iff_exists.mp hsome
      constructor
      · intro hnone
        by_contra hexpired
        rw [Bool.not_eq_true] at hexpired
        rw [(clean_locks h lock).mpr ⟨hlock, hexpired⟩] at hnone
        cases hnone
      · intro hexpired
        rw [eq_none_iff_forall_ne_some]
        intro lock' hlock'
        rw [((clean_locks h lock').mp hlock').2] at hexpired
        cases hexpired
    have hkept : ∀ h lock, s.swift.mapTxLocks h = some lock →
        (¬ nTime > lock.nExpiration ↔ s.swift.expired nTime h = false) := by
      intro h lock hlock
      rw [expired, hlock, decide_eq_false_iff_not]
    constructor
    · rintro ⟨hreleased, hstays⟩ - o h ho
      refine ⟨fun hexpired => ?_, fun hsome hexpired => ?_⟩
      · obtain ⟨lock, hlock, -⟩ := expired_iff.mp hexpired
        have hsome : (s.swift.mapTxLocks h).isSome = true := by rw [hlock]; rfl
        have hfree := hreleased h hsome ((hremoved h hsome).mpr hexpired) o
        rw [ne_eq, clean_locked, not_and] at hfree
        by_contra hnone
        exact hfree ho fun k hk hspends => hnone ⟨k, hk, hspends⟩
      · obtain ⟨lock, hlock⟩ := isSome_iff_exists.mp hsome
        have hlocked := hstays h lock hlock ((hkept h lock hlock).mpr hexpired) o ho
        exact ((clean_locked o h).mp hlocked).2
    · intro halone
      refine ⟨fun h hsome hnone o hlocked => ?_, fun h lock hlock htime o ho => ?_⟩
      · obtain ⟨ho, hnot⟩ := (clean_locked o h).mp hlocked
        obtain ⟨k, hk, hspends⟩ := (halone rfl o h ho).1 ((hremoved h hsome).mp hnone)
        exact hnot k hk hspends
      · refine (clean_locked o h).mpr ⟨ho, ?_⟩
        exact (halone rfl o h ho).2 (by rw [hlock]; rfl) ((hkept h lock hlock).mp htime)

end

structure LockedForRequest (s : SwiftTx) : Prop where
  locked : ∀ o h, s.mapLockedInputs o = some h → s.RequestSpends h o
  apart : ∀ h k o, s.RequestSpends h o → s.RequestSpends k o → h = k

section
variable {s t : SwiftTx} {ctx : SwiftContext} {tx : CTransaction}

theorem LockedForRequest.of_same (h : LockedForRequest s) (hreq : t.mapTxLockReq = s.mapTxLockReq)
    (hlocked : t.mapLockedInputs = s.mapLockedInputs) : LockedForRequest t := by
  have hspends : ∀ k o, t.RequestSpends k o ↔ s.RequestSpends k o := by
    intro k o
    rw [RequestSpends, RequestSpends, hreq]
  refine ⟨fun o k ho => ?_, fun k k' o hk hk' => ?_⟩
  · rw [hlocked] at ho
    exact (hspends k o).mpr (h.locked o k ho)
  · exact h.apart k k' o ((hspends k o).mp hk) ((hspends k' o).mp hk')

theorem LockedForRequest.add (h : LockedForRequest s) (hnew : s.mapTxLockReq tx.hash = none)
    (hreq : t.mapTxLockReq = update s.mapTxLockReq tx.hash (some tx))
    (hlocked : t.mapLockedInputs = s.mapLockedInputs)
    (hfree : ∀ k o, s.RequestSpends k o → o ∉ tx.vin.map CTxIn.prevout) : LockedForRequest t := by
  have hspends : ∀ k o, t.RequestSpends k o ↔
      s.RequestSpends k o ∨ (k = tx.hash ∧ o ∈ tx.vin.map CTxIn.prevout) := by
    intro k o
    rw [RequestSpends, RequestSpends, hreq]
    by_cases hk : k = tx.hash
    · simp [hk, hnew]
    · simp [hk]
  refine ⟨fun o k ho => ?_, fun k k' o hk hk' => ?_⟩
  · rw [hlocked] at ho
    exact (hspends k o).mpr (.inl (h.locked o k ho))
  · rcases (hspends k o).mp hk with hk | ⟨rfl, ho⟩ <;>
      rcases (hspends k' o).mp hk' with hk' | ⟨rfl, ho'⟩
    · exact h.apart k k' o hk hk'
    · exact absurd ho' (hfree k o hk)
    · exact absurd ho (hfree k' o hk')
    · rfl

theorem LockedForRequest.completeLock (h : LockedForRequest s) (ctx : SwiftContext)
    (txHash : uint256) : LockedForRequest (s.completeLock ctx txHash) := by
  obtain ⟨-, -, -, hreq, hlocked⟩ := completeLock_frame s ctx txHash
  -- the request that is made up where there is none spends nothing
  have hspends : ∀ k o, (s.completeLock ctx txHash).RequestSpends k o ↔ s.RequestSpends k o := by
    intro k o
    rw [RequestSpends, RequestSpends, hreq]
    by_cases hk : k = txHash
    · rw [hk, update_self]
      cases s.mapTxLockReq txHash <;> simp
    · rw [update_of_ne hk]
  refine ⟨fun o k ho => ?_, fun k k' o hk hk' => ?_⟩
  · rw [hspends]
    rcases hlocked with hlocked | hlocked
    · rw [hlocked] at ho
      exact h.locked o k ho
    · rw [hlocked] at ho
      rcases lockInputs_eq_some ho with hold | ⟨-, hmem, rfl⟩
      · exact h.locked o k hold
      · cases htx : s.mapTxLockReq k with
        | none => simp [htx] at hmem
        | some tx =>
          rw [htx] at hmem
          exact ⟨tx, htx, hmem⟩
  · exact h.apart k k' o ((hspends k o).mp hk) ((hspends k' o).mp hk')

theorem LockedForRequest.processTxlvote (h : LockedForRequest s) (Hash : Bytes → uint256)
    (v : Verifier CConsensusVote) (ctx : SwiftContext) (vote : CConsensusVote) :
    LockedForRequest (s.processTxlvote Hash v ctx vote) := by
  unfold SwiftTx.processTxlvote
  split_ifs
  · exact h
  · unfold processConsensusVote
    split_ifs
    · dsimp only
      have hadd : LockedForRequest (addSignature
          { s with mapTxLockVote := update s.mapTxLockVote vote.getHash (some vote) }
          ctx vote) := h.of_same rfl rfl
      split
      · exact hadd
      · split_ifs
        · exact hadd.completeLock ctx vote.txHash
        · exact hadd
    · exact h.of_same rfl rfl
  · exact h

end

def RequestsApart (s : LockTables) : LockEvent → Prop
  | .message (.ix tx ctx) =>
    s.swift.Taken ctx tx → (ctx.fAcceptable && !lockConflict s.swift.mapLockedInputs tx) = true ∧
        ∀ h o, s.swift.RequestSpends h o → o ∉ tx.vin.map CTxIn.prevout
  | .message (.txlvote _ _) => True
  | .request tx _ =>
    s.swift.mapTxLockReq tx.hash = none →
      ∀ h o, s.swift.RequestSpends h o → o ∉ tx.vin.map CTxIn.prevout
  | .clean _ _ => True

section
variable {Hash : Bytes → uint256} {v : Verifier CConsensusVote} {s : LockTables}

theorem lockedForRequest_clean (h : LockedForRequest s.swift) (nTime : Int) (fTip : Bool) :
    LockedForRequest (s.cleanTransactionLocksList nTime fTip).swift := by
  cases fTip with
  | false => exact h
  | true =>
    have hspends : ∀ k o, (s.cleanTransactionLocksList nTime true).swift.RequestSpends k o ↔
        s.swift.RequestSpends k o ∧ s.swift.expired nTime k = false := by
      intro k o
      constructor
      · rintro ⟨tx, htx, ho⟩
        obtain ⟨htx, hexpired⟩ := (clean_req k tx).mp htx
        exact ⟨⟨tx, htx, ho⟩, hexpired⟩
      · rintro ⟨⟨tx, htx, ho⟩, hexpired⟩
        exact ⟨tx, (clean_req k tx).mpr ⟨htx, hexpired⟩, ho⟩
    refine ⟨fun o k ho => ?_, fun k k' o hk hk' => ?_⟩
    · obtain ⟨ho, hnot⟩ := (clean_locked o k).mp ho
      have hk := h.locked o k ho
      refine (hspends k o).mpr ⟨hk, ?_⟩
      rw [← Bool.not_eq_true]
      exact fun hexpired => hnot k hexpired hk
    · exact h.apart k k' o ((hspends k o).mp hk).1 ((hspends k' o).mp hk').1

theorem lockedForRequest_step (h : LockedForRequest s.swift) (e : LockEvent)
    (hapart : s.RequestsApart e) : LockedForRequest (s.step Hash v e).swift := by
  cases e with
  | clean nTime fTip => exact lockedForRequest_clean h nTime fTip
  | message e =>
    cases e with
    | txlvote vote ctx => exact h.processTxlvote Hash v ctx vote
    | ix tx ctx =>
      show LockedForRequest (s.swift.processIx Hash v ctx tx)
      by_cases htaken : s.swift.Taken ctx tx
      · obtain ⟨haccepted, hfree⟩ := hapart htaken
        rw [processIx_taken htaken, if_pos haccepted]
        obtain ⟨hreq, -, -, hlocked⟩ := createNewLock_frame s.swift ctx tx
        obtain ⟨-, hlocked', -, hreq', -⟩ := acceptRequest_frame Hash v
          (s.swift.createNewLock ctx tx).2 ctx tx (s.swift.createNewLock ctx tx).1
        refine h.add htaken.new.1 ?_ (hlocked'.trans hlocked) hfree
        rw [hreq', hreq]
      · rw [processIx_ignored htaken]
        exact h
  | request tx ctx =>
    show LockedForRequest (addRequest s.swift ctx tx)
    obtain ⟨hreq, -, -, hlocked⟩ := createNewLock_frame { s.swift with
        mapTxLockReq := update s.swift.mapTxLockReq tx.hash
          (some ((s.swift.mapTxLockReq tx.hash).getD tx)) } ctx tx
    cases hknown : s.swift.mapTxLockReq tx.hash with
    | none =>
      rw [hknown] at hreq hlocked
      exact h.add hknown (by rw [addRequest, hknown, hreq]; rfl)
        (by rw [addRequest, hknown, hlocked]) (hapart hknown)
    | some old =>
      rw [hknown] at hreq hlocked
      refine h.of_same ?_ (by rw [addRequest, hknown, hlocked])
      rw [addRequest, hknown, hreq]
      exact update_eq_self_iff.mpr hknown.symm

theorem expiresAlone_of_lockedForRequest (h : LockedForRequest s.swift) (nTime : Int)
    (fTip : Bool) : s.ExpiresAlone nTime fTip := by
  intro _ o k ho
  have hk := h.locked o k ho
  refine ⟨fun hexpired => ⟨k, hexpired, hk⟩, fun _ hexpired k' hexpired' hk' => ?_⟩
  rw [h.apart k k' o hk hk', hexpired'] at hexpired
  cases hexpired

end

def CleansExactly (s : LockTables) : LockEvent → Prop
  | .clean nTime fTip => s.ReleasesExpired nTime fTip
  | _ => True

def CleansAlone (s : LockTables) : LockEvent → Prop
  | .clean nTime fTip => s.ExpiresAlone nTime fTip
  | _ => True

theorem cleansExactly_iff (s : LockTables) (e : LockEvent) : s.CleansExactly e ↔ s.CleansAlone e := by
  cases e with
  | clean nTime fTip => exact releasesExpired_iff fTip
  | message e => exact Iff.rfl
  | request tx ctx => exact Iff.rfl

/- In every run, every call of `CleanTransactionLocksList` releases exactly what is locked to
the transactions whose locks it removes if and only if, each time, everything locked to such
a transaction is spent by one of the expired requests, and nothing locked to another is. This
is so as long as no request is refused and none spends what another one spends. -/
theorem cleans_exactly_iff (Hash : Bytes → uint256) (v : Verifier CConsensusVote)
    (events : List LockEvent) :
    (Along (step Hash v) CleansExactly empty events ↔
        Along (step Hash v) CleansAlone empty events) ∧
      (Along (step Hash v) RequestsApart empty events →
        Along (step Hash v) CleansExactly empty events) := by
  refine ⟨⟨Along.mono fun s e => (cleansExactly_iff s e).mp,
    Along.mono fun s e => (cleansExactly_iff s e).mpr⟩, fun hapart => ?_⟩
  have hstart : LockedForRequest empty.swift := by
    refine ⟨fun o h ho => ?_, fun h k o hspends => ?_⟩
    · cases ho
    · obtain ⟨tx, htx, -⟩ := hspends
      cases htx
  have hstep : ∀ s e, LockedForRequest s.swift → RequestsApart s e →
      LockedForRequest (step Hash v s e).swift := fun s e h => lockedForRequest_step h e
  refine hapart.mono_of_step hstep (fun s e h _ => (cleansExactly_iff s e).mpr ?_) hstart
  cases e with
  | clean nTime fTip => exact expiresAlone_of_lockedForRequest h nTime fTip
  | message e => trivial
  | request tx ctx => trivial

/- A refused request keeps its input locked when its lock has long been removed; and the
input that is locked to it before is released with the lock of another transaction. -/
theorem refusedRequest_lock_outlived :
    let refused : LockEvent := .message (.ix (payment 1) (sixContext false))
    let accepted : LockEvent := .message (.ix (payment 2) (sixContext true))
    let later : LockEvent := .message (.ix (payment 1) { sixContext false with nTime := 100 })
    let s := run (step lengthHash anyVerifier) empty [refused, .clean 3601 true]
    let before := run (step lengthHash anyVerifier) empty [accepted, later]
    let after := before.step lengthHash anyVerifier (.clean 3601 true)
    (s.swift.mapTxLocks 1 = none ∧ s.swift.mapLockedInputs ⟨9, 0⟩ = some 1) ∧
      before.swift.mapLockedInputs ⟨9, 0⟩ = some 1 ∧
      before.swift.expired 3601 1 = false ∧
      (after.swift.mapTxLocks 1).isSome = true ∧
      after.swift.mapLockedInputs ⟨9, 0⟩ = none := by
  decide +kernel

end LockTables

end Alqo
