import Alqo.MasternodeRuns

/-!
# Seen messages and forged ones

A message is recorded as seen by its identifier before its signature is checked. The list of a run
with forged messages agrees with that of a run which is spared the messages whose identifier they
have taken.
-/

namespace Alqo
open Lib Lib.Runs Function

inductive MnMessage where
  | mnb (view : MnView) (mnb : CMasternodeBroadcast)
  | mnp (view : MnView) (mnp : CMasternodePing)

def MnMessage.event : MnMessage → MnEvent
  | .mnb view m => .mnb view m
  | .mnp view m => .mnp view m

namespace MasternodeMan
variable (env : MnEnv) (man : MasternodeMan)

def receive (m : MnMessage) : MasternodeMan := man.step env m.event

def seen : MnMessage → Bool
  | .mnb _ mnb => (man.mapSeenMasternodeBroadcast (mnb.getHash env.toSigEnv)).isSome
  | .mnp _ mnp => (man.mapSeenMasternodePing (mnp.getHash env.toSigEnv)).isSome

def unverified : MnMessage → Bool
  | .mnb _ mnb => !mnb.checkSignature env.toSigEnv
  | .mnp _ mnp =>
    match man.find mnp.vin with
    | none => true
    | some pmn => !mnp.checkSignature env.toSigEnv pmn.pubKeyMasternode

def receiveMarked (m : Bool × MnMessage) : MasternodeMan := man.receive env m.2

end MasternodeMan

def genuine (messages : List (Bool × MnMessage)) : List MnMessage :=
  (messages.filter fun m => !m.1).map Prod.snd

/-- The genuine messages but for those that are dropped as seen in the run `man` with the
inserted messages and would not be dropped in the run `base` without them. -/
def unshadowed (env : MnEnv) : (man base : MasternodeMan) → List (Bool × MnMessage) → List MnMessage
  | _, _, [] => []
  | man, base, (inserted, m) :: messages =>
    if inserted || (man.seen env m && !base.seen env m) then
      unshadowed env (man.receive env m) base messages
    else m :: unshadowed env (man.receive env m) (base.receive env m) messages

/-- The lists agree and what `base` has seen `man` has seen. -/
structure Covers (man base : MasternodeMan) : Prop where
  list : man.vMasternodes = base.vMasternodes
  mnb : ∀ hash, (base.mapSeenMasternodeBroadcast hash).isSome →
    (man.mapSeenMasternodeBroadcast hash).isSome
  mnp : ∀ hash, (base.mapSeenMasternodePing hash).isSome → (man.mapSeenMasternodePing hash).isSome

def Alike {α : Type} (r r' : α × MasternodeMan) : Prop := r.1 = r'.1 ∧ Covers r.2 r'.2

section
variable {env : MnEnv} {view : MnView} {man base : MasternodeMan} {mnb : CMasternodeBroadcast}
  {mnp : CMasternodePing} {m : MnMessage}

theorem Covers.refl : Covers man man := ⟨rfl, fun _ h => h, fun _ h => h⟩

theorem Covers.find (h : Covers man base) (vin : CTxIn) : man.find vin = base.find vin := by
  rw [MasternodeMan.find, MasternodeMan.find, h.list]

theorem Covers.withList {f : List CMasternodeEntry → List CMasternodeEntry} (h : Covers man base) :
    Covers { man with vMasternodes := f man.vMasternodes }
      { base with vMasternodes := f base.vMasternodes } :=
  ⟨congrArg f h.list, h.mnb, h.mnp⟩

theorem isSome_update_of {α : Type} {m b : uint256 → Option α}
    (h : ∀ hash, (b hash).isSome → (m hash).isSome) (k : uint256) {x y : Option α}
    (hxy : y.isSome → x.isSome) (hash : uint256) :
    (update b k y hash).isSome → (update m k x hash).isSome := by
  by_cases hk : hash = k
  · subst hk
    rw [update_self, update_self]
    exact hxy
  · rw [update_of_ne hk, update_of_ne hk]
    exact h hash

theorem isSome_update_some {α : Type} {m b : uint256 → Option α}
    (h : ∀ hash, (b hash).isSome → (m hash).isSome) (k : uint256) (x : α) (hash : uint256)
    (hb : (b hash).isSome) : (update m k (some x) hash).isSome := by
  rw [← update_eq_self k b] at hb
  exact isSome_update_of h k (fun _ => rfl) hash hb

section
variable (h : Covers man base)
include h

theorem Covers.modify (prevout : COutPoint) (f : CMasternodeEntry → CMasternodeEntry) :
    Covers (man.modify prevout f) (base.modify prevout f) := h.withList

theorem Covers.remove (vin : CTxIn) : Covers (man.remove vin) (base.remove vin) := h.withList

theorem Covers.add (mn : CMasternodeEntry) : Covers (man.add mn) (base.add mn) := by
  unfold MasternodeMan.add
  rw [h.find]
  split_ifs
  · exact h
  · exact h.withList (f := fun l => l ++ [mn])
  · exact h

theorem Covers.forget (hash : uint256) : Covers (man.forget hash) (base.forget hash) :=
  ⟨h.list, isSome_update_of h.mnb hash id, h.mnp⟩

theorem Covers.see : Covers (man.see env mnb) (base.see env mnb) :=
  ⟨h.list, isSome_update_of h.mnb _ id, h.mnp⟩

theorem Covers.insertPing (hash : uint256) (mnp : CMasternodePing) :
    Covers (man.insertPing hash mnp) (base.insertPing hash mnp) :=
  ⟨h.list, h.mnb, isSome_update_of h.mnp hash fun _ => rfl⟩

theorem Covers.refreshSeen (hash : uint256) (mnp : CMasternodePing) :
    Covers (man.refreshSeen hash mnp) (base.refreshSeen hash mnp) := by
  refine ⟨h.list, isSome_update_of h.mnb hash ?_, h.mnp⟩
  rw [Option.isSome_map, Option.isSome_map]
  exact h.mnb hash

theorem store_covers {pmn : CMasternodeEntry} (fRequireEnabled : Bool) :
    Alike (mnp.store env view fRequireEnabled man pmn)
      (mnp.store env view fRequireEnabled base pmn) := by
  unfold CMasternodePing.store
  split_ifs
  · exact ⟨rfl, h⟩
  · exact ⟨rfl, h⟩
  · exact ⟨rfl, h⟩
  · exact ⟨rfl, h⟩
  · exact ⟨rfl, h⟩
  · exact ⟨rfl, (h.modify _ _).refreshSeen _ _⟩

end

theorem ping_covers (env : MnEnv) (view : MnView) (h : Covers man base) (mnp : CMasternodePing)
    (fRequireEnabled fCheckSigTimeOnly : Bool) :
    Alike (mnp.checkAndUpdate env view fRequireEnabled fCheckSigTimeOnly man)
      (mnp.checkAndUpdate env view fRequireEnabled fCheckSigTimeOnly base) := by
  unfold CMasternodePing.checkAndUpdate
  rw [h.find]
  cases base.find mnp.vin with
  | none =>
    split_ifs <;> exact ⟨rfl, h⟩
  | some pmn =>
    dsimp only
    split_ifs
    · exact ⟨rfl, h⟩
    · exact ⟨rfl, h⟩
    · exact ⟨rfl, h⟩
    · exact ⟨rfl, h⟩
    · exact store_covers h fRequireEnabled

theorem badPing_covers (h : Covers man base) :
    mnb.badPing env view man = mnb.badPing env view base := by
  unfold CMasternodeBroadcast.badPing
  rw [(ping_covers env view h mnb.lastPing false true).1]

theorem update_covers (env : MnEnv) (view : MnView) (mnb : CMasternodeBroadcast)
    (h : Covers man base) (pmn : CMasternodeEntry) :
    Alike (mnb.updateFromNewBroadcast env view man pmn)
      (mnb.updateFromNewBroadcast env view base pmn) := by
  have hping := ping_covers env view (h.modify pmn.prevout mnb.renew) mnb.lastPing false false
  unfold CMasternodeBroadcast.updateFromNewBroadcast
  dsimp only
  rw [hping.1]
  split_ifs
  · exact ⟨rfl, ((h.modify _ _).modify _ _).insertPing _ _⟩
  · exact ⟨rfl, (hping.2.modify _ _).insertPing _ _⟩
  · exact ⟨rfl, hping.2⟩
  · exact ⟨rfl, h⟩

theorem checkAndUpdate_covers (env : MnEnv) (view : MnView) (h : Covers man base)
    (mnb : CMasternodeBroadcast) :
    Alike (mnb.checkAndUpdate env view man) (mnb.checkAndUpdate env view base) := by
  have hrefused : mnb.refused env view man = mnb.refused env view base := by
    unfold CMasternodeBroadcast.refused
    rw [badPing_covers h]
  unfold CMasternodeBroadcast.checkAndUpdate
  rw [hrefused, h.find]
  cases mnb.refused env view base with
  | some nDos => exact ⟨rfl, h⟩
  | none =>
    cases base.find mnb.vin with
    | none => exact ⟨rfl, h⟩
    | some pmn =>
      have hupdate := update_covers env view mnb h pmn
      dsimp only
      rw [hupdate.1]
      split_ifs
      · exact ⟨rfl, h⟩
      · exact ⟨rfl, h⟩
      · exact ⟨rfl, hupdate.2.modify _ _⟩
      · exact ⟨rfl, hupdate.2⟩
      · exact ⟨rfl, h⟩

theorem addNew_covers (h : Covers man base) :
    Alike (mnb.addNew env view man) (mnb.addNew env view base) := by
  unfold CMasternodeBroadcast.addNew
  split_ifs
  · exact ⟨rfl, h.forget _⟩
  · exact ⟨rfl, h⟩
  · exact ⟨rfl, h.forget _⟩
  · exact ⟨rfl, h⟩
  · exact ⟨rfl, h.add (.ofBroadcast mnb)⟩

theorem checkInputsAndAdd_covers (h : Covers man base) :
    Alike (mnb.checkInputsAndAdd env view man) (mnb.checkInputsAndAdd env view base) := by
  unfold CMasternodeBroadcast.checkInputsAndAdd
  rw [badPing_covers h, h.find]
  split_ifs
  · exact ⟨rfl, h⟩
  cases mnb.badPing env view base with
  | some nDoS => exact ⟨rfl, h⟩
  | none =>
    cases base.find mnb.vin with
    | none => exact addNew_covers h
    | some pmn =>
      dsimp only
      split_ifs
      · exact ⟨rfl, h⟩
      · exact addNew_covers (h.remove pmn.vin)

theorem acceptBroadcast_covers (h : Covers man base) (mnb : CMasternodeBroadcast) :
    Covers (man.acceptBroadcast env view mnb).1 (base.acceptBroadcast env view mnb).1 := by
  have hupdate := checkAndUpdate_covers env view h mnb
  unfold MasternodeMan.acceptBroadcast
  dsimp only
  rw [hupdate.1]
  cases (mnb.checkAndUpdate env view base).1.ok with
  | false => exact hupdate.2
  | true =>
  cases mnb.isInputAssociatedWithPubkey env view with
  | false => exact hupdate.2
  | true => exact (checkInputsAndAdd_covers hupdate.2).2

/- What a message does that was not seen. -/
def MasternodeMan.accept (env : MnEnv) (man : MasternodeMan) : MnMessage → MasternodeMan
  | .mnb view mnb => ((man.see env mnb).acceptBroadcast env view mnb).1
  | .mnp view mnp => (mnp.checkAndUpdate env view true false
      (man.insertPing (mnp.getHash env.toSigEnv) mnp)).2

def MnMessage.synced : MnMessage → Bool
  | .mnb view _ | .mnp view _ => view.fBlockchainSynced

theorem receive_eq (env : MnEnv) (man : MasternodeMan) (m : MnMessage) :
    man.receive env m =
      if m.synced then if man.seen env m then man else man.accept env m else man := by
  cases m with
  | mnb view mnb =>
    show (if view.fBlockchainSynced then (man.processBroadcast env view mnb).1 else man) = _
    rw [MasternodeMan.processBroadcast, apply_ite Prod.fst]
    rfl
  | mnp view mnp =>
    show (if view.fBlockchainSynced then (man.processPing env view mnp).1 else man) = _
    rw [MasternodeMan.processPing, apply_ite Prod.fst]
    rfl

theorem receive_seen (h : man.seen env m = true) : man.receive env m = man := by
  rw [receive_eq, if_pos h, ite_self]

theorem Covers.seen (h : Covers man base) (hseen : man.seen env m = false) :
    base.seen env m = false := by
  refine Bool.eq_false_iff.mpr fun hb => Bool.eq_false_iff.mp hseen ?_
  cases m with
  | mnb view mnb => exact h.mnb _ hb
  | mnp view mnp => exact h.mnp _ hb

theorem receive_covers (h : Covers man base) (hseen : man.seen env m = false) :
    Covers (man.receive env m) (base.receive env m) := by
  rw [receive_eq, receive_eq, hseen, h.seen hseen]
  cases m.synced with
  | false => exact h
  | true =>
    cases m with
    | mnb view mnb => exact acceptBroadcast_covers h.see mnb
    | mnp view mnp => exact (ping_covers env view (h.insertPing _ mnp) mnp true false).2

theorem ping_unverified (hbad : man.unverified env (.mnp view mnp) = true) :
    (mnp.checkAndUpdate env view true false man).2 = man := by
  unfold CMasternodePing.checkAndUpdate
  dsimp only [MasternodeMan.unverified] at hbad
  cases hfind : man.find mnp.vin with
  | none =>
    split_ifs <;> rfl
  | some pmn =>
    rw [hfind] at hbad
    dsimp only at hbad ⊢
    unfold CMasternodePing.store
    rw [if_pos hbad]
    split_ifs <;> rfl

theorem broadcast_unverified (hbad : mnb.checkSignature env.toSigEnv = false) :
    (man.acceptBroadcast env view mnb).1 = man := by
  have hrefused : ∃ nDos, mnb.refused env view man = some nDos := by
    cases h : mnb.refused env view man with
    | some nDos => exact ⟨nDos, rfl⟩
    | none => exact absurd (signed_of_not_refused h) (Bool.eq_false_iff.mp hbad)
  obtain ⟨nDos, hrefused⟩ := hrefused
  unfold MasternodeMan.acceptBroadcast CMasternodeBroadcast.checkAndUpdate
  rw [hrefused]
  rfl

theorem Covers.inserted (h : Covers man base) (hbad : man.unverified env m = true) :
    Covers (man.receive env m) base := by
  rw [receive_eq]
  split_ifs
  · exact h
  · cases m with
    | mnb view mnb =>
      have hsig : mnb.checkSignature env.toSigEnv = false := by
        simpa [MasternodeMan.unverified] using hbad
      rw [MasternodeMan.accept, broadcast_unverified hsig]
      exact ⟨h.list, isSome_update_some h.mnb _ _, h.mnp⟩
    | mnp view mnp =>
      have hbad' : (man.insertPing (mnp.getHash env.toSigEnv) mnp).unverified env
          (.mnp view mnp) = true := hbad
      rw [MasternodeMan.accept, ping_unverified hbad']
      exact ⟨h.list, h.mnb, isSome_update_some h.mnp _ _⟩
  · exact h

theorem run_covers (messages : List (Bool × MnMessage)) (h : Covers man base)
    (hbad : Along (MasternodeMan.receiveMarked env)
      (fun man m => m.1 = true → man.unverified env m.2 = true) man messages) :
    Covers (run (MasternodeMan.receiveMarked env) man messages)
      (run (MasternodeMan.receive env) base (unshadowed env man base messages)) := by
  induction messages generalizing man base with
  | nil => exact h
  | cons msg messages ih =>
    obtain ⟨inserted, m⟩ := msg
    obtain ⟨hfirst, hrest⟩ := hbad
    rw [run_cons, unshadowed]
    cases inserted with
    | true => exact ih (h.inserted (hfirst rfl)) hrest
    | false =>
      cases hman : man.seen env m with
      | false => exact ih (receive_covers h hman) hrest
      | true =>
        have hkeep : man.receiveMarked env (false, m) = man := receive_seen hman
        rw [hkeep] at hrest ⊢
        rw [receive_seen hman]
        cases hbase : base.seen env m with
        | false => exact ih h hrest
        | true =>
          rw [receive_seen hbase]
          show Covers _ (run (MasternodeMan.receive env) (base.receive env m) _)
          rw [receive_seen hbase]
          exact ih h hrest

end

def MasternodeMan.announcements (man : MasternodeMan) : List CMasternodeBroadcast :=
  man.vMasternodes.map CMasternodeEntry.toCMasternodeBroadcast

end Alqo
