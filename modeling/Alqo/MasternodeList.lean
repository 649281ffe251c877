import Alqo.MasternodeMessages
import Alqo.Lib.KeyedList
import Alqo.Lib.Runs

/-!
# The masternode list under messages (masternode.cpp, masternodeman.cpp)

A message is recorded as seen under its identifier before it is looked at.
-/

namespace Alqo
open Lib Lib.Runs Function List

/-- `CMasternode::state`, as far as it is ever assigned. -/
inductive MnState where
  | MASTERNODE_PRE_ENABLED
  | MASTERNODE_ENABLED
  | MASTERNODE_EXPIRED
  | MASTERNODE_REMOVE
  | MASTERNODE_VIN_SPENT
deriving DecidableEq, Repr

/-- A `CMasternode` of the list: the fields of a broadcast and its state. -/
structure CMasternodeEntry extends CMasternodeBroadcast where
  activeState : MnState
  lastTimeChecked : Int64
deriving DecidableEq

structure MasternodeMan where
  vMasternodes : List CMasternodeEntry := []
  mapSeenMasternodeBroadcast : uint256 → Option CMasternodeBroadcast := fun _ => none
  mapSeenMasternodePing : uint256 → Option CMasternodePing := fun _ => none

structure MnVerdict where
  ok : Bool
  nDoS : Int := 0
deriving DecidableEq

/-- What does not change while a node runs; a hash names one transaction. -/
structure MnEnv extends SigEnv where
  fMainNet : Bool
  nMasternodeCollateral : CAmount
  txOf : uint256 → Option CTransaction

structure MnView where
  fBlockchainSynced : Bool := true
  fShutdown : Bool := false
  nTime : Int64
  nAdjustedTime : Int64
  /-- `GetMinMasternodePaymentsProto()` -/
  nMinProto : Int32
  /-- `TRY_LOCK(cs_main)` succeeds. -/
  lockMain : Bool := true
  /-- The block of a transaction that is found. -/
  blockOf : uint256 → Option uint256
  /-- Unspent outputs, those of the pool included. -/
  unspent : COutPoint → Option CTxOut
  /-- Outpoints that the pool spends or a transaction lock holds. -/
  fTaken : COutPoint → Bool := fun _ => false
  /-- The other checks of `AcceptableInputs`: sizes, priority, maturity. -/
  policy : CTxIn → MnVerdict := fun _ => ⟨true, 0⟩
  /-- `GetInputAge`, of the whole transaction -/
  inputAge : uint256 → Int
  /-- Heights in `mapBlockIndex`. -/
  blockHeight : uint256 → Option Int
  nChainHeight : Int
  /-- `chainActive[nHeight]->GetBlockTime()` -/
  blockTime : Int → Int64
  /-- `activeMasternode`, if `fMasterNode` -/
  active : Option (COutPoint × CPubKey) := none

def MASTERNODE_MIN_CONFIRMATIONS : Int := 15
def MASTERNODE_MIN_MNP_SECONDS : Int64 := 10 * 60
def MASTERNODE_MIN_MNB_SECONDS : Int64 := 5 * 60
def MASTERNODE_EXPIRATION_SECONDS : Int64 := 120 * 60
def MASTERNODE_REMOVAL_SECONDS : Int64 := 130 * 60
def MASTERNODE_CHECK_SECONDS : Int64 := 5
def MIN_PEER_MNANNOUNCE : Int32 := 70913

/-- `GetScriptForDestination` of a key id. -/
def getScriptForKeyID (id : BitVec 160) : CScript :=
  [0x76, 0xa9, 0x14] ++ leBytes 20 id.toNat ++ [0x88, 0xac]

/-- `AcceptableInputs` of a transaction that pays `9999.99 * COIN` from the outpoint. -/
def MnView.acceptableInputs (view : MnView) (vin : CTxIn) : MnVerdict :=
  if view.fTaken vin.prevout then ⟨false, 0⟩
  else
    match view.unspent vin.prevout with
    | none => ⟨false, 0⟩
    | some out => if out.nValue < 999999000000 then ⟨false, 100⟩ else view.policy vin

/-- `GetTransaction(hash, tx, hashBlock, true)` -/
def MnEnv.getTransaction (env : MnEnv) (view : MnView) (hash : uint256) :
    Option (CTransaction × uint256) :=
  match env.txOf hash, view.blockOf hash with
  | some tx, some hashBlock => some (tx, hashBlock)
  | _, _ => none

namespace CMasternodeEntry
variable (view : MnView) (mn : CMasternodeEntry)

def prevout : COutPoint := mn.vin.prevout

/-- `CMasternode(mnb)`: a broadcast that was read is enabled. -/
def ofBroadcast (mnb : CMasternodeBroadcast) : CMasternodeEntry :=
  { mnb with activeState := .MASTERNODE_ENABLED, lastTimeChecked := 0 }

def isEnabled : Bool := mn.activeState == .MASTERNODE_ENABLED

def isBroadcastedWithin (seconds : Int64) : Bool := view.nAdjustedTime - mn.sigTime < seconds

def isPingedWithin (seconds : Int64) (now : Int64 := -1) : Bool :=
  let now := if now = -1 then view.nAdjustedTime else now
  if mn.lastPing.isNull then false else now - mn.lastPing.sigTime < seconds

def checkedState : MnState :=
  if mn.activeState = .MASTERNODE_VIN_SPENT then .MASTERNODE_VIN_SPENT
  else if !mn.isPingedWithin view MASTERNODE_REMOVAL_SECONDS then .MASTERNODE_REMOVE
  else if !mn.isPingedWithin view MASTERNODE_EXPIRATION_SECONDS then .MASTERNODE_EXPIRED
  else if mn.lastPing.sigTime - mn.sigTime < MASTERNODE_MIN_MNP_SECONDS then
    .MASTERNODE_PRE_ENABLED
  else if !view.lockMain then mn.activeState
  else if !(view.acceptableInputs mn.vin).ok then .MASTERNODE_VIN_SPENT
  else .MASTERNODE_ENABLED

def check (forceCheck : Bool) : CMasternodeEntry :=
  if view.fShutdown then mn
  else if !forceCheck && decide (view.nTime - mn.lastTimeChecked < MASTERNODE_CHECK_SECONDS) then mn
  else { mn with lastTimeChecked := view.nTime, activeState := mn.checkedState view }

end CMasternodeEntry

def CMasternodeBroadcast.isInputAssociatedWithPubkey (env : MnEnv) (view : MnView)
    (mnb : CMasternodeBroadcast) : Bool :=
  match env.getTransaction view mnb.vin.prevout.hash with
  | none => false
  | some (txVin, _) =>
    txVin.vout.any fun out => decide (out.nValue = env.nMasternodeCollateral) &&
      decide (out.scriptPubKey = getScriptForKeyID (env.getID mnb.pubKeyCollateralAddress))

namespace MasternodeMan
variable (man : MasternodeMan)

def find (vin : CTxIn) : Option CMasternodeEntry :=
  KeyedList.find CMasternodeEntry.prevout vin.prevout man.vMasternodes

/-- Writes through the pointer that `Find` returned. -/
def modify (prevout : COutPoint) (f : CMasternodeEntry → CMasternodeEntry) : MasternodeMan :=
  { man with vMasternodes := KeyedList.modify CMasternodeEntry.prevout prevout f man.vMasternodes }

def add (mn : CMasternodeEntry) : MasternodeMan :=
  if !mn.isEnabled then man
  else if (man.find mn.vin).isNone then { man with vMasternodes := man.vMasternodes ++ [mn] }
  else man

/- By the whole input. -/
def remove (vin : CTxIn) : MasternodeMan :=
  { man with vMasternodes := man.vMasternodes.eraseP fun mn => decide (mn.vin = vin) }

/-- `mapSeenMasternodeBroadcast.erase` -/
def forget (hash : uint256) : MasternodeMan :=
  { man with
    mapSeenMasternodeBroadcast := update man.mapSeenMasternodeBroadcast hash none }

/-- `mapSeenMasternodePing.insert` keeps what is there. -/
def insertPing (hash : uint256) (mnp : CMasternodePing) : MasternodeMan :=
  { man with
    mapSeenMasternodePing :=
      update man.mapSeenMasternodePing hash
        (some ((man.mapSeenMasternodePing hash).getD mnp)) }

def refreshSeen (hash : uint256) (mnp : CMasternodePing) : MasternodeMan :=
  { man with
    mapSeenMasternodeBroadcast :=
      update man.mapSeenMasternodeBroadcast hash
        ((man.mapSeenMasternodeBroadcast hash).map fun mnb => { mnb with lastPing := mnp }) }

def check (view : MnView) : MasternodeMan :=
  { man with vMasternodes := man.vMasternodes.map fun mn => mn.check view false }

end MasternodeMan

namespace CMasternodePing
variable (env : MnEnv) (view : MnView) (mnp : CMasternodePing)

def blockRecent : Bool :=
  match view.blockHeight mnp.blockHash with
  | none => false
  | some nHeight => !decide (nHeight < view.nChainHeight - 24)

/-- The end of `CheckAndUpdate`, for a masternode that was found. -/
def store (fRequireEnabled : Bool) (man : MasternodeMan) (pmn : CMasternodeEntry) :
    MnVerdict × MasternodeMan :=
  if pmn.protocolVersion < view.nMinProto then (⟨false, 0⟩, man)
  else if fRequireEnabled && !pmn.isEnabled then (⟨false, 0⟩, man)
  else if pmn.isPingedWithin view (MASTERNODE_MIN_MNP_SECONDS - 60) mnp.sigTime then
    (⟨false, 0⟩, man)
  else if !mnp.checkSignature env.toSigEnv pmn.pubKeyMasternode then (⟨false, 33⟩, man)
  else if !mnp.blockRecent view then (⟨false, 0⟩, man)
  else
    let pmn' := { pmn with lastPing := mnp }.check view true
    let hash := pmn.toCMasternodeBroadcast.getHash env.toSigEnv
    (⟨pmn'.isEnabled, 0⟩, (man.modify pmn.prevout fun _ => pmn').refreshSeen hash mnp)

def checkAndUpdate (fRequireEnabled fCheckSigTimeOnly : Bool) (man : MasternodeMan) :
    MnVerdict × MasternodeMan :=
  if mnp.sigTime > view.nAdjustedTime + 60 * 60 then (⟨false, 1⟩, man)
  else if mnp.sigTime ≤ view.nAdjustedTime - 60 * 60 then (⟨false, 1⟩, man)
  else
    match man.find mnp.vin with
    | none => (⟨fCheckSigTimeOnly, 0⟩, man)
    | some pmn =>
      if fCheckSigTimeOnly then
        if !mnp.checkSignature env.toSigEnv pmn.pubKeyMasternode then (⟨false, 33⟩, man)
        else (⟨true, 0⟩, man)
      else mnp.store env view fRequireEnabled man pmn

end CMasternodePing

namespace CMasternodeBroadcast
variable (env : MnEnv) (view : MnView) (mnb : CMasternodeBroadcast) (man : MasternodeMan)

def badPing : Option Int :=
  if mnb.lastPing.isNull then some 0
  else
    let verdict := (mnb.lastPing.checkAndUpdate env view false true man).1
    if verdict.ok then none else some verdict.nDoS

/-- The checks of `CheckAndUpdate` before the list is searched, with the penalty of the
one that fails. -/
def refused : Option Int :=
  if mnb.sigTime > view.nAdjustedTime + 60 * 60 then some 1
  else
    match mnb.badPing env view man with
    | some nDos => some nDos
    | none =>
      if mnb.protocolVersion < view.nMinProto then some 0
      else if (getScriptForKeyID (env.getID mnb.pubKeyCollateralAddress)).length ≠ 25 then some 100
      else if (getScriptForKeyID (env.getID mnb.pubKeyMasternode)).length ≠ 25 then some 100
      else if mnb.vin.scriptSig ≠ [] then some 0
      else if !mnb.checkSignature env.toSigEnv then
        some (if mnb.protocolVersion < MIN_PEER_MNANNOUNCE then 0 else 100)
      else if env.fMainNet then (if mnb.addr.port ≠ 20480 then some 0 else none)
      else if mnb.addr.port = 20480 then some 0
      else none

/-- The fields `UpdateFromNewBroadcast` writes before the ping. -/
def renew (mn : CMasternodeEntry) : CMasternodeEntry :=
  { mn with
    pubKeyMasternode := mnb.pubKeyMasternode
    pubKeyCollateralAddress := mnb.pubKeyCollateralAddress
    sigTime := mnb.sigTime
    vchSig := mnb.vchSig
    protocolVersion := mnb.protocolVersion
    addr := mnb.addr
    lastTimeChecked := 0 }

/- masternode.cpp:134-152 of the entry `pmn`. -/
def updateFromNewBroadcast (pmn : CMasternodeEntry) : Bool × MasternodeMan :=
  if mnb.sigTime > pmn.sigTime then
    let man := man.modify pmn.prevout mnb.renew
    let takes (man : MasternodeMan) : MasternodeMan :=
      (man.modify pmn.prevout fun mn => { mn with lastPing := mnb.lastPing }).insertPing
        (mnb.lastPing.getHash env.toSigEnv) mnb.lastPing
    if mnb.lastPing.isNull then (true, takes man)
    else
      let (verdict, man) := mnb.lastPing.checkAndUpdate env view false false man
      (true, if verdict.ok then takes man else man)
  else (false, man)

def checkAndUpdate : MnVerdict × MasternodeMan :=
  match mnb.refused env view man with
  | some nDos => (⟨false, nDos⟩, man)
  | none =>
    match man.find mnb.vin with
    | none => (⟨true, 0⟩, man)
    | some pmn =>
      if pmn.sigTime ≥ mnb.sigTime then (⟨false, 0⟩, man)
      else if !pmn.isEnabled then (⟨true, 0⟩, man)
      else if pmn.pubKeyCollateralAddress = mnb.pubKeyCollateralAddress ∧
          !pmn.isBroadcastedWithin view MASTERNODE_MIN_MNB_SECONDS then
        let (updated, man) := mnb.updateFromNewBroadcast env view man pmn
        (⟨true, 0⟩, if updated then man.modify pmn.prevout fun mn => mn.check view false else man)
      else (⟨true, 0⟩, man)

/-- The block in which the collateral got its last confirmation is later than the
broadcast. -/
def signedTooEarly : Bool :=
  match env.getTransaction view mnb.vin.prevout.hash with
  | none => false
  | some (_, hashBlock) =>
    match view.blockHeight hashBlock with
    | none => false
    | some nHeight =>
      decide (view.blockTime (nHeight + MASTERNODE_MIN_CONFIRMATIONS - 1) > mnb.sigTime)

/-- The part of `CheckInputsAndAdd` after the old entry is gone. -/
def addNew : MnVerdict × MasternodeMan :=
  if !view.lockMain then (⟨false, 0⟩, man.forget (mnb.getHash env.toSigEnv))
  else if !(view.acceptableInputs mnb.vin).ok then
    (⟨false, (view.acceptableInputs mnb.vin).nDoS⟩, man)
  else if view.inputAge mnb.vin.prevout.hash < MASTERNODE_MIN_CONFIRMATIONS then
    (⟨false, 0⟩, man.forget (mnb.getHash env.toSigEnv))
  else if mnb.signedTooEarly env view then (⟨false, 0⟩, man)
  else (⟨true, 0⟩, man.add (.ofBroadcast mnb))

def checkInputsAndAdd : MnVerdict × MasternodeMan :=
  if view.active = some (mnb.vin.prevout, mnb.pubKeyMasternode) then (⟨true, 0⟩, man)
  else
    match mnb.badPing env view man with
    | some nDoS => (⟨false, nDoS⟩, man)
    | none =>
      match man.find mnb.vin with
      | none => mnb.addNew env view man
      | some pmn =>
        if pmn.isEnabled then (⟨true, 0⟩, man)
        else mnb.addNew env view (man.remove pmn.vin)

end CMasternodeBroadcast

namespace MasternodeMan
variable (env : MnEnv) (view : MnView) (man : MasternodeMan) (mnb : CMasternodeBroadcast)

/-- `mapSeenMasternodeBroadcast.insert` of a broadcast that is not there. -/
def see : MasternodeMan :=
  { man with
    mapSeenMasternodeBroadcast :=
      update man.mapSeenMasternodeBroadcast (mnb.getHash env.toSigEnv) (some mnb) }

def acceptBroadcast : MasternodeMan × Int :=
  let (verdict, man) := mnb.checkAndUpdate env view man
  if !verdict.ok then (man, verdict.nDoS)
  else if !mnb.isInputAssociatedWithPubkey env view then (man, 33)
  else
    let (verdict, man) := mnb.checkInputsAndAdd env view man
    (man, if verdict.ok then 0 else verdict.nDoS)

/-- `ProcessMessage` for `mnb`. -/
def processBroadcast : MasternodeMan × Int :=
  if (man.mapSeenMasternodeBroadcast (mnb.getHash env.toSigEnv)).isSome then (man, 0)
  else (man.see env mnb).acceptBroadcast env view mnb

/-- `ProcessMessage` for `mnp`. -/
def processPing (mnp : CMasternodePing) : MasternodeMan × Int :=
  if (man.mapSeenMasternodePing (mnp.getHash env.toSigEnv)).isSome then (man, 0)
  else
    let (verdict, man) := mnp.checkAndUpdate env view true false
      (man.insertPing (mnp.getHash env.toSigEnv) mnp)
    (man, if verdict.ok then 0 else verdict.nDoS)

def dead (forceExpiredRemoval : Bool) (mn : CMasternodeEntry) : Bool :=
  mn.activeState == .MASTERNODE_REMOVE || mn.activeState == .MASTERNODE_VIN_SPENT ||
    (forceExpiredRemoval && mn.activeState == .MASTERNODE_EXPIRED) ||
    decide (mn.protocolVersion < view.nMinProto)

/- With an entry go the
seen broadcasts of its input, and seen messages expire. -/
def checkAndRemove (forceExpiredRemoval : Bool) : MasternodeMan :=
  let man := man.check view
  let removed := man.vMasternodes.filter (dead view forceExpiredRemoval)
  let expired (sigTime : Int64) : Bool :=
    decide (sigTime < view.nTime - MASTERNODE_REMOVAL_SECONDS * 2)
  { vMasternodes := man.vMasternodes.filter fun mn => !dead view forceExpiredRemoval mn
    mapSeenMasternodeBroadcast := fun hash =>
      (man.mapSeenMasternodeBroadcast hash).filter fun mnb =>
        !(removed.any fun mn => decide (mnb.vin = mn.vin)) && !expired mnb.lastPing.sigTime
    mapSeenMasternodePing := fun hash =>
      (man.mapSeenMasternodePing hash).filter fun mnp => !expired mnp.sigTime }

end MasternodeMan

inductive MnEvent where
  | mnb (view : MnView) (mnb : CMasternodeBroadcast)
  | mnp (view : MnView) (mnp : CMasternodePing)
  | check (view : MnView)
  | checkAndRemove (view : MnView) (forceExpiredRemoval : Bool)
  | remove (vin : CTxIn)

def MasternodeMan.step (env : MnEnv) (man : MasternodeMan) : MnEvent → MasternodeMan
  | .mnb view mnb =>
    if view.fBlockchainSynced then (man.processBroadcast env view mnb).1 else man
  | .mnp view mnp => if view.fBlockchainSynced then (man.processPing env view mnp).1 else man
  | .check view => man.check view
  | .checkAndRemove view forceExpiredRemoval => man.checkAndRemove view forceExpiredRemoval
  | .remove vin => man.remove vin

def Unique (l : List CMasternodeEntry) : Prop := (l.map CMasternodeEntry.prevout).Nodup

structure Keeps (env : MnEnv) (mn mn' : CMasternodeEntry) : Prop where
  vin : mn'.vin = mn.vin
  collateralKey : mn'.pubKeyCollateralAddress = mn.pubKeyCollateralAddress
  masternodeKey : mn'.pubKeyMasternode = mn.pubKeyMasternode
  ping : mn'.lastPing = mn.lastPing ∨
    mn'.lastPing.checkSignature env.toSigEnv mn.pubKeyMasternode = true

structure Announced (env : MnEnv) (view : MnView) (mnb : CMasternodeBroadcast)
    (old : List CMasternodeEntry) (mn : CMasternodeEntry) : Prop where
  signed : mnb.checkSignature env.toSigEnv = true
  prevout : mn.prevout = mnb.vin.prevout
  collateralKey : mn.pubKeyCollateralAddress = mnb.pubKeyCollateralAddress
  collateral : mnb.isInputAssociatedWithPubkey env view = true ∨
    ∃ mn' ∈ old, mn'.prevout = mn.prevout ∧ mn'.pubKeyCollateralAddress = mn.pubKeyCollateralAddress

structure Evolves (env : MnEnv) (new : CMasternodeEntry → Prop)
    (l l' : List CMasternodeEntry) : Prop where
  unique : Unique l → Unique l'
  entry : ∀ mn' ∈ l', (∃ mn ∈ l, Keeps env mn mn') ∨ new mn'

section
variable {env : MnEnv} {view : MnView} {new : CMasternodeEntry → Prop}
  {l l' l'' : List CMasternodeEntry} {mn mn' mn'' : CMasternodeEntry}
  {f : CMasternodeEntry → CMasternodeEntry}

theorem Keeps.refl : Keeps env mn mn := ⟨rfl, rfl, rfl, .inl rfl⟩

theorem Keeps.prevout (h : Keeps env mn mn') : mn'.prevout = mn.prevout :=
  congrArg CTxIn.prevout h.vin

theorem Keeps.trans (h : Keeps env mn mn') (h' : Keeps env mn' mn'') : Keeps env mn mn'' where
  vin := h'.vin.trans h.vin
  collateralKey := h'.collateralKey.trans h.collateralKey
  masternodeKey := h'.masternodeKey.trans h.masternodeKey
  ping := by
    rcases h'.ping with heq | hsigned
    · rw [heq]
      exact h.ping
    · rw [h.masternodeKey] at hsigned
      exact .inr hsigned

theorem keeps_check (view : MnView) (forceCheck : Bool) :
    Keeps env mn (mn.check view forceCheck) := by
  unfold CMasternodeEntry.check
  split_ifs
  · exact Keeps.refl
  · exact Keeps.refl
  · exact ⟨rfl, rfl, rfl, .inl rfl⟩

theorem Announced.keeps {mnb : CMasternodeBroadcast} {old : List CMasternodeEntry}
    (h : Announced env view mnb old mn) (hk : Keeps env mn mn') :
    Announced env view mnb old mn' where
  signed := h.signed
  prevout := hk.prevout.trans h.prevout
  collateralKey := hk.collateralKey.trans h.collateralKey
  collateral := by
    rw [hk.prevout, hk.collateralKey]
    exact h.collateral

theorem Evolves.refl : Evolves env new l l := ⟨id, fun mn h => .inl ⟨mn, h, Keeps.refl⟩⟩

theorem Evolves.trans (hnew : ∀ mn mn', Keeps env mn mn' → new mn → new mn')
    (h : Evolves env new l l') (h' : Evolves env new l' l'') : Evolves env new l l'' where
  unique := h'.unique ∘ h.unique
  entry := by
    intro mn'' hmem
    rcases h'.entry mn'' hmem with ⟨mn', hmem', hkeep'⟩ | hn
    · rcases h.entry mn' hmem' with ⟨mn, hmem, hkeep⟩ | hn
      · exact .inl ⟨mn, hmem, hkeep.trans hkeep'⟩
      · exact .inr (hnew mn' mn'' hkeep' hn)
    · exact .inr hn

theorem Evolves.mono {new' : CMasternodeEntry → Prop} (hnew : ∀ mn, new mn → new' mn)
    (h : Evolves env new l l') : Evolves env new' l l' :=
  ⟨h.unique, fun mn hmem => (h.entry mn hmem).imp_right (hnew mn)⟩

theorem evolves_sublist (h : l'.Sublist l) : Evolves env new l l' where
  unique := (h.map CMasternodeEntry.prevout).nodup
  entry := fun mn hmem => .inl ⟨mn, h.subset hmem, Keeps.refl⟩

theorem evolves_map (hf : ∀ mn, Keeps env mn (f mn)) : Evolves env new l (l.map f) where
  unique := by
    intro h
    have hkeys : (l.map f).map CMasternodeEntry.prevout = l.map CMasternodeEntry.prevout := by
      rw [map_map]
      exact map_congr_left fun mn _ => (hf mn).prevout
    rw [Unique, hkeys]
    exact h
  entry := by
    intro mn' hmem
    obtain ⟨mn, hold, rfl⟩ := mem_map.mp hmem
    exact .inl ⟨mn, hold, hf mn⟩

theorem evolves_modify {k : COutPoint} (hkey : ∀ mn, mn.prevout = k → (f mn).prevout = k)
    (hf : ∀ mn, KeyedList.find CMasternodeEntry.prevout k l = some mn →
      Keeps env mn (f mn) ∨ new (f mn)) :
    Evolves env new l (KeyedList.modify CMasternodeEntry.prevout k f l) where
  unique := by
    intro h
    rw [Unique, KeyedList.map_key_modify hkey]
    exact h
  entry := by
    intro mn' hmem
    rcases KeyedList.mem_modify hmem with hold | ⟨mn, hfind, rfl⟩
    · exact .inl ⟨mn', hold, Keeps.refl⟩
    · exact (hf mn hfind).imp_left fun hk => ⟨mn, KeyedList.mem_of_find hfind, hk⟩

theorem evolves_concat (hnot : mn.prevout ∉ l.map CMasternodeEntry.prevout) (hn : new mn) :
    Evolves env new l (l ++ [mn]) where
  unique := by
    intro h
    rw [Unique, map_append, map_singleton, ← concat_eq_append]
    exact h.concat hnot
  entry := by
    intro mn' hmem
    rcases mem_append.mp hmem with hold | hlast
    · exact .inl ⟨mn', hold, Keeps.refl⟩
    · rw [mem_singleton.mp hlast]
      exact .inr hn

end

section
variable {env : MnEnv} {view : MnView} {new : CMasternodeEntry → Prop} {man : MasternodeMan}
  {mnb : CMasternodeBroadcast} {pmn : CMasternodeEntry}

theorem store_evolves {mnp : CMasternodePing} (fRequireEnabled : Bool)
    (hfind : man.find mnp.vin = some pmn) :
    Evolves env new man.vMasternodes
      (mnp.store env view fRequireEnabled man pmn).2.vMasternodes := by
  unfold CMasternodePing.store
  split_ifs with hproto henabled hpinged hsigned hblock
  · exact Evolves.refl
  · exact Evolves.refl
  · exact Evolves.refl
  · exact Evolves.refl
  · exact Evolves.refl
  have hping : Keeps env pmn { pmn with lastPing := mnp } :=
    ⟨rfl, rfl, rfl, .inr (by simpa using hsigned)⟩
  have hkeep := hping.trans (keeps_check view true)
  refine evolves_modify (fun _ _ => hkeep.prevout) ?_
  intro mn hmn
  rw [KeyedList.key_of_find hfind] at hmn
  cases hfind.symm.trans hmn
  exact .inl hkeep

theorem ping_evolves (env : MnEnv) (view : MnView) (new : CMasternodeEntry → Prop)
    (man : MasternodeMan) (mnp : CMasternodePing) (fRequireEnabled fCheckSigTimeOnly : Bool) :
    Evolves env new man.vMasternodes
      (mnp.checkAndUpdate env view fRequireEnabled fCheckSigTimeOnly man).2.vMasternodes := by
  unfold CMasternodePing.checkAndUpdate
  cases hfind : man.find mnp.vin with
  | none =>
    split_ifs <;> exact Evolves.refl
  | some pmn =>
    dsimp only
    split_ifs
    · exact Evolves.refl
    · exact Evolves.refl
    · exact Evolves.refl
    · exact Evolves.refl
    · exact store_evolves fRequireEnabled hfind

theorem signed_of_not_refused (h : mnb.refused env view man = none) :
    mnb.checkSignature env.toSigEnv = true := by
  unfold CMasternodeBroadcast.refused at h
  cases hping : mnb.badPing env view man with
  | some nDos =>
    rw [hping] at h
    split_ifs at h
  | none =>
    rw [hping] at h
    split_ifs at h with _ _ _ _ _ hsigned
    all_goals simpa using hsigned

theorem announced_of_renew (view : MnView) (hunique : Unique man.vMasternodes)
    (hfind : man.find mnb.vin = some pmn) (hsigned : mnb.checkSignature env.toSigEnv = true)
    (hkey : pmn.pubKeyCollateralAddress = mnb.pubKeyCollateralAddress) :
    ∀ mn ∈ (man.modify pmn.prevout mnb.renew).vMasternodes, mn.prevout = mnb.vin.prevout →
      Announced env view mnb man.vMasternodes mn := by
  intro mn hmem hmn
  have hprevout : pmn.prevout = mnb.vin.prevout := KeyedList.key_of_find hfind
  have hrenew : ∀ a : CMasternodeEntry, a.prevout = pmn.prevout →
      (mnb.renew a).prevout = pmn.prevout := fun _ h => h
  have hkeys : Unique (man.modify pmn.prevout mnb.renew).vMasternodes := by
    rw [Unique, MasternodeMan.modify, KeyedList.map_key_modify hrenew]
    exact hunique
  have hfound := KeyedList.find_of_mem hkeys hmem
  rw [hmn, ← hprevout, MasternodeMan.modify, KeyedList.find_modify hrenew, hprevout] at hfound
  have hmap : (man.find mnb.vin).map mnb.renew = some mn := hfound
  rw [hfind] at hmap
  cases hmap
  exact ⟨hsigned, hprevout, rfl, .inr ⟨pmn, KeyedList.mem_of_find hfind, rfl, hkey⟩⟩

theorem update_evolves (view : MnView) (hunique : Unique man.vMasternodes)
    (hfind : man.find mnb.vin = some pmn) (hsigned : mnb.checkSignature env.toSigEnv = true)
    (hkey : pmn.pubKeyCollateralAddress = mnb.pubKeyCollateralAddress) :
    Evolves env (Announced env view mnb man.vMasternodes) man.vMasternodes
      (mnb.updateFromNewBroadcast env view man pmn).2.vMasternodes := by
  have hprevout : pmn.prevout = mnb.vin.prevout := KeyedList.key_of_find hfind
  have hrenewed := announced_of_renew view hunique hfind hsigned hkey
  have hnew : ∀ mn mn', Keeps env mn mn' → Announced env view mnb man.vMasternodes mn →
      Announced env view mnb man.vMasternodes mn' := fun mn mn' hk h => h.keeps hk
  have hrenew : Evolves env (Announced env view mnb man.vMasternodes) man.vMasternodes
      (man.modify pmn.prevout mnb.renew).vMasternodes := by
    refine evolves_modify (fun _ h => h) ?_
    intro mn hmn
    cases hfind.symm.trans (hprevout ▸ hmn)
    exact .inr ⟨hsigned, hprevout, rfl, .inr ⟨pmn, KeyedList.mem_of_find hfind, rfl, hkey⟩⟩
  -- then the ping is taken over, after it may have been stored
  have htakes : ∀ man' : MasternodeMan,
      Evolves env (fun _ => False) (man.modify pmn.prevout mnb.renew).vMasternodes
        man'.vMasternodes →
      Evolves env (Announced env view mnb man.vMasternodes) man'.vMasternodes
        (man'.modify pmn.prevout fun mn => { mn with lastPing := mnb.lastPing }).vMasternodes := by
    intro man' hman'
    refine evolves_modify (fun _ h => h) ?_
    intro mn hmn
    obtain ⟨mn₀, hmem₀, hk⟩ | hfalse := hman'.entry mn (KeyedList.mem_of_find hmn)
    · have hmn₀ : mn₀.prevout = mnb.vin.prevout := by
        rw [← hk.prevout, KeyedList.key_of_find hmn, hprevout]
      have hann := (hrenewed mn₀ hmem₀ hmn₀).keeps hk
      exact .inr ⟨hann.signed, hann.prevout, hann.collateralKey, hann.collateral⟩
    · exact hfalse.elim
  unfold CMasternodeBroadcast.updateFromNewBroadcast
  split_ifs with htime hnull
  · exact hrenew.trans hnew (htakes _ Evolves.refl)
  · have hping := ping_evolves env view (fun _ => False) (man.modify pmn.prevout mnb.renew)
      mnb.lastPing false false
    have hping' := hrenew.trans hnew (hping.mono fun _ h => h.elim)
    dsimp only
    split_ifs
    · exact hping'.trans hnew (htakes _ hping)
    · exact hping'
  · exact Evolves.refl

theorem checkAndUpdate_evolves (env : MnEnv) (view : MnView) (mnb : CMasternodeBroadcast)
    (hunique : Unique man.vMasternodes) :
    Evolves env (Announced env view mnb man.vMasternodes) man.vMasternodes
      (mnb.checkAndUpdate env view man).2.vMasternodes := by
  unfold CMasternodeBroadcast.checkAndUpdate
  cases hrefused : mnb.refused env view man with
  | some nDos => exact Evolves.refl
  | none =>
    cases hfind : man.find mnb.vin with
    | none => exact Evolves.refl
    | some pmn =>
      dsimp only
      split_ifs with htime henabled hsame hupdated
      · exact Evolves.refl
      · exact Evolves.refl
      · have hupdate := update_evolves view hunique hfind (signed_of_not_refused hrefused) hsame.1
        refine hupdate.trans (fun mn mn' hk h => h.keeps hk) ?_
        have hcheck : ∀ mn : CMasternodeEntry, Keeps env mn (mn.check view false) :=
          fun mn => keeps_check view false
        exact evolves_modify (fun mn h => (hcheck mn).prevout.trans h) fun mn _ => .inl (hcheck mn)
      · exact update_evolves view hunique hfind (signed_of_not_refused hrefused) hsame.1
      · exact Evolves.refl

theorem signed_of_checkAndUpdate (h : (mnb.checkAndUpdate env view man).1.ok = true) :
    mnb.checkSignature env.toSigEnv = true := by
  unfold CMasternodeBroadcast.checkAndUpdate at h
  cases hrefused : mnb.refused env view man with
  | some nDos =>
    rw [hrefused] at h
    cases h
  | none => exact signed_of_not_refused hrefused

theorem add_evolves {mn : CMasternodeEntry} (hn : new mn) :
    Evolves env new man.vMasternodes (man.add mn).vMasternodes := by
  unfold MasternodeMan.add
  split_ifs with henabled hnone
  · exact Evolves.refl
  · exact evolves_concat (KeyedList.find_eq_none.mp (Option.isNone_iff_eq_none.mp hnone)) hn
  · exact Evolves.refl

theorem addNew_evolves (hn : new (.ofBroadcast mnb)) :
    Evolves env new man.vMasternodes (mnb.addNew env view man).2.vMasternodes := by
  unfold CMasternodeBroadcast.addNew
  split_ifs
  · exact Evolves.refl
  · exact Evolves.refl
  · exact Evolves.refl
  · exact Evolves.refl
  · exact add_evolves hn

theorem remove_evolves (vin : CTxIn) :
    Evolves env new man.vMasternodes (man.remove vin).vMasternodes :=
  evolves_sublist eraseP_sublist

theorem checkInputsAndAdd_evolves (hnew : ∀ mn mn', Keeps env mn mn' → new mn → new mn')
    (hn : new (.ofBroadcast mnb)) :
    Evolves env new man.vMasternodes (mnb.checkInputsAndAdd env view man).2.vMasternodes := by
  unfold CMasternodeBroadcast.checkInputsAndAdd
  split_ifs
  · exact Evolves.refl
  cases mnb.badPing env view man with
  | some nDoS => exact Evolves.refl
  | none =>
    cases man.find mnb.vin with
    | none => exact addNew_evolves hn
    | some pmn =>
      dsimp only
      split_ifs
      · exact Evolves.refl
      · exact (remove_evolves pmn.vin).trans hnew (addNew_evolves hn)

theorem acceptBroadcast_evolves (man : MasternodeMan) (hunique : Unique man.vMasternodes) :
    Evolves env (Announced env view mnb man.vMasternodes) man.vMasternodes
      (man.acceptBroadcast env view mnb).1.vMasternodes := by
  have hupdate := checkAndUpdate_evolves env view mnb hunique
  unfold MasternodeMan.acceptBroadcast
  dsimp only
  cases hok : (mnb.checkAndUpdate env view man).1.ok with
  | false => exact hupdate
  | true =>
  cases hassociated : mnb.isInputAssociatedWithPubkey env view with
  | false => exact hupdate
  | true =>
  have hsigned : mnb.checkSignature env.toSigEnv = true := signed_of_checkAndUpdate hok
  refine hupdate.trans (fun mn mn' hk h => h.keeps hk)
    (checkInputsAndAdd_evolves (fun mn mn' hk h => h.keeps hk) ?_)
  exact ⟨hsigned, rfl, rfl, .inl hassociated⟩

theorem step_evolves (env : MnEnv) (hunique : Unique man.vMasternodes) (e : MnEvent) :
    Evolves env (fun mn => ∃ view mnb, e = .mnb view mnb ∧
      Announced env view mnb man.vMasternodes mn) man.vMasternodes
      (man.step env e).vMasternodes := by
  cases e with
  | mnb view mnb =>
    unfold MasternodeMan.step MasternodeMan.processBroadcast
    dsimp only
    split_ifs
    · exact Evolves.refl
    · exact (acceptBroadcast_evolves (man.see env mnb) hunique).mono fun mn h => ⟨view, mnb, rfl, h⟩
    · exact Evolves.refl
  | mnp view mnp =>
    unfold MasternodeMan.step MasternodeMan.processPing
    dsimp only
    cases view.fBlockchainSynced with
    | false => exact Evolves.refl
    | true =>
    cases (man.mapSeenMasternodePing (mnp.getHash env.toSigEnv)).isSome with
    | true => exact Evolves.refl
    | false =>
      exact ping_evolves env view _ (man.insertPing (mnp.getHash env.toSigEnv) mnp) mnp true false
  | check view => exact evolves_map fun mn => keeps_check view false
  | checkAndRemove view forceExpiredRemoval =>
    refine Evolves.trans ?_ (evolves_map fun mn => keeps_check view false)
      (evolves_sublist filter_sublist)
    rintro mn mn' hk ⟨view, mnb, he, -⟩
    cases he
  | remove vin => exact remove_evolves vin

end

end Alqo
