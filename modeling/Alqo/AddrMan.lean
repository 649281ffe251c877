import Alqo.Lib.BackPointers
import Alqo.Lib.Runs
import Alqo.MasternodeMessages

/-!
# The address manager (addrman.h, addrman.cpp)

Random choices and clocks come with each call; `none` is a failed assertion. The order of `mapInfo`
is that of an association list, and ids do not run out.
-/

namespace Alqo
open Lib.BackPointers Function

abbrev CNetAddr := BitVec 128

structure CAddress where
  service : CService
  nServices : UInt64
  nTime : UInt32
deriving DecidableEq, Repr

structure CAddrInfo where
  addr : CAddress
  source : CNetAddr
  nLastTry : Int64 := 0
  nLastSuccess : Int64 := 0
  nAttempts : Int32 := 0
  nRefCount : Int := 0
  fInTried : Bool := false
  nRandomPos : Int := -1
deriving DecidableEq, Repr

abbrev ADDRMAN_TRIED_BUCKET_COUNT : Nat := 256
abbrev ADDRMAN_NEW_BUCKET_COUNT : Nat := 1024
abbrev ADDRMAN_BUCKET_SIZE : Nat := 64
def ADDRMAN_TRIED_BUCKETS_PER_GROUP : Nat := 8
def ADDRMAN_NEW_BUCKETS_PER_SOURCE_GROUP : Nat := 64
def ADDRMAN_NEW_BUCKETS_PER_ADDRESS : Int := 8
def ADDRMAN_HORIZON_DAYS : Int64 := 30
def ADDRMAN_RETRIES : Int32 := 3
def ADDRMAN_MAX_FAILURES : Int32 := 10
def ADDRMAN_MIN_FAIL_DAYS : Int64 := 7
def ADDRMAN_GETADDR_MAX_PCT : Nat := 23
def ADDRMAN_GETADDR_MAX : Nat := 2500

instance : NeZero ADDRMAN_NEW_BUCKET_COUNT := ⟨by decide⟩

abbrev NewSlot := Fin ADDRMAN_NEW_BUCKET_COUNT × Fin ADDRMAN_BUCKET_SIZE
abbrev TriedSlot := Fin ADDRMAN_TRIED_BUCKET_COUNT × Fin ADDRMAN_BUCKET_SIZE

/- `CHashWriter::GetHash`, `CNetAddr::GetGroup` and `CNetAddr::IsRoutable` -/
structure AddrRules where
  Hash : Bytes → uint256
  getGroup : CNetAddr → Bytes
  isRoutable : CNetAddr → Bool

namespace AddrRules
variable (R : AddrRules) (nKey : uint256)

/- `GetHash().GetLow64()` of what is written after the key -/
def cheapHash (data : Bytes) : Nat := (R.Hash (leBytes 32 nKey.toNat ++ data)).toNat % 2 ^ 64

variable (addr : CService)

/- `CService::GetKey` is the address with its port -/
def getTriedBucket : Fin ADDRMAN_TRIED_BUCKET_COUNT :=
  let hash1 := R.cheapHash nKey (varBytes addr.bytes)
  let hash2 := R.cheapHash nKey
    (varBytes (R.getGroup addr.ip) ++ leBytes 8 (hash1 % ADDRMAN_TRIED_BUCKETS_PER_GROUP))
  Fin.ofNat ADDRMAN_TRIED_BUCKET_COUNT hash2

def getNewBucket (src : CNetAddr) : Fin ADDRMAN_NEW_BUCKET_COUNT :=
  let vchSourceGroupKey := R.getGroup src
  let hash1 := R.cheapHash nKey (varBytes (R.getGroup addr.ip) ++ varBytes vchSourceGroupKey)
  let hash2 := R.cheapHash nKey
    (varBytes vchSourceGroupKey ++ leBytes 8 (hash1 % ADDRMAN_NEW_BUCKETS_PER_SOURCE_GROUP))
  Fin.ofNat ADDRMAN_NEW_BUCKET_COUNT hash2

def getBucketPosition (fNew : Bool) (nBucket : Nat) :
    Fin ADDRMAN_BUCKET_SIZE :=
  Fin.ofNat ADDRMAN_BUCKET_SIZE (R.cheapHash nKey
    ((if fNew then 0x4e else 0x4b) :: leBytes 4 nBucket ++ varBytes addr.bytes))

def newSlot (src : CNetAddr) : NewSlot :=
  let nUBucket := R.getNewBucket nKey addr src
  (nUBucket, R.getBucketPosition nKey addr true nUBucket)

def triedSlot : TriedSlot :=
  let nKBucket := R.getTriedBucket nKey addr
  (nKBucket, R.getBucketPosition nKey addr false nKBucket)

end AddrRules

def toTime (nTime : UInt32) : Int64 := Int64.ofNat nTime.toNat

def CAddrInfo.isTerrible (info : CAddrInfo) (nNow : Int64) : Bool :=
  let nTime := toTime info.addr.nTime
  if info.nLastTry ≠ 0 ∧ info.nLastTry ≥ nNow - 60 then false
  else if nTime > nNow + 10 * 60 then true
  else if info.addr.nTime = 0 ∨ nNow - nTime > ADDRMAN_HORIZON_DAYS * 24 * 60 * 60 then true
  else if info.nLastSuccess = 0 ∧ info.nAttempts ≥ ADDRMAN_RETRIES then true
  else decide (nNow - info.nLastSuccess > ADDRMAN_MIN_FAIL_DAYS * 24 * 60 * 60 ∧
    info.nAttempts ≥ ADDRMAN_MAX_FAILURES)

structure CAddrMan where
  nIdCount : Nat := 0
  mapInfo : AList fun _ : Nat => CAddrInfo := ∅
  mapAddr : CNetAddr → Option Nat := fun _ => none
  vRandom : List Nat := []
  nTried : Int := 0
  vvTried : TriedSlot → Option Nat := fun _ => none
  nNew : Int := 0
  vvNew : NewSlot → Option Nat := fun _ => none
  nKey : uint256

namespace CAddrMan

variable (s : CAddrMan)

def setInfo (nId : Nat) (info : CAddrInfo) : CAddrMan :=
  { s with mapInfo := s.mapInfo.insert nId info }

def find (addr : CNetAddr) : Option (Nat × CAddrInfo) :=
  match s.mapAddr addr with
  | none => none
  | some nId => (s.mapInfo.lookup nId).map fun info => (nId, info)

/- The id is `nIdCount` -/
def create (addr : CAddress) (addrSource : CNetAddr) : CAddrMan :=
  { s with
    nIdCount := s.nIdCount + 1
    mapInfo := s.mapInfo.insert s.nIdCount
      { addr, source := addrSource, nRandomPos := s.vRandom.length }
    mapAddr := update s.mapAddr addr.service.ip (some s.nIdCount)
    vRandom := s.vRandom ++ [s.nIdCount] }

def swapRandom (nRndPos1 nRndPos2 : Nat) : Option CAddrMan :=
  if nRndPos1 = nRndPos2 then some s
  else
    match s.vRandom[nRndPos1]?, s.vRandom[nRndPos2]? with
    | some nId1, some nId2 =>
      match s.mapInfo.lookup nId1, s.mapInfo.lookup nId2 with
      | some info1, some info2 =>
        some { s with
          mapInfo := (s.mapInfo.insert nId1 { info1 with nRandomPos := nRndPos2 }).insert nId2
            { info2 with nRandomPos := nRndPos1 }
          vRandom := swap s.vRandom nRndPos1 nRndPos2 nId1 nId2 }
      | _, _ => none
    | _, _ => none

def delete (nId : Nat) : Option CAddrMan := do
  let info ← s.mapInfo.lookup nId
  guard (info.fInTried = false)
  guard (info.nRefCount = 0)
  let nRandomPos ← info.nRandomPos.toNat?
  guard (s.vRandom ≠ [])
  let s ← s.swapRandom nRandomPos (s.vRandom.length - 1)
  return { s with
    vRandom := s.vRandom.dropLast
    mapAddr := update s.mapAddr info.addr.service.ip none
    mapInfo := s.mapInfo.erase nId
    nNew := s.nNew - 1 }

def unref (slot : NewSlot) (nId : Nat) (info : CAddrInfo) : CAddrMan :=
  { s with
    mapInfo := s.mapInfo.insert nId { info with nRefCount := info.nRefCount - 1 }
    vvNew := update s.vvNew slot none }

/- An entry that `mapInfo[nIdDelete]` makes has no references -/
def clearNew (slot : NewSlot) : Option CAddrMan :=
  match s.vvNew slot with
  | none => some s
  | some nIdDelete => do
    let infoDelete ← s.mapInfo.lookup nIdDelete
    guard (infoDelete.nRefCount > 0)
    let s := s.unref slot nIdDelete infoDelete
    if infoDelete.nRefCount - 1 = 0 then s.delete nIdDelete else return s

section
variable (R : AddrRules)

/- One turn of the loop of `MakeTried` over the new buckets. -/
def leaveBucket (nId : Nat) (addr : CService) (s : CAddrMan)
    (bucket : Fin ADDRMAN_NEW_BUCKET_COUNT) : CAddrMan :=
  let slot := (bucket, R.getBucketPosition s.nKey addr true bucket)
  if s.vvNew slot = some nId then
    match s.mapInfo.lookup nId with
    | none => s
    | some info => s.unref slot nId info
  else s

/- The tried entry in the way goes back to the new table. -/
def evict (s : CAddrMan) (slot : TriedSlot) (nIdEvict : Nat) : Option CAddrMan := do
  let infoOld ← s.mapInfo.lookup nIdEvict
  let s := { s.setInfo nIdEvict { infoOld with fInTried := false } with
    vvTried := update s.vvTried slot none
    nTried := s.nTried - 1 }
  let nUSlot := R.newSlot s.nKey infoOld.addr.service infoOld.source
  let s ← s.clearNew nUSlot
  guard (s.vvNew nUSlot = none)
  let infoOld ← s.mapInfo.lookup nIdEvict
  return { s.setInfo nIdEvict { infoOld with nRefCount := 1 } with
    vvNew := update s.vvNew nUSlot (some nIdEvict)
    nNew := s.nNew + 1 }

def makeRoom (s : CAddrMan) (slot : TriedSlot) : Option CAddrMan :=
  match s.vvTried slot with
  | none => some s
  | some nIdEvict => s.evict R slot nIdEvict

def makeTried (s : CAddrMan) (nId : Nat) : Option CAddrMan := do
  let info ← s.mapInfo.lookup nId
  let addr := info.addr.service
  let s := (List.finRange ADDRMAN_NEW_BUCKET_COUNT).foldl (leaveBucket R nId addr) s
  let s := { s with nNew := s.nNew - 1 }
  let info ← s.mapInfo.lookup nId
  guard (info.nRefCount = 0)
  let nKSlot := R.triedSlot s.nKey addr
  let s ← s.makeRoom R nKSlot
  guard (s.vvTried nKSlot = none)
  let info ← s.mapInfo.lookup nId
  return { s.setInfo nId { info with fInTried := true } with
    vvTried := update s.vvTried nKSlot (some nId)
    nTried := s.nTried + 1 }

/- `nRnd` is `RandomInt(ADDRMAN_NEW_BUCKET_COUNT)` -/
def good_ (s : CAddrMan) (addr : CService) (nTime : Int64)
    (nRnd : Fin ADDRMAN_NEW_BUCKET_COUNT) : Option CAddrMan :=
  match s.find addr.ip with
  | none => some s
  | some (nId, info) =>
    if info.addr.service ≠ addr then some s
    else
      let s := s.setInfo nId { info with nLastSuccess := nTime, nLastTry := nTime, nAttempts := 0 }
      if info.fInTried then some s
      else if (List.finRange ADDRMAN_NEW_BUCKET_COUNT).any fun n =>
          s.vvNew (n + nRnd, R.getBucketPosition s.nKey addr true (n + nRnd)) == some nId
      then s.makeTried R nId
      else some s

/- The time of an entry that is heard of again. -/
def refreshTime (nTime nNewTime : UInt32) (nTimePenalty nNow : Int64) : UInt32 :=
  let nAddrTime := toTime nNewTime
  let fCurrentlyOnline := decide (nNow - nAddrTime < 24 * 60 * 60)
  let nUpdateInterval : Int64 := if fCurrentlyOnline then 60 * 60 else 24 * 60 * 60
  if nNewTime ≠ 0 ∧ (nTime = 0 ∨ toTime nTime < nAddrTime - nUpdateInterval - nTimePenalty) then
    (max 0 (nAddrTime - nTimePenalty)).toUInt64.toUInt32
  else nTime

/- What `Add_` makes of an entry that is known: the entry, and whether
to look for another slot. -/
def refresh (info : CAddrInfo) (addr : CAddress) (nTimePenalty nNow : Int64) (nRandom : Nat) :
    CAddrInfo × Bool :=
  let info := { info with
    addr := { info.addr with
      nTime := refreshTime info.addr.nTime addr.nTime nTimePenalty nNow
      nServices := info.addr.nServices ||| addr.nServices } }
  if addr.nTime = 0 ∨ (info.addr.nTime ≠ 0 ∧ addr.nTime ≤ info.addr.nTime) then (info, false)
  else if info.fInTried then (info, false)
  else if info.nRefCount = ADDRMAN_NEW_BUCKETS_PER_ADDRESS then (info, false)
  else
    let nFactor := 2 ^ info.nRefCount.toNat
    if nFactor > 1 ∧ nRandom % nFactor ≠ 0 then (info, false) else (info, true)

/- Whether what stands in a slot makes way for an entry. -/
def yields (s : CAddrMan) (slot : NewSlot) (info : CAddrInfo) (nNow : Int64) : Option Bool :=
  match s.vvNew slot with
  | none => some true
  | some nIdExisting => (s.mapInfo.lookup nIdExisting).map fun infoExisting =>
      infoExisting.isTerrible nNow ||
        (decide (infoExisting.nRefCount > 1) && decide (info.nRefCount = 0))

/- The entry gets a slot in the new table if there is one. -/
def place (s : CAddrMan) (nId : Nat) (slot : NewSlot) (nNow : Int64) : Option CAddrMan :=
  if s.vvNew slot = some nId then some s
  else do
    let info ← s.mapInfo.lookup nId
    let fInsert ← s.yields slot info nNow
    if fInsert then
      let s ← s.clearNew slot
      let info ← s.mapInfo.lookup nId
      return { s.setInfo nId { info with nRefCount := info.nRefCount + 1 } with
        vvNew := update s.vvNew slot (some nId) }
    else if info.nRefCount = 0 then s.delete nId
    else return s

/- With `fNew` -/
def add_ (s : CAddrMan) (addr : CAddress) (source : CNetAddr) (nTimePenalty nNow : Int64)
    (nRandom : Nat) : Option (Bool × CAddrMan) :=
  if ¬ R.isRoutable addr.service.ip then some (false, s)
  else
    match s.find addr.service.ip with
    | some (nId, info) =>
      let (info, fSlot) := refresh info addr nTimePenalty nNow nRandom
      let s := s.setInfo nId info
      if fSlot then
        (s.place nId (R.newSlot s.nKey info.addr.service source) nNow).map fun s => (false, s)
      else some (false, s)
    | none =>
      let nId := s.nIdCount
      let nTime := (max 0 (toTime addr.nTime - nTimePenalty)).toUInt64.toUInt32
      let s := { s.create { addr with nTime } source with nNew := s.nNew + 1 }
      (s.place nId (R.newSlot s.nKey addr.service source) nNow).map fun s => (true, s)

end

/- The common part of `Attempt_` and `Connected_`: an entry is found by its address and has
the same port. -/
def touch (s : CAddrMan) (addr : CService) (f : CAddrInfo → CAddrInfo) : CAddrMan :=
  match s.find addr.ip with
  | none => s
  | some (nId, info) => if info.addr.service ≠ addr then s else s.setInfo nId (f info)

def attempt_ (s : CAddrMan) (addr : CService) (nTime : Int64) : CAddrMan :=
  s.touch addr fun info => { info with nLastTry := nTime, nAttempts := info.nAttempts + 1 }

def connected_ (s : CAddrMan) (addr : CService) (nTime : Int64) : CAddrMan :=
  s.touch addr fun info =>
    if nTime - toTime info.addr.nTime > 20 * 60 then
      { info with addr := { info.addr with nTime := nTime.toUInt64.toUInt32 } }
    else info

/- The loop of `GetAddr_`, with as many turns as are left. -/
def getAddrLoop (nNow : Int64) (nNodes : Nat) (random : Nat → Nat) :
    (turns : Nat) → (n : Nat) → (vAddr : List CAddress) → CAddrMan →
      Option (List CAddress × CAddrMan)
  | 0, _, vAddr, s => some (vAddr, s)
  | turns + 1, n, vAddr, s =>
    if vAddr.length ≥ nNodes then some (vAddr, s)
    else do
      let s ← s.swapRandom n (random n % (s.vRandom.length - n) + n)
      let nId ← s.vRandom[n]?
      let ai ← s.mapInfo.lookup nId
      getAddrLoop nNow nNodes random turns (n + 1)
        (if ai.isTerrible nNow then vAddr else vAddr ++ [ai.addr]) s

def getAddr_ (s : CAddrMan) (nNow : Int64) (random : Nat → Nat) :
    Option (List CAddress × CAddrMan) :=
  getAddrLoop nNow (min (ADDRMAN_GETADDR_MAX_PCT * s.vRandom.length / 100) ADDRMAN_GETADDR_MAX)
    random s.vRandom.length 0 [] s

/- The slots that a loop of `Select_` comes by, each with whether an entry there is taken; `none`
inside when it has not come to an end. -/
def selectLoop {S : Type} (table : S → Option Nat) (s : CAddrMan) :
    List (S × Bool) → Option (Option CAddrInfo)
  | [] => some none
  | (slot, fTake) :: draws =>
    match table slot with
    | none => selectLoop table s draws
    | some nId => do
      let info ← s.mapInfo.lookup nId
      if fTake then return some info else selectLoop table s draws

/- `fCoin` is `RandomInt(2) == 0` -/
def select_ (s : CAddrMan) (newOnly fCoin : Bool) (tried : List (TriedSlot × Bool))
    (new : List (NewSlot × Bool)) : Option (Option CAddrInfo) :=
  if s.vRandom.length = 0 then some none
  else if newOnly ∧ s.nNew = 0 then some none
  else if ¬ newOnly ∧ s.nTried > 0 ∧ (s.nNew = 0 ∨ fCoin) then s.selectLoop s.vvTried tried
  else s.selectLoop s.vvNew new

/- With the random hash; `mapInfo` and `mapAddr` stay -/
def clear (s : CAddrMan) (nKey : uint256) : CAddrMan :=
  { s with
    vRandom := []
    nKey := nKey
    vvNew := fun _ => none
    vvTried := fun _ => none
    nIdCount := 0
    nTried := 0
    nNew := 0 }

end CAddrMan

end Alqo
