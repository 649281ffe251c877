import Alqo.AddrManCheck
import Alqo.Lib.Codec

/-!
# The address manager as it is written to disk (addrman.h, protocol.h)

Ids, the tried table, the random order and the address index are made anew on reading. A reader
fails where the source throws.
-/

namespace Alqo
open Lib.Codec Function BitVec

/- `READWRITE` of an unsigned number of `w` bytes -/
def readLE (w : Nat) : Reader UInt8 Nat := leValue <$> take w

theorem reads_readLE (w n : Nat) (h : n < 256 ^ w) : Reads (readLE w) (leBytes w n) n := by
  have hread := (reads_take (length_leBytes w n)).map leValue
  rw [leValue_leBytes w n h] at hread
  exact hread

def readInt32 : Reader UInt8 Int32 := (fun n => Int32.ofBitVec (BitVec.ofNat 32 n)) <$> readLE 4

theorem reads_readInt32 (i : Int32) : Reads readInt32 (int32Bytes i) i := by
  have hread := (reads_readLE 4 i.toBitVec.toNat i.toBitVec.isLt).map fun n =>
    Int32.ofBitVec (BitVec.ofNat 32 n)
  refine hread.of_eq ?_
  rw [ofNat_toNat, setWidth_eq]
  rfl

def readInt64 : Reader UInt8 Int64 := (fun n => Int64.ofBitVec (BitVec.ofNat 64 n)) <$> readLE 8

theorem reads_readInt64 (i : Int64) : Reads readInt64 (int64Bytes i) i := by
  have hread := (reads_readLE 8 i.toBitVec.toNat i.toBitVec.isLt).map fun n =>
    Int64.ofBitVec (BitVec.ofNat 64 n)
  refine hread.of_eq ?_
  rw [ofNat_toNat, setWidth_eq]
  rfl

def readBits (n w : Nat) : Reader UInt8 (BitVec n) := BitVec.ofNat n <$> readLE w

theorem reads_readBits {n w : Nat} (h : 2 ^ n = 256 ^ w) (x : BitVec n) :
    Reads (readBits n w) (leBytes w x.toNat) x := by
  refine ((reads_readLE w x.toNat (h ▸ x.isLt)).map (BitVec.ofNat n)).of_eq ?_
  rw [ofNat_toNat, setWidth_eq]

theorem reads_ip (x : BitVec 128) : Reads (readBits 128 16) (leBytes 16 x.toNat) x :=
  reads_readBits (by norm_num) x

structure StreamKind where
  nType : Int32
  nVersion : Int32

def SER_DISK : Int32 := 2
def SER_GETHASH : Int32 := 4
def CADDR_TIME_VERSION : Int32 := 31402

variable (k : StreamKind) (a : CAddress)

def StreamKind.onDisk : Bool := k.nType &&& SER_DISK ≠ 0

def StreamKind.withTime : Bool :=
  k.onDisk ∨ (CADDR_TIME_VERSION ≤ k.nVersion ∧ k.nType &&& SER_GETHASH = 0)

/- `CAddress::Init` -/
def CAddress.nTimeInit : UInt32 := 100000000

def CAddress.write : Bytes :=
  (if k.onDisk then int32Bytes k.nVersion else []) ++
    ((if k.withTime then leBytes 4 a.nTime.toNat else []) ++
      (leBytes 8 a.nServices.toNat ++ a.service.bytes))

def readService : Reader UInt8 CService := do
  let ip ← readBits 128 16
  let high ← readLE 1
  let low ← readLE 1
  return { ip, port := UInt16.ofNat (256 * high + low) }

def readVersion : Reader UInt8 Int32 :=
  if k.onDisk then readInt32 else pure k.nVersion

def readTime : Reader UInt8 UInt32 :=
  if k.withTime then UInt32.ofNat <$> readLE 4 else pure CAddress.nTimeInit

def CAddress.read : Reader UInt8 CAddress := do
  let _ ← readVersion k
  let nTime ← readTime k
  let nServices ← readLE 8
  let service ← readService
  return { service, nServices := UInt64.ofNat nServices, nTime }

def CAddrInfo.write (info : CAddrInfo) : Bytes :=
  info.addr.write k ++
    (leBytes 16 info.source.toNat ++ (int64Bytes info.nLastSuccess ++ int32Bytes info.nAttempts))

def CAddrInfo.read (info : CAddrInfo) : Reader UInt8 CAddrInfo := do
  let addr ← CAddress.read k
  let source ← readBits 128 16
  let nLastSuccess ← readInt64
  let nAttempts ← readInt32
  return { info with addr, source, nLastSuccess, nAttempts }

def CAddress.kept : CAddress :=
  { a with nTime := if k.withTime then a.nTime else nTimeInit }

theorem reads_service (s : CService) : Reads readService s.bytes s := by
  have hport := s.port.toNat_lt
  have hhigh : UInt8.ofNat (s.port.toNat / 256) :: [] = leBytes 1 (s.port.toNat / 256) := rfl
  have hlow : UInt8.ofNat s.port.toNat :: [] = leBytes 1 (s.port.toNat % 256) := by
    rw [leBytes, leBytes]
    congr 1
    refine UInt8.toNat_inj.mp ?_
    rw [UInt8.toNat_ofNat', UInt8.toNat_ofNat']
    omega
  have hbytes : s.bytes = leBytes 16 s.ip.toNat ++
      (leBytes 1 (s.port.toNat / 256) ++ leBytes 1 (s.port.toNat % 256)) := by
    rw [← hhigh, ← hlow]
    rfl
  rw [hbytes]
  refine (reads_ip s.ip).bind ((reads_readLE 1 _ (by omega)).bind
    ((reads_readLE 1 _ (by omega)).bind_last ?_))
  congr 2
  rw [Nat.div_add_mod]
  exact UInt16.ofNat_toNat

theorem CAddress.reads : Reads (CAddress.read k) (a.write k) (a.kept k) := by
  have hversion : Reads (readVersion k) (if k.onDisk then int32Bytes k.nVersion else [])
      k.nVersion :=
    Reads.ite (fun _ => reads_readInt32 _) fun _ => Reads.pure _
  have htime : Reads (readTime k) (if k.withTime then leBytes 4 a.nTime.toNat else [])
      (a.kept k).nTime := by
    refine Reads.ite (fun hk => ?_) fun hk => ?_
    · refine ((reads_readLE 4 _ a.nTime.toNat_lt).map UInt32.ofNat).of_eq ?_
      rw [kept, if_pos hk]
      exact UInt32.ofNat_toNat
    · refine (Reads.pure _).of_eq ?_
      rw [kept, if_neg hk]
  refine hversion.bind (htime.bind ((reads_readLE 8 _ a.nServices.toNat_lt).bind
    ((reads_service a.service).bind_last ?_)))
  rw [UInt64.ofNat_toNat]
  rfl

theorem CAddrInfo.reads (info base : CAddrInfo) : Reads (CAddrInfo.read k base) (info.write k)
      { base with
        addr := info.addr.kept k
        source := info.source
        nLastSuccess := info.nLastSuccess
        nAttempts := info.nAttempts } :=
  (info.addr.reads k).bind ((reads_ip info.source).bind
    ((reads_readInt64 _).bind ((reads_readInt32 _).bind_last rfl)))

namespace CAddrMan

abbrev Entry := Sigma fun _ : Nat => CAddrInfo

/- `mapInfo` in the order of its keys -/
def ordered (s : CAddrMan) : List Entry := s.mapInfo.entries.mergeSort fun a b => a.1 ≤ b.1

/- The first loop, from the entries that are left on; with what it notes of
the ids. -/
def writeNew (k : StreamKind) (nNew : Int) :
    List Entry → (nIds : Nat) → (mapUnkIds : Nat → Nat) → Option (Bytes × (Nat → Nat))
  | [], _, mapUnkIds => some ([], mapUnkIds)
  | ⟨n, info⟩ :: rest, nIds, mapUnkIds =>
    let mapUnkIds := update mapUnkIds n nIds
    if info.nRefCount ≠ 0 then do
      guard ((nIds : Int) ≠ nNew)
      let (written, mapUnkIds) ← writeNew k nNew rest (nIds + 1) mapUnkIds
      return (info.write k ++ written, mapUnkIds)
    else writeNew k nNew rest nIds mapUnkIds

def writeTried (k : StreamKind) (nTried : Int) : List Entry → (nIds : Nat) → Option Bytes
  | [], _ => some []
  | ⟨_, info⟩ :: rest, nIds =>
    if info.fInTried then do
      guard ((nIds : Int) ≠ nTried)
      let written ← writeTried k nTried rest (nIds + 1)
      return info.write k ++ written
    else writeTried k nTried rest nIds

def writeBucket (s : CAddrMan) (mapUnkIds : Nat → Nat) (bucket : Fin ADDRMAN_NEW_BUCKET_COUNT) :
    Bytes :=
  let nSize := (List.finRange ADDRMAN_BUCKET_SIZE).countP fun i => (s.vvNew (bucket, i)).isSome
  int32Bytes (Int32.ofNat nSize) ++ (List.finRange ADDRMAN_BUCKET_SIZE).flatMap fun i =>
      match s.vvNew (bucket, i) with
      | none => []
      | some n => int32Bytes (Int32.ofNat (mapUnkIds n))

def serialize (s : CAddrMan) (k : StreamKind) : Option Bytes := do
  let (new, mapUnkIds) ← writeNew k s.nNew s.ordered 0 fun _ => 0
  let tried ← writeTried k s.nTried s.ordered 0
  let nUBuckets := Int32.ofNat ADDRMAN_NEW_BUCKET_COUNT ^^^ ((1 : Int32) <<< 30)
  return leBytes 1 1 ++ (leBytes 1 32 ++ (leBytes 32 s.nKey.toNat ++
    (int32Bytes (Int32.ofInt s.nNew) ++ (int32Bytes (Int32.ofInt s.nTried) ++
      (int32Bytes nUBuckets ++ (new ++ (tried ++
        (List.finRange ADDRMAN_NEW_BUCKET_COUNT).flatMap (s.writeBucket mapUnkIds))))))))

/- `CAddrInfo()` -/
def emptyInfo : CAddrInfo :=
  { addr := { service := { ip := 0, port := 0 }, nServices := 1, nTime := CAddress.nTimeInit },
    source := 0 }

variable (R : AddrRules)

/- A reference by the source, where the new table cannot be used. -/
def referBySource (s : CAddrMan) (n : Nat) (info : CAddrInfo) : CAddrMan :=
  let slot := R.newSlot s.nKey info.addr.service info.source
  if s.vvNew slot = none then
    { s.setInfo n { info with nRefCount := info.nRefCount + 1 } with
      vvNew := update s.vvNew slot (some n) }
  else s

def readNew (k : StreamKind) (fUsable : Bool) (n : Nat) (s : CAddrMan) :
    Reader UInt8 CAddrMan := do
  let info ← CAddrInfo.read k ((s.mapInfo.lookup n).getD emptyInfo)
  let info := { info with nRandomPos := s.vRandom.length }
  let s := { s.setInfo n info with
    mapAddr := update s.mapAddr info.addr.service.ip (some n)
    vRandom := s.vRandom ++ [n] }
  return if fUsable then s else s.referBySource R n info

/- With `nLost` -/
def readTried (k : StreamKind) (_ : Nat) (st : CAddrMan × Int) : Reader UInt8 (CAddrMan × Int) := do
  let (s, nLost) := st
  let info ← CAddrInfo.read k emptyInfo
  let slot := R.triedSlot s.nKey info.addr.service
  return if s.vvTried slot = none then
      ({ s.setInfo s.nIdCount { info with nRandomPos := s.vRandom.length, fInTried := true } with
        vRandom := s.vRandom ++ [s.nIdCount]
        mapAddr := update s.mapAddr info.addr.service.ip (some s.nIdCount)
        vvTried := update s.vvTried slot (some s.nIdCount)
        nIdCount := s.nIdCount + 1 }, nLost)
    else (s, nLost + 1)

/- One more reference, if there is room; the ids below `nNew` are there. Only
where the table can be used is the bucket one of this table. -/
def refill (fUsable : Bool) (bucket : Nat) (s : CAddrMan) (nIndex : Nat) : CAddrMan :=
  match s.mapInfo.lookup nIndex with
  | none => s
  | some info =>
    let slot : NewSlot := (Fin.ofNat ADDRMAN_NEW_BUCKET_COUNT bucket,
      R.getBucketPosition s.nKey info.addr.service true bucket)
    if fUsable ∧ s.vvNew slot = none ∧ info.nRefCount < ADDRMAN_NEW_BUCKETS_PER_ADDRESS then
      { s.setInfo nIndex { info with nRefCount := info.nRefCount + 1 } with
        vvNew := update s.vvNew slot (some nIndex) }
    else s

def readIndex (fUsable : Bool) (bucket : Nat) (_ : Nat) (s : CAddrMan) :
    Reader UInt8 CAddrMan := do
  let nIndex ← readInt32
  return if 0 ≤ nIndex.toInt ∧ nIndex.toInt < s.nNew then
      s.refill R fUsable bucket nIndex.toInt.toNat
    else s

def readBucket (fUsable : Bool) (bucket : Nat) (s : CAddrMan) : Reader UInt8 CAddrMan := do
  let nSize ← readInt32
  loop (readIndex R fUsable bucket) nSize.toInt.toNat 0 s

/- Entries that no slot holds are dropped. -/
def prune (s : CAddrMan) : List Nat → Option CAddrMan
  | [] => some s
  | n :: rest =>
    if (s.mapInfo.lookup n).any fun info => !info.fInTried && info.nRefCount == 0 then do
      let s ← s.delete n
      prune s rest
    else prune s rest

/- With the random hash of `Clear` -/
def unserialize (k : StreamKind) (nKeyDrawn : uint256) (s : CAddrMan) : Reader UInt8 CAddrMan := do
  let s := s.clear nKeyDrawn
  let nVersion ← readLE 1
  let nKeySize ← readLE 1
  let _ ← check (nKeySize = 32)
  let nKey ← readBits 256 32
  let nNew ← readInt32
  let nTried ← readInt32
  let nUBuckets ← readInt32
  let nUBuckets := if nVersion ≠ 0 then nUBuckets ^^^ ((1 : Int32) <<< 30) else nUBuckets
  let fUsable := nVersion = 1 ∧ nUBuckets = Int32.ofNat ADDRMAN_NEW_BUCKET_COUNT
  let s := { s with nKey, nNew := nNew.toInt, nTried := nTried.toInt }
  let s ← loop (readNew R k fUsable) nNew.toInt.toNat 0 s
  let s := { s with nIdCount := nNew.toInt.toNat }
  let (s, nLost) ← loop (readTried R k) nTried.toInt.toNat 0 (s, 0)
  let s := { s with nTried := s.nTried - nLost }
  let s ← loop (readBucket R fUsable) nUBuckets.toInt.toNat 0 s
  lift (s.prune (s.ordered.map Sigma.fst))

end CAddrMan

end Alqo
