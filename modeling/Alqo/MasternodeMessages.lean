import Alqo.Masternodes

/-!
# Masternode broadcasts and pings (masternode.h, masternode.cpp, messagesigner.cpp)

What is signed is the hash of some fields or a text of some fields, by the version of the message;
the collateral outpoint is in neither.
-/

namespace Alqo
open List

structure CService where
  ip : BitVec 128
  port : UInt16
deriving DecidableEq, Repr

structure CPubKey where
  vch : Bytes
  size_le : vch.length ≤ 65
deriving DecidableEq

/-- `CPubKey()` -/
def CPubKey.invalid : CPubKey := ⟨[], by decide⟩

structure CMasternodePing where
  vin : CTxIn
  blockHash : uint256
  sigTime : Int64
  vchSig : Bytes
  nMessVersion : Int32
deriving DecidableEq

structure CMasternodeBroadcast where
  vin : CTxIn
  addr : CService
  pubKeyCollateralAddress : CPubKey
  pubKeyMasternode : CPubKey
  vchSig : Bytes
  sigTime : Int64
  protocolVersion : Int32
  lastPing : CMasternodePing
  nMessVersion : Int32
deriving DecidableEq

def CService.bytes (s : CService) : Bytes :=
  leBytes 16 s.ip.toNat ++ [UInt8.ofNat (s.port.toNat / 256), UInt8.ofNat s.port.toNat]

def varBytes (b : Bytes) : Bytes := compactSize b.length ++ b

def CTxIn.bytes (txin : CTxIn) : Bytes :=
  leBytes 32 txin.prevout.hash.toNat ++ leBytes 4 txin.prevout.n ++ varBytes txin.scriptSig ++
    leBytes 4 txin.nSequence

def int32Bytes (i : Int32) : Bytes := leBytes 4 i.toBitVec.toNat
def int64Bytes (i : Int64) : Bytes := leBytes 8 i.toBitVec.toNat

def hexByte (d : Nat) : UInt8 := UInt8.ofNat (if d < 10 then 48 + d else 87 + d)

/-- `GetHex` of a number of `w` digits, the most significant first. -/
def hexText : (w n : Nat) → Bytes
  | 0, _ => []
  | w + 1, n => hexText w (n / 16) ++ [hexByte (n % 16)]

def decimalText (n : Nat) : Bytes :=
  if n = 0 then [48] else (Nat.digits 10 n).reverse.map fun d => UInt8.ofNat (48 + d)

/-- `std::to_string` of a signed number. -/
def toText (i : Int) : Bytes :=
  if i < 0 then 45 :: decimalText i.natAbs else decimalText i.natAbs

structure SigEnv where
  Hash : Bytes → uint256
  /-- `CPubKey::GetID` -/
  getID : CPubKey → BitVec 160
  /-- `CNetAddr::ToStringIP`, in brackets for IPv6; the numeric form of the system -/
  hostText : BitVec 128 → Bytes
  hostText_injective : Function.Injective hostText
  /-- `CTxIn::ToString` -/
  vinText : CTxIn → Bytes
  /-- `CPubKey::RecoverCompact` -/
  recoverCompact : (hash : uint256) → (vchSig : Bytes) → Option CPubKey

def strMessageMagic : Bytes :=
  "DarkNet Signed Message:\n".toList.map fun c => UInt8.ofNat c.toNat

namespace SigEnv
variable (env : SigEnv)

def verifyHash (hash : uint256) (pubkey : CPubKey) (vchSig : Bytes) : Bool :=
  match env.recoverCompact hash vchSig with
  | none => false
  | some pubkeyFromSig => env.getID pubkeyFromSig == env.getID pubkey

def getMessageHash (strMessage : Bytes) : uint256 :=
  env.Hash (varBytes strMessageMagic ++ varBytes strMessage)

def verifyMessage (pubkey : CPubKey) (vchSig strMessage : Bytes) : Bool :=
  env.verifyHash (env.getMessageHash strMessage) pubkey vchSig

/-- `CService::ToString`. -/
def addrText (addr : CService) : Bytes := env.hostText addr.ip ++ 58 :: decimalText addr.port.toNat

/-- `GetID().ToString()` -/
def idText (pubkey : CPubKey) : Bytes := hexText 40 (env.getID pubkey).toNat

end SigEnv

namespace CMasternodeBroadcast
variable (env : SigEnv) (mnb : CMasternodeBroadcast)

/-- What `CMasternode::GetSignatureHash` hashes. -/
def signatureBytes : Bytes :=
  int32Bytes mnb.nMessVersion ++ mnb.addr.bytes ++ int64Bytes mnb.sigTime ++
    varBytes mnb.pubKeyCollateralAddress.vch ++ varBytes mnb.pubKeyMasternode.vch ++
    int32Bytes mnb.protocolVersion

def getStrMessage : Bytes :=
  env.addrText mnb.addr ++ toText mnb.sigTime.toInt ++ env.idText mnb.pubKeyCollateralAddress ++
    env.idText mnb.pubKeyMasternode ++ toText mnb.protocolVersion.toInt

def signedText : Bytes :=
  if mnb.nMessVersion.toInt = MESS_VER_HASH then
    hexText 64 (env.Hash mnb.signatureBytes).toNat
  else mnb.getStrMessage env

def checkSignature : Bool :=
  env.verifyMessage mnb.pubKeyCollateralAddress mnb.vchSig (mnb.signedText env)

def getHash : uint256 :=
  env.Hash (int64Bytes mnb.sigTime ++ varBytes mnb.pubKeyCollateralAddress.vch)

end CMasternodeBroadcast

namespace CMasternodePing
variable (env : SigEnv) (mnp : CMasternodePing)

/-- `mnp == CMasternodePing()`, which compares `vin` and `blockHash` only. -/
def isNull : Bool := decide (mnp.vin = { prevout := COutPoint.null }) && mnp.blockHash == 0

def getHash : uint256 :=
  env.Hash (mnp.vin.bytes ++
    (if mnp.nMessVersion.toInt = MESS_VER_HASH then leBytes 32 mnp.blockHash.toNat else []) ++
    int64Bytes mnp.sigTime)

def getStrMessage : Bytes :=
  env.vinText mnp.vin ++ hexText 64 mnp.blockHash.toNat ++ toText mnp.sigTime.toInt

def checkSignature (pubKey : CPubKey) : Bool :=
  if mnp.nMessVersion.toInt = MESS_VER_HASH then
    env.verifyHash (mnp.getHash env) pubKey mnp.vchSig
  else env.verifyMessage pubKey mnp.vchSig (mnp.getStrMessage env)

end CMasternodePing

variable {n a : Nat} {b : UInt8}

theorem length_compactSize_mono {m : Nat} (h : n ≤ m) :
    (compactSize n).length ≤ (compactSize m).length := by
  unfold compactSize
  split_ifs <;> simp only [length_append, length_leBytes] <;> omega

theorem length_of_varBytes {a b : Bytes} (h : (varBytes a).length = (varBytes b).length) :
    a.length = b.length := by
  simp only [varBytes, length_append] at h
  rcases Nat.lt_trichotomy a.length b.length with hlt | heq | hgt
  · have := length_compactSize_mono hlt.le
    omega
  · exact heq
  · have := length_compactSize_mono hgt.le
    omega

theorem varBytes_injective {a b : Bytes} (h : varBytes a = varBytes b) : a = b := by
  have hlen := length_of_varBytes (congrArg List.length h)
  exact (append_inj' h hlen).2

theorem int32Bytes_injective {a b : Int32} (h : int32Bytes a = int32Bytes b) : a = b := by
  have hnat := leBytes_injective 4 _ _ a.toBitVec.isLt b.toBitVec.isLt h
  exact Int32.toBitVec_inj.mp (BitVec.eq_of_toNat_eq hnat)

theorem int64Bytes_injective {a b : Int64} (h : int64Bytes a = int64Bytes b) : a = b := by
  have hnat := leBytes_injective 8 _ _ a.toBitVec.isLt b.toBitVec.isLt h
  exact Int64.toBitVec_inj.mp (BitVec.eq_of_toNat_eq hnat)

theorem CService.bytes_injective {a b : CService} (h : a.bytes = b.bytes) : a = b := by
  obtain ⟨hip, hport⟩ := append_inj h (by simp only [length_leBytes])
  have hip' := BitVec.eq_of_toNat_eq (leBytes_injective 16 _ _ a.ip.isLt b.ip.isLt hip)
  simp only [List.cons.injEq, and_true] at hport
  have hhigh := congrArg UInt8.toNat hport.1
  have hlow := congrArg UInt8.toNat hport.2
  simp only [UInt8.toNat_ofNat'] at hhigh hlow
  have ha := a.port.toNat_lt
  have hb := b.port.toNat_lt
  have hport' : a.port = b.port := UInt16.toNat_inj.mp (by omega)
  cases a
  cases b
  simp only [CService.mk.injEq]
  exact ⟨hip', hport'⟩

theorem length_hexText (w n : Nat) : (hexText w n).length = w := by
  induction w generalizing n with
  | zero => rfl
  | succ w ih => simp [hexText, ih]

theorem hexByte_injective {b : Nat} (ha : a < 16) (hb : b < 16) (h : hexByte a = hexByte b) :
    a = b := by
  have hnat := congrArg UInt8.toNat h
  simp only [hexByte, UInt8.toNat_ofNat'] at hnat
  split_ifs at hnat <;> omega

theorem hexText_injective (w a b : Nat) (ha : a < 16 ^ w) (hb : b < 16 ^ w)
    (h : hexText w a = hexText w b) : a = b := by
  induction w generalizing a b with
  | zero => omega
  | succ w ih =>
    obtain ⟨hhigh, hlow⟩ := append_inj' h rfl
    rw [Nat.pow_succ] at ha hb
    have hdiv := ih (a / 16) (b / 16) (Nat.div_lt_of_lt_mul (by omega))
      (Nat.div_lt_of_lt_mul (by omega)) hhigh
    have hmod := hexByte_injective (Nat.mod_lt a (by decide)) (Nat.mod_lt b (by decide))
      (List.cons.inj hlow).1
    omega

def decimalValue (text : Bytes) : Nat := text.foldl (fun n b => n * 10 + (b.toNat - 48)) 0

theorem decimalValue_digits (digits : List Nat) (h : ∀ d ∈ digits, d < 10) :
    decimalValue (digits.reverse.map fun d => UInt8.ofNat (48 + d)) = Nat.ofDigits 10 digits := by
  induction digits with
  | nil => rfl
  | cons d digits ih =>
    rw [forall_mem_cons] at h
    have hd : (UInt8.ofNat (48 + d)).toNat - 48 = d := by
      rw [UInt8.toNat_ofNat']
      omega
    rw [decimalValue] at ih ⊢
    rw [reverse_cons, map_append, foldl_append, ih h.2, Nat.ofDigits_cons]
    simp only [map_cons, map_nil, foldl_cons, foldl_nil, hd]
    omega

theorem decimalValue_decimalText (n : Nat) : decimalValue (decimalText n) = n := by
  unfold decimalText
  split_ifs with h
  · rw [h]
    rfl
  · rw [decimalValue_digits _ fun d hd => Nat.digits_lt_base (by decide) hd, Nat.ofDigits_digits]

theorem digit_of_mem_decimalText (h : b ∈ decimalText n) :
    48 ≤ b.toNat ∧ b.toNat < 58 := by
  unfold decimalText at h
  split_ifs at h with hn
  · rw [mem_singleton.mp h]
    decide
  · obtain ⟨d, hd, rfl⟩ := List.mem_map.mp h
    have := Nat.digits_lt_base (b := 10) (by decide) (mem_reverse.mp hd)
    rw [UInt8.toNat_ofNat']
    omega

theorem decimalText_injective {b : Nat} (h : decimalText a = decimalText b) : a = b := by
  rw [← decimalValue_decimalText a, h, decimalValue_decimalText]

theorem minus_notMem (n : Nat) : (45 : UInt8) ∉ decimalText n := by
  intro h
  have := (digit_of_mem_decimalText h).1
  revert this
  decide

theorem toText_injective {a b : Int} (h : toText a = toText b) : a = b := by
  unfold toText at h
  split_ifs at h with ha hb
  · have := decimalText_injective (List.cons.inj h).2
    omega
  · exact absurd (h ▸ mem_cons_self) (minus_notMem b.natAbs)
  · exact absurd (h ▸ mem_cons_self) (minus_notMem a.natAbs)
  · have := decimalText_injective h
    omega

theorem cut_at_last {x x' y y' : Bytes} (hy : b ∉ y) (hy' : b ∉ y')
    (h : x ++ b :: y = x' ++ b :: y') : x = x' ∧ y = y' := by
  have hcut : ∀ u v : Bytes, b ∉ v →
      ((u ++ b :: v).reverse.takeWhile fun c => decide (c ≠ b)) = v.reverse := by
    intro u v hv
    rw [reverse_append, reverse_cons, append_assoc,
      takeWhile_append_of_pos, singleton_append, takeWhile_cons_of_neg (by simp),
      append_nil]
    intro c hc
    exact decide_eq_true fun he => hv (he ▸ mem_reverse.mp hc)
  have hrev := (hcut x y hy).symm.trans ((congrArg _ (congrArg List.reverse h)).trans
    (hcut x' y' hy'))
  have hsame : y = y' := reverse_injective hrev
  rw [hsame] at h
  exact ⟨append_cancel_right h, hsame⟩

theorem SigEnv.addrText_injective (env : SigEnv) {a b : CService}
    (h : env.addrText a = env.addrText b) : a = b := by
  have hcolon : ∀ n : Nat, (58 : UInt8) ∉ decimalText n := by
    intro n hmem
    have := (digit_of_mem_decimalText hmem).2
    revert this
    decide
  obtain ⟨hhost, hport⟩ := cut_at_last (hcolon _) (hcolon _) h
  cases a
  cases b
  simp only [CService.mk.injEq]
  exact ⟨env.hostText_injective hhost, UInt16.toNat_inj.mp (decimalText_injective hport)⟩

theorem SigEnv.idText_injective (env : SigEnv) {a b : CPubKey} (h : env.idText a = env.idText b) :
    env.getID a = env.getID b :=
  BitVec.eq_of_toNat_eq (hexText_injective 40 _ _ (env.getID a).isLt (env.getID b).isLt h)

structure SameAnnouncement (mnb mnb' : CMasternodeBroadcast) : Prop where
  prevout : mnb.vin.prevout = mnb'.vin.prevout
  addr : mnb.addr = mnb'.addr
  sigTime : mnb.sigTime = mnb'.sigTime
  collateralKey : mnb.pubKeyCollateralAddress = mnb'.pubKeyCollateralAddress
  masternodeKey : mnb.pubKeyMasternode = mnb'.pubKeyMasternode
  protocolVersion : mnb.protocolVersion = mnb'.protocolVersion

/-- The signature of the first broadcast is good for one hash only, and what is hashed
for the two broadcasts does not collide. -/
structure Unforged (env : SigEnv) (mnb mnb' : CMasternodeBroadcast) : Prop where
  oneHash : ∀ hash hash', env.verifyHash hash mnb.pubKeyCollateralAddress mnb.vchSig = true →
    env.verifyHash hash' mnb.pubKeyCollateralAddress mnb.vchSig = true → hash = hash'
  text : env.getMessageHash (mnb.signedText env) = env.getMessageHash (mnb'.signedText env) →
    varBytes strMessageMagic ++ varBytes (mnb.signedText env) =
      varBytes strMessageMagic ++ varBytes (mnb'.signedText env)
  fields : env.Hash mnb.signatureBytes = env.Hash mnb'.signatureBytes →
    mnb.signatureBytes = mnb'.signatureBytes
  keys : env.getID mnb.pubKeyMasternode = env.getID mnb'.pubKeyMasternode →
    mnb.pubKeyMasternode = mnb'.pubKeyMasternode

section
variable {env : SigEnv} {mnb mnb' : CMasternodeBroadcast}

section
variable (hkey : mnb.pubKeyCollateralAddress = mnb'.pubKeyCollateralAddress)
include hkey

theorem signatureBytes_binds (h : mnb.signatureBytes = mnb'.signatureBytes) :
    mnb.addr = mnb'.addr ∧ mnb.sigTime = mnb'.sigTime ∧
      mnb.pubKeyMasternode = mnb'.pubKeyMasternode ∧
      mnb.protocolVersion = mnb'.protocolVersion := by
  have hint32 : ∀ a b : Int32, (int32Bytes a).length = (int32Bytes b).length := by
    intro a b
    simp only [int32Bytes, length_leBytes]
  obtain ⟨h, hprotocol⟩ := append_inj' h (hint32 _ _)
  simp only [append_assoc, hkey] at h
  obtain ⟨-, h⟩ := append_inj h (hint32 _ _)
  obtain ⟨haddr, h⟩ := append_inj h (by simp [CService.bytes, length_leBytes])
  obtain ⟨htime, h⟩ := append_inj h (by simp only [int64Bytes, length_leBytes])
  have hvch := varBytes_injective (append_cancel_left h)
  refine ⟨CService.bytes_injective haddr, int64Bytes_injective htime, ?_,
    int32Bytes_injective hprotocol⟩
  revert hvch
  cases mnb.pubKeyMasternode
  cases mnb'.pubKeyMasternode
  simp

theorem getStrMessage_binds
    (haddr : (env.addrText mnb.addr).length = (env.addrText mnb'.addr).length)
    (htime : (toText mnb.sigTime.toInt).length = (toText mnb'.sigTime.toInt).length)
    (h : mnb.getStrMessage env = mnb'.getStrMessage env) :
    mnb.addr = mnb'.addr ∧ mnb.sigTime = mnb'.sigTime ∧
      env.getID mnb.pubKeyMasternode = env.getID mnb'.pubKeyMasternode ∧
      mnb.protocolVersion = mnb'.protocolVersion := by
  simp only [CMasternodeBroadcast.getStrMessage, append_assoc, hkey] at h
  obtain ⟨haddr', h⟩ := append_inj h haddr
  obtain ⟨htime', h⟩ := append_inj h htime
  obtain ⟨hid, hprotocol⟩ := append_inj (append_cancel_left h)
    (by simp only [SigEnv.idText, length_hexText])
  exact ⟨env.addrText_injective haddr', Int64.toInt_inj.mp (toText_injective htime'),
    env.idText_injective hid, Int32.toInt_inj.mp (toText_injective hprotocol)⟩

theorem signedText_eq (hsig : mnb.vchSig = mnb'.vchSig) (hok : mnb.checkSignature env = true)
    (hok' : mnb'.checkSignature env = true) (hun : Unforged env mnb mnb') :
    mnb.signedText env = mnb'.signedText env := by
  have hhash := hun.oneHash _ _ hok (by rw [hkey, hsig]; exact hok')
  exact varBytes_injective (append_cancel_left (hun.text hhash))

end

end

/-- Two broadcasts with one signature that is accepted for both, one collateral key and
one message version announce the same if and only if they name one outpoint and, where
a text is signed, their addresses and times have texts of the same length. -/
theorem signature_binds_iff (env : SigEnv) (mnb mnb' : CMasternodeBroadcast)
    (hversion : mnb.nMessVersion = mnb'.nMessVersion)
    (hkey : mnb.pubKeyCollateralAddress = mnb'.pubKeyCollateralAddress)
    (hsig : mnb.vchSig = mnb'.vchSig) (hok : mnb.checkSignature env = true)
    (hok' : mnb'.checkSignature env = true) (hun : Unforged env mnb mnb') :
    SameAnnouncement mnb mnb' ↔ mnb.vin.prevout = mnb'.vin.prevout ∧
      (mnb.nMessVersion.toInt = MESS_VER_HASH ∨
        (env.addrText mnb.addr).length = (env.addrText mnb'.addr).length ∧
        (toText mnb.sigTime.toInt).length = (toText mnb'.sigTime.toInt).length) := by
  refine ⟨?_, ?_⟩
  · intro hsame
    exact ⟨hsame.prevout, .inr ⟨by rw [hsame.addr], by rw [hsame.sigTime]⟩⟩
  · rintro ⟨hprevout, hcond⟩
    have htext := signedText_eq hkey hsig hok hok' hun
    by_cases hhash : mnb.nMessVersion.toInt = MESS_VER_HASH
    · simp only [CMasternodeBroadcast.signedText, ← hversion, hhash, if_true] at htext
      have hbytes := hun.fields (BitVec.eq_of_toNat_eq
        (hexText_injective 64 _ _ (BitVec.isLt _) (BitVec.isLt _) htext))
      obtain ⟨haddr, htime, hmn, hprotocol⟩ := signatureBytes_binds hkey hbytes
      exact ⟨hprevout, haddr, htime, hkey, hmn, hprotocol⟩
    · simp only [CMasternodeBroadcast.signedText, ← hversion, hhash, if_false] at htext
      obtain ⟨haddrLen, htimeLen⟩ := hcond.resolve_left hhash
      obtain ⟨haddr, htime, hmn, hprotocol⟩ := getStrMessage_binds hkey haddrLen htimeLen htext
      exact ⟨hprevout, haddr, htime, hkey, hun.keys hmn, hprotocol⟩

def foldHash (b : Bytes) : uint256 :=
  BitVec.ofNat 256 (b.foldl (fun n x => (n * 257 + x.toNat + 1) % 2 ^ 256) 0)

def collateralKey : CPubKey := ⟨[2, 17], by decide⟩
def masternodeKey : CPubKey := ⟨[2, 19], by decide⟩

def hashSigned : SigEnv where
  Hash := foldHash
  getID key := BitVec.ofNat 160 (foldHash key.vch).toNat
  hostText ip := hexText 32 ip.toNat
  hostText_injective a b h :=
    BitVec.eq_of_toNat_eq (hexText_injective 32 _ _ a.isLt b.isLt h)
  vinText txin := hexText 64 txin.prevout.hash.toNat ++ decimalText txin.prevout.n
  recoverCompact hash vchSig :=
    if vchSig = leBytes 32 hash.toNat then some collateralKey else none

theorem hashSigned_oneHash (hash hash' : uint256) (key : CPubKey) (vchSig : Bytes)
    (h : hashSigned.verifyHash hash key vchSig = true)
    (h' : hashSigned.verifyHash hash' key vchSig = true) : hash = hash' := by
  have hsig : ∀ g, hashSigned.verifyHash g key vchSig = true → vchSig = leBytes 32 g.toNat := by
    intro g hg
    by_contra hne
    have hnone : hashSigned.recoverCompact g vchSig = none := if_neg hne
    rw [SigEnv.verifyHash, hnone] at hg
    cases hg
  exact BitVec.eq_of_toNat_eq (leBytes_injective 32 _ _ hash.isLt hash'.isLt
    ((hsig hash h).symm.trans (hsig hash' h')))

def announced (n : Nat) (port : UInt16) (sigTime : Int64) (nMessVersion : Int32) :
    CMasternodeBroadcast :=
  let mnb : CMasternodeBroadcast :=
    { vin := { prevout := ⟨7, n⟩ }
      addr := ⟨0xffff01020304, port⟩
      pubKeyCollateralAddress := collateralKey
      pubKeyMasternode := masternodeKey
      vchSig := []
      sigTime
      protocolVersion := 70913
      lastPing := ⟨{ prevout := ⟨7, n⟩ }, 5, sigTime, [], nMessVersion⟩
      nMessVersion }
  { mnb with vchSig := leBytes 32 (hashSigned.getMessageHash (mnb.signedText hashSigned)).toNat }

/-- One announcement received twice, the second time with another ping. -/
theorem announced_again :
    let mnb := announced 0 20480 1575570975 1
    let mnb' := { mnb with lastPing := { mnb.lastPing with sigTime := 1575571975 } }
    mnb.checkSignature hashSigned = true ∧ mnb'.checkSignature hashSigned = true ∧
      SameAnnouncement mnb mnb' := by
  intro mnb mnb'
  have hok : mnb.checkSignature hashSigned = true := by decide +kernel
  have hok' : mnb'.checkSignature hashSigned = true := by decide +kernel
  refine ⟨hok, hok', ?_⟩
  exact (signature_binds_iff hashSigned mnb mnb' rfl rfl rfl hok hok'
    ⟨fun hash hash' => hashSigned_oneHash hash hash' _ _, fun _ => rfl, fun _ => rfl,
      fun _ => rfl⟩).mpr ⟨rfl, .inl (by decide)⟩

/-- One signature is accepted for two outpoints, and for a text also where the end of
the port is read as the start of the time. -/
theorem announcement_replayed :
    (let mnb := announced 0 20480 1575570975 1
     let mnb' := { mnb with vin := { prevout := ⟨8, 3⟩ } }
     mnb.checkSignature hashSigned = true ∧ mnb'.checkSignature hashSigned = true ∧
       Unforged hashSigned mnb mnb' ∧ ¬ SameAnnouncement mnb mnb') ∧
    (let mnb := announced 0 20480 1575570975 0
     let mnb' := { mnb with
       addr := { mnb.addr with port := 204 }
       sigTime := 801575570975 }
     mnb.checkSignature hashSigned = true ∧ mnb'.checkSignature hashSigned = true ∧
       Unforged hashSigned mnb mnb' ∧ ¬ SameAnnouncement mnb mnb') := by
  refine ⟨⟨by decide +kernel, by decide +kernel, ?_, fun h => absurd h.prevout (by decide)⟩,
    ⟨by decide +kernel, by decide +kernel, ?_, fun h => absurd h.sigTime (by decide)⟩⟩
  · exact ⟨fun hash hash' => hashSigned_oneHash hash hash' _ _, fun _ => rfl, fun _ => rfl,
      fun _ => rfl⟩
  · exact ⟨fun hash hash' => hashSigned_oneHash hash hash' _ _, fun _ => by decide +kernel,
      fun h => absurd h (by decide +kernel), fun _ => rfl⟩

end Alqo
