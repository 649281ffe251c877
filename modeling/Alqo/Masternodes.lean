import Alqo.Sha256

/-!
# Masternodes and the messages they sign (masternode.h, messagesigner.cpp)

The elliptic-curve check is a parameter; the text that is signed is a function of the message, so
the check of a text takes the message.
-/

namespace Alqo

/-- What is read of a masternode; `fEnabled` is `IsEnabled()` after
`Check()`. -/
structure CMasternode where
  prevout : COutPoint
  pubKeyMasternode : Bytes := []
  protocolVersion : Int := 0
  sigTime : Int := 0
  fEnabled : Bool := true
deriving DecidableEq, Repr

structure CMasternodeMan where
  vMasternodes : List CMasternode
  /-- `SPORK_8_MASTERNODE_PAYMENT_ENFORCEMENT` is active. -/
  fPaymentEnforcement : Bool := false
  nAdjustedTime : Int := 0

def CMasternodeMan.find (m : CMasternodeMan) (prevout : COutPoint) : Option CMasternode :=
  m.vMasternodes.find? fun mn => mn.prevout == prevout

def MESS_VER_HASH : Int := 1

/-- `CHashSigner::VerifyHash` and `CMessageSigner::VerifyMessage`, the latter on
the text of a message. -/
structure Verifier (Message : Type) where
  verifyHash : (hash : uint256) → (pubKey vchSig : Bytes) → Bool
  verifyMessage : (pubKey vchSig : Bytes) → (message : Message) → Bool

def Verifier.checkSignature {Message : Type} (v : Verifier Message) (nMessVersion : Int)
    (signatureHash : uint256) (message : Message) (vchSig pubKey : Bytes) : Bool :=
  if nMessVersion = MESS_VER_HASH then v.verifyHash signatureHash pubKey vchSig
  else v.verifyMessage pubKey vchSig message

/- messagesigner.cpp:143-163:
the key is that of the masternode the message names. -/
def CMasternodeMan.checkSignature (m : CMasternodeMan) (prevout : COutPoint)
    (fSignatureCheck : Bool) (check : (pubKey : Bytes) → Bool) : Bool :=
  match m.find prevout with
  | none => false
  | some mn =>
    if mn.pubKeyMasternode = [] then false else !fSignatureCheck || check mn.pubKeyMasternode

end Alqo
