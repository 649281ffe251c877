import Alqo.Primitives

/-!
# Encrypted private keys (bip38.cpp, base58.cpp)

Two hexadecimal digits of a C++ string are one byte here, and the numbers read from them have the
low byte first, as `ReverseEndianString` and the memory of `uint256` do.
-/

namespace Alqo

def pszBase58 : List Char := "123456789ABCDEFGHJKLMNPQRSTUVWXYZabcdefghijkmnopqrstuvwxyz".toList

def isspace (c : Char) : Bool := c == ' ' || ('\t' ≤ c && c ≤ '\r')

/-- One turn of the outer loops, `digits = digits * m + carry` in base `b` with the low digit
first, and the carry that is left. -/
def mulAdd (b m : ℕ) : ℕ → List ℕ → List ℕ × ℕ
  | carry, [] => ([], carry)
  | carry, d :: ds =>
    let r := mulAdd b m ((carry + m * d) / b) ds
    ((carry + m * d) % b :: r.1, r.2)

/-- `none` for the assertion that nothing is carried out. -/
def convert (b m : ℕ) : List ℕ → List ℕ → Option (List ℕ)
  | ds, [] => some ds
  | ds, c :: cs => if (mulAdd b m c ds).2 = 0 then convert b m (mulAdd b m c ds).1 cs else none

/- Up to the end of the C string -/
def decodeBase58 (str : List Char) : Option Bytes := do
  let psz := (str.takeWhile (· != '\x00')).dropWhile isspace
  let rest := psz.dropWhile (· == '1')
  let digits ← (rest.takeWhile (!isspace ·)).mapM (pszBase58.idxOf? ·)
  let b256 ← convert 256 58 (.replicate (rest.length * 733 / 1000 + 1) 0) digits
  if (rest.dropWhile (!isspace ·)).all isspace then
    some (.replicate (psz.length - rest.length) 0 ++
      (b256.rdropWhile (· == 0)).reverse.map UInt8.ofNat)
  else none

/-- The cryptographic functions; digests and derived keys are numbers as their memory holds them. -/
structure Bip38 where
  sha256 : Bytes → uint256
  scrypt_hash : (input salt : Bytes) → (N r p n : ℕ) → BitVec 512
  aesDecrypt : (key : uint256) → BitVec 128 → BitVec 128
  ecPubkeyCreate : uint256 → Option Bytes
  ecPrivkeyTweakMul : uint256 → uint256 → Option uint256
  /-- the text of the address of a private key -/
  keyAddress : uint256 → (fCompressed : Bool) → Bytes

namespace Bip38

def number (w : ℕ) (b : Bytes) : BitVec w := BitVec.ofNat w (leValue b)

variable (c : Bip38)

def hashTwice (b : Bytes) : uint256 := c.sha256 (leBytes 32 (c.sha256 b).toNat)

def addressToBip38Hash (address : Bytes) : Bytes := (leBytes 32 (c.hashTwice address).toNat).take 4

/-- The derived halves; the salt is the part of the key it was read from. -/
def derive (input salt : Bytes) (N r p : ℕ) : uint256 × uint256 :=
  let hashed := c.scrypt_hash input salt N r p 64
  (hashed.setWidth 256, (hashed >>> 256).setWidth 256)

def decryptAES (encryptedIn decryptionKey : uint256) : uint256 :=
  (c.aesDecrypt decryptionKey (encryptedIn.setWidth 128)).setWidth 256

/-- `uint256(ReverseEndianString(strKey.substr(2 * i, 2 * n)))` -/
def field (strKey : Bytes) (i n : ℕ) : uint256 := number 256 ((strKey.drop i).take n)

def strAddressHash (strKey : Bytes) : Bytes := (strKey.drop 3).take 4

def decryptPlain (strPassphrase strKey : Bytes) : uint256 :=
  let (derivedHalf1, derivedHalf2) := c.derive strPassphrase (strAddressHash strKey) 16384 8 8
  let decryptedPart1 := c.decryptAES (field strKey 7 16) derivedHalf2
  let decryptedPart2 := c.decryptAES (field strKey 23 16) derivedHalf2
  ((decryptedPart2 <<< 128) ||| decryptedPart1) ^^^ derivedHalf1

def decryptMultiplied (strPassphrase strKey : Bytes) : Option uint256 := do
  let fLotSequence := field strKey 2 1 &&& 0x04 != 0
  let ownersalt := (strKey.drop 7).take 8
  let prefactorSalt := if fLotSequence then ownersalt.take 4 else ownersalt
  let prefactor := (c.scrypt_hash strPassphrase prefactorSalt 16384 8 8 32).setWidth 256
  let passfactor :=
    if fLotSequence then c.hashTwice (leBytes 32 prefactor.toNat ++ ownersalt) else prefactor
  let passpoint ← c.ecPubkeyCreate passfactor
  let (derivedHalf1, derivedHalf2) := c.derive passpoint (strAddressHash strKey ++ ownersalt) 1024 1 1
  let x1 := c.decryptAES (field strKey 23 16) derivedHalf2 ^^^ (derivedHalf1 >>> 128)
  let x2 := field strKey 15 8 ||| ((x1 &&& 0xffffffffffffffff) <<< 64)
  let x3 := derivedHalf1 &&& 0xffffffffffffffffffffffffffffffff
  let seedbPart1 := c.decryptAES x2 derivedHalf2 ^^^ x3
  let seedB := seedbPart1 ||| ((x1 >>> 64) <<< 128)
  c.ecPrivkeyTweakMul (c.hashTwice (leBytes 24 seedB.toNat)) passfactor

/- The outputs where `BIP38_Decrypt` returns true -/
def decrypt (strPassphrase : Bytes) (strEncryptedKey : List Char) : Option (uint256 × Bool) := do
  let strKey ← decodeBase58 strEncryptedKey
  let fCompressed := field strKey 2 1 &&& 0x20 != 0
  if strKey.length ≠ 43 ∨ field strKey 0 1 ≠ 0x01 then none
  else if field strKey 1 1 = 0x42 then some (c.decryptPlain strPassphrase strKey, fCompressed)
  else if field strKey 1 1 ≠ 0x43 then none
  else do
    let privKey ← c.decryptMultiplied strPassphrase strKey
    if strAddressHash strKey = c.addressToBip38Hash (c.keyAddress privKey fCompressed) then
      some (privKey, fCompressed)
    else none

/-- The address of the key hashes to the hash in the string. -/
def Verified (c : Bip38) (strKey : Bytes) (r : uint256 × Bool) : Prop :=
  strAddressHash strKey = c.addressToBip38Hash (c.keyAddress r.1 r.2)

/-- Functions that are easy to evaluate; every address hashes to zeros. -/
def nullCrypto : Bip38 where
  sha256 _ := 0
  scrypt_hash _ _ _ _ _ _ := 0
  aesDecrypt _ block := block
  ecPubkeyCreate _ := none
  ecPrivkeyTweakMul _ _ := none
  keyAddress _ _ := []

end Bip38
end Alqo
