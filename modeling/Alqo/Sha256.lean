import Alqo.ChainParams

/-!
# Double SHA-256 (crypto/sha256.cpp, hash.h)

The theorems of this development hold for any `Hash`. The function itself is needed where a concrete
block is examined; the genesis block is the test that it is the right one.
-/

namespace Alqo

namespace Sha256

abbrev Word := BitVec 32

def Ch (x y z : Word) : Word := z ^^^ (x &&& (y ^^^ z))
def Maj (x y z : Word) : Word := (x &&& y) ||| (z &&& (x ||| y))
def Sigma0 (x : Word) : Word :=
  (x >>> 2 ||| x <<< 30) ^^^ (x >>> 13 ||| x <<< 19) ^^^ (x >>> 22 ||| x <<< 10)
def Sigma1 (x : Word) : Word :=
  (x >>> 6 ||| x <<< 26) ^^^ (x >>> 11 ||| x <<< 21) ^^^ (x >>> 25 ||| x <<< 7)
def sigma0 (x : Word) : Word :=
  (x >>> 7 ||| x <<< 25) ^^^ (x >>> 18 ||| x <<< 14) ^^^ (x >>> 3)
def sigma1 (x : Word) : Word :=
  (x >>> 17 ||| x <<< 15) ^^^ (x >>> 19 ||| x <<< 13) ^^^ (x >>> 10)

structure State where
  a : Word
  b : Word
  c : Word
  d : Word
  e : Word
  f : Word
  g : Word
  h : Word

/-- `Initialize`. -/
def initial : State :=
  ⟨0x6a09e667, 0xbb67ae85, 0x3c6ef372, 0xa54ff53a, 0x510e527f, 0x9b05688c, 0x1f83d9ab, 0x5be0cd19⟩

/- With the rotation of the eight names done here
rather than at the call. -/
def round (s : State) (k w : Word) : State :=
  let t1 := s.h + Sigma1 s.e + Ch s.e s.f s.g + k + w
  let t2 := Sigma0 s.a + Maj s.a s.b s.c
  ⟨t1 + t2, s.a, s.b, s.c, s.d + t1, s.e, s.f, s.g⟩

/-- The constants in the calls of `Transform`. -/
def roundConstants : List Word :=
  [0x428a2f98, 0x71374491, 0xb5c0fbcf, 0xe9b5dba5, 0x3956c25b, 0x59f111f1, 0x923f82a4, 0xab1c5ed5,
   0xd807aa98, 0x12835b01, 0x243185be, 0x550c7dc3, 0x72be5d74, 0x80deb1fe, 0x9bdc06a7, 0xc19bf174,
   0xe49b69c1, 0xefbe4786, 0x0fc19dc6, 0x240ca1cc, 0x2de92c6f, 0x4a7484aa, 0x5cb0a9dc, 0x76f988da,
   0x983e5152, 0xa831c66d, 0xb00327c8, 0xbf597fc7, 0xc6e00bf3, 0xd5a79147, 0x06ca6351, 0x14292967,
   0x27b70a85, 0x2e1b2138, 0x4d2c6dfc, 0x53380d13, 0x650a7354, 0x766a0abb, 0x81c2c92e, 0x92722c85,
   0xa2bfe8a1, 0xa81a664b, 0xc24b8b70, 0xc76c51a3, 0xd192e819, 0xd6990624, 0xf40e3585, 0x106aa070,
   0x19a4c116, 0x1e376c08, 0x2748774c, 0x34b0bcb5, 0x391c0cb3, 0x4ed8aa4a, 0x5b9cca4f, 0x682e6ff3,
   0x748f82ee, 0x78a5636f, 0x84c87814, 0x8cc70208, 0x90befffa, 0xa4506ceb, 0xbef9a3f7, 0xc67178f2]

def nextWindow : List Word → List Word
  | w0 :: w1 :: rest =>
    match rest[7]?, rest[12]? with
    | some w9, some w14 => w1 :: rest ++ [w0 + (sigma1 w14 + w9 + sigma0 w1)]
    | _, _ => w1 :: rest
  | l => l

def rounds : List Word → List Word → State → State
  | [], _, s => s
  | k :: ks, win, s => rounds ks (nextWindow win) (round s k (win.headD 0))

def readBE32 : List UInt8 → List Word
  | b0 :: b1 :: b2 :: b3 :: rest =>
    BitVec.ofNat 32 (b0.toNat * 2 ^ 24 + b1.toNat * 2 ^ 16 + b2.toNat * 2 ^ 8 + b3.toNat) ::
      readBE32 rest
  | _ => []

def add (s t : State) : State :=
  ⟨s.a + t.a, s.b + t.b, s.c + t.c, s.d + t.d, s.e + t.e, s.f + t.f, s.g + t.g, s.h + t.h⟩

def transform (s : State) (chunk : List UInt8) : State :=
  add s (rounds roundConstants (readBE32 chunk) s)

/-- `Write` over whole chunks. -/
def chunks : Nat → State → List UInt8 → State
  | 0, s, _ => s
  | n + 1, s, data => chunks n (transform s (data.take 64)) (data.drop 64)

def writeBE32 (w : Word) : List UInt8 :=
  [UInt8.ofNat (w.toNat / 2 ^ 24), UInt8.ofNat (w.toNat / 2 ^ 16), UInt8.ofNat (w.toNat / 2 ^ 8),
    UInt8.ofNat w.toNat]

/-- The message with the padding that `Finalize` writes. -/
def pad (data : List UInt8) : List UInt8 :=
  data ++ 0x80 :: List.replicate ((119 - data.length % 64) % 64) 0 ++
    (leBytes 8 (data.length * 8)).reverse

def sha256 (data : List UInt8) : List UInt8 :=
  let s := chunks ((pad data).length / 64) initial (pad data)
  writeBE32 s.a ++ writeBE32 s.b ++ writeBE32 s.c ++ writeBE32 s.d ++
    writeBE32 s.e ++ writeBE32 s.f ++ writeBE32 s.g ++ writeBE32 s.h

end Sha256

/-- `Hash`: SHA-256 twice. -/
def hash256 (data : Bytes) : uint256 :=
  BitVec.ofNat 256 (leValue (Sha256.sha256 (Sha256.sha256 data)))

/-- The genesis header of the main network. -/
def genesisHeader : CBlockHeader where
  nVersion := 1
  hashPrevBlock := 0
  hashMerkleRoot := 0x4aaca532f84c6bbe9e0326864a6c986520b48770e7b272647c88b41bd7c12fe6
  nTime := 1575570915
  nBits := 0x1f00ffff
  nNonce := 13513

theorem genesisHeader_getHash : genesisHeader.getHash hash256 = mainParams.hashGenesisBlock := by
  decide +kernel

def firstHeader : CBlockHeader where
  nVersion := 4
  hashPrevBlock := mainParams.hashGenesisBlock
  hashMerkleRoot := 0xc29287d1b306e695f29342be0aec8a4f25cef1f869152758e595394f5cbb4d4b
  nTime := 1575570975
  nBits := 0x1f00ffff
  nNonce := 230896

def secondHeader : CBlockHeader where
  nVersion := 4
  hashPrevBlock := 0xc99ea393db9ce7161d7dd51f1088f5c628275b13542f1103a70764e36735
  hashMerkleRoot := 0xd01e3dbeb383f8aaa0f6fec812c9b6a37fe9b316a56ed00dadb62e4ba29e998f
  nTime := 1575571035
  nBits := 0x1f00ffff
  nNonce := 266897

end Alqo
