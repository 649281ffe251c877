import Alqo.Primitives

/-!
# Network parameters (chainparams.h, chainparams.cpp)

`nBlockStakeModifierlV2` is never assigned on the main network; the parameter objects have static
storage, so it is zero there. The other networks keep what they do not assign.
-/

namespace Alqo

structure CChainParams where
  hashGenesisBlock : uint256
  bnProofOfWorkLimit : uint256
  bnProofOfStakeLimit : uint256
  nMaxReorganizationDepth : Nat
  nTargetSpacing : Int
  nLastPOWBlock : Nat
  nMaturity : Nat
  nStakeMinAge : Nat
  nStakeMaxAge : Nat
  nMaxMoneyOut : CAmount
  nBudgetCycleBlocks : Nat
  nBlockStakeModifierlV2 : Nat
deriving DecidableEq

def CChainParams.isStakeModifierV2 (params : CChainParams) (nHeight : Nat) : Bool :=
  nHeight ≥ params.nBlockStakeModifierlV2

/-- `CMainParams`. -/
def mainParams : CChainParams where
  hashGenesisBlock := 0x000040f1123764b16ac29f9c6c994e5beeacaf21f751062f5ab2c651351e0db1
  bnProofOfWorkLimit := 0x0000fffff0000000000000000000000000000000000000000000000000000000
  bnProofOfStakeLimit := 0x0001ffff00000000000000000000000000000000000000000000000000000000
  nMaxReorganizationDepth := 100
  nTargetSpacing := 60
  nLastPOWBlock := 300
  nMaturity := 30
  nStakeMinAge := 60 * 60
  nStakeMaxAge := 30 * 24 * 60 * 60
  nMaxMoneyOut := 21000000 * COIN
  nBudgetCycleBlocks := 43200
  nBlockStakeModifierlV2 := 0

/-- `CTestNetParams`. -/
def testNetParams : CChainParams :=
  { mainParams with
    hashGenesisBlock := 0x000000b8486c11f11b0970584997554e317521b37a4673bcd551bebee593d294
    bnProofOfWorkLimit := ~~~(0 : uint256) >>> 20
    nLastPOWBlock := 250
    nMaturity := 100
    nBlockStakeModifierlV2 := 1967000 }

/-- `CRegTestParams` assigns the values of the test
network again. -/
def regTestParams : CChainParams := testNetParams

/-- `CUnitTestParams`. -/
def unitTestParams : CChainParams := mainParams

inductive Network where
  | main
  | testnet
  | regtest
  | unittest
deriving DecidableEq, Repr

def Network.params : Network → CChainParams
  | .main => mainParams
  | .testnet => testNetParams
  | .regtest => regTestParams
  | .unittest => unitTestParams

theorem mainParams_isStakeModifierV2 (nHeight : Nat) :
    mainParams.isStakeModifierV2 nHeight = true := by
  simp [CChainParams.isStakeModifierV2, mainParams]

end Alqo
