import Sharecoin.Primitives.Block

/-! The consensus parameters and the five shipped parameter sets. -/

set_option autoImplicit false

namespace Sharecoin

open Lib

inductive ChainType where
  | main
  | testnet
  | testnet4
  | signet
  | regtest
deriving DecidableEq

/-- `Consensus::Params`, without the fields only version bits and script flags
read. -/
structure Params where
  hashGenesisBlock : Uint256
  nSubsidyHalvingInterval : Int
  bip34Height : Int
  bip34Hash : Uint256
  bip65Height : Int
  bip66Height : Int
  csvHeight : Int
  segwitHeight : Int
  powLimit : Uint256
  fPowAllowMinDifficultyBlocks : Bool
  enforceBIP94 : Bool
  fPowNoRetargeting : Bool
  nPowTargetSpacing : Int
  nPowTargetTimespan : Int
  nLwmaAveragingWindow : Int := 45
  nLwmaAdjustedWeight : Int := 13772
  nLwmaMinDenominator : Int := 10
  fLwmaSolvetimeLimitation : Bool := true
  signetBlocks : Bool := false
deriving DecidableEq

def Params.difficultyAdjustmentInterval (params : Params) : Int :=
  params.nPowTargetTimespan.tdiv params.nPowTargetSpacing

/-- Parameters together with the genesis header whose hash they record. -/
structure CChainParams (sha256d : Bytes → Uint256) where
  chainType : ChainType
  consensus : Params
  genesis : CBlockHeader
  hashGenesis_eq : consensus.hashGenesisBlock = genesis.getHash sha256d := by rfl
  genesisHeight_eq : genesis.nHeight = 0 := by rfl
  genesisPrev_eq : genesis.hashPrevBlock = .zero := by rfl

def createGenesisBlock (hashMerkleRoot : Uint256) (nTime : UInt32) (nNonce : UInt64)
    (nBits : UInt32) (nVersion : Int32) (mixHash : Uint256) : CBlockHeader :=
  { nVersion, hashPrevBlock := .zero, hashMerkleRoot, nTime, nBits, nHeight := 0,
    nNonce64 := nNonce, mixHash }

def genesisMerkleRoot : Uint256 :=
  .ofNat 0x4a5e1e4baab89f3a32518a88c31bc87f618f76673e2cc77ab2127b7afdeda33b

section ShippedParams

variable (sha256d : Bytes → Uint256)

def mainParams : CChainParams sha256d :=
  let genesis := createGenesisBlock genesisMerkleRoot 1231006505 2083236893 0x1d00ffff 1 .zero
  { chainType := .main
    consensus :=
      { hashGenesisBlock := genesis.getHash sha256d
        nSubsidyHalvingInterval := 210000
        bip34Height := 227931
        bip34Hash := .ofNat 0x000000000000024b89b42a942fe0d9fea3bb44ab7bd1b19115dd6a759c0808b8
        bip65Height := 388381
        bip66Height := 363725
        csvHeight := 419328
        segwitHeight := 481824
        powLimit := .ofNat 0x00000000ffffffffffffffffffffffffffffffffffffffffffffffffffffffff
        fPowAllowMinDifficultyBlocks := false
        enforceBIP94 := false
        fPowNoRetargeting := false
        nPowTargetSpacing := 10 * 60
        nPowTargetTimespan := 14 * 24 * 60 * 60 }
    genesis }

def testnetParams : CChainParams sha256d :=
  let genesis := createGenesisBlock genesisMerkleRoot 1296688602 414098458 0x1d00ffff 1 .zero
  { chainType := .testnet
    consensus :=
      { hashGenesisBlock := genesis.getHash sha256d
        nSubsidyHalvingInterval := 210000
        bip34Height := 21111
        bip34Hash := .ofNat 0x0000000023b3a96d3484e5abb3755c413e7d41500f8e2a5c3f0dd01299cd8ef8
        bip65Height := 581885
        bip66Height := 330776
        csvHeight := 770112
        segwitHeight := 834624
        powLimit := .ofNat 0x00000000ffffffffffffffffffffffffffffffffffffffffffffffffffffffff
        fPowAllowMinDifficultyBlocks := true
        enforceBIP94 := false
        fPowNoRetargeting := false
        nPowTargetSpacing := 10 * 60
        nPowTargetTimespan := 14 * 24 * 60 * 60 }
    genesis }

def testnet4Params : CChainParams sha256d :=
  let genesis :=
    createGenesisBlock (.ofNat 0x7aa0a7ae1e223414cb807e40cd57e667b718e42aaf9306db9102fe28912b7b4e)
      1714777860 393743547 0x1d00ffff 1 .zero
  { chainType := .testnet4
    consensus :=
      { hashGenesisBlock := genesis.getHash sha256d
        nSubsidyHalvingInterval := 210000
        bip34Height := 1
        bip34Hash := .zero
        bip65Height := 1
        bip66Height := 1
        csvHeight := 1
        segwitHeight := 1
        powLimit := .ofNat 0x00000000ffffffffffffffffffffffffffffffffffffffffffffffffffffffff
        fPowAllowMinDifficultyBlocks := true
        enforceBIP94 := true
        fPowNoRetargeting := false
        nPowTargetSpacing := 10 * 60
        nPowTargetTimespan := 14 * 24 * 60 * 60 }
    genesis }

def signetParams : CChainParams sha256d :=
  let genesis := createGenesisBlock genesisMerkleRoot 1598918400 52613770 0x1e0377ae 1 .zero
  { chainType := .signet
    consensus :=
      { hashGenesisBlock := genesis.getHash sha256d
        nSubsidyHalvingInterval := 210000
        bip34Height := 1
        bip34Hash := .zero
        bip65Height := 1
        bip66Height := 1
        csvHeight := 1
        segwitHeight := 1
        powLimit := .ofNat 0x00000377ae000000000000000000000000000000000000000000000000000000
        fPowAllowMinDifficultyBlocks := false
        enforceBIP94 := false
        fPowNoRetargeting := false
        nPowTargetSpacing := 10 * 60
        nPowTargetTimespan := 14 * 24 * 60 * 60
        signetBlocks := true }
    genesis }

def regtestParams : CChainParams sha256d :=
  let genesis :=
    createGenesisBlock genesisMerkleRoot 1296688602 1 0x207fffff 1
      (.ofNat 0x397d1f425fc11a9963aa36e0211fcd1975a8571a9435d923dadc8981d12b657f)
  { chainType := .regtest
    consensus :=
      { hashGenesisBlock := genesis.getHash sha256d
        nSubsidyHalvingInterval := 5000000
        bip34Height := 1
        bip34Hash := .zero
        bip65Height := 1
        bip66Height := 1
        csvHeight := 1
        segwitHeight := 0
        powLimit := .ofNat 0x7fffffffffffffffffffffffffffffffffffffffffffffffffffffffffffffff
        fPowAllowMinDifficultyBlocks := false
        enforceBIP94 := false
        fPowNoRetargeting := false
        nPowTargetSpacing := 10 * 60
        nPowTargetTimespan := 24 * 60 * 60 }
    genesis }

def chainParams : ChainType → CChainParams sha256d
  | .main => mainParams sha256d
  | .testnet => testnetParams sha256d
  | .testnet4 => testnet4Params sha256d
  | .signet => signetParams sha256d
  | .regtest => regtestParams sha256d

end ShippedParams

end Sharecoin
