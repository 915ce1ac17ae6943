import Sharecoin.Crypto.Sha256
import Sharecoin.Primitives.Transaction

/-! Blocks, and the block header with the three fields ProgPoW adds to it, its
serialization and its two hashes. The double SHA-256 is a parameter, so every
result about headers holds for any hash function in its place. -/

set_option autoImplicit false

namespace Sharecoin

open Lib

structure CBlockHeader where
  nVersion : Int32
  hashPrevBlock : Uint256
  hashMerkleRoot : Uint256
  nTime : UInt32
  nBits : UInt32
  nHeight : UInt32
  nNonce64 : UInt64
  mixHash : Uint256
deriving DecidableEq

namespace CBlockHeader

def null : CBlockHeader :=
  { nVersion := 0, hashPrevBlock := .zero, hashMerkleRoot := .zero, nTime := 0, nBits := 0,
    nHeight := 0, nNonce64 := 0, mixHash := .zero }

/-- The fields a miner does not search over: everything up to `nHeight`. -/
def serializePoW (header : CBlockHeader) : Bytes :=
  leBytes 4 header.nVersion.toUInt32.toNat ++ header.hashPrevBlock.data ++
    header.hashMerkleRoot.data ++ leBytes 4 header.nTime.toNat ++ leBytes 4 header.nBits.toNat ++
    leBytes 4 header.nHeight.toNat

def serialize (header : CBlockHeader) : Bytes :=
  header.serializePoW ++ leBytes 8 header.nNonce64.toNat ++ header.mixHash.data

def getHash (sha256d : Bytes → Uint256) (header : CBlockHeader) : Uint256 :=
  sha256d header.serialize

def getPoWHeaderHash (sha256d : Bytes → Uint256) (header : CBlockHeader) : Uint256 :=
  sha256d header.serializePoW

end CBlockHeader

/-- A header and its transactions. The validity flags the source caches in a block
are left out: every check here is the uncached one. -/
structure CBlock where
  header : CBlockHeader
  vtx : List CTransaction
deriving DecidableEq

def CBlock.strippedSize (block : CBlock) : Nat :=
  block.header.serialize.length + (serializeVector (CTransaction.serialize false) block.vtx).length

end Sharecoin
