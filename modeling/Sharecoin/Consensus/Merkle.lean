import Sharecoin.Primitives.Block

/-! The merkle root of a block's transactions and the merkle root of their
witnesses. -/

set_option autoImplicit false

namespace Sharecoin

open Lib

section Merkle

variable (sha256d : Bytes → Uint256)

/-- One level of the tree. An odd last node is paired with itself; the flag says
whether two different positions of a pair held the same hash. -/
def merkleLevel : List Uint256 → List Uint256 × Bool
  | left :: right :: hashes =>
    let (level, mutation) := merkleLevel hashes
    (sha256d (left.data ++ right.data) :: level, mutation || left == right)
  | [last] => ([sha256d (last.data ++ last.data)], false)
  | [] => ([], false)

def merkleLoop : Nat → List Uint256 → Bool → Uint256 × Bool
  | 0, hashes, mutation => (hashes.headD .zero, mutation)
  | levels + 1, hashes, mutation =>
    if hashes.length > 1 then
      let (level, repeated) := merkleLevel sha256d hashes
      merkleLoop levels level (mutation || repeated)
    else (hashes.headD .zero, mutation)

def computeMerkleRoot (hashes : List Uint256) : Uint256 × Bool :=
  merkleLoop sha256d hashes.length hashes false

def blockMerkleRoot (block : CBlock) : Uint256 × Bool :=
  computeMerkleRoot sha256d (block.vtx.map (CTransaction.getHash sha256d))

/-- The witness hash of the coinbase is taken to be zero. -/
def blockWitnessMerkleRoot (block : CBlock) : Uint256 :=
  (computeMerkleRoot sha256d (.zero :: block.vtx.tail.map (CTransaction.getWitnessHash sha256d))).1

end Merkle

end Sharecoin
