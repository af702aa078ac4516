import Bfx.BlockTree
import Bfx.SpentIndex

/-!
The state of a node: the block tree with the best chain in memory, and the
tables of the database. A block index entry is known by the hash of its block,
so the links `pnext` are a map between hashes.
-/

namespace Bfx.NodeState

open BlockTree ChainIndex Transaction

structure Memory where
  mapBlockIndex : UInt256 → Option IndexPtr
  amounts : UInt256 → Amounts
  setStakeSeen : COutPoint × Nat → Bool
  pnext : UInt256 → Option UInt256
  pindexGenesisBlock : IndexPtr
  pindexBest : IndexPtr
  hashBestChain : UInt256
  nBestHeight : Int
  nBestChainTrust : Nat
  nBestInvalidTrust : Nat

structure CDiskBlockIndex where
  entry : IndexEntry
  amounts : Amounts
  height : Int
  hashPrev : UInt256
  hashNext : UInt256
  deriving DecidableEq, Repr

/-- The tables; what the token layer stores is a parameter. -/
structure NodeDb (τ : Type) where
  blocks : UInt256 → Option CBlock
  blockIndexes : UInt256 → Option CDiskBlockIndex
  txIndex : UInt256 → Option CTxIndex
  hashBestChain : Option UInt256
  bestInvalidTrust : Option Nat
  tokens : τ

def getBlockHash (pindex : IndexPtr) : UInt256 := (pindex.head?.map (·.hashBlock)).getD 0

def isInMainChain (memory : Memory) (pindex : IndexPtr) : Bool :=
  (memory.pnext (getBlockHash pindex)).isSome || pindex == memory.pindexBest

/-- The block tree: an entry is found by the hash of its block, and so are its
ancestors. -/
structure MapOk (memory : Memory) : Prop where
  hash_eq : ∀ hash pindex, memory.mapBlockIndex hash = some pindex →
    ∃ entry pprev, pindex = entry :: pprev ∧ entry.hashBlock = hash
  closed : ∀ hash pindex, memory.mapBlockIndex hash = some pindex →
    ∀ entry pprev, entry :: pprev <:+ pindex →
      memory.mapBlockIndex entry.hashBlock = some (entry :: pprev)

/-- The block tree with the best chain. -/
structure TreeOk {τ : Type} (memory : Memory) (txdb : NodeDb τ) : Prop extends MapOk memory where
  stored : ∀ hash pindex, memory.mapBlockIndex hash = some pindex → (txdb.blocks hash).isSome
  main : ∀ hash pindex, memory.mapBlockIndex hash = some pindex →
    (isInMainChain memory pindex = true ↔ pindex <:+ memory.pindexBest)
  best : ∃ hash, memory.mapBlockIndex hash = some memory.pindexBest
  genesis : ∃ genesis, ∀ hash pindex, memory.mapBlockIndex hash = some pindex →
    pindex.getLast? = some genesis

end Bfx.NodeState
