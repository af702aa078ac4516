import Bfx.ChainIndex

/-!
The block tree in memory. The link `pprev` of an entry never changes, so a
pointer to an entry is the list of the entry and its ancestors, and the null
pointer is the empty list.
-/

namespace Bfx.BlockTree

open ChainIndex List Transaction

/-- The fields of `CBlockIndex` that never change, apart from its height. -/
structure IndexEntry where
  hashBlock : UInt256
  blockKeyInDB : UInt256
  nChainTrust : Nat
  fProofOfStake : Bool
  nEntropyBit : Bool
  fGeneratedStakeModifier : Bool
  nStakeModifier : Nat
  prevoutStake : COutPoint
  nStakeTime : Nat
  hashProof : UInt256
  nTime : Nat
  nBits : Nat
  deriving DecidableEq, Repr

abbrev IndexPtr := List IndexEntry

/-- `AddToBlockIndex` gives a block the height of its parent plus one. -/
def nHeight (pindex : IndexPtr) : Int := (pindex.length : Int) - 1

/-- The fields `nMint` and `nMoneySupply`, which `ConnectBlock` sets. -/
structure Amounts where
  nMint : Int
  nMoneySupply : Int
  deriving DecidableEq, Repr

/-- The entries as `ConnectBlock` reads them. -/
def toCBlockIndex (amounts : UInt256 → Amounts) (entry : IndexEntry) (height : Int) : CBlockIndex :=
  ⟨entry.blockKeyInDB, height, (amounts entry.hashBlock).nMint,
    (amounts entry.hashBlock).nMoneySupply⟩

def toCBlockIndexes (amounts : UInt256 → Amounts) : IndexPtr → List CBlockIndex
  | [] => []
  | entry :: pprev => toCBlockIndex amounts entry pprev.length :: toCBlockIndexes amounts pprev

def nMedianTimeSpan : Nat := 11

def getMedianTimePast (pindex : IndexPtr) : Int :=
  let times := ((pindex.take nMedianTimeSpan).map fun entry => (entry.nTime : Int)).insertionSort
    (· ≤ ·)
  times.getD (times.length / 2) 0

/-- The last block of a kind, or the genesis block if there is none. -/
def getLastBlockIndex (fProofOfStake : Bool) : IndexPtr → IndexPtr
  | [] => []
  | [entry] => [entry]
  | entry :: parent :: pprev =>
    if entry.fProofOfStake = fProofOfStake then entry :: parent :: pprev
    else getLastBlockIndex fProofOfStake (parent :: pprev)

theorem getMedianTimePast_le {time : Nat} (h : ∀ entry ∈ pindex, entry.nTime ≤ time) :
    getMedianTimePast pindex ≤ time := by
  rw [getMedianTimePast, getD_eq_getElem?_getD, Option.getD.eq_def]
  split
  · rename_i median hmedian
    have hmem := mem_of_getElem? hmedian
    rw [mem_insertionSort, mem_map] at hmem
    obtain ⟨entry, hentry, rfl⟩ := hmem
    exact Int.ofNat_le.mpr (h entry (mem_of_mem_take hentry))
  · exact Int.natCast_nonneg time

end Bfx.BlockTree
