import Bfx.BlockConnection
import Bfx.Retarget

/-!
The check of a stake kernel. The modifier that a kernel is hashed with is found
along the links `pnext`, which are those of the chain that is best at the moment;
so two nodes with different best chains agree only where the part of the chain
that they share decides.
-/

namespace Bfx.StakeKernel

open BlockConnection BlockTree ChainIndex CompactNumber List Retarget Transaction

section Kernel

def nModifierInterval : Nat := 10 * 60

def MODIFIER_INTERVAL_RATIO : Nat := 3

def nStakeMaxAge : Int := 23 * 24 * 60 * 60

def getStakeModifierSelectionIntervalSection (nSection : Nat) : Nat :=
  nModifierInterval * 63 / (63 + (63 - nSection) * ( MODIFIER_INTERVAL_RATIO - 1))

def getStakeModifierSelectionInterval : Nat :=
  ((List.range 64).map getStakeModifierSelectionIntervalSection).sum

/-- The state of a node as far as the check reads it. -/
structure StakeNode where
  env : ChainEnv
  txdb : CTxDB
  /-- `CBlock::ReadFromDisk` without the transactions. -/
  readBlockHeader : UInt256 → Option CBlock
  mapBlockIndex : UInt256 → Option IndexPtr
  pindexBest : IndexPtr
  fDebug : Bool

/-- The entries behind an entry along `pnext`. Only the entries of the best chain
have such a link. -/
def forwardLinks (pindexBest pindex : IndexPtr) : List IndexEntry :=
  if pindex <:+ pindexBest then (pindexBest.take (pindexBest.length - pindex.length)).reverse
  else []

/-- The loop of `GetKernelStakeModifier`, over the entries that are still ahead. -/
def findStakeModifier (nTimeStop : Int) : List IndexEntry → Int → IndexEntry → Option Nat
  | [], nStakeModifierTime, pindex =>
    if nStakeModifierTime < nTimeStop then none else some pindex.nStakeModifier
  | pnext :: links, nStakeModifierTime, pindex =>
    if nStakeModifierTime < nTimeStop then
      findStakeModifier nTimeStop links
        (if pnext.fGeneratedStakeModifier then pnext.nTime else nStakeModifierTime) pnext
    else some pindex.nStakeModifier

/-- No result means that the function returns false; whether it logs a text then
is of no consequence. -/
def getKernelStakeModifier (node : StakeNode) (hashBlockFrom : UInt256) : Option Nat :=
  match node.mapBlockIndex hashBlockFrom with
  | none => none
  | some [] => none
  | some (pindexFrom :: pprev) =>
    findStakeModifier (pindexFrom.nTime + getStakeModifierSelectionInterval)
      (forwardLinks node.pindexBest (pindexFrom :: pprev)) pindexFrom.nTime pindexFrom

def getWeight (env : ChainEnv) (nIntervalBeginning nIntervalEnd : Int) : Int :=
  min (nIntervalEnd - nIntervalBeginning - stakeMinAge env) nStakeMaxAge

def coinDayWeight (env : ChainEnv) (nValueIn : Int) (txPrev : CTransaction) (nTimeTx : Nat) :
    Int :=
  ((nValueIn * getWeight env txPrev.nTime nTimeTx).tdiv COIN).tdiv (24 * 60 * 60)

def getuint256 (bn : Int) : UInt256 := BitVec.ofNat 256 bn.natAbs

/-- What a check returns and the variables that it sets. -/
structure KernelCheck (α : Type) where
  result : α
  hashProofOfStake : UInt256
  targetProofOfStake : UInt256
  deriving DecidableEq

/-- The hash of modifier, block time, offset, transaction time, output number and
time of the coinstake. -/
abbrev KernelHash := Nat → Nat → Nat → Nat → Nat → Nat → UInt256

variable (hash : KernelHash)

/-- The last part of `CheckStakeKernelHash`, where the modifier is known. -/
def checkModifier (nStakeModifier : Option Nat) (bnTarget : Int) (nTimeBlockFrom nTxPrevOffset : Nat)
    (txPrev : CTransaction) (prevout : COutPoint) (nTimeTx : Nat) : KernelCheck Bool :=
  match nStakeModifier with
  | none => ⟨false, 0, getuint256 bnTarget⟩
  | some nStakeModifier =>
    let hashProofOfStake :=
      hash nStakeModifier nTimeBlockFrom nTxPrevOffset txPrev.nTime prevout.n nTimeTx
    ⟨!decide ((hashProofOfStake.toNat : Int) > bnTarget), hashProofOfStake, getuint256 bnTarget⟩

/-- `txPrev.vout[prevout.n]` is in range: the caller has read the output. -/
def checkStakeKernelHash (node : StakeNode) (nBits : Nat) (blockFrom : CBlock)
    (nTxPrevOffset : Nat) (txPrev : CTransaction) (txout : CTxOut) (prevout : COutPoint)
    (nTimeTx : Nat) : KernelCheck Bool :=
  if nTimeTx < txPrev.nTime then ⟨false, 0, 0⟩
  else if (blockFrom.nTime + stakeMinAge node.env) % 2 ^ 32 > nTimeTx then ⟨false, 0, 0⟩
  else
    checkModifier hash (getKernelStakeModifier node (node.env.getBlockHash blockFrom))
      (coinDayWeight node.env txout.nValue txPrev nTimeTx * decode nBits) blockFrom.nTime
      nTxPrevOffset txPrev prevout nTimeTx

def kernelVerdict (env : ChainEnv) (tx : CTransaction) (check : KernelCheck Bool) :
    KernelCheck (Verdict Unit) :=
  ⟨ensure (check.result = true)
    (.dos 1 ("CheckProofOfStake() : INFO: check kernel failed on coinstake " ++
      (env.getHash tx).toHex ++ ", hashProof=" ++ check.hashProofOfStake.toHex)),
    check.hashProofOfStake, check.targetProofOfStake⟩

/-- The variables for hash and target are zero when `AcceptBlock` passes them. -/
def refuseStake (refusal : Refusal) : KernelCheck (Verdict Unit) := ⟨.error refusal, 0, 0⟩

def checkProofOfStake (node : StakeNode) (tx : CTransaction) (nBits : Nat) :
    KernelCheck (Verdict Unit) :=
  match isCoinStake tx, tx.vin with
  | true, txin :: _ =>
    match readOutputFromDisk node.txdb txin.prevout with
    | none => refuseStake (.dos 1 "CheckProofOfStake() : INFO: read txPrev failed")
    | some (txindex, txPrev, txout) =>
      if !node.env.verifySignature txPrev tx 0 false then
        refuseStake (.dos 100 ("CheckProofOfStake() : VerifySignature failed on coinstake " ++
          (node.env.getHash tx).toHex))
      else
        match node.readBlockHeader txindex.pos.nBlockPos with
        | none =>
          refuseStake (if node.fDebug then .logged "CheckProofOfStake() : read block failed"
            else .silent)
        | some block =>
          kernelVerdict node.env tx
            (checkStakeKernelHash hash node nBits block txindex.pos.nTxPos txPrev txout
              txin.prevout tx.nTime)
  | _, _ =>
    refuseStake (.logged ("CheckProofOfStake() : called on non-coinstake " ++
      (node.env.getHash tx).toHex))

end Kernel

/-- The walk ends at the first entry with a new modifier a selection interval
behind the block it starts from. -/
def endsWalk (pindexFrom entry : IndexEntry) : Bool :=
  entry.fGeneratedStakeModifier &&
    decide ((pindexFrom.nTime : Int) + getStakeModifierSelectionInterval ≤ entry.nTime)

theorem findStakeModifier_eq (links : List IndexEntry) (htime : time < nTimeStop)
    (pindex : IndexEntry) :
    findStakeModifier nTimeStop links time pindex =
      (links.find? fun entry =>
        entry.fGeneratedStakeModifier && decide (nTimeStop ≤ entry.nTime)).map
        IndexEntry.nStakeModifier := by
  induction links generalizing time pindex with
  | nil => rw [findStakeModifier, if_pos htime, List.find?_nil, Option.map_none]
  | cons pnext links ih =>
    rw [findStakeModifier, if_pos htime, List.find?_cons]
    cases hgenerated : pnext.fGeneratedStakeModifier with
    | false =>
      rw [if_neg Bool.false_ne_true, Bool.false_and]
      exact ih htime pnext
    | true =>
      rw [if_pos rfl, Bool.true_and]
      rcases Int.lt_or_le pnext.nTime nTimeStop with hearly | hlate
      · rw [decide_eq_false (Int.not_le.mpr hearly)]
        exact ih hearly pnext
      -- the loop condition fails at the next entry, whatever is ahead
      rw [decide_eq_true hlate]
      cases links with
      | nil => rw [findStakeModifier, if_neg (Int.not_lt.mpr hlate), Option.map_some]
      | cons => rw [findStakeModifier, if_neg (Int.not_lt.mpr hlate), Option.map_some]

section Agreement

/-- What the check reads about the output that is staked: its transaction with the
place on disk, the block and the entry of the block in the tree. -/
structure Kernel where
  pos : CDiskTxPos
  txPrev : CTransaction
  txout : CTxOut
  block : CBlock
  pindexFrom : IndexEntry
  pprev : IndexPtr

/-- The node finds the kernel in a block of its best chain, and the entries above
it begin with `shared`. -/
structure HoldsKernel (node : StakeNode) (shared : IndexPtr) (prevout : COutPoint)
    (kernel : Kernel) : Prop where
  output : ∃ vSpent, readOutputFromDisk node.txdb prevout =
    some (⟨kernel.pos, vSpent⟩, kernel.txPrev, kernel.txout)
  header : node.readBlockHeader kernel.pos.nBlockPos = some kernel.block
  entry : node.mapBlockIndex (node.env.getBlockHash kernel.block) =
    some (kernel.pindexFrom :: kernel.pprev)
  best : ∃ branch, node.pindexBest = branch ++ shared ++ kernel.pindexFrom :: kernel.pprev

/-- Two nodes of one network with the same clock. The least age of a stake changes
on the test network with the best height, so it is a condition of its own. -/
structure Peers (node node' : StakeNode) : Prop where
  getHash : node'.env.getHash = node.env.getHash
  getBlockHash : node'.env.getBlockHash = node.env.getBlockHash
  verifySignature : node'.env.verifySignature = node.env.verifySignature
  getAdjustedTime : node'.env.getAdjustedTime = node.env.getAdjustedTime
  fTestNet : node'.env.fTestNet = node.env.fTestNet
  stakeMinAge : stakeMinAge node'.env = stakeMinAge node.env

/-- Every node that shares the chain up to `shared` comes to the same verdict, hash
and target. -/
def KernelAgreement (hash : KernelHash) (node : StakeNode) (shared : IndexPtr)
    (prevout : COutPoint) (kernel : Kernel) (tx : CTransaction) (nBits : Nat) : Prop :=
  ∀ node', Peers node node' → HoldsKernel node' shared prevout kernel →
    checkProofOfStake hash node' tx nBits = checkProofOfStake hash node tx nBits

/-- The check ends before it looks for a modifier, or finds one on the chain that
is shared. -/
def SettledByShared (env : ChainEnv) (shared : IndexPtr) (kernel : Kernel) (tx : CTransaction) :
    Prop :=
  env.verifySignature kernel.txPrev tx 0 false = false ∨
    tx.nTime < kernel.txPrev.nTime ∨
    (kernel.block.nTime + stakeMinAge env) % 2 ^ 32 > tx.nTime ∨
    ∃ entry ∈ shared, endsWalk kernel.pindexFrom entry = true

variable {hash : KernelHash} {node : StakeNode} {shared branch : IndexPtr} {kernel : Kernel}
  {tx : CTransaction} {txin : CTxIn} {vin : List CTxIn} {nBits : Nat}

def kernelTarget (env : ChainEnv) (kernel : Kernel) (tx : CTransaction) (nBits : Nat) : Int :=
  coinDayWeight env kernel.txout.nValue kernel.txPrev tx.nTime * decode nBits

/-- The check as a function of the modifier alone. -/
def checkWithModifier (hash : KernelHash) (env : ChainEnv) (kernel : Kernel) (tx : CTransaction)
    (prevout : COutPoint) (nBits : Nat) (nStakeModifier : Option Nat) :
    KernelCheck (Verdict Unit) :=
  kernelVerdict env tx (checkModifier hash nStakeModifier (kernelTarget env kernel tx nBits)
    kernel.block.nTime kernel.pos.nTxPos kernel.txPrev prevout tx.nTime)

/-- A kernel that a node holds is refused for the signature or its times, or it is
checked with the modifier that the walk finds. -/
theorem checkProofOfStake_eq (hash : KernelHash) (nBits : Nat) (hstake : isCoinStake tx = true)
    (hvin : tx.vin = txin :: vin)
    (hkernel : HoldsKernel node shared txin.prevout kernel)
    (hbest : node.pindexBest = branch ++ shared ++ kernel.pindexFrom :: kernel.pprev) :
    checkProofOfStake hash node tx nBits =
      if !node.env.verifySignature kernel.txPrev tx 0 false then
        refuseStake (.dos 100 ("CheckProofOfStake() : VerifySignature failed on coinstake " ++
          (node.env.getHash tx).toHex))
      else if tx.nTime < kernel.txPrev.nTime ∨
          (kernel.block.nTime + stakeMinAge node.env) % 2 ^ 32 > tx.nTime then
        kernelVerdict node.env tx ⟨false, 0, 0⟩
      else
        checkWithModifier hash node.env kernel tx txin.prevout nBits
          (((branch ++ shared).reverse.find? (endsWalk kernel.pindexFrom)).map
            IndexEntry.nStakeModifier) := by
  obtain ⟨vSpent, houtput⟩ := hkernel.output
  rw [checkProofOfStake, hstake, hvin]
  dsimp only
  rw [houtput]
  dsimp only
  rw [hkernel.header]
  dsimp only
  have hinterval : 0 < getStakeModifierSelectionInterval := by decide
  rw [checkStakeKernelHash, getKernelStakeModifier, hkernel.entry, hbest]
  dsimp only
  rw [forwardLinks, if_pos (suffix_append _ _), length_append, Nat.add_sub_cancel, take_left,
    findStakeModifier_eq _ (by omega)]
  split
  · rfl
  split
  · rename_i htime
    rw [if_pos (.inl htime)]
  rename_i htime
  split
  · rename_i hage
    rw [if_pos (.inr hage)]
  rename_i hage
  rw [if_neg (not_or.mpr ⟨htime, hage⟩)]
  rfl

theorem find?_shared (pindexFrom : IndexEntry) (branch : IndexPtr)
    (hshared : ∃ entry ∈ shared, endsWalk pindexFrom entry = true) :
    (branch ++ shared).reverse.find? (endsWalk pindexFrom) =
      shared.reverse.find? (endsWalk pindexFrom) := by
  obtain ⟨entry, hmem, hends⟩ := hshared
  have hsome : (shared.reverse.find? (endsWalk pindexFrom)).isSome :=
    List.find?_isSome.mpr ⟨entry, mem_reverse.mpr hmem, hends⟩
  rw [reverse_append, List.find?_append]
  exact Option.or_of_isSome hsome

theorem find?_branch (branch : IndexPtr)
    (hshared : ¬ ∃ entry ∈ shared, endsWalk pindexFrom entry = true) :
    (branch ++ shared).reverse.find? (endsWalk pindexFrom) =
      branch.reverse.find? (endsWalk pindexFrom) := by
  have hnone : shared.reverse.find? (endsWalk pindexFrom) = none :=
    List.find?_eq_none.mpr fun entry hmem hends =>
      hshared ⟨entry, mem_reverse.mp hmem, hends⟩
  rw [reverse_append, List.find?_append, hnone, Option.none_or]

/-- A modifier that is not found leaves the hash zero, and zero would meet the
target. -/
theorem checkWithModifier_none_ne (htarget : 0 ≤ kernelTarget env kernel tx nBits)
    (nStakeModifier : Nat) :
    checkWithModifier hash env kernel tx prevout nBits none ≠
      checkWithModifier hash env kernel tx prevout nBits (some nStakeModifier) := by
  intro h
  have hzero : 0 = hash nStakeModifier kernel.block.nTime kernel.pos.nTxPos kernel.txPrev.nTime
      prevout.n tx.nTime := congrArg KernelCheck.hashProofOfStake h
  have hmeets : (checkWithModifier hash env kernel tx prevout nBits
      (some nStakeModifier)).result = .ok () := by
    refine ensure_eq_ok.mpr ?_
    rw [checkModifier, ← hzero]
    simpa using htarget
  rw [← h] at hmeets
  exact Bool.false_ne_true (ensure_eq_ok.mp hmeets)

theorem Peers.kernelVerdict_eq (hpeers : Peers node node') (check : KernelCheck Bool) :
    kernelVerdict node'.env tx check = kernelVerdict node.env tx check := by
  rw [kernelVerdict, kernelVerdict, hpeers.getHash]

theorem Peers.checkWithModifier_eq (hpeers : Peers node node') (prevout : COutPoint)
    (nStakeModifier : Option Nat) :
    checkWithModifier hash node'.env kernel tx prevout nBits nStakeModifier =
      checkWithModifier hash node.env kernel tx prevout nBits nStakeModifier := by
  have htarget : kernelTarget node'.env kernel tx nBits = kernelTarget node.env kernel tx nBits := by
    simp only [kernelTarget, coinDayWeight, getWeight, hpeers.stakeMinAge]
  rw [checkWithModifier, checkWithModifier, htarget, hpeers.kernelVerdict_eq]

/-- A node that differs only in the blocks above the shared part of its chain. -/
def StakeNode.withBranch (node : StakeNode) (branch shared : IndexPtr) (kernel : Kernel) :
    StakeNode :=
  { node with pindexBest := branch ++ shared ++ kernel.pindexFrom :: kernel.pprev }

theorem HoldsKernel.withBranch (hkernel : HoldsKernel node shared prevout kernel)
    (branch : IndexPtr) :
    HoldsKernel (node.withBranch branch shared kernel) shared prevout kernel :=
  ⟨hkernel.output, hkernel.header, hkernel.entry, branch, rfl⟩

/-- A block with a new modifier that ends the walk from the kernel. -/
def lateEntry (pindexFrom : IndexEntry) : IndexEntry :=
  { pindexFrom with
    fGeneratedStakeModifier := true
    nTime := pindexFrom.nTime + getStakeModifierSelectionInterval }

theorem endsWalk_lateEntry (pindexFrom : IndexEntry) :
    endsWalk pindexFrom (lateEntry pindexFrom) = true := by
  simp [endsWalk, lateEntry]

/-- The nodes agree where the shared part of the chain decides; and unless the
target is negative only there. -/
theorem checkProofOfStake_agreement_iff (hash : KernelHash) (node : StakeNode) (shared : IndexPtr)
    (kernel : Kernel) (tx : CTransaction) (txin : CTxIn) (vin : List CTxIn) (nBits : Nat)
    (hstake : isCoinStake tx = true) (hvin : tx.vin = txin :: vin)
    (hkernel : HoldsKernel node shared txin.prevout kernel) :
    (SettledByShared node.env shared kernel tx →
      KernelAgreement hash node shared txin.prevout kernel tx nBits) ∧
    (0 ≤ kernelTarget node.env kernel tx nBits →
      KernelAgreement hash node shared txin.prevout kernel tx nBits →
        SettledByShared node.env shared kernel tx) := by
  obtain ⟨branch, hbest⟩ := hkernel.best
  constructor
  · intro hsettled node' hpeers hkernel'
    obtain ⟨branch', hbest'⟩ := hkernel'.best
    rw [checkProofOfStake_eq hash nBits hstake hvin hkernel' hbest',
      checkProofOfStake_eq hash nBits hstake hvin hkernel hbest, hpeers.verifySignature,
      hpeers.getHash, hpeers.stakeMinAge, hpeers.checkWithModifier_eq, hpeers.kernelVerdict_eq]
    rcases hsettled with hsignature | htime | hage | hshared
    · rw [hsignature, Bool.not_false, if_pos rfl, if_pos rfl]
    · simp only [htime, true_or, if_true]
    · simp only [hage, or_true, if_true]
    · rw [find?_shared _ branch' hshared, find?_shared _ branch hshared]
  intro htarget hagree
  by_contra hsettled
  obtain ⟨hsignature, htime, hage, hshared⟩ : _ ∧ _ ∧ _ ∧ _ := by
    simpa only [SettledByShared, not_or] using hsettled
  rw [Bool.not_eq_false] at hsignature
  -- the nodes get to the modifier, and a node on another branch finds another one
  have hchecked : ∀ node' branch, node'.env = node.env →
      HoldsKernel node' shared txin.prevout kernel →
      node'.pindexBest = branch ++ shared ++ kernel.pindexFrom :: kernel.pprev →
      checkProofOfStake hash node' tx nBits =
        checkWithModifier hash node.env kernel tx txin.prevout nBits
          ((branch.reverse.find? (endsWalk kernel.pindexFrom)).map IndexEntry.nStakeModifier) := by
    intro node' branch henv hholds hchain
    rw [checkProofOfStake_eq hash nBits hstake hvin hholds hchain, henv, hsignature,
      Bool.not_true, if_neg Bool.false_ne_true, if_neg (not_or.mpr ⟨htime, hage⟩),
      find?_branch branch hshared]
  have hsame := fun branch' => hagree (node.withBranch branch' shared kernel)
    ⟨rfl, rfl, rfl, rfl, rfl, rfl⟩ (hkernel.withBranch branch')
  have hother := fun branch' => hchecked (node.withBranch branch' shared kernel) branch' rfl
    (hkernel.withBranch branch') rfl
  simp only [hother, hchecked node branch rfl hkernel hbest] at hsame
  cases hfound : branch.reverse.find? (endsWalk kernel.pindexFrom) with
  | none =>
    have hlate := hsame [lateEntry kernel.pindexFrom]
    rw [hfound, reverse_singleton, List.find?_cons_of_pos (endsWalk_lateEntry _)] at hlate
    exact checkWithModifier_none_ne htarget _ hlate.symm
  | some entry =>
    have hnone := hsame []
    rw [hfound] at hnone
    exact checkWithModifier_none_ne htarget _ hnone

/-- The genesis block holds the coin, and the block behind it a new modifier. -/
def coinEntry : IndexEntry := ⟨100, 100, 1, false, false, true, 0, ⟨0, 0⟩, 0, 0, 1000, 0⟩

def modifierEntry (nStakeModifier : Nat) : IndexEntry :=
  { lateEntry coinEntry with hashBlock := BitVec.ofNat 256 nStakeModifier, nStakeModifier }

def coinTx : CTransaction := ⟨1000, [⟨⟨0, 2 ^ 32 - 1⟩, []⟩], [⟨COIN, [0x51]⟩], 0⟩

/-- Three days later the coin weighs one coin day. -/
def coinStakeTx : CTransaction :=
  ⟨1000 + 3 * 24 * 60 * 60, [⟨⟨1, 0⟩, []⟩], [⟨0, []⟩, ⟨COIN, [0x51]⟩], 0⟩

def coinBlock : CBlock := ⟨6, 0, 0, 1000, 0, 0, [coinTx], []⟩

def coinKernel : Kernel := ⟨⟨100, 81⟩, coinTx, ⟨COIN, [0x51]⟩, coinBlock, coinEntry, []⟩

/-- A node with a best chain of the genesis block and the given blocks. -/
def coinNode (chain : IndexPtr) : StakeNode where
  env := { retargetEnv with nBestHeight := chain.length, getBlockHash := fun _ => 100 }
  txdb := ⟨fun _ => some (CTxIndex.new ⟨100, 81⟩ 1), fun _ => some coinTx, fun _ => some 1000,
    fun _ => true, fun _ => true⟩
  readBlockHeader _ := some coinBlock
  mapBlockIndex _ := some [coinEntry]
  pindexBest := chain ++ [coinEntry]
  fDebug := false

def modifierHash : KernelHash := fun nStakeModifier _ _ _ _ _ =>
  BitVec.ofNat 256 (nStakeModifier * 2 ^ 200)

theorem holdsKernel_coinNode (branch shared : IndexPtr) :
    HoldsKernel (coinNode (branch ++ shared)) shared ⟨1, 0⟩ coinKernel :=
  ⟨⟨[.null], rfl⟩, rfl, rfl, branch, rfl⟩

theorem checkProofOfStake_coin_agreement :
    KernelAgreement modifierHash (coinNode [modifierEntry 1]) [modifierEntry 1] ⟨1, 0⟩ coinKernel
      coinStakeTx 0x1d00ffff :=
  (checkProofOfStake_agreement_iff modifierHash (coinNode [modifierEntry 1]) [modifierEntry 1]
    coinKernel coinStakeTx ⟨⟨1, 0⟩, []⟩ [] 0x1d00ffff (by decide) rfl
    (holdsKernel_coinNode [] [modifierEntry 1])).1
    (.inr (.inr (.inr ⟨_, mem_singleton.mpr rfl, endsWalk_lateEntry coinEntry⟩)))

/-- Nodes that share only the genesis block, where the coin is, do not: one accepts
the coinstake that the other refuses. -/
theorem checkProofOfStake_depends_on_best_chain :
    HoldsKernel (coinNode [modifierEntry 1]) [] ⟨1, 0⟩ coinKernel ∧
      HoldsKernel (coinNode [modifierEntry (2 ^ 25)]) [] ⟨1, 0⟩ coinKernel ∧
      Peers (coinNode [modifierEntry 1]) (coinNode [modifierEntry (2 ^ 25)]) ∧
      (checkProofOfStake modifierHash (coinNode [modifierEntry 1]) coinStakeTx 0x1d00ffff).result =
        .ok () ∧
      ∃ message, (checkProofOfStake modifierHash (coinNode [modifierEntry (2 ^ 25)]) coinStakeTx
        0x1d00ffff).result = .error (.dos 1 message) := by
  refine ⟨holdsKernel_coinNode [modifierEntry 1] [], holdsKernel_coinNode [modifierEntry (2 ^ 25)] [],
    ⟨rfl, rfl, rfl, rfl, rfl, rfl⟩, rfl, ⟨_, rfl⟩⟩

end Agreement

end Bfx.StakeKernel
