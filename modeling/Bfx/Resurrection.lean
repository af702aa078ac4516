import Bfx.ChainSwitch
import Bfx.MemoryPool

/-!
The memory pool in a reorganisation: `Reorganize` offers the transactions of the
disconnected blocks to the pool and removes those of the connected ones. The pool
reads what is committed, and inside `WriteToDisk` that is still the old chain.
-/

namespace Bfx.Resurrection

open BestChain BlockTree CallOutcome ChainAgreement ChainIndex InputConnection KeyTable List
  MemoryPool MintingBound NodeState TokenSymbols Transaction

section Pool

variable (getHash : CTransaction → UInt256)

def erase (hash : UInt256) (pool : CTxMemPool) : CTxMemPool := pool.filter (·.1 != hash)

def spender (pool : CTxMemPool) (outpoint : COutPoint) : Option CTransaction :=
  (pool.find? fun entry => entry.2.vin.any fun txin => txin.prevout == outpoint).map (·.2)

/-- `remove` with `fRecursive`: those that spend the transaction go first. Transactions
cannot spend each other in a circle, so the calls are nested at most as deep as the
pool is long. -/
def removeRecursively : Nat → CTransaction → CTxMemPool → CTxMemPool
  | 0, _, pool => pool
  | depth + 1, tx, pool =>
    if (find (getHash tx) pool).isSome then
      erase (getHash tx) <| (List.range tx.vout.length).foldl (fun pool i =>
        match spender pool ⟨getHash tx, i⟩ with
        | none => pool
        | some child => removeRecursively depth child pool) pool
    else pool

def remove (tx : CTransaction) (pool : CTxMemPool) : CTxMemPool := erase (getHash tx) pool

def removeConflicts (tx : CTransaction) (pool : CTxMemPool) : CTxMemPool :=
  tx.vin.foldl (fun pool txin =>
    match spender pool txin.prevout with
    | none => pool
    | some txConflict =>
      if txConflict = tx then pool else removeRecursively getHash pool.length txConflict pool) pool

end Pool

section Reorganize

variable (s : Surroundings TokenTables) (policy : RelayPolicy)

/-- The transactions of a block that are offered to the pool. -/
def loose (pindex : IndexPtr) (block : CBlock) : List CTransaction :=
  if nHeight pindex > s.env.getTotalBlocksEstimate then
    block.vtx.filter fun tx => !(isCoinBase tx || isCoinStake tx)
  else []

/-- `push_front` for the transactions of every block from the last one on: the list is
in the order of the chain. -/
def vResurrect (txdb : NodeDb TokenTables) (vDisconnect : List IndexPtr) : List CTransaction :=
  vDisconnect.reverse.flatMap fun pindex =>
    ((readFromDisk s.env txdb pindex).map (loose s pindex)).getD []

def vDelete (txdb : NodeDb TokenTables) (vConnect : List IndexPtr) : List CTransaction :=
  vConnect.flatMap fun pindex => ((readFromDisk s.env txdb pindex).map (·.vtx)).getD []

/-- Whether a transaction is accepted does not matter. -/
def resurrect (state : State TokenTables) : List CTransaction → CTxMemPool → Verdict CTxMemPool
  | [], pool => .ok pool
  | tx :: txs, pool =>
    match acceptToMemoryPool s.env policy state pool tx with
    | .ok pool => resurrect state txs pool
    | .error (.returned _ _) => resurrect state txs pool
    | .error refusal => .error refusal

def deleteRedundant (txs : List CTransaction) (pool : CTxMemPool) : CTxMemPool :=
  txs.foldl (fun pool tx => removeConflicts s.env.getHash tx (remove s.env.getHash tx pool)) pool

/-- The pool when `Reorganize` returns true. -/
def reorganizePool (createDbTransaction : Bool) (pindexNew : IndexPtr) (state : State TokenTables)
    (pool : CTxMemPool) : Verdict CTxMemPool := do
  let pfork ← findFork state.memory.pindexBest pindexNew
  match reorganize s createDbTransaction pindexNew state with
  | (.error refusal, _) => .error refusal
  | (.ok (), final) =>
    let pool ← resurrect s policy final
      (vResurrect s state.committed (above pfork state.memory.pindexBest)) pool
    .ok (deleteRedundant s (vDelete s state.txdb (above pfork pindexNew).reverse) pool)

end Reorganize

section Removal

variable {hash : UInt256}

theorem find_eq_none_iff : find hash pool = none ↔ ∀ entry ∈ pool, entry.1 ≠ hash := by
  induction pool with
  | nil => exact iff_of_true rfl nofun
  | cons entry pool ih =>
    rw [find, forall_mem_cons]
    split
    · rename_i heq
      exact iff_of_false (fun h => by cases h) fun h => h.1 heq
    rename_i hne
    rw [ih]
    exact (and_iff_right hne).symm

theorem foldl_subset {f : CTxMemPool → α → CTxMemPool} (hf : ∀ pool a, f pool a ⊆ pool)
    (list : List α) (pool : CTxMemPool) : list.foldl f pool ⊆ pool := by
  induction list generalizing pool with
  | nil => exact List.Subset.refl _
  | cons a list ih => exact List.Subset.trans (ih _) (hf pool a)

theorem erase_subset (hash : UInt256) (pool : CTxMemPool) : erase hash pool ⊆ pool :=
  filter_subset_self _

theorem removeRecursively_subset (depth : Nat) (tx : CTransaction) (pool : CTxMemPool) :
    removeRecursively getHash depth tx pool ⊆ pool := by
  induction depth generalizing tx pool with
  | zero => exact List.Subset.refl _
  | succ depth ih =>
    rw [removeRecursively]
    split
    · refine List.Subset.trans (erase_subset _ _) (foldl_subset (fun pool i => ?_) _ _)
      split
      · exact List.Subset.refl _
      · exact ih _ _
    · exact List.Subset.refl _

theorem removeConflicts_subset (tx : CTransaction) (pool : CTxMemPool) :
    removeConflicts getHash tx pool ⊆ pool := by
  refine foldl_subset (fun pool txin => ?_) _ _
  split
  · exact List.Subset.refl _
  split
  · exact List.Subset.refl _
  · exact removeRecursively_subset _ _ _

end Removal

section Never

variable {s : Surroundings TokenTables} {policy : RelayPolicy} {state : State TokenTables}
  {pindexNew pfork : IndexPtr} {pool pool' : CTxMemPool} {tx : CTransaction}

theorem resurrect_of_indexed
    (htxs : ∀ tx ∈ txs, (state.committed.txIndex (s.env.getHash tx)).isSome)
    (h : resurrect s policy state txs pool = .ok pool') : pool' = pool := by
  induction txs with
  | nil => exact (Except.ok.inj h).symm
  | cons tx txs ih =>
    obtain ⟨htx, htxs⟩ := forall_mem_cons.mp htxs
    rw [resurrect] at h
    split at h
    · rename_i accepted haccept
      have hnone := (acceptToMemoryPool_eq_ok haccept).1.unindexed
      rw [hnone] at htx
      cases htx
    · exact ih htxs h
    · cases h

variable (hagrees : Agrees s.env state.memory state.committed)
include hagrees

/-- The blocks above the fork have a parent, and the committed index has their
transactions. -/
theorem indexed_of_above (hfork : findFork state.memory.pindexBest pindexNew = .ok pfork)
    (hpindex : pindex ∈ above pfork state.memory.pindexBest)
    (hread : readFromDisk s.env state.committed pindex = some block) (htx : tx ∈ block.vtx) :
    (state.committed.txIndex (s.env.getHash tx)).isSome := by
  obtain ⟨hfork, hleft, -⟩ := findFork_eq_ok hfork
  obtain ⟨hsuffix, habove⟩ := (climbs_above hleft).mem_iff.mp (mem_reverse.mpr hpindex)
  rcases pindex with _ | ⟨entry, _ | ⟨parent, pprev⟩⟩
  · exact absurd nil_suffix habove
  · -- the first block is below every fork
    rcases suffix_or_suffix_of_suffix hleft hsuffix with hbelow | hbelow
    · rcases suffix_cons_iff.mp hbelow with rfl | hnil
      · exact absurd (suffix_refl _) habove
      · exact absurd (suffix_nil.mp hnil) hfork
    · exact absurd hbelow habove
  obtain ⟨stored, hstored, hindexed⟩ := hagrees.indexed entry parent pprev hsuffix
  obtain rfl := Option.mem_unique hread hstored
  exact hindexed tx htx

/-- Inside `WriteToDisk` nothing gets into the pool. -/
theorem reorganizePool_subset
    (h : reorganizePool s policy false pindexNew state pool = .ok pool') : pool' ⊆ pool := by
  obtain ⟨pfork, hfork, h⟩ := bind_eq_ok.mp h
  cases hreorganize : reorganize s false pindexNew state with
  | mk result final =>
    rw [hreorganize] at h
    cases result with
    | error refusal => cases h
    | ok _ =>
      obtain ⟨pool'', hresurrect, h⟩ := bind_eq_ok.mp h
      obtain ⟨_, disconnected, -, hmoved, -, hadvanced⟩ := reorganize_eq_ok hreorganize
      have hcommitted : final.committed = state.committed :=
        hadvanced.committed_eq.trans hmoved.committed_eq
      have hsame : pool'' = pool := by
        refine resurrect_of_indexed (fun tx htx => ?_) hresurrect
        obtain ⟨pindex, hpindex, htx⟩ := mem_flatMap.mp htx
        cases hread : readFromDisk s.env state.committed pindex with
        | none =>
          rw [hread] at htx
          cases htx
        | some block =>
          rw [hread, Option.map_some, Option.getD_some, loose] at htx
          split at htx
          · rw [hcommitted]
            exact indexed_of_above hagrees hfork (mem_reverse.mp hpindex) hread
              (mem_filter.mp htx).1
          · cases htx
      rw [← Except.ok.inj h, hsame]
      exact foldl_subset (fun pool tx =>
        List.Subset.trans (removeConflicts_subset tx _) (erase_subset _ pool)) _ _

omit hagrees

/-- The node when the new chain is the best one and everything is committed. -/
def switched (pindexNew : IndexPtr) (final : State TokenTables) : State TokenTables :=
  { adopt (getBlockHash pindexNew) pindexNew final with committed := final.txdb }

/-- A transaction of a disconnected block that is not in a connected one, and that the
pool would accept if the new chain were committed. -/
structure Resurrectable (s : Surroundings TokenTables) (policy : RelayPolicy) (pindexNew : IndexPtr)
    (state : State TokenTables) (pool : CTxMemPool) (tx : CTransaction) : Prop where
  disconnected : ∃ pfork pindex block, findFork state.memory.pindexBest pindexNew = .ok pfork ∧
    pindex ∈ above pfork state.memory.pindexBest ∧
    readFromDisk s.env state.committed pindex = some block ∧ tx ∈ loose s pindex block ∧
    tx ∉ vDelete s state.txdb (above pfork pindexNew).reverse
  accepted : ∃ final pool', reorganize s false pindexNew state = (.ok (), final) ∧
    acceptToMemoryPool s.env policy (switched pindexNew final) pool tx = .ok pool'

/-- No such transaction is in the pool when `Reorganize` returns inside `WriteToDisk`. -/
theorem reorganizePool_never (hagrees : Agrees s.env state.memory state.committed)
    (hpool : reorganizePool s policy false pindexNew state pool = .ok pool')
    (htx : Resurrectable s policy pindexNew state pool tx) :
    find (s.env.getHash tx) pool' = none := by
  obtain ⟨final, accepted, -, haccept⟩ := htx.accepted
  have hnone := find_eq_none_iff.mp (acceptToMemoryPool_eq_ok haccept).2.1
  exact find_eq_none_iff.mpr fun entry hentry =>
    hnone entry (reorganizePool_subset hagrees hpool hentry)

/-! A chain of two blocks and a branch of one block; the block that is disconnected has
a payment. -/

def paymentTx : CTransaction :=
  ⟨3, [⟨⟨1, 0⟩, []⟩], [⟨COIN - MIN_TX_FEE, [0x51]⟩], 0⟩

def paymentDb : NodeDb TokenTables where
  blocks hash := [(⟨6, 0, 1, 100, 0, 0, [storedTx], []⟩ : CBlock),
    ⟨6, 100, 11, 101, 0, 0, [chainTx 11, paymentTx], []⟩,
    ⟨6, 100, 12, 102, 0, 0, [chainTx 12], []⟩].find? fun block => workEnv.getBlockHash block == hash
  blockIndexes _ := none
  txIndex hash :=
    if hash = 1 then some ⟨storedPos, [⟨101, 181⟩, ⟨0, 2 ^ 32 - 1⟩]⟩
    else if hash = 11 then some (CTxIndex.new ⟨101, 81⟩ 1)
    else if hash = 3 then some (CTxIndex.new ⟨101, 181⟩ 1)
    else none
  hashBestChain := some 101
  bestInvalidTrust := none
  tokens := ⟨fun _ => none, []⟩

def paymentMemory : Memory where
  mapBlockIndex := tableOf [[chainEntry 0 1], bestPtr, [chainEntry 2 3, chainEntry 0 1]]
  amounts _ := ⟨0, 0⟩
  setStakeSeen _ := false
  pnext := link (fun _ => none) bestPtr
  pindexGenesisBlock := [chainEntry 0 1]
  pindexBest := bestPtr
  hashBestChain := 101
  nBestHeight := 1
  nBestChainTrust := 2
  nBestInvalidTrust := 0

def paymentState : State TokenTables := ⟨paymentMemory, paymentDb, paymentDb⟩

def paymentSurroundings : Surroundings TokenTables where
  env := workEnv
  hashGenesisBlock := 100
  tokens := tokenLayer
  mempoolLookup _ _ := none
  writeBlockIndex _ _ := true
  updateTxIndex _ _ := true
  disconnectDB _ := ⟨fun _ _ => true, fun _ => true⟩
  writeHashBestChain _ := true
  writeBestInvalidTrust _ := true
  unfinished _ _ := none
  halfDisconnected _ txdb := txdb.txIndex

def relayAll : RelayPolicy where
  isStandardTx _ := none
  areInputsStandard _ _ := .ok true
  passesRateLimiter _ := true

def payingBranch : IndexPtr := [chainEntry 2 3, chainEntry 0 1]

theorem payment_agrees : Agrees workEnv paymentMemory paymentDb := by
  refine ⟨by decide, by decide, by decide, by decide, rfl, ?_, ?_⟩
  · have hmap : MapOk paymentMemory := mapOk_of_table rfl (by decide) (by decide +kernel)
    refine (linkedTo_nil _).link _ (@distinct_of_mapOk 100 _ _ hmap ?_)
    decide +kernel
  intro entry parent pprev hsuffix
  have heq : entry :: parent :: pprev = bestPtr := by
    refine hsuffix.eq_of_length_le ?_
    simp [paymentMemory, bestPtr]
  rw [heq]
  refine ⟨⟨6, 100, 11, 101, 0, 0, [chainTx 11, paymentTx], []⟩, by decide +kernel, ?_⟩
  decide +kernel

theorem payment_resurrectable :
    Resurrectable paymentSurroundings relayAll payingBranch paymentState [] paymentTx where
  disconnected := by
    refine ⟨[chainEntry 0 1], bestPtr, ⟨6, 100, 11, 101, 0, 0, [chainTx 11, paymentTx], []⟩, ?_⟩
    decide +kernel
  accepted := ⟨_, [(3, paymentTx)], rfl, by decide +kernel⟩

/-- The payment of the disconnected block is lost. -/
theorem reorganizePool_payment_lost :
    Agrees paymentSurroundings.env paymentState.memory paymentState.committed ∧
      Resurrectable paymentSurroundings relayAll payingBranch paymentState [] paymentTx ∧
      reorganizePool paymentSurroundings relayAll false payingBranch paymentState [] = .ok [] :=
  ⟨payment_agrees, payment_resurrectable, by decide +kernel⟩

theorem reorganizePool_never_payment : ∃ pool',
    reorganizePool paymentSurroundings relayAll false payingBranch paymentState [] = .ok pool' ∧
      find 3 pool' = none :=
  ⟨[], by decide +kernel,
    @reorganizePool_never _ relayAll _ payingBranch [] [] paymentTx payment_agrees
      (by decide +kernel) payment_resurrectable⟩

end Never

end Bfx.Resurrection
