import Bfx.ChainAgreement
import Bfx.ForkVerification
import Bfx.Retarget
import Bfx.StakeKernel

/-!
`AcceptBlock`: a block is checked against its parent, put into the block tree and
written to the database in one transaction. The relay of the block and the
addresses of its keys are left out.
-/

namespace Bfx.BlockAcceptance

open BestChain BlockConnection BlockTree CallOutcome ChainAgreement ChainIndex CompactNumber
  ForkVerification Function HexText MintingBound NodeState Retarget StakeKernel Transaction

section Checks

/-- What `AcceptBlock` finds outside of the state: the node's settings, the
functions on stake modifiers, and whether disk space and writes suffice. -/
structure Acceptance (τ : Type) where
  surroundings : Surroundings τ
  hashSyncCheckpoint : UInt256
  hashPendingCheckpoint : UInt256
  fStrictCheckpoints : Bool
  fDebug : Bool
  kernelHash : KernelHash
  getPoWHash : CBlock → UInt256
  /-- The sequence numbers of all inputs are maximal. -/
  inputsFinal : CTransaction → Bool
  /-- The modifier and whether it is a new one. -/
  computeNextStakeModifier : IndexPtr → Option (Nat × Bool)
  checkStakeModifierCheckpoints : IndexPtr → Bool
  checkDiskSpace : Bool
  writeBlock : Bool
  writeRecord : Bool
  /-- What `SetBestChain` finds when it is called for a pending checkpoint. -/
  pending : Surroundings τ

variable {τ : Type} (a : Acceptance τ)

def CURRENT_VERSION : Int := 6

def LAST_POW_BLOCK : Int := 1000

def LOCKTIME_THRESHOLD : Nat := 500000000

def acceptEnv (memory : Memory) : ChainEnv :=
  { a.surroundings.env with nBestHeight := memory.nBestHeight }

/-- Both networks have one checkpoint, the genesis block. -/
def mapCheckpoints : List (Int × UInt256) := [(0, a.surroundings.hashGenesisBlock)]

def getLastCheckpointBlockHeight : Int := ((mapCheckpoints a).getLast?.map Prod.fst).getD 0

def checkHardened (height : Int) (hash : UInt256) : Bool :=
  match (mapCheckpoints a).lookup height with
  | none => true
  | some foundHash => hash == foundHash

def isFinalTx (env : ChainEnv) (inputsFinal : CTransaction → Bool) (tx : CTransaction)
    (nBlockHeight nBlockTime : Int) : Bool :=
  let height := if nBlockHeight = 0 then env.nBestHeight else nBlockHeight
  let time := if nBlockTime = 0 then env.getAdjustedTime else nBlockTime
  tx.nLockTime == 0 ||
    decide ((tx.nLockTime : Int) < if tx.nLockTime < LOCKTIME_THRESHOLD then height else time) ||
    inputsFinal tx

/-- `CScript() << nHeight`: small numbers are opcodes, others are pushed as bytes. -/
def pushHeight (height : Nat) : Bytes :=
  if 1 ≤ height ∧ height ≤ 16 then [UInt8.ofNat (0x50 + height)]
  else
    UInt8.ofNat (byteSize height) ::
      (List.range (byteSize height)).map fun i => UInt8.ofNat (height / 256 ^ i % 256)

def checkPrevBehindCheckpoint (memory : Memory) (block : CBlock) : Verdict Unit :=
  if memory.nBestHeight > getLastCheckpointBlockHeight a + 1 then
    match memory.mapBlockIndex block.hashPrevBlock with
    | some pindex =>
      ensure (¬ nHeight pindex + 1 < getLastCheckpointBlockHeight a)
        (.dos 25 ("Prevblock of block " ++ (a.surroundings.env.getBlockHash block).toHex ++
          ", which is " ++ block.hashPrevBlock.toHex ++
          ", is behind the latest checkpoint block height: " ++
          toString (getLastCheckpointBlockHeight a) ++ "\n"))
    | none =>
      .error (.logged ("The prevblock of " ++ (a.surroundings.env.getBlockHash block).toHex ++
        ", which is " ++ block.hashPrevBlock.toHex ++ ", is not in the blockindex. This should " ++
        "never happen in AcceptBlock(), where this error occurred\n"))
  else .ok ()

/-- The handle is opened for the check, so it sees what is committed. -/
def checkInputsUnspent (state : State τ) (block : CBlock) : Verdict Unit :=
  match verifyInputsUnspent (acceptEnv a state.memory) state.memory state.committed block with
  | .error (.returned _ _) =>
    .error (.dos 100 ("VerifyInputsUnspent() failed for block " ++
      (a.surroundings.env.getBlockHash block).toHex ++ "\n"))
  | .error (.thrown what) =>
    .error (.logged ("VerifyInputsUnspent() threw an exception for block " ++
      (a.surroundings.env.getBlockHash block).toHex ++ "; with error: " ++ what ++ "\n"))
  | other => other

/-- A retarget that stops the node does not return. -/
def checkTarget (memory : Memory) (pindexPrev : IndexPtr) (block : CBlock) : Verdict Unit :=
  match getNextTargetRequired (acceptEnv a memory) pindexPrev (isProofOfStake block) with
  | .error _ => .error .assertFailed
  | .ok nBits =>
    ensure (block.nBits = nBits)
      (.dos 100 ("AcceptBlock() : incorrect " ++
        if isProofOfWork block then "proof-of-work" else "proof-of-stake"))

def stakeNode (state : State τ) (hash : UInt256) : StakeNode where
  env := acceptEnv a state.memory
  txdb := toCTxDB a.surroundings state.committed hash
  readBlockHeader := state.committed.blocks
  mapBlockIndex := state.memory.mapBlockIndex
  pindexBest := state.memory.pindexBest
  fDebug := a.fDebug

/-- The hash of the proof. The penalty of a coinstake is not one of its block. -/
def getHashProof (state : State τ) (block : CBlock) : Verdict UInt256 :=
  match isProofOfStake block, block.vtx with
  | true, _ :: coinstake :: _ =>
    let check := checkProofOfStake a.kernelHash
      (stakeNode a state (a.surroundings.env.getBlockHash block)) coinstake block.nBits
    match check.result with
    | .ok () => .ok check.hashProofOfStake
    | .error (.returned _ _) => .error .silent
    | .error refusal => .error refusal
  | _, _ => .ok (a.getPoWHash block)

/-- The block is a descendant of the checkpoint, the checkpoint, or known. -/
def checkSync (memory : Memory) (hashBlock : UInt256) (pindexPrev : IndexPtr) : Verdict Bool :=
  if a.surroundings.env.fTestNet then .ok true
  else
    match memory.mapBlockIndex a.hashSyncCheckpoint with
    | none => .error .assertFailed
    | some pindexSync =>
      let height := nHeight pindexPrev + 1
      if height > nHeight pindexSync then
        match stepDown pindexSync pindexPrev with
        | none => .ok false
        | some pindex =>
          .ok (decide (nHeight pindexSync ≤ nHeight pindex) &&
            getBlockHash pindex == a.hashSyncCheckpoint)
      else if height = nHeight pindexSync then .ok (hashBlock == a.hashSyncCheckpoint)
      else .ok (memory.mapBlockIndex hashBlock).isSome

def checkCoinbaseHeight (pindexPrev : IndexPtr) (block : CBlock) : Verdict Unit :=
  match block.vtx with
  | ⟨_, txin :: _, _, _⟩ :: _ =>
    ensure (pushHeight pindexPrev.length <+: txin.scriptSig)
      (.dos 100 "AcceptBlock() : block height mismatch in coinbase")
  | _ => .error (.outOfBounds .vtx)

/-- The checks on a block whose parent is known. -/
def checkAfter (state : State τ) (block : CBlock) (pindexPrev : IndexPtr) : Verdict UInt256 := do
  let env := acceptEnv a state.memory
  let hash := env.getBlockHash block
  let height := nHeight pindexPrev + 1
  ensure (¬ (isProofOfWork block = true ∧ height > LAST_POW_BLOCK))
    (.dos 100 ("AcceptBlock() : reject proof-of-work at height " ++ toString height))
  checkTarget a state.memory pindexPrev block
  ensure (¬ ((block.nTime : Int) ≤ getMedianTimePast pindexPrev ∨
      futureDrift block.nTime < ((pindexPrev.head?.map (·.nTime)).getD 0 : Nat)))
    (.logged "AcceptBlock() : block's timestamp is too early")
  ensure (∀ tx ∈ block.vtx, isFinalTx env a.inputsFinal tx height block.nTime = true)
    (.dos 10 "AcceptBlock() : contains a non-final transaction")
  ensure (checkHardened a height hash = true)
    (.dos 100 ("AcceptBlock() : rejected by hardened checkpoint lock-in at " ++ toString height))
  let hashProof ← getHashProof a state block
  let cpSatisfies ← checkSync a state.memory hash pindexPrev
  ensure (¬ (a.fStrictCheckpoints = true ∧ cpSatisfies = false))
    (.logged "AcceptBlock() : rejected by synchronized checkpoint")
  checkCoinbaseHeight pindexPrev block
  ensure (a.checkDiskSpace = true) (.logged "AcceptBlock() : out of disk space")
  .ok hashProof

/-- `AcceptBlock` up to the write; the result is the hash of the proof. -/
def checkAcceptable (state : State τ) (block : CBlock) : Verdict UInt256 := do
  ensure (¬ block.nVersion > CURRENT_VERSION)
    (.dos 100 ("AcceptBlock() : reject unknown block version " ++ toString block.nVersion))
  ensure (state.memory.mapBlockIndex (a.surroundings.env.getBlockHash block) = none)
    (.logged "AcceptBlock() : block already in mapBlockIndex")
  checkPrevBehindCheckpoint a state.memory block
  checkInputsUnspent a state block
  match state.memory.mapBlockIndex block.hashPrevBlock with
  | none => .error (.dos 10 "AcceptBlock() : prev block not found\n")
  | some pindexPrev => checkAfter a state block pindexPrev

end Checks

section Write

variable {τ : Type} (a : Acceptance τ)

def getBlockTrust (nBits : Nat) : Nat :=
  if decode nBits ≤ 0 then 0 else 2 ^ 256 / (decode nBits + 1).toNat

/-- The output that the coinstake spends, and its time. -/
def getProofOfStake (block : CBlock) : COutPoint × Nat :=
  match isProofOfStake block, block.vtx with
  | true, _ :: ⟨nTime, txin :: _, _, _⟩ :: _ => (txin.prevout, nTime)
  | _, _ => (⟨0, 2 ^ 32 - 1⟩, 0)

def newEntry (pprev : IndexPtr) (block : CBlock) (hashProof : UInt256) (nStakeModifier : Nat)
    (fGeneratedStakeModifier : Bool) : IndexEntry :=
  let hash := a.surroundings.env.getBlockHash block
  { hashBlock := hash
    blockKeyInDB := hash
    nChainTrust := (nChainTrust pprev + getBlockTrust block.nBits) % 2 ^ 256
    fProofOfStake := isProofOfStake block
    nEntropyBit := hash.getLsbD 0
    fGeneratedStakeModifier := fGeneratedStakeModifier
    nStakeModifier := nStakeModifier
    prevoutStake := (getProofOfStake block).1
    nStakeTime := (getProofOfStake block).2
    hashProof := hashProof
    nTime := block.nTime
    nBits := block.nBits }

/-- `AddToBlockIndex` up to the insertion: the new entry and its parent. -/
def makeEntry (memory : Memory) (block : CBlock) (hashProof : UInt256) :
    Verdict (IndexEntry × IndexPtr) := do
  let hash := a.surroundings.env.getBlockHash block
  let pprev := (memory.mapBlockIndex block.hashPrevBlock).getD []
  ensure (memory.mapBlockIndex hash = none)
    (.logged ("AddToBlockIndex() : " ++ hash.toHex ++ " already exists"))
  match a.computeNextStakeModifier pprev with
  | none => .error (.logged "AddToBlockIndex() : ComputeNextStakeModifier() failed")
  | some (nStakeModifier, fGeneratedStakeModifier) => do
    let entry := newEntry a pprev block hashProof nStakeModifier fGeneratedStakeModifier
    ensure (a.checkStakeModifierCheckpoints (entry :: pprev) = true)
      (.logged ("AddToBlockIndex() : Rejected by stake modifier checkpoint height=" ++
        toString (nHeight (entry :: pprev)) ++ ", modifier=0x" ++
        (BitVec.ofNat 64 nStakeModifier).toHex))
    .ok (entry, pprev)

def insertEntry (entry : IndexEntry) (pprev : IndexPtr) (memory : Memory) : Memory :=
  { memory with
    mapBlockIndex := update memory.mapBlockIndex entry.hashBlock (some (entry :: pprev))
    amounts := update memory.amounts entry.hashBlock ⟨0, 0⟩
    pnext := update memory.pnext entry.hashBlock none
    setStakeSeen := if entry.fProofOfStake then
      update memory.setStakeSeen (entry.prevoutStake, entry.nStakeTime) true
      else memory.setStakeSeen }

/-- The new entry is in the block tree; the result of the write is ignored. -/
def insertBlock (entry : IndexEntry) (pprev : IndexPtr) (state : State τ) : State τ :=
  let memory := insertEntry entry pprev state.memory
  { state with
    memory := memory
    txdb := if a.writeRecord then writeBlockIndex memory (entry :: pprev) 0 state.txdb
      else state.txdb }

def addToBlockIndex (block : CBlock) (hashProof : UInt256) (state : State τ) :
    Verdict Unit × State τ :=
  match makeEntry a state.memory block hashProof with
  | .error refusal => (.error refusal, state)
  | .ok (entry, pprev) =>
    let inserted := insertBlock a entry pprev state
    if entry.nChainTrust > inserted.memory.nBestChainTrust then
      setBestChain a.surroundings false entry pprev block inserted
    else (.ok (), inserted)

/-- The transaction of a new handle, with the block in it. -/
def beginWrite (block : CBlock) (state : State τ) : State τ :=
  { state with
    txdb := { state.committed with
      blocks := update state.committed.blocks (a.surroundings.env.getBlockHash block)
        (some block) } }

/-- The transaction is committed if everything succeeds, and aborted otherwise. -/
def writeToDisk (block : CBlock) (hashProof : UInt256) (state : State τ) :
    Verdict Unit × State τ :=
  if a.writeBlock then
    match orError "AcceptBlock() : AddToBlockIndex failed"
      (addToBlockIndex a block hashProof (beginWrite a block state)) with
    | (.ok (), state) => (.ok (), commitIf true state)
    | (.error refusal, state) => (.error refusal, abortIf true state)
  else (.error .silent, abortIf true state)

/-- A pending checkpoint is ahead of the current one and descends from it. -/
def validateSyncCheckpoint (memory : Memory) (pindexCheckpointRecv : IndexPtr) : Bool :=
  match memory.mapBlockIndex a.hashSyncCheckpoint with
  | none => false
  | some pindexSyncCheckpoint =>
    if nHeight pindexCheckpointRecv ≤ nHeight pindexSyncCheckpoint then false
    else
      match stepDown pindexSyncCheckpoint pindexCheckpointRecv with
      | none => false
      | some pindex => getBlockHash pindex == a.hashSyncCheckpoint

/-- The caller ignores the result, so only what is thrown is kept of it. -/
def acceptPendingSyncCheckpoint (state : State τ) : Verdict Unit × State τ :=
  match state.memory.mapBlockIndex a.hashPendingCheckpoint with
  | some (entry :: pprev) =>
    if a.hashPendingCheckpoint = 0 ∨
        validateSyncCheckpoint a state.memory (entry :: pprev) = false ∨
        isInMainChain state.memory (entry :: pprev) = true then (.ok (), state)
    else
      match readFromDisk a.surroundings.env state.committed (entry :: pprev) with
      | none => (.ok (), state)
      | some block =>
        match setBestChain a.pending true entry pprev block
          { state with txdb := state.committed } with
        | (.error (.returned _ _), state) => (.ok (), state)
        | other => other
  | _ => (.ok (), state)

def acceptBlock (block : CBlock) (state : State τ) : Verdict Unit × State τ :=
  match checkAcceptable a state block with
  | .error refusal => (.error refusal, state)
  | .ok hashProof =>
    andThen (orError "AcceptBlock() : WriteToDisk failed" (writeToDisk a block hashProof state))
      (acceptPendingSyncCheckpoint a)

end Write

section Kept

variable {τ : Type} {createDbTransaction : Bool}

/-- A database has the block and the record of a hash. -/
def InDb (hash : UInt256) (txdb : NodeDb τ) : Prop :=
  (txdb.blocks hash).isSome ∧ (txdb.blockIndexes hash).isSome

/-- The handle sees block and record, also if it aborts a transaction of its own. -/
def Holds (createDbTransaction : Bool) (hash : UInt256) (state : State τ) : Prop :=
  InDb hash state.txdb ∧ (createDbTransaction = true → InDb hash state.committed)

/-- What `SetBestChain` leaves alone, whether it succeeds or not. -/
structure Kept (createDbTransaction : Bool) (state next : State τ) : Prop where
  mapBlockIndex_eq : next.memory.mapBlockIndex = state.memory.mapBlockIndex
  committed_eq : createDbTransaction = false → next.committed = state.committed
  holds : ∀ hash, Holds createDbTransaction hash state → Holds createDbTransaction hash next

theorem Kept.refl (state : State τ) : Kept create state state :=
  ⟨rfl, fun _ => rfl, fun _ h => h⟩

theorem Kept.trans (h : Kept create state next)
    (h' : Kept create next final) : Kept create state final :=
  ⟨h'.mapBlockIndex_eq.trans h.mapBlockIndex_eq,
    fun hcreate => (h'.committed_eq hcreate).trans (h.committed_eq hcreate),
    fun hash hholds => h'.holds hash (h.holds hash hholds)⟩

theorem Kept.of_view {state next : State τ}
    (hmap : next.memory.mapBlockIndex = state.memory.mapBlockIndex)
    (hcommitted : next.committed = state.committed)
    (hview : ∀ hash, InDb hash state.txdb → InDb hash next.txdb) :
    Kept create state next := by
  refine ⟨hmap, fun _ => hcommitted, fun hash hholds => ⟨hview hash hholds.1, fun hcreate => ?_⟩⟩
  rw [hcommitted]
  exact hholds.2 hcreate

theorem Kept.of_memory (hmap : memory.mapBlockIndex = state.memory.mapBlockIndex) :
    Kept create state { state with memory := memory } :=
  .of_view hmap rfl fun _ h => h

theorem Kept.of_moved (h : Moved state next) : Kept create state next := by
  refine .of_view ?_ h.committed_eq fun hash hin => ⟨?_, h.recorded hash hin.2⟩
  · rw [h.memory_eq]
  · rw [h.blocks_eq]
    exact hin.1

theorem Kept.andThen {next : State τ → Verdict Unit × State τ}
    (h : Kept create state result.2)
    (hnext : ∀ middle, Kept create middle (next middle).2) :
    Kept create state (BestChain.andThen result next).2 := by
  rcases result with ⟨refusal | ⟨⟩, middle⟩
  · exact h
  · exact h.trans (hnext middle)

theorem kept_commitIf (state : State τ) :
    Kept create state (commitIf create state) := by
  cases create with
  | false => exact .refl state
  | true => exact ⟨rfl, (by simp), fun hash h => ⟨h.1, fun _ => h.1⟩⟩

theorem kept_abortIf (state : State τ) :
    Kept create state (abortIf create state) := by
  cases create with
  | false => exact .refl state
  | true => exact ⟨rfl, (by simp), fun hash h => ⟨h.2 rfl, h.2⟩⟩

theorem kept_writeHashBestChain (hash : UInt256) (refusal : Refusal) (state : State τ) :
    Kept create state (writeHashBestChain s hash refusal state).2 := by
  rw [BestChain.writeHashBestChain]
  split
  · exact .of_view rfl rfl fun _ h => h
  · exact .refl state

theorem kept_invalidChainFound (pindexNew : IndexPtr) (state : State τ) :
    Kept create state
      (invalidChainFound s create pindexNew state) := by
  rw [invalidChainFound]
  split
  · -- the write changes one field of whichever data it reaches
    have hwrite : ∀ (hash : UInt256) (txdb : NodeDb τ), InDb hash txdb →
        InDb hash (if s.writeBestInvalidTrust (nChainTrust pindexNew) then
          { txdb with bestInvalidTrust := some (nChainTrust pindexNew) } else txdb) := by
      intro hash txdb hin
      split
      · exact hin
      · exact hin
    cases create with
    | false => exact .of_view rfl rfl fun hash => hwrite hash _
    | true =>
      exact ⟨rfl, (by simp),
        fun hash h => ⟨hwrite hash _ h.1, fun _ => hwrite hash _ (h.2 rfl)⟩⟩
  · exact .refl state

theorem kept_setBestChainInner (entry : IndexEntry) (pprev : IndexPtr) (block : CBlock)
    (state : State τ) :
    Kept create state
      (setBestChainInner s create entry pprev block state).2 := by
  have hwritten : Kept create state
      (andThen (connectOrLeave s entry pprev block state)
        (writeHashBestChain s (s.env.getBlockHash block) .silent)).2 :=
    .andThen (.of_moved (moved_connectOrLeave entry pprev block state))
      (kept_writeHashBestChain _ _)
  rw [setBestChainInner]
  split
  · rename_i written heq
    rw [heq] at hwritten
    exact (hwritten.trans (kept_commitIf written)).trans (.of_memory rfl)
  · rename_i written heq
    rw [heq] at hwritten
    exact (hwritten.trans (kept_abortIf written)).trans (kept_invalidChainFound _ _)
  · exact hwritten

theorem kept_reorganize (pindexNew : IndexPtr) (state : State τ) :
    Kept create state (reorganize s create pindexNew state).2 := by
  rw [reorganize]
  split
  · exact .refl state
  refine .andThen (.of_moved (moved_disconnectBlocks _ state)) fun disconnected => ?_
  refine .andThen (.of_moved (moved_connectBlocks _ disconnected)) fun connected => ?_
  refine .andThen (kept_writeHashBestChain _ _ connected) fun written => ?_
  exact (kept_commitIf written).trans (.of_memory rfl)

theorem kept_connectPostponed (list : List IndexPtr) (state : State τ) :
    Kept create state (connectPostponed s create list state).2 := by
  induction list generalizing state with
  | nil => exact .refl state
  | cons pindex rest ih =>
    cases pindex with
    | nil => exact .refl state
    | cons entry pprev =>
      rw [connectPostponed]
      split
      · exact .refl state
      rename_i block hread
      have hinner : Kept create state
          (setBestChainInner s create entry pprev block state).2 :=
        kept_setBestChainInner entry pprev block state
      split
      · rename_i next heq
        rw [heq] at hinner
        exact hinner.trans (ih next)
      · rename_i next heq
        rw [heq] at hinner
        exact hinner
      · exact hinner

theorem kept_setBestChain (entry : IndexEntry) (pprev : IndexPtr) (block : CBlock)
    (state : State τ) :
    Kept create state
      (setBestChain s create entry pprev block state).2 := by
  rw [setBestChain]
  refine .andThen ?_ fun next => .of_memory rfl
  split
  · rw [startChain]
    exact ((kept_writeHashBestChain _ _ state).trans (kept_commitIf _)).trans (.of_memory rfl)
  split
  · rw [orError_state]
    exact kept_setBestChainInner entry pprev block state
  rw [switchChain]
  have hreorganize : Kept create state (reorganize s create
      (postpone (nChainTrust state.memory.pindexBest) (entry :: pprev)).2 state).2 :=
    kept_reorganize _ state
  dsimp only
  split
  · rename_i next heq
    rw [heq] at hreorganize
    exact hreorganize.trans (kept_connectPostponed _ next)
  · rename_i next heq
    rw [heq] at hreorganize
    exact (hreorganize.trans (kept_abortIf next)).trans (kept_invalidChainFound _ _)
  · exact hreorganize

end Kept

section Trace

variable {τ : Type} {a : Acceptance τ} {block : CBlock} {state : State τ}

/-- A call has changed neither the tree with its best chain nor the database. -/
structure NoTrace (state final : State τ) : Prop where
  mapBlockIndex_eq : final.memory.mapBlockIndex = state.memory.mapBlockIndex
  setStakeSeen_eq : final.memory.setStakeSeen = state.memory.setStakeSeen
  pnext_eq : final.memory.pnext = state.memory.pnext
  pindexBest_eq : final.memory.pindexBest = state.memory.pindexBest
  committed_eq : final.committed = state.committed

/-- The block passes every check that comes before its entry is put into the tree. -/
def EntersTree (a : Acceptance τ) (block : CBlock) (state : State τ) : Prop :=
  a.writeBlock = true ∧ ∃ hashProof, checkAcceptable a state block = .ok hashProof ∧
    ∃ entry pprev, makeEntry a state.memory block hashProof = .ok (entry, pprev)

def Stored (state : State τ) : Prop :=
  ∀ hash, (state.memory.mapBlockIndex hash).isSome → InDb hash state.committed

variable {hashProof : UInt256} {entry : IndexEntry} {pprev : IndexPtr}

theorem makeEntry_eq_ok (h : makeEntry a memory block hashProof = .ok (entry, pprev)) :
    entry.hashBlock = a.surroundings.env.getBlockHash block ∧
      entry.blockKeyInDB = entry.hashBlock ∧
      pprev = (memory.mapBlockIndex block.hashPrevBlock).getD [] ∧
      memory.mapBlockIndex entry.hashBlock = none := by
  obtain ⟨_, hnew, h⟩ := bind_eq_ok.mp h
  split at h
  · cases h
  obtain ⟨_, -, h⟩ := bind_eq_ok.mp h
  cases h
  exact ⟨rfl, rfl, rfl, ensure_eq_ok.mp hnew⟩

theorem orError_error (message : String) (refusal : Refusal) (next : State τ) :
    ∃ refusal', orError message (.error refusal, next) = (.error refusal', next) := by
  cases refusal with
  | returned nDoS text => exact ⟨_, rfl⟩
  | thrown what => exact ⟨_, rfl⟩
  | outOfBounds storage => exact ⟨_, rfl⟩
  | assertFailed => exact ⟨_, rfl⟩

theorem writeToDisk_ok (hwrite : a.writeBlock = true)
    (h : addToBlockIndex a block hashProof (beginWrite a block state) = (.ok (), next)) :
    writeToDisk a block hashProof state = (.ok (), commitIf true next) := by
  rw [writeToDisk, if_pos hwrite, h]
  rfl

theorem writeToDisk_error (hwrite : a.writeBlock = true)
    (h : addToBlockIndex a block hashProof (beginWrite a block state) = (.error refusal, next)) :
    ∃ refusal', writeToDisk a block hashProof state = (.error refusal', abortIf true next) := by
  obtain ⟨refusal', herror⟩ := orError_error "AcceptBlock() : AddToBlockIndex failed" refusal next
  refine ⟨refusal', ?_⟩
  rw [writeToDisk, if_pos hwrite, h, herror]

variable (hcheck : checkAcceptable a state block = .ok hashProof)
include hcheck

theorem acceptBlock_ok (h : writeToDisk a block hashProof state = (.ok (), next)) :
    acceptBlock a block state = acceptPendingSyncCheckpoint a next := by
  rw [acceptBlock, hcheck]
  dsimp only
  rw [h]
  rfl

theorem acceptBlock_error (h : writeToDisk a block hashProof state = (.error refusal, next)) :
    ∃ refusal', acceptBlock a block state = (.error refusal', next) := by
  obtain ⟨refusal', herror⟩ := orError_error "AcceptBlock() : WriteToDisk failed" refusal next
  refine ⟨refusal', ?_⟩
  rw [acceptBlock, hcheck]
  dsimp only
  rw [h, herror]
  rfl

omit hcheck

theorem noTrace_of_not_enters (h : ¬ EntersTree a block state) :
    NoTrace state (acceptBlock a block state).2 := by
  cases hcheck : checkAcceptable a state block with
  | error refusal =>
    rw [acceptBlock, hcheck]
    exact ⟨rfl, rfl, rfl, rfl, rfl⟩
  | ok hashProof =>
    have hwritten : ∃ refusal next, writeToDisk a block hashProof state = (.error refusal, next) ∧
        NoTrace state next := by
      by_cases hwrite : a.writeBlock = true
      · cases hentry : makeEntry a state.memory block hashProof with
        | error refusal =>
          have hadd : addToBlockIndex a block hashProof (beginWrite a block state) =
              (.error refusal, beginWrite a block state) := by
            rw [addToBlockIndex]
            change (match makeEntry a state.memory block hashProof with
              | .error refusal => _
              | .ok (entry, pprev) => _) = _
            rw [hentry]
          obtain ⟨refusal', herror⟩ := writeToDisk_error hwrite hadd
          exact ⟨refusal', _, herror, rfl, rfl, rfl, rfl, rfl⟩
        | ok made =>
          exact absurd ⟨hwrite, hashProof, hcheck, made.1, made.2, hentry⟩ h
      · refine ⟨.silent, abortIf true state, ?_, rfl, rfl, rfl, rfl, rfl⟩
        rw [writeToDisk, if_neg hwrite]
    obtain ⟨refusal, next, hwritten, htrace⟩ := hwritten
    obtain ⟨refusal', herror⟩ := acceptBlock_error hcheck hwritten
    rw [herror]
    exact htrace

theorem kept_addToBlockIndex (h : makeEntry a state.memory block hashProof = .ok (entry, pprev)) :
    Kept false (insertBlock a entry pprev state) (addToBlockIndex a block hashProof state).2 := by
  rw [addToBlockIndex, h]
  dsimp only
  split
  · exact kept_setBestChain entry pprev block _
  · exact .refl _

theorem kept_acceptPending (state : State τ) :
    Kept true { state with txdb := state.committed }
      { (acceptPendingSyncCheckpoint a state).2 with
        txdb := (acceptPendingSyncCheckpoint a state).2.committed } := by
  have hsame : Kept true { state with txdb := state.committed }
      { state with txdb := state.committed } := .refl _
  rw [acceptPendingSyncCheckpoint]
  split
  · rename_i entry pprev hpending
    split
    · exact hsame
    split
    · exact hsame
    rename_i block hread
    have hkept : Kept true { state with txdb := state.committed }
        (abortIf true (setBestChain a.pending true entry pprev block
          { state with txdb := state.committed }).2) :=
      (kept_setBestChain entry pprev block _).trans (kept_abortIf _)
    split
    · rename_i final heq
      rw [heq] at hkept
      exact hkept
    · exact hkept
  · exact hsame

theorem Stored.pending (h : Stored state) :
    Stored (acceptPendingSyncCheckpoint a state).2 := by
  intro hash hsome
  have hkept := kept_acceptPending (a := a) state
  refine (hkept.holds hash ?_).1
  have hmap := hkept.mapBlockIndex_eq
  dsimp only at hmap
  rw [hmap] at hsome
  exact ⟨h hash hsome, fun _ => h hash hsome⟩

/-- The block that enters the tree can be found there, whatever becomes of the call. -/
theorem mapBlockIndex_of_enters (h : EntersTree a block state) :
    ((acceptBlock a block state).2.memory.mapBlockIndex
        (a.surroundings.env.getBlockHash block)).isSome ∧
      state.memory.mapBlockIndex (a.surroundings.env.getBlockHash block) = none := by
  obtain ⟨hwrite, hashProof, hcheck, entry, pprev, hentry⟩ := h
  have hkept : Kept false (insertBlock a entry pprev (beginWrite a block state))
      (addToBlockIndex a block hashProof (beginWrite a block state)).2 :=
    kept_addToBlockIndex hentry
  obtain ⟨hhash, -, -, hnew⟩ := makeEntry_eq_ok hentry
  rw [← hhash]
  refine ⟨?_, hnew⟩
  have hfound : (insertBlock a entry pprev (beginWrite a block state)).memory.mapBlockIndex
      entry.hashBlock = some (entry :: pprev) := update_self _ _ _
  rw [← hkept.mapBlockIndex_eq] at hfound
  rcases hadd : addToBlockIndex a block hashProof (beginWrite a block state) with
    ⟨refusal | ⟨⟩, next⟩
  · rw [hadd] at hfound
    obtain ⟨refusal', herror⟩ := writeToDisk_error hwrite hadd
    obtain ⟨refusal'', herror⟩ := acceptBlock_error hcheck herror
    rw [herror]
    exact Option.isSome_of_eq_some hfound
  rw [hadd] at hfound
  rw [acceptBlock_ok hcheck (writeToDisk_ok hwrite hadd)]
  have hmap := (kept_acceptPending (a := a) (commitIf true next)).mapBlockIndex_eq
  dsimp only at hmap
  rw [hmap]
  exact Option.isSome_of_eq_some hfound

theorem Stored.inserted (h : Stored state) (hrecord : a.writeRecord = true)
    (hhash : entry.hashBlock = a.surroundings.env.getBlockHash block) {hash : UInt256}
    (hsome : ((insertBlock a entry pprev (beginWrite a block state)).memory.mapBlockIndex
      hash).isSome) :
    InDb hash (insertBlock a entry pprev (beginWrite a block state)).txdb := by
  have htxdb : (insertBlock a entry pprev (beginWrite a block state)).txdb =
      writeBlockIndex (insertEntry entry pprev state.memory) (entry :: pprev) 0
        (beginWrite a block state).txdb := if_pos hrecord
  have hblocks : (beginWrite a block state).txdb.blocks =
      update state.committed.blocks (a.surroundings.env.getBlockHash block)
        (some block) := rfl
  rw [htxdb, InDb, writeBlockIndex_blocks, hblocks, ← hhash]
  rcases eq_or_ne hash entry.hashBlock with rfl | hne
  · refine ⟨?_, ?_⟩
    · rw [update_self]
      rfl
    rw [writeBlockIndex]
    dsimp only
    rw [update_self]
    rfl
  have hmap : (insertBlock a entry pprev
      (beginWrite a block state)).memory.mapBlockIndex hash = state.memory.mapBlockIndex hash :=
    update_of_ne hne _ _
  rw [hmap] at hsome
  obtain ⟨hblock, hindex⟩ := h hash hsome
  refine ⟨?_, writeBlockIndex_recorded _ _ _ _ hindex⟩
  rwa [update_of_ne hne]

theorem Stored.call (h : Stored state)
    (hmeets : EntersTree a block state →
      (acceptBlock a block state).1 = .ok () ∧ a.writeRecord = true) :
    Stored (acceptBlock a block state).2 := by
  rcases Classical.em (EntersTree a block state) with henters | henters
  · obtain ⟨hok, hrecord⟩ := hmeets henters
    obtain ⟨hwrite, hashProof, hcheck, entry, pprev, hentry⟩ := henters
    have hkept : Kept false (insertBlock a entry pprev (beginWrite a block state))
        (addToBlockIndex a block hashProof (beginWrite a block state)).2 :=
      kept_addToBlockIndex hentry
    rcases hadd : addToBlockIndex a block hashProof (beginWrite a block state) with
      ⟨refusal | ⟨⟩, next⟩
    · obtain ⟨refusal', herror⟩ := writeToDisk_error hwrite hadd
      obtain ⟨refusal'', herror⟩ := acceptBlock_error hcheck herror
      rw [herror] at hok
      cases hok
    rw [acceptBlock_ok hcheck (writeToDisk_ok hwrite hadd)]
    refine Stored.pending fun hash hsome => ?_
    rw [hadd] at hkept
    refine (hkept.holds hash ⟨h.inserted hrecord (makeEntry_eq_ok hentry).1 ?_, ?_⟩).1
    · rw [← hkept.mapBlockIndex_eq]
      exact hsome
    · simp
  have htrace := noTrace_of_not_enters henters
  intro hash hsome
  rw [htrace.committed_eq]
  rw [htrace.mapBlockIndex_eq] at hsome
  exact h hash hsome

/-- Calls of `AcceptBlock`, each with its own surroundings, none of which refuses a
block that has entered the tree or fails to write its record. -/
inductive Runs : State τ → State τ → Prop
  | refl (state : State τ) : Runs state state
  | call {start state : State τ} (a : Acceptance τ) (block : CBlock) (hrun : Runs start state)
      (hmeets : EntersTree a block state →
        (acceptBlock a block state).1 = .ok () ∧ a.writeRecord = true) :
      Runs start (acceptBlock a block state).2

theorem Runs.stored (hrun : Runs start final) (h : Stored start) : Stored final := by
  induction hrun with
  | refl => exact h
  | call a block hrun hmeets ih => exact ih.call hmeets

/-- A refused block leaves no trace just in case it has not entered the tree. -/
theorem acceptBlock_noTrace_iff (τ : Type) :
    (∀ (a : Acceptance τ) (block : CBlock) (state final : State τ) (nDoS : Nat)
        (message : Option String),
      acceptBlock a block state = (.error (.returned nDoS message), final) →
        (NoTrace state final ↔ ¬ EntersTree a block state)) ∧
      ∀ start final : State τ, Stored start → Runs start final → Stored final := by
  refine ⟨fun a block state final nDoS message hcall => ?_,
    fun start final hstored hrun => hrun.stored hstored⟩
  have hfinal : final = (acceptBlock a block state).2 := by rw [hcall]
  rw [hfinal]
  refine ⟨fun htrace henters => ?_, noTrace_of_not_enters⟩
  obtain ⟨hfound, hnew⟩ := mapBlockIndex_of_enters henters
  rw [htrace.mapBlockIndex_eq, hnew] at hfound
  cases hfound

def openedMemory : Memory where
  mapBlockIndex := tableOf [[chainEntry 0 1]]
  amounts _ := ⟨0, 0⟩
  setStakeSeen _ := false
  pnext _ := none
  pindexGenesisBlock := [chainEntry 0 1]
  pindexBest := [chainEntry 0 1]
  hashBestChain := 100
  nBestHeight := 0
  nBestChainTrust := 1
  nBestInvalidTrust := 0

def openedDb : NodeDb Unit where
  blocks hash := if hash = 100 then some (chainBlock 0 0 0) else none
  blockIndexes hash := if hash = 100 then some ⟨chainEntry 0 1, ⟨0, 0⟩, 0, 0, 0⟩ else none
  txIndex _ := none
  hashBestChain := some 100
  bestInvalidTrust := none
  tokens := ()

def openedState : State Unit := ⟨openedMemory, openedDb, openedDb⟩

def calmAcceptance : Acceptance Unit where
  surroundings := calmSurroundings
  hashSyncCheckpoint := 100
  hashPendingCheckpoint := 0
  fStrictCheckpoints := true
  fDebug := false
  kernelHash _ _ _ _ _ _ := 0
  getPoWHash := workEnv.getBlockHash
  inputsFinal _ := true
  computeNextStakeModifier _ := some (0, true)
  checkStakeModifierCheckpoints _ := true
  checkDiskSpace := true
  writeBlock := true
  writeRecord := true
  pending := calmSurroundings

/-- A block after the genesis block whose coinbase creates some value. -/
def minedBlock (nVersion nValue : Int) : CBlock :=
  ⟨nVersion, 100, 1, 101, encode bnProofOfWorkLimit, 0,
    [⟨1, [⟨⟨0, 2 ^ 32 - 1⟩, [0x51, 1]⟩], [⟨nValue, [0x51]⟩], 0⟩], []⟩

theorem opened_stored : Stored openedState := by
  intro hash hsome
  have hhash : hash = 100 := by
    by_contra hne
    have hnone : openedState.memory.mapBlockIndex hash = none := by
      refine List.find?_eq_none.mpr fun pindex hmem => ?_
      rw [List.mem_singleton.mp hmem]
      simpa [getBlockHash, chainEntry] using fun h => hne h.symm
    rw [hnone] at hsome
    cases hsome
  rw [hhash]
  exact ⟨rfl, rfl⟩

/-- A block of an unknown version is refused without a trace, and a mined block is
accepted with its record. -/
theorem acceptBlock_noTrace_unknown_version :
    (∃ final, acceptBlock calmAcceptance (minedBlock 7 COIN) openedState =
        (.error (.dos 100 "AcceptBlock() : reject unknown block version 7"), final) ∧
      NoTrace openedState final) ∧
    ∃ final, Runs openedState final ∧ (final.memory.mapBlockIndex 101).isSome ∧ Stored final := by
  have hrun : Runs openedState (acceptBlock calmAcceptance (minedBlock 6 COIN) openedState).2 :=
    .call _ _ (.refl _) fun _ => ⟨by decide +kernel, rfl⟩
  refine ⟨⟨openedState, rfl, ?_⟩, _, hrun, by decide +kernel,
    (acceptBlock_noTrace_iff Unit).2 _ _ opened_stored hrun⟩
  refine ((acceptBlock_noTrace_iff Unit).1 calmAcceptance (minedBlock 7 COIN) _ _ _ _ rfl).mpr ?_
  rintro ⟨-, hashProof, hcheck, -⟩
  cases hcheck

/-- A coinbase that pays too much is found when the block is in the tree already. -/
theorem acceptBlock_refused_in_tree : ∃ final,
    acceptBlock calmAcceptance (minedBlock 6 MAX_MONEY) openedState =
        (.error (.logged "AcceptBlock() : WriteToDisk failed"), final) ∧
      openedState.memory.mapBlockIndex 101 = none ∧
      (final.memory.mapBlockIndex 101).isSome ∧
      final.committed.blocks 101 = none ∧ final.committed.blockIndexes 101 = none := by
  refine ⟨_, Prod.ext ?_ rfl, ?_, ?_, ?_, ?_⟩ <;> decide +kernel

end Trace

end Bfx.BlockAcceptance
