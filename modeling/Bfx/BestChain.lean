import Bfx.NodeState

/-!
`SetBestChain`: a new tip extends the best chain or replaces a part of it. The
database handle of the call sees its own writes, every other handle sees what is
committed. The wallet, the memory pool and the user interface are left out.
-/

namespace Bfx.BestChain

open BlockConnection BlockTree CallOutcome ChainIndex Function HexText InputConnection List
  MintingBound NodeState SpentIndex TokenTransaction Transaction

section State

/-- Memory, the committed data, and the data as the handle of the call sees it. -/
structure State (τ : Type) where
  memory : Memory
  committed : NodeDb τ
  txdb : NodeDb τ

/-- The token layer that `ConnectBlock` calls. -/
structure TokenLayer (τ : Type) where
  getAllBFXTInputsOfTx : ChainEnv → NodeDb τ → CTransaction →
    (UInt256 → Option (List InputPair)) → (UInt256 → Option CTxIndex) → Outcome (List InputPair)
  assertIssuanceUniquenessInBlock : ChainEnv → State τ → (Bytes → Option UInt256) →
    CTransaction → (UInt256 → Option (List InputPair)) → (UInt256 → Option CTxIndex) →
    Outcome (Bytes → Option UInt256)
  /-- The tables are those after the call, also if it throws. -/
  writeBFXTBlockTransactionsToDisk : ChainEnv → NodeDb τ → List CTransaction → Outcome Unit × τ

/-- What `ConnectBlock` may have done before it fails. -/
structure Unfinished (τ : Type) where
  amounts : Amounts
  recordWritten : Bool
  txIndex : UInt256 → Option CTxIndex
  tokens : τ

/-- What a call finds outside of the state: whether writes succeed and what failed
calls leave, by the hash of the block that is connected or disconnected. -/
structure Surroundings (τ : Type) where
  env : ChainEnv
  hashGenesisBlock : UInt256
  tokens : TokenLayer τ
  /-- The memory pool when a block is connected. -/
  mempoolLookup : UInt256 → UInt256 → Option CTransaction
  writeBlockIndex : UInt256 → CBlockIndex → Bool
  updateTxIndex : UInt256 → (UInt256 → Option CTxIndex) → Bool
  disconnectDB : UInt256 → DisconnectDB
  writeHashBestChain : UInt256 → Bool
  writeBestInvalidTrust : Nat → Bool
  unfinished : UInt256 → NodeDb τ → Option (Unfinished τ)
  halfDisconnected : UInt256 → NodeDb τ → UInt256 → Option CTxIndex

variable {τ : Type}

/-- A call that returns false leaves a state, too. -/
def andThen (result : Verdict Unit × State τ) (next : State τ → Verdict Unit × State τ) :
    Verdict Unit × State τ :=
  match result with
  | (.ok (), state) => next state
  | (.error refusal, state) => (.error refusal, state)

/-- `return error(message)` after a call that returned false. -/
def orError (message : String) (result : Verdict Unit × State τ) : Verdict Unit × State τ :=
  match result with
  | (.error (.returned _ _), state) => (.error (.logged message), state)
  | other => other

/-- `TxnCommit`, if the transaction is that of the call. -/
def commitIf (createDbTransaction : Bool) (state : State τ) : State τ :=
  if createDbTransaction then { state with committed := state.txdb } else state

def abortIf (createDbTransaction : Bool) (state : State τ) : State τ :=
  if createDbTransaction then { state with txdb := state.committed } else state

def nChainTrust (pindex : IndexPtr) : Nat := (pindex.head?.map (·.nChainTrust)).getD 0

end State

section Database

variable {τ : Type}

def txAt (env : ChainEnv) (nTxPos : Nat) : Nat → List CTransaction → Option CTransaction
  | _, [] => none
  | pos, tx :: vtx =>
    if pos = nTxPos then some tx else txAt env nTxPos (pos + env.getSerializeSize tx) vtx

def readTx (env : ChainEnv) (txdb : NodeDb τ) (pos : CDiskTxPos) : Option CTransaction :=
  (txdb.blocks pos.nBlockPos).bind fun block =>
    txAt env pos.nTxPos (firstTxPos false block) block.vtx

def readFromDisk (env : ChainEnv) (txdb : NodeDb τ) (pindex : IndexPtr) : Option CBlock :=
  pindex.head?.bind fun entry => (txdb.blocks entry.blockKeyInDB).bind fun block =>
    if env.getBlockHash block = entry.hashBlock then some block else none

/-- The record of an entry; the link to the next block is given. -/
def writeBlockIndex (memory : Memory) (pindex : IndexPtr) (hashNext : UInt256) (txdb : NodeDb τ) :
    NodeDb τ :=
  match pindex with
  | [] => txdb
  | entry :: pprev =>
    { txdb with
      blockIndexes := update txdb.blockIndexes entry.hashBlock
        (some ⟨entry, memory.amounts entry.hashBlock, nHeight pindex, getBlockHash pprev,
          hashNext⟩) }

variable (s : Surroundings τ)

def toCTxDB (txdb : NodeDb τ) (hash : UInt256) : CTxDB where
  readTxIndex := txdb.txIndex
  readTx := readTx s.env txdb
  readBlockTime key := (txdb.blocks key).map fun block => (block.nTime : Int)
  writeBlockIndex := s.writeBlockIndex hash
  updateTxIndex := s.updateTxIndex hash

def connectEnv (state : State τ) (hash : UInt256) : ChainEnv :=
  let env := { s.env with
    nBestHeight := state.memory.nBestHeight
    mempoolLookup := s.mempoolLookup hash }
  { env with
    getAllBFXTInputsOfTx := s.tokens.getAllBFXTInputsOfTx env state.txdb
    assertIssuanceUniquenessInBlock := s.tokens.assertIssuanceUniquenessInBlock env state }

/-- The changes that are queued when the loop over the transactions is done. -/
def queuedChanges (env : ChainEnv) (txdb : CTxDB) (index : CBlockIndex)
    (ancestors : List CBlockIndex) (block : CBlock) : UInt256 → Option CTxIndex :=
  match connectTransactions env txdb block index ancestors false block.vtx
    (initialState false block) with
  | .ok final => final.mapQueuedChanges
  | .error _ => fun _ => none

/-- `ConnectBlock`; the tokens are written when the index has been updated. -/
def connectBlockIn (state : State τ) (entry : IndexEntry) (pprev : IndexPtr) (block : CBlock) :
    Verdict (State τ) := do
  let env := connectEnv s state entry.hashBlock
  let txdb := toCTxDB s state.txdb entry.hashBlock
  let index := toCBlockIndex state.memory.amounts entry pprev.length
  let ancestors := toCBlockIndexes state.memory.amounts pprev
  let updated := { state.txdb with
    txIndex := currentIndex txdb (queuedChanges env txdb index ancestors block) }
  let written := s.tokens.writeBFXTBlockTransactionsToDisk env updated block.vtx
  let connected ← connectBlock { env with writeBFXTBlockTransactionsToDisk := fun _ => written.1 }
    txdb index ancestors false block
  let memory := { state.memory with
    amounts := update state.memory.amounts entry.hashBlock
      ⟨connected.pindex.nMint, connected.pindex.nMoneySupply⟩ }
  let hashNext := (memory.pnext entry.hashBlock).getD 0
  .ok { state with
    memory := memory
    txdb := writeBlockIndex memory pprev entry.hashBlock
      (writeBlockIndex memory (entry :: pprev) hashNext
        { state.txdb with
          txIndex := currentIndex txdb connected.mapQueuedChanges
          tokens := written.2 }) }

def leaveUnfinished (entry : IndexEntry) (pprev : IndexPtr) (state : State τ) : State τ :=
  match s.unfinished entry.hashBlock state.txdb with
  | none => state
  | some left =>
    let memory := { state.memory with
      amounts := update state.memory.amounts entry.hashBlock left.amounts }
    let hashNext := (memory.pnext entry.hashBlock).getD 0
    let txdb := { state.txdb with txIndex := left.txIndex, tokens := left.tokens }
    { state with
      memory := memory
      txdb := if left.recordWritten then writeBlockIndex memory (entry :: pprev) hashNext txdb
        else txdb }

/-- `ConnectBlock` with the state that it leaves. -/
def connectOrLeave (entry : IndexEntry) (pprev : IndexPtr) (block : CBlock) (state : State τ) :
    Verdict Unit × State τ :=
  match connectBlockIn s state entry pprev block with
  | .ok connected => (.ok (), connected)
  | .error refusal => (.error refusal, leaveUnfinished s entry pprev state)

def disconnectOrLeave (entry : IndexEntry) (pprev : IndexPtr) (block : CBlock) (state : State τ) :
    Verdict Unit × State τ :=
  match disconnectBlock (s.disconnectDB entry.hashBlock) s.env.getHash
    (toCBlockIndexes state.memory.amounts pprev).head? block state.txdb.txIndex with
  | .ok index =>
    (.ok (), { state with
      txdb := writeBlockIndex state.memory pprev 0 { state.txdb with txIndex := index } })
  | .error refusal =>
    (.error refusal, { state with
      txdb := { state.txdb with txIndex := s.halfDisconnected entry.hashBlock state.txdb } })

def writeHashBestChain (hash : UInt256) (refusal : Refusal) (state : State τ) :
    Verdict Unit × State τ :=
  if s.writeHashBestChain hash then
    (.ok (), { state with txdb := { state.txdb with hashBestChain := some hash } })
  else (.error refusal, state)

/-- The result of the write is ignored. When the call has its own transaction, it
has been aborted and the write is committed by itself. -/
def invalidChainFound (createDbTransaction : Bool) (pindexNew : IndexPtr) (state : State τ) :
    State τ :=
  if nChainTrust pindexNew > state.memory.nBestInvalidTrust then
    let write (txdb : NodeDb τ) : NodeDb τ :=
      if s.writeBestInvalidTrust (nChainTrust pindexNew) then
        { txdb with bestInvalidTrust := some (nChainTrust pindexNew) }
      else txdb
    { memory := { state.memory with nBestInvalidTrust := nChainTrust pindexNew }
      committed := if createDbTransaction then write state.committed else state.committed
      txdb := write state.txdb }
  else state

end Database

section SetBestChain

variable {τ : Type} (s : Surroundings τ)

def unlink (pnext : UInt256 → Option UInt256) (pindex : IndexPtr) : UInt256 → Option UInt256 :=
  match pindex with
  | _ :: parent :: _ => update pnext parent.hashBlock none
  | _ => pnext

def link (pnext : UInt256 → Option UInt256) (pindex : IndexPtr) : UInt256 → Option UInt256 :=
  match pindex with
  | entry :: parent :: _ => update pnext parent.hashBlock (some entry.hashBlock)
  | _ => pnext

def setBestChainInner (createDbTransaction : Bool) (entry : IndexEntry) (pprev : IndexPtr)
    (block : CBlock) (state : State τ) : Verdict Unit × State τ :=
  match andThen (connectOrLeave s entry pprev block state)
    (writeHashBestChain s (s.env.getBlockHash block) .silent) with
  | (.ok (), state) =>
    let state := commitIf createDbTransaction state
    (.ok (), { state with
      memory := { state.memory with pnext := link state.memory.pnext (entry :: pprev) } })
  | (.error (.returned _ _), state) =>
    (.error .silent, invalidChainFound s createDbTransaction (entry :: pprev)
      (abortIf createDbTransaction state))
  | other => other

/-- The inner loop of the search for the fork. -/
def stepDown (pfork : IndexPtr) : IndexPtr → Option IndexPtr
  | [] => none
  | entry :: pprev =>
    if nHeight (entry :: pprev) > nHeight pfork then stepDown pfork pprev
    else some (entry :: pprev)

def findFork : IndexPtr → IndexPtr → Verdict IndexPtr
  | [], _ => .error (.logged "Reorganize() : pfork->pprev is null")
  | entry :: pprev, plonger =>
    if entry :: pprev = plonger then .ok plonger
    else
      match stepDown (entry :: pprev) plonger with
      | none => .error (.logged "Reorganize() : plonger->pprev is null")
      | some plonger =>
        if entry :: pprev = plonger then .ok plonger else findFork pprev plonger

/-- The entries from one entry down to the fork, without the fork. -/
def above (pfork : IndexPtr) : IndexPtr → List IndexPtr
  | [] => []
  | entry :: pprev =>
    if entry :: pprev = pfork then [] else (entry :: pprev) :: above pfork pprev

/-- The blocks that are disconnected are read by a handle of their own. -/
def disconnectBlocks : List IndexPtr → State τ → Verdict Unit × State τ
  | [], state => (.ok (), state)
  | [] :: _, state => (.error .assertFailed, state)
  | (entry :: pprev) :: rest, state =>
    match readFromDisk s.env state.committed (entry :: pprev) with
    | none => (.error (.logged "Reorganize() : ReadFromDisk for disconnect failed"), state)
    | some block =>
      andThen (orError ("Reorganize() : DisconnectBlock " ++ entry.hashBlock.toHex ++ " failed")
        (disconnectOrLeave s entry pprev block state)) (disconnectBlocks rest)

def connectBlocks : List IndexPtr → State τ → Verdict Unit × State τ
  | [], state => (.ok (), state)
  | [] :: _, state => (.error .assertFailed, state)
  | (entry :: pprev) :: rest, state =>
    match readFromDisk s.env state.txdb (entry :: pprev) with
    | none => (.error (.logged "Reorganize() : ReadFromDisk for connect failed"), state)
    | some block =>
      andThen (orError ("Reorganize() : ConnectBlock " ++ entry.hashBlock.toHex ++ " failed")
        (connectOrLeave s entry pprev block state)) (connectBlocks rest)

/-- Memory is changed after everything has been written. -/
def reorganize (createDbTransaction : Bool) (pindexNew : IndexPtr) (state : State τ) :
    Verdict Unit × State τ :=
  match findFork state.memory.pindexBest pindexNew with
  | .error refusal => (.error refusal, state)
  | .ok pfork =>
    let vDisconnect := above pfork state.memory.pindexBest
    let vConnect := (above pfork pindexNew).reverse
    andThen (disconnectBlocks s vDisconnect state) fun state =>
    andThen (connectBlocks s vConnect state) fun state =>
    andThen (writeHashBestChain s (getBlockHash pindexNew)
      (.logged "Reorganize() : WriteHashBestChain failed") state) fun state =>
    let state := commitIf createDbTransaction state
    (.ok (), { state with
      memory := { state.memory with
        pnext := vConnect.foldl link (vDisconnect.foldl unlink state.memory.pnext) } })

/-- The blocks that are left for later, the newest first, and the first block that
makes the new chain the best one. -/
def postpone (nBestTrust : Nat) : IndexPtr → List IndexPtr × IndexPtr
  | [] => ([], [])
  | entry :: pprev =>
    if pprev ≠ [] ∧ nChainTrust pprev > nBestTrust then
      ((entry :: pprev) :: (postpone nBestTrust pprev).1, (postpone nBestTrust pprev).2)
    else ([], entry :: pprev)

/-- A postponed block that cannot be read or connected ends the loop. -/
def connectPostponed (createDbTransaction : Bool) :
    List IndexPtr → State τ → Verdict Unit × State τ
  | [], state => (.ok (), state)
  | [] :: _, state => (.error .assertFailed, state)
  | (entry :: pprev) :: rest, state =>
    match readFromDisk s.env state.txdb (entry :: pprev) with
    | none => (.ok (), state)
    | some block =>
      match setBestChainInner s createDbTransaction entry pprev block state with
      | (.ok (), state) => connectPostponed createDbTransaction rest state
      | (.error (.returned _ _), state) => (.ok (), state)
      | other => other

def startChain (createDbTransaction : Bool) (pindexNew : IndexPtr) (hash : UInt256)
    (state : State τ) : State τ :=
  let state := commitIf createDbTransaction (writeHashBestChain s hash .silent state).2
  { state with memory := { state.memory with pindexGenesisBlock := pindexNew } }

def switchChain (createDbTransaction : Bool) (pindexNew : IndexPtr) (state : State τ) :
    Verdict Unit × State τ :=
  let (vpindexSecondary, pindexIntermediate) :=
    postpone (nChainTrust state.memory.pindexBest) pindexNew
  match reorganize s createDbTransaction pindexIntermediate state with
  | (.ok (), state) => connectPostponed s createDbTransaction vpindexSecondary.reverse state
  | (.error (.returned _ _), state) =>
    (.error (.logged "SetBestChain() : Reorganize failed"),
      invalidChainFound s createDbTransaction pindexNew (abortIf createDbTransaction state))
  | other => other

/-- The new best block, whatever has been connected. -/
def adopt (hash : UInt256) (pindexNew : IndexPtr) (state : State τ) : State τ :=
  { state with
    memory := { state.memory with
      hashBestChain := hash
      pindexBest := pindexNew
      nBestHeight := nHeight pindexNew
      nBestChainTrust := nChainTrust pindexNew } }

def setBestChain (createDbTransaction : Bool) (entry : IndexEntry) (pprev : IndexPtr)
    (block : CBlock) (state : State τ) : Verdict Unit × State τ :=
  let hash := s.env.getBlockHash block
  andThen
    (if state.memory.pindexGenesisBlock = [] ∧ hash = s.hashGenesisBlock then
      (.ok (), startChain s createDbTransaction (entry :: pprev) hash state)
    else if block.hashPrevBlock = state.memory.hashBestChain then
      orError "SetBestChain() : SetBestChainInner failed"
        (setBestChainInner s createDbTransaction entry pprev block state)
    else switchChain s createDbTransaction (entry :: pprev) state)
    fun state => (.ok (), adopt hash (entry :: pprev) state)

end SetBestChain

section Results

variable {τ : Type} {final : State τ}

theorem andThen_eq_ok {next : State τ → Verdict Unit × State τ} :
    andThen result next = (.ok (), final) ↔
      ∃ middle, result = (.ok (), middle) ∧ next middle = (.ok (), final) := by
  rcases result with ⟨refusal | _, middle⟩
  · simp [andThen]
  · simp [andThen]

theorem orError_state (message : String) (result : Verdict Unit × State τ) :
    (orError message result).2 = result.2 := by
  rcases result with ⟨(_ | _ | _ | _) | _, middle⟩ <;> rfl

theorem orError_eq_ok : orError message result = (.ok (), final) ↔ result = (.ok (), final) := by
  rcases result with ⟨(_ | _ | _ | _) | _, middle⟩ <;> simp [orError]

end Results

section IndexBlocks

def txBlock (index : UInt256 → Option CTxIndex) (hash : UInt256) : Option UInt256 :=
  (index hash).map (·.pos.nBlockPos)

theorem txBlock_eq_positions (index : UInt256 → Option CTxIndex) (hash : UInt256) :
    txBlock index hash = (positions index hash).map (·.nBlockPos) := by
  rw [positions, Option.map_map]
  rfl

theorem txBlock_isSome (index : UInt256 → Option CTxIndex) (hash : UInt256) :
    (txBlock index hash).isSome = (index hash).isSome :=
  Option.isSome_map

/-- A transaction of the block is put at its place in the block. -/
def PlacedAt (env : ChainEnv) (key : UInt256) (nTxPos : Nat) (vtx : List CTransaction)
    (hash : UInt256) (pos : Option CDiskTxPos) : Prop :=
  ∃ before tx after, vtx = before ++ tx :: after ∧ env.getHash tx = hash ∧
    pos = some ⟨key, nTxPos + (before.map env.getSerializeSize).sum⟩

variable {getHash : CTransaction → UInt256}

theorem connectTransactions_positions
    (hpos : state.nTxPos + (vtx.map env.getSerializeSize).sum < 2 ^ 32 - 1)
    (h : connectTransactions env txdb block pindex ancestors false vtx state = .ok final)
    (hash : UInt256) :
    (hash ∉ vtx.map env.getHash ∧ positions (currentIndex txdb final.mapQueuedChanges) hash =
        positions (currentIndex txdb state.mapQueuedChanges) hash) ∨
      PlacedAt env pindex.blockKeyInDB state.nTxPos vtx hash
        (positions (currentIndex txdb final.mapQueuedChanges) hash) := by
  induction vtx generalizing state with
  | nil =>
    cases h
    exact .inl ⟨not_mem_nil, rfl⟩
  | cons tx vtx ih =>
    rw [map_cons, sum_cons] at hpos
    obtain ⟨next, hnext, h⟩ := bind_eq_ok.mp h
    have hstep := connectTransaction_step (show state.nTxPos < 2 ^ 32 - 1 by omega) hnext
    have hnextPos : next.nTxPos = state.nTxPos + env.getSerializeSize tx := by
      rw [hstep.txPos_eq, nextTxPos, if_neg Bool.false_ne_true]
    rcases ih (by omega) h with ⟨hnot, heq⟩ | ⟨before, tx', after, hvtx, hhash, heq⟩
    · rw [heq, hstep.positions_eq]
      rcases eq_or_ne hash (env.getHash tx) with rfl | hne
      · rw [update_self]
        exact .inr ⟨[], tx, vtx, rfl, rfl, rfl⟩
      · rw [update_of_ne hne, map_cons, mem_cons, not_or]
        exact .inl ⟨⟨hne, hnot⟩, rfl⟩
    refine .inr ⟨tx :: before, tx', after, ?_, hhash, ?_⟩
    · rw [hvtx, cons_append]
    · rw [heq, hnextPos, map_cons, sum_cons, Nat.add_assoc]

variable {txdb : DisconnectDB} {index final : UInt256 → Option CTxIndex}

theorem positions_relinquishInputs (h : relinquishInputs txdb vin index = .ok final)
    (hash : UInt256) : positions final hash = positions index hash := by
  induction vin generalizing index with
  | nil =>
    cases h
    rfl
  | cons txin vin ih =>
    rw [relinquishInputs] at h
    split at h
    · cases h
    rename_i txindex htxindex
    obtain ⟨_, -, h⟩ := bind_eq_ok.mp h
    obtain ⟨_, -, h⟩ := bind_eq_ok.mp h
    rw [ih h, positions, positions]
    rcases eq_or_ne hash txin.prevout.hash with rfl | hne
    · rw [update_self, htxindex]
      rfl
    · rw [update_of_ne hne]

theorem positions_disconnectTransactions
    (h : disconnectTransactions txdb getHash vtx index = .ok final) (hash : UInt256) :
    positions final hash = if hash ∈ vtx.map getHash then none else positions index hash := by
  induction vtx generalizing index with
  | nil =>
    cases h
    rfl
  | cons tx vtx ih =>
    obtain ⟨next, hnext, h⟩ := bind_eq_ok.mp h
    obtain ⟨relinquished, hrelinquish, hnext⟩ := bind_eq_ok.mp hnext
    cases hnext
    have hsame : positions relinquished hash = positions index hash := by
      rw [relinquish] at hrelinquish
      split at hrelinquish
      · rw [Except.ok.inj hrelinquish]
      · exact positions_relinquishInputs hrelinquish hash
    rw [ih h, map_cons]
    by_cases hmem : hash ∈ vtx.map getHash
    · rw [if_pos hmem, if_pos (mem_cons_of_mem _ hmem)]
    rw [if_neg hmem]
    rcases eq_or_ne hash (getHash tx) with rfl | hne
    · rw [positions, update_self, if_pos mem_cons_self]
      rfl
    rw [positions, update_of_ne hne, ← positions, hsame, if_neg]
    rw [mem_cons, not_or]
    exact ⟨hne, hmem⟩

end IndexBlocks

end Bfx.BestChain
