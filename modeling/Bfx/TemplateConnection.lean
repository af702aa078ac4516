import Bfx.BlockTemplate
import Bfx.InputViews
import Bfx.NodeEnvironments
import Bfx.SymbolUniqueness

/-!
Blocks from `CreateNewBlock` in `ConnectBlock`: the template checks the tokens of
issuances only, so the transactions that it takes can be connected exactly if its
transfers and burns are valid.
-/

namespace Bfx.TemplateConnection

open BestChain BlockAcceptance BlockConnection BlockTemplate BlockTree CallOutcome ChainAgreement
  ChainIndex HexText InputConnection InputViews KeyTable MemoryPool NodeEnvironments NodeState
  SymbolUniqueness TokenInputs TokenReading TokenScript TokenSymbols TokenTransaction
  TransferInterpreter Transaction List Function

variable {queued queued' next : BlockState} {env : ChainEnv}

section Setting

variable (a : Acceptance TokenTables) (state : State TokenTables) (block : CBlock)
  (entry : IndexEntry)

/-- The node when `ConnectBlock` is called for a new block on the best chain. -/
def connecting : State TokenTables :=
  insertBlock a entry state.memory.pindexBest (beginWrite a block state)

def blockEnv : ChainEnv :=
  connectEnv a.surroundings (connecting a state block entry) entry.hashBlock

def blockDb : CTxDB := toCTxDB a.surroundings (connecting a state block entry).txdb entry.hashBlock

def blockIndex : CBlockIndex :=
  toCBlockIndex (connecting a state block entry).memory.amounts entry state.memory.pindexBest.length

def blockAncestors : List CBlockIndex :=
  toCBlockIndexes (connecting a state block entry).memory.amounts state.memory.pindexBest

def connectNext (tx : CTransaction) (queued : BlockState) : Verdict BlockState :=
  connectTransaction (blockEnv a state block entry) (blockDb a state block entry) block
    (blockIndex a state block entry) (blockAncestors a state block entry) false tx queued

def connectAll (vtx : List CTransaction) (queued : BlockState) : Verdict BlockState :=
  connectTransactions (blockEnv a state block entry) (blockDb a state block entry) block
    (blockIndex a state block entry) (blockAncestors a state block entry) false vtx queued

/-- The token data of a transfer or burn can be read from its inputs, when a part of the
block is queued. -/
def TransferValid (env : ChainEnv) (tx : CTransaction) (queued : BlockState) : Prop :=
  env.isForkActivated .tachyon = true → (isTxBFXT env.toNodeEnv tx).isSome →
    issuanceOf env.toNodeEnv tx = none →
    ∃ inputsTxs bfxttx,
      env.getAllBFXTInputsOfTx tx queued.mapQueuedBFXTInputs queued.mapQueuedChanges =
        .ok inputsTxs ∧
      readBFXTDataFromTx env.toNodeEnv emptyBFXTTransaction tx inputsTxs = .ok bfxttx

/-- Every transfer and every burn is valid behind the transactions before it. -/
def TransfersValid : List CTransaction → BlockState → Prop
  | [], _ => True
  | tx :: vtx, queued =>
    TransferValid (blockEnv a state block entry) tx queued ∧
      ∀ next, connectNext a state block entry tx queued = .ok next → TransfersValid vtx next

/-- A block on the best chain with the transactions of a template. Its hash and that of
its coinbase are new: no stored block has the one, and no transaction that the node
knows has or spends the other. -/
structure NextBlock (pool : CTxMemPool) (coinbase : CTransaction) (vtx : List CTransaction) :
    Prop where
  layer : a.surroundings.tokens = tokenLayer
  pool_eq : a.surroundings.mempoolLookup entry.hashBlock = fun hash => find hash pool
  size_pos : ∀ tx, 0 < a.surroundings.env.getSerializeSize tx
  vtx_eq : block.vtx = coinbase :: vtx
  coinBase : isCoinBase coinbase = true
  sigOps : getLegacySigOpCount coinbase ≤ 100
  made : ∃ hashProof,
    makeEntry a state.memory block hashProof = .ok (entry, state.memory.pindexBest)
  hash_ne_zero : entry.hashBlock ≠ 0
  unstored : ∀ key stored, state.committed.blocks key = some stored →
    a.surroundings.env.getBlockHash stored ≠ entry.hashBlock
  unindexed : ∀ hash txindex, state.committed.txIndex hash = some txindex →
    txindex.pos.nBlockPos ≠ entry.blockKeyInDB
  spending : ∀ tx, StoredTx state.committed tx → tx.vin ≠ []
  apart : ∀ tx, (StoredTx state.committed tx ∨ ∃ hash, find hash pool = some tx) →
    a.surroundings.env.getHash tx ≠ a.surroundings.env.getHash coinbase ∧
      ∀ txin ∈ tx.vin, txin.prevout.hash ≠ a.surroundings.env.getHash coinbase

/-- What the template and `ConnectBlock` read. -/
def views (pool : CTxMemPool) (coinbase : CTransaction) : Views where
  env := withPool a.surroundings.env state.memory pool
  miner := toReader (withPool a.surroundings.env state.memory pool) state.committed
  node := toReader (withPool a.surroundings.env state.memory pool)
    (connecting a state block entry).txdb
  key := entry.blockKeyInDB
  coinbase := a.surroundings.env.getHash coinbase

end Setting

section Node

variable {a : Acceptance TokenTables} {state : State TokenTables} {block : CBlock}
  {entry : IndexEntry} {pool : CTxMemPool} {coinbase : CTransaction} {vtx : List CTransaction}

theorem connecting_txIndex :
    (connecting a state block entry).txdb.txIndex = state.committed.txIndex :=
  (txdb_insertBlock a).2.1

theorem connecting_tokens :
    (connecting a state block entry).txdb.tokens = state.committed.tokens :=
  (txdb_insertBlock a).2.2

theorem connecting_blocks :
    (connecting a state block entry).txdb.blocks =
      update state.committed.blocks (a.surroundings.env.getBlockHash block) (some block) :=
  (txdb_insertBlock a).1

/-- What the template and `ConnectBlock` read, and where `ConnectBlock` runs. -/
abbrev NextBlock.views (_ : NextBlock a state block entry pool coinbase vtx) : Views :=
  TemplateConnection.views a state block entry pool coinbase

abbrev NextBlock.minerEnv (_ : NextBlock a state block entry pool coinbase vtx) : ChainEnv :=
  withPool a.surroundings.env state.memory pool

abbrev NextBlock.blockEnv (_ : NextBlock a state block entry pool coinbase vtx) : ChainEnv :=
  TemplateConnection.blockEnv a state block entry

abbrev NextBlock.connecting (_ : NextBlock a state block entry pool coinbase vtx) :
    State TokenTables :=
  TemplateConnection.connecting a state block entry

variable (h : NextBlock a state block entry pool coinbase vtx)

include h

theorem NextBlock.searchEnv_eq :
    searchEnv a.surroundings h.connecting.memory entry.hashBlock =
      withPool a.surroundings.env state.memory pool := by
  rw [searchEnv, withPool, h.pool_eq]
  rfl

theorem NextBlock.sameNode :
    SameNode h.minerEnv h.blockEnv where
  toNodeEnv_eq := rfl
  fTestNet_eq := rfl
  estimate_eq := rfl
  text_eq := rfl
  signature_eq := rfl
  pool_eq := h.pool_eq

theorem NextBlock.fetchInputs_eq :
    fetchInputs h.blockEnv (blockDb a state block entry) = fetchInputs h.minerEnv h.views.node := by
  refine fetchInputs_congr h.sameNode rfl ?_
  exact (@readTx_congr _ a.surroundings.env h.minerEnv rfl
    h.connecting.txdb).symm

theorem NextBlock.connectInputs_eq : connectInputs h.blockEnv = connectInputs h.minerEnv :=
  connectInputs_congr h.sameNode

theorem NextBlock.tokenInputs_eq :
    h.blockEnv.getAllBFXTInputsOfTx = fun tx tokens queue =>
      getAllBFXTInputsOfTx h.minerEnv
        h.views.node state.committed.tokens.bfxtTxs tokens queue
        tx := by
  have hlayer : h.blockEnv.getAllBFXTInputsOfTx =
      a.surroundings.tokens.getAllBFXTInputsOfTx
        (searchEnv a.surroundings h.connecting.memory entry.hashBlock)
        h.connecting.txdb := rfl
  rw [hlayer, h.layer, h.searchEnv_eq, ← @connecting_tokens a state block entry]
  rfl

theorem NextBlock.unique_eq :
    h.blockEnv.assertIssuanceUniquenessInBlock =
      assertIssuanceUniquenessInBlock h.minerEnv
        h.connecting := by
  have hlayer : h.blockEnv.assertIssuanceUniquenessInBlock =
      a.surroundings.tokens.assertIssuanceUniquenessInBlock
        (searchEnv a.surroundings h.connecting.memory entry.hashBlock)
        h.connecting := rfl
  rw [hlayer, h.layer, h.searchEnv_eq]
  rfl

theorem NextBlock.key_eq : entry.blockKeyInDB = a.surroundings.env.getBlockHash block := by
  obtain ⟨hashProof, hmade⟩ := h.made
  obtain ⟨hhash, hkey, -⟩ := makeEntry_eq_ok hmade
  exact hkey.trans hhash

theorem NextBlock.read_eq {hash : UInt256} (hpos : pos.nBlockPos ≠ entry.blockKeyInDB) :
    readPrev h.views.env h.views.node hash pos = readPrev h.views.env h.views.miner hash pos := by
  rw [h.key_eq] at hpos
  have hread : h.views.node.readTx pos =
      h.views.miner.readTx pos := by
    show readTx _ h.connecting.txdb pos = readTx _ state.committed pos
    rw [readTx, readTx, connecting_blocks, update_of_ne hpos]
  rw [readPrev, readPrev, hread]

theorem NextBlock.mirror {hash : UInt256} (hindex : state.committed.txIndex hash = some txindex) :
    Mirror h.views hash txindex txindex where
  length_eq := rfl
  null _ spent hspent hnull := ⟨spent, hspent, hnull⟩
  read_eq := h.read_eq (h.unindexed hash txindex hindex)
  mature := .inl ⟨rfl, h.unindexed hash txindex hindex⟩

theorem NextBlock.readsKnown (hpool : PoolOk a.surroundings.env.getHash state pool) :
    ReadsKnown h.views := by
  intro hash pos txPrev hread
  rw [readPrev] at hread
  have hknown : txPrev.vin ≠ [] ∧
      (StoredTx state.committed txPrev ∨ ∃ hash, find hash pool = some txPrev) := by
    split at hread
    · exact ⟨(hpool.found hread).2.vin_ne, .inr ⟨hash, hread⟩⟩
    obtain ⟨stored, hstored, hat⟩ := Option.bind_eq_some_iff.mp hread
    have htx : StoredTx state.committed txPrev := ⟨_, stored, hstored, mem_of_txAt hat⟩
    exact ⟨h.spending txPrev htx, .inl htx⟩
  obtain ⟨hhash, hvin⟩ := h.apart txPrev hknown.2
  exact ⟨hknown.1, hhash, hvin⟩

end Node

/-- The states of the two loops. Token inputs and symbols are only kept by `ConnectBlock`
when the fork is active. -/
structure Synced (v : Views) (queued : TemplateState) (queued' : BlockState) : Prop where
  queues : Mirrors v queued.mapTestPool queued'.mapQueuedChanges
  tokens : v.env.isForkActivated .tachyon = true →
    TokensMirror v queued.mapQueuedBFXTInputs queued'.mapQueuedBFXTInputs
  symbols : v.env.isForkActivated .tachyon = true →
    ∀ key, (queued'.issuedTokensSymbolsInThisBlock key).isSome →
      (queued.issuedTokensSymbolsInThisBlock key).isSome
  sigOps : queued'.nSigOps ≤ queued.nBlockSigOps

theorem Synced.addsSymbols {queued left : TemplateState} (h : Synced v queued queued')
    (hleft : AddsSymbols queued left) : Synced v left queued' := by
  obtain ⟨symbols, rfl, hsymbols⟩ := hleft
  exact ⟨h.queues, h.tokens, fun hactive key hkey => hsymbols key (h.symbols hactive key hkey),
    h.sigOps⟩

theorem NextBlock.synced (h : NextBlock a state block entry pool coinbase vtx)
    (hstart : connectNext a state block entry coinbase (initialState false block) = .ok start) :
    Synced h.views emptyTemplate start ∧
      start.nTxPos = firstTxPos false block + a.surroundings.env.getSerializeSize coinbase := by
  simp only [connectNext, connectTransaction, bind_eq_ok] at hstart
  obtain ⟨_, -, _, -, ⟨connected, inputsTxs⟩, hconnect, hstart⟩ := hstart
  cases hstart
  rw [connectByKind, if_pos h.coinBase] at hconnect
  obtain ⟨nValueOut, -, hconnect⟩ := bind_eq_ok.mp hconnect
  cases hconnect
  refine ⟨⟨⟨?_, ?_⟩, ?_, ?_, ?_⟩, rfl⟩
  · intro hash (hhash : hash ≠ h.blockEnv.getHash coinbase)
    rw [currentIndex, currentIndex]
    dsimp only
    rw [update_of_ne hhash]
    change Option.Rel _ (state.committed.txIndex hash) (h.connecting.txdb.txIndex hash)
    rw [connecting_txIndex]
    cases hindex : state.committed.txIndex hash with
    | none => exact .none
    | some txindex => exact .some (h.mirror hindex)
  · intro hash (hhash : hash ≠ h.blockEnv.getHash coinbase)
    dsimp only
    rw [update_of_ne hhash]
    rfl
  · intro _ hash (hhash : hash ≠ h.blockEnv.getHash coinbase)
    dsimp only
    rw [update_of_ne hhash]
    exact .none
  · rintro _ _ ⟨⟩
  show 0 + getLegacySigOpCount coinbase ≤ 100
  rw [Nat.zero_add]
  exact h.sigOps

section Symbols

variable {a : Acceptance TokenTables} {state : State TokenTables} {block : CBlock}
  {entry : IndexEntry} {pool : CTxMemPool} {coinbase : CTransaction} {vtx : List CTransaction}
  (h : NextBlock a state block entry pool coinbase vtx)

include h

/-- The new entry in the block tree puts no transaction into the main chain. -/
theorem NextBlock.isTxInMainChain {hash : UInt256}
    (hmain : isTxInMainChain h.minerEnv state.memory state.committed hash = .ok inMainChain) :
    ∃ inMainChain', isTxInMainChain h.minerEnv
        h.connecting.memory h.connecting.committed hash =
          .ok inMainChain' ∧ (inMainChain' = true → inMainChain = true) := by
  rw [TokenSymbols.isTxInMainChain] at hmain ⊢
  split at hmain
  · cases hmain
  rename_i hashBlock hfound
  have hne : hashBlock ≠ entry.hashBlock := by
    rw [getTransaction] at hfound
    split at hfound
    · rw [← Option.some.inj hfound]
      exact h.hash_ne_zero.symm
    split at hfound
    · cases hfound
    split at hfound
    · rw [← Option.some.inj hfound]
      exact h.hash_ne_zero.symm
    rename_i stored hstored
    rw [← Option.some.inj hfound]
    exact h.unstored _ stored hstored
  split at hmain
  · cases hmain
  rename_i pindex hpindex
  have hfound' : getTransaction h.minerEnv
      h.connecting.committed hash = some hashBlock := hfound
  have hpindex' : h.connecting.memory.mapBlockIndex hashBlock = some pindex := by
    show update _ _ _ hashBlock = _
    rw [update_of_ne hne]
    exact hpindex
  rw [hfound']
  dsimp only
  rw [hpindex']
  refine ⟨_, rfl, fun hin => ?_⟩
  rw [← Except.ok.inj hmain]
  have hlinked : ((update state.memory.pnext entry.hashBlock none
      (getBlockHash pindex)).isSome || pindex == state.memory.pindexBest) = true := hin
  rw [isInMainChain]
  rcases eq_or_ne (getBlockHash pindex) entry.hashBlock with heq | hother
  · rw [heq, update_self, Option.isSome_none, Bool.false_or] at hlinked
    rw [hlinked, Bool.or_true]
  · rwa [update_of_ne hother] at hlinked

theorem NextBlock.assertOtherSymbol {txHash hash : UInt256}
    (hassert : assertOtherSymbol h.minerEnv (opened state) sym txHash hash = .ok ()) :
    TokenSymbols.assertOtherSymbol h.minerEnv h.connecting sym txHash hash = .ok () := by
  obtain ⟨inMainChain, hmain, hassert⟩ := bind_eq_ok.mp hassert
  obtain ⟨inMainChain', hmain', himp⟩ := h.isTxInMainChain hmain
  refine bind_eq_ok.mpr ⟨inMainChain', hmain', ?_⟩
  split
  · rename_i hin
    rw [if_pos (himp hin)] at hassert
    rw [connecting_tokens]
    exact hassert
  · rfl

theorem NextBlock.assertNew (hassert : assertBFXTTokenNameIsNotAlreadyInMainChain h.minerEnv
      (opened state) bfxttx = .ok ()) :
    assertBFXTTokenNameIsNotAlreadyInMainChain h.minerEnv
      h.connecting bfxttx = .ok () := by
  have hall : ∀ sym txHash hashes, assertOtherSymbols
      h.minerEnv (opened state) sym txHash hashes = .ok () →
      assertOtherSymbols h.minerEnv
        h.connecting sym txHash hashes = .ok () := by
    intro sym txHash hashes
    induction hashes with
    | nil => exact fun _ => rfl
    | cons hash hashes ih =>
      intro hassert
      obtain ⟨_, hfirst, hrest⟩ := bind_eq_ok.mp hassert
      exact bind_eq_ok.mpr ⟨(), h.assertOtherSymbol hfirst, ih hrest⟩
  rw [assertBFXTTokenNameIsNotAlreadyInMainChain] at hassert ⊢
  split
  · rename_i htype
    rw [htype] at hassert
    obtain ⟨sym, hsym, hassert⟩ := bind_eq_ok.mp hassert
    refine bind_eq_ok.mpr ⟨sym, hsym, ?_⟩
    rw [connecting_tokens]
    exact hall _ _ _ hassert
  · rename_i htype
    rw [htype] at hassert
    cases hassert
  · rfl

omit h in
theorem noteSymbol_of_miner (hsymbols : ∀ key, (symbols' key).isSome → (symbols key).isSome)
    (hnote : noteSymbol symbols bfxttx = .ok noted) :
    ∃ noted', noteSymbol symbols' bfxttx = .ok noted' ∧
      ∀ key, (noted' key).isSome → (noted key).isSome := by
  rw [noteSymbol] at hnote ⊢
  split
  · rename_i htype
    rw [if_pos htype] at hnote
    obtain ⟨sym, hsym, hnote⟩ := bind_eq_ok.mp hnote
    rw [hsym, ok_bind]
    split at hnote
    · cases hnote
    rename_i hnew
    rw [if_neg fun hsome => hnew (hsymbols _ hsome)]
    cases hnote
    refine ⟨_, rfl, fun key hkey => ?_⟩
    rcases eq_or_ne key (toUpper sym) with rfl | hne
    · rw [update_self]
      rfl
    · rw [update_of_ne hne] at hkey ⊢
      exact hsymbols key hkey
  rename_i htype
  rw [if_neg htype] at hnote
  cases hnote
  exact ⟨symbols', rfl, hsymbols⟩

end Symbols

section Step

variable {a : Acceptance TokenTables} {state : State TokenTables} {block : CBlock}
  {entry : IndexEntry} {pool : CTxMemPool} {coinbase tx : CTransaction} {vtx : List CTransaction}

theorem verifyTokens_of_plain (hplain : isTxBFXT env.toNodeEnv tx = none) :
    verifyTokens env queued tx = .ok [] := by
  rw [verifyTokens, hplain, Option.isSome_none, Bool.and_false, if_neg Bool.false_ne_true]

variable {inputsTxs : List InputPair}

variable (hactive : env.isForkActivated .tachyon = true)
include hactive

theorem verifyTokens_of_token (htoken : (isTxBFXT env.toNodeEnv tx).isSome)
    (hinputs : env.getAllBFXTInputsOfTx tx queued.mapQueuedBFXTInputs queued.mapQueuedChanges =
      .ok inputsTxs)
    (hread : readBFXTDataFromTx env.toNodeEnv emptyBFXTTransaction tx inputsTxs = .ok bfxttx) :
    verifyTokens env queued tx = .ok inputsTxs := by
  rw [verifyTokens, hactive, htoken, Bool.true_and, if_pos rfl, catchCall_eq_ok]
  exact bind_eq_ok.mpr ⟨_, hinputs, bind_eq_ok.mpr ⟨_, hread, rfl⟩⟩

theorem verifySymbols_eq_ok :
    verifySymbols env queued tx = .ok symbols ↔
      env.assertIssuanceUniquenessInBlock queued.issuedTokensSymbolsInThisBlock tx
        queued.mapQueuedBFXTInputs queued.mapQueuedChanges = .ok symbols := by
  rw [verifySymbols, if_pos hactive, catchCall_eq_ok]

omit hactive

/-- The place of a transaction in the block when it is connected. -/
def Placed (env : ChainEnv) (block : CBlock) (tx : CTransaction) (nTxPos : Nat) : Prop :=
  ∃ before after, block.vtx = before ++ tx :: after ∧
    nTxPos = firstTxPos false block + (before.map env.getSerializeSize).sum

theorem one_lt_of_placed (h : Placed env block tx nTxPos) : 1 < nTxPos := by
  obtain ⟨before, after, -, rfl⟩ := h
  have hfirst : firstTxPos false block = 80 + getSizeOfCompactSize block.vtx.length := rfl
  omega

variable (h : NextBlock a state block entry pool coinbase vtx)
include h

theorem NextBlock.readNode (hplaced : Placed a.surroundings.env block tx nTxPos) (hash : UInt256) :
    readPrev h.views.env h.views.node hash ⟨entry.blockKeyInDB, nTxPos⟩ = some tx := by
  have hpos := one_lt_of_placed hplaced
  rw [readPrev, if_neg]
  · show readTx h.minerEnv
      h.connecting.txdb _ = some tx
    obtain ⟨before, after, hvtx, rfl⟩ := hplaced
    rw [readTx, connecting_blocks, h.key_eq, update_self, Option.bind_some, hvtx]
    exact @txAt_append h.minerEnv h.size_pos before after tx _
  intro heq
  have := congrArg CDiskTxPos.nTxPos heq
  dsimp only at this
  omega

theorem NextBlock.mirror_taken (hfind : find (a.surroundings.env.getHash tx) pool = some tx)
    (hloose : Loose a.surroundings.env.getHash state tx)
    (hplaced : Placed a.surroundings.env block tx nTxPos) :
    Mirror h.views (a.surroundings.env.getHash tx)
      (CTxIndex.new ⟨1, 1⟩ tx.vout.length)
      (CTxIndex.new ⟨entry.blockKeyInDB, nTxPos⟩ tx.vout.length) := by
  have hminer : readPrev h.views.env
      h.views.miner (a.surroundings.env.getHash tx) ⟨1, 1⟩ =
        some tx := by
    rw [readPrev, if_pos rfl]
    exact hfind
  refine ⟨rfl, fun n spent hspent hnull => ⟨spent, hspent, hnull⟩, ?_, .inr ?_⟩
  · exact (h.readNode hplaced _).trans hminer.symm
  intro txPrev hprev
  obtain rfl := Option.mem_unique hminer hprev
  exact ⟨hloose.not_coinBase, hloose.not_coinStake⟩

section Verify

variable (hpool : PoolOk a.surroundings.env.getHash state pool) {queued : TemplateState}
  (hsynced : Synced h.views queued queued') (htx : Known h.views tx)
  (hsame : SameInputs h.views mapInputs mapInputs')
  (hfetch : fetchInputs h.views.env h.views.node queued'.mapQueuedChanges true false tx (fun _ =>
    none) = .ok mapInputs')
  (hissuance : checkIssuance h.minerEnv (opened state) mapInputs queued tx =
    .ok (inputsTxs, symbols)) (hvalid : TransferValid h.blockEnv tx queued')

include hpool hsynced htx hsame hfetch hissuance hvalid

/-- The token checks of `ConnectBlock` succeed when the template has checked an issuance,
or a transfer or burn is valid. -/
theorem NextBlock.verify :
    ∃ found symbols', verifyTokens h.blockEnv queued' tx = .ok found ∧
      verifySymbols h.blockEnv queued' tx = .ok symbols' ∧
      (h.views.env.isForkActivated .tachyon = true → (found = inputsTxs ∨ inputsTxs = []) ∧
        ∀ key, (symbols' key).isSome → (symbols key).isSome) := by
  rcases hactive : h.blockEnv.isForkActivated .tachyon
  · refine ⟨[], queued'.issuedTokensSymbolsInThisBlock, ?_, ?_,
      fun hactive' => absurd (hactive.symm.trans hactive') Bool.false_ne_true⟩
    · rw [verifyTokens, hactive, Bool.false_and, if_neg Bool.false_ne_true]
    · rw [verifySymbols, hactive, if_neg Bool.false_ne_true]
  rcases checkIssuance_eq_ok hissuance with ⟨rfl, rfl, hother⟩ |
    ⟨opRet, script, bfxttx, htoken, hscript, htype, hinputs, hread, hassert, hnote⟩
  · cases htoken : isTxBFXT h.minerEnv.toNodeEnv tx with
    | none =>
      refine ⟨[], _, verifyTokens_of_plain htoken, (verifySymbols_eq_ok hactive).mpr ?_,
        fun _ => ⟨.inl rfl, hsynced.symbols hactive⟩⟩
      rw [h.unique_eq, assertIssuanceUniquenessInBlock, htoken]
    | some opRet =>
      obtain ⟨script, hscript, htype⟩ := hother opRet htoken
      have hsome : (isTxBFXT h.blockEnv.toNodeEnv tx).isSome :=
        Option.isSome_iff_exists.mpr ⟨opRet, htoken⟩
      have hother : issuanceOf h.minerEnv.toNodeEnv tx = none := by
        rw [issuanceOf, htoken, Option.bind_some, hscript]
        dsimp only
        split
        · rename_i htype' _
          exact absurd htype' htype
        · rfl
      obtain ⟨found, bfxttx, hfound, hread⟩ := hvalid hactive hsome hother
      refine ⟨found, _, verifyTokens_of_token hactive hsome hfound hread,
        (verifySymbols_eq_ok hactive).mpr ?_, fun _ => ⟨.inr rfl, hsynced.symbols hactive⟩⟩
      rw [h.unique_eq, assertIssuanceUniquenessInBlock, htoken]
      dsimp only
      rw [hscript, ok_bind, if_neg htype]
  have hsome : (isTxBFXT h.blockEnv.toNodeEnv tx).isSome :=
    Option.isSome_iff_exists.mpr ⟨opRet, htoken⟩
  have hfound : getAllBFXTInputsOfTx h.minerEnv
      h.views.node state.committed.tokens.bfxtTxs
      queued'.mapQueuedBFXTInputs queued'.mapQueuedChanges tx = .ok inputsTxs := by
    obtain ⟨found, hfound, hsimilar⟩ := follows_stdFetchedInputTxsToBFXT (h.readsKnown hpool)
      hsynced.queues (hsynced.tokens hactive) maxRecursion htx (hsame.samePrev (h.readsKnown hpool)) _ hinputs
    have hne := ne_nil_of_readBFXTDataFromTx hsome htx.vin_ne hread
    rw [hsimilar.resolve_right hne] at hfound
    exact (getAllBFXTInputsOfTx_of_fetchInputs hfetch).trans hfound
  obtain ⟨noted', hnote', hnoted⟩ := noteSymbol_of_miner (hsynced.symbols hactive) hnote
  refine ⟨inputsTxs, noted', verifyTokens_of_token hactive hsome ?_ hread,
    (verifySymbols_eq_ok hactive).mpr ?_, fun _ => ⟨.inl rfl, hnoted⟩⟩
  · rw [h.tokenInputs_eq]
    exact hfound
  rw [h.unique_eq, assertIssuanceUniquenessInBlock, htoken]
  dsimp only
  rw [hscript, ok_bind, if_pos htype, connecting_tokens]
  exact bind_eq_ok.mpr ⟨_, hfound, bind_eq_ok.mpr ⟨_, hread, bind_eq_ok.mpr
    ⟨(), h.assertNew hassert, hnote'⟩⟩⟩

end Verify

omit h

variable {settings : MinerSettings} {tip : IndexEntry} {pprev : IndexPtr}

include h

variable (hpool : PoolOk a.surroundings.env.getHash state pool)
include hpool

variable (hbest : state.memory.pindexBest = tip :: pprev)
include hbest

theorem NextBlock.connect_taken {queued next : TemplateState}
    (hsynced : Synced h.views queued queued') (htx : ∃ hash, (hash, tx) ∈ pool)
    (hplaced : Placed a.surroundings.env block tx queued'.nTxPos) {coinbaseTime : Nat}
    {skipped : Bool}
    (htake : takeTransaction h.minerEnv settings (opened state) coinbaseTime (toCBlockIndex
      state.memory.amounts tip pprev.length) (toCBlockIndexes state.memory.amounts pprev) skipped tx
      queued = .ok next) (hvalid : TransferValid h.blockEnv tx queued') :
    ∃ next', connectNext a state block entry tx queued' = .ok next' ∧
      Synced h.views next next' ∧
      next'.nTxPos = queued'.nTxPos + a.surroundings.env.getSerializeSize tx := by
  obtain ⟨hash, hentry⟩ := htx
  have hat := hpool _ hentry
  dsimp only at hat
  obtain ⟨hfind, rfl, hloose⟩ := hat
  obtain ⟨hhash, hvin⟩ := h.apart tx (.inr ⟨_, hfind⟩)
  obtain ⟨mapInputs, nValueIn, nValueOut, nP2SHSigOps, inputsTxs, symbols, queue, hfetch, hvalueIn,
    hvalueOut, hp2sh, hsigOps, hlimit, hissuance, hconnect, hqueue, htokens, hsymbols⟩ :=
    takeTransaction_eq_ok htake
  obtain ⟨mapInputs', hfetch', hsame⟩ := (@alike_fetchInputs
    h.views _ _ tx false true true false rfl rfl hsynced.queues
    hvin).follows _ hfetch
  have hstays : StaysMature h.views
      (toCBlockIndex state.memory.amounts tip pprev.length) (blockIndex a state block entry)
      (toCBlockIndexes state.memory.amounts pprev) (blockAncestors a state block entry) := by
    rw [blockIndex, blockAncestors, hbest]
    exact staysMature_next _ _ tip entry pprev rfl
  obtain ⟨queue', hconnect', hqueues⟩ := follows_connectInputs hstays hsynced.queues hsame hvin rfl
    ⟨entry.blockKeyInDB, queued'.nTxPos⟩ _ hconnect
  obtain ⟨found, symbols', hfound, hsymbols', hactive⟩ := h.verify hpool hsynced
    ⟨hloose.vin_ne, hhash, hvin⟩ hsame hfetch' hissuance hvalid
  have hbudget := hsynced.sigOps
  rw [hsigOps] at hlimit
  have hfetchNode : fetchInputs h.blockEnv (blockDb a state block entry)
      queued'.mapQueuedChanges true false tx (fun _ => none) = .ok mapInputs' := by
    rw [h.fetchInputs_eq]
    exact hfetch'
  have hconnectNode : connectInputs h.blockEnv mapInputs'
      queued'.mapQueuedChanges ⟨entry.blockKeyInDB, queued'.nTxPos⟩ (blockIndex a state block entry)
      (blockAncestors a state block entry) true false tx = .ok queue' := by
    rw [h.connectInputs_eq]
    exact hconnect'
  have hspending : connectSpending h.blockEnv (blockDb a state block entry)
      (blockIndex a state block entry) (blockAncestors a state block entry)
      ⟨entry.blockKeyInDB, queued'.nTxPos⟩ tx { queued' with
        nSigOps := queued'.nSigOps + getLegacySigOpCount tx
        nTxPos := queued'.nTxPos + a.surroundings.env.getSerializeSize tx } = .ok (_, found) :=
    bind_eq_ok.mpr ⟨_, hfetchNode,
      bind_eq_ok.mpr ⟨_, ofCall_eq_ok.mpr ((getP2SHSigOpCount_eq hsame hvin).trans hp2sh),
        bind_eq_ok.mpr ⟨(), ensure_eq_ok.mpr (by dsimp only; omega),
          bind_eq_ok.mpr ⟨_, ofCall_eq_ok.mpr ((getValueIn_eq hsame hvin).trans hvalueIn),
            bind_eq_ok.mpr ⟨_, ofCall_eq_ok.mpr hvalueOut, bind_eq_ok.mpr ⟨_, hfound,
              bind_eq_ok.mpr ⟨_, hsymbols', bind_eq_ok.mpr ⟨_, hconnectNode, rfl⟩⟩⟩⟩⟩⟩⟩⟩
  have hnew : (blockDb a state block entry).readTxIndex (h.blockEnv.getHash tx) = none :=
    (congrFun connecting_txIndex _).trans hloose.unindexed
  refine ⟨_, bind_eq_ok.mpr ⟨(), ensure_eq_ok.mpr (by rw [checkBIP30Attack, hnew]),
    bind_eq_ok.mpr ⟨(), ensure_eq_ok.mpr (by omega), bind_eq_ok.mpr ⟨_,
      (if_neg (Bool.eq_false_iff.mp hloose.not_coinBase)).trans hspending, rfl⟩⟩⟩,
    ⟨?_, ?_, ?_, ?_⟩, rfl⟩
  · rw [hqueue]
    exact hqueues.update (h.mirror_taken hfind hloose hplaced)
  · intro hon
    rw [htokens]
    exact rel_update (hsynced.tokens hon) (hactive hon).1
  · intro hon
    rw [hsymbols]
    exact (hactive hon).2
  rw [hsigOps]
  dsimp only
  omega

theorem NextBlock.connect_filled {coinbaseTime fuel turn : Nat} {queue : Queue}
    {queued final : TemplateState} (hqueue : FromPool pool queue)
    (hsynced : Synced h.views queued queued')
    (hvtx : block.vtx = before ++ taken) (hpos : queued'.nTxPos = firstTxPos false block +
      (before.map a.surroundings.env.getSerializeSize).sum)
    (hfill : fillBlock h.minerEnv settings (opened state) coinbaseTime (toCBlockIndex
      state.memory.amounts tip pprev.length) (toCBlockIndexes state.memory.amounts pprev) fuel turn
      queue queued = .ok (taken, final)) (hvalid : TransfersValid a state block entry taken queued')
    :
    ∃ final', connectAll a state block entry taken queued' = .ok final' := by
  -- the template and the block are kept in step: a transaction that is skipped adds at
  -- most symbols to the template, one that is taken is connected
  induction fuel generalizing turn queue queued queued' before taken with
  | zero =>
    cases hfill
    exact ⟨queued', rfl⟩
  | succ fuel ih =>
    rcases fillBlock_eq_ok hfill with rfl | ⟨tx, rest, hpop, hfill⟩
    · exact ⟨queued', rfl⟩
    obtain ⟨htx, hrest⟩ := hqueue.pop hpop
    rcases goOn_eq_ok hfill with ⟨left, hleft, hfill⟩ | ⟨next, later, htake, hlater, rfl⟩
    · exact ih hrest (hsynced.addsSymbols (takeTransaction_next hleft)) hvtx hpos hfill hvalid
    obtain ⟨hvalid, hvalidLater⟩ := hvalid
    obtain ⟨next', hnext, hsynced', hpos'⟩ := h.connect_taken hpool hbest hsynced htx
      ⟨before, later, hvtx, hpos⟩ htake hvalid
    have hposLater : next'.nTxPos = firstTxPos false block +
        ((before ++ [tx]).map a.surroundings.env.getSerializeSize).sum := by
      rw [hpos', hpos, map_append, sum_append, map_singleton, sum_singleton, Nat.add_assoc]
    obtain ⟨connected, hconnected⟩ := ih (hrest.release _) hsynced'
      (hvtx.trans (append_cons before tx later)) hposLater hlater (hvalidLater _ hnext)
    exact ⟨connected, bind_eq_ok.mpr ⟨next', hnext, hconnected⟩⟩

omit hbest

omit hpool

omit h

theorem transfersValid_of_connectAll (hvtx : ∀ tx ∈ vtx, isCoinBase tx = false)
    (hall : connectAll a state block entry vtx queued = .ok final) :
    TransfersValid a state block entry vtx queued := by
  induction vtx generalizing queued with
  | nil => exact trivial
  | cons tx vtx ih =>
    obtain ⟨htx, hvtx⟩ := forall_mem_cons.mp hvtx
    obtain ⟨next, hnext, hall⟩ := bind_eq_ok.mp hall
    refine ⟨fun hactive htoken _ => ?_, fun other hother => ?_⟩
    · simp only [connectTransaction, connectByKind, htx, Bool.false_eq_true, if_false,
        connectSpending, bind_eq_ok] at hnext
      obtain ⟨_, -, _, -, _, ⟨_, -, _, -, _, -, _, -, _, -, found, hfound, -⟩, -⟩ := hnext
      rw [verifyTokens, hactive, htoken, Bool.true_and, if_pos rfl, catchCall_eq_ok] at hfound
      obtain ⟨inputsTxs, hinputs, hfound⟩ := bind_eq_ok.mp hfound
      obtain ⟨bfxttx, hread, -⟩ := bind_eq_ok.mp hfound
      exact ⟨inputsTxs, bfxttx, hinputs, hread⟩
    obtain rfl := Except.ok.inj (hnext.symm.trans hother)
    exact ih hvtx hall

/-- A template of a pool can be connected exactly if its transfers and burns are valid. -/
theorem createNewBlock_connects_iff {template : CTransaction} {start : BlockState}
    (h : NextBlock a state block entry pool coinbase vtx)
    (hfilled : Filled a.surroundings.env state pool)
    (hcreate : createNewBlock a.surroundings.env settings state pool = .ok (some (template, vtx)))
    (hstart : connectNext a state block entry coinbase (initialState false block) = .ok start) :
    (∃ final, connectAll a state block entry vtx start = .ok final) ↔
      TransfersValid a state block entry vtx start := by
  have hpool := poolOk_of_filled hfilled
  obtain ⟨⟨pindexPrev, ancestors⟩, hindex, hcreate⟩ := bind_eq_ok.mp hcreate
  cases hbest : state.memory.pindexBest with
  | nil =>
    rw [bestIndex, hbest] at hindex
    cases hindex
  | cons tip pprev =>
    rw [bestIndex, hbest] at hindex
    cases hindex
    dsimp only at hcreate
    split at hcreate
    · cases hcreate
    obtain ⟨queue, hcollect, hcreate⟩ := bind_eq_ok.mp hcreate
    obtain ⟨⟨taken, final⟩, hfill, hcreate⟩ := bind_eq_ok.mp hcreate
    obtain ⟨-, rfl⟩ := Prod.mk.inj (Option.some.inj (Except.ok.inj hcreate))
    have hqueue := fromPool_collect (List.Subset.refl pool) hcollect
    constructor
    · rintro ⟨connected, hall⟩
      refine transfersValid_of_connectAll (fun tx htx => ?_) hall
      obtain ⟨hash, hentry⟩ := mem_of_fillBlock hqueue hfill tx htx
      exact (hpool _ hentry).2.2.not_coinBase
    intro hvalid
    obtain ⟨hsynced, hpos⟩ := h.synced hstart
    have hpos : start.nTxPos = firstTxPos false block +
        ([coinbase].map a.surroundings.env.getSerializeSize).sum := by
      rw [hpos, map_singleton, sum_singleton]
    exact h.connect_filled hpool hbest hqueue hsynced h.vtx_eq hpos hfill hvalid

end Step

/-! The main chain of height 121, with an issuance in the pool that spends the first
coinbase, and a transfer of one of its tokens. The fork is active, but the pool does
not look at tokens yet. -/

def payTo : Bytes := [0x76, 0xa9, 0x14] ++ List.replicate 20 1 ++ [0x88, 0xac]

/-- Three of five tokens are sent to the first output; the fee is 10 coins. -/
def poolIssueTx : CTransaction :=
  ⟨201, [⟨⟨1, 0⟩, []⟩], [⟨5 * COIN, payTo⟩, ⟨5 * COIN, [0x6a, 0x0e, 0x4e, 0x54, 0x03, 0x01, 0x41,
    0x42, 0x43, 0x44, 0x45, 0x05, 0x01, 0x00, 3, 0]⟩], 0⟩

def poolTransferTx (outputIndex : UInt8) : CTransaction :=
  ⟨202, [⟨⟨201, 0⟩, []⟩], [⟨2 * COIN, payTo⟩,
    ⟨2 * COIN, [0x6a, 0x07, 0x4e, 0x54, 0x03, 0x10, 0x01, outputIndex, 0x01]⟩], 0⟩

def samplePool (outputIndex : UInt8) : CTxMemPool :=
  [(201, poolIssueTx), (202, poolTransferTx outputIndex)]

def templateBlock (outputIndex : UInt8) : CBlock :=
  ⟨6, 221, 122, 222, CompactNumber.encode Retarget.bnProofOfWorkLimit, 0,
    [emptyCoinbase 1, poolIssueTx, poolTransferTx outputIndex], []⟩

def templateAcceptance (outputIndex : UInt8) : Acceptance TokenTables :=
  { symbolAcceptance with
    surroundings := { symbolSurroundings with
      env := { symbolEnv with getAdjustedTime := 1000 }
      mempoolLookup := fun _ hash => find hash (samplePool outputIndex) } }

def templateEntry (outputIndex : UInt8) : IndexEntry :=
  newEntry (templateAcceptance outputIndex) (mintedPtr 121) (templateBlock outputIndex) 0 0 true

def openPolicy : RelayPolicy where
  isStandardTx _ := none
  areInputsStandard _ _ := .ok true
  passesRateLimiter _ := true

def minerSettings : MinerSettings where
  fProofOfStake := false
  blockMaxSize := 500000
  reservedKey := some (List.replicate 20 1)
  inputsFinal _ := true
  picks _ := ⟨0, false⟩

def templateCoinbase : CTransaction :=
  ⟨1000, [⟨⟨0, 2 ^ 32 - 1⟩, []⟩], [⟨2011 * COIN, payTo⟩], 0⟩

theorem ofNat_ne {m n : Nat} (h : m < 1000 ∧ n < 1000 ∧ m ≠ n) :
    BitVec.ofNat 256 m ≠ BitVec.ofNat 256 n := by
  intro heq
  have := congrArg BitVec.toNat heq
  rw [toNat_ofNat_of_lt h.1, toNat_ofNat_of_lt h.2.1] at this
  exact h.2.2 this

theorem blocks_mintedState (h : (mintedState 121).committed.blocks key = some stored) :
    ∃ n, n ≤ 121 ∧ stored = mintedBlock n := by
  rw [mintedState, blocks_mintedDb] at h
  obtain ⟨n, hfirst, hlast, -, rfl⟩ := numbered_eq_some h
  exact ⟨n - 100, by omega, rfl⟩

theorem nextBlock_templateBlock (outputIndex : UInt8) :
    NextBlock (templateAcceptance outputIndex) (mintedState 121) (templateBlock outputIndex)
      (templateEntry outputIndex) (samplePool outputIndex) (emptyCoinbase 1)
      [poolIssueTx, poolTransferTx outputIndex] where
  layer := rfl
  pool_eq := rfl
  size_pos _ := Nat.zero_lt_succ 99
  vtx_eq := rfl
  coinBase := by decide
  sigOps := by decide
  made := by
    refine ⟨0, bind_eq_ok.mpr ⟨(), ensure_eq_ok.mpr ?_,
      bind_eq_ok.mpr ⟨(), ensure_eq_ok.mpr rfl, rfl⟩⟩⟩
    change numbered 100 221 (fun n => mintedPtr (n - 100)) (BitVec.ofNat 256 222) = none
    rfl
  hash_ne_zero := @ofNat_ne 222 0 (by decide)
  unstored := by
    intro key stored hstored
    obtain ⟨n, hn, rfl⟩ := blocks_mintedState hstored
    exact @ofNat_ne (100 + n) 222 (by omega)
  unindexed := by
    intro hash txindex hindex
    rw [mintedState, txIndex_mintedDb] at hindex
    obtain ⟨n, -, hlast, -, rfl⟩ := numbered_eq_some hindex
    exact @ofNat_ne (100 + n) 222 (by omega)
  spending := by
    rintro tx ⟨key, stored, hstored, htx⟩
    obtain ⟨n, hn, rfl⟩ := blocks_mintedState hstored
    obtain rfl := mem_singleton.mp htx
    exact cons_ne_nil _ _
  apart := by
    rintro tx (⟨key, stored, hstored, htx⟩ | ⟨hash, hfind⟩)
    · obtain ⟨n, hn, rfl⟩ := blocks_mintedState hstored
      obtain rfl := mem_singleton.mp htx
      refine ⟨@ofNat_ne n 122 (by omega), fun txin htxin => ?_⟩
      obtain rfl := mem_singleton.mp htxin
      exact @ofNat_ne 0 122 (by decide)
    have hmem := mem_of_find hfind
    rw [samplePool, mem_cons, mem_singleton] at hmem
    rcases hmem with hmem | hmem
    · cases hmem
      refine ⟨@ofNat_ne 201 122 (by decide), fun txin htxin => ?_⟩
      obtain rfl := mem_singleton.mp htxin
      exact @ofNat_ne 1 122 (by decide)
    cases hmem
    refine ⟨@ofNat_ne 202 122 (by decide), fun txin htxin => ?_⟩
    obtain rfl := mem_singleton.mp htxin
    exact @ofNat_ne 201 122 (by decide)

theorem filled_samplePool (htransfer : acceptToMemoryPool (templateAcceptance
      outputIndex).surroundings.env openPolicy (mintedState 121) [(201, poolIssueTx)]
      (poolTransferTx outputIndex) = .ok (samplePool outputIndex)) :
    Filled (templateAcceptance outputIndex).surroundings.env (mintedState 121)
      (samplePool outputIndex) := by
  have hissue : acceptToMemoryPool (templateAcceptance outputIndex).surroundings.env openPolicy
      (mintedState 121) [] poolIssueTx = .ok [(201, poolIssueTx)] := by
    change acceptToMemoryPool { symbolEnv with getAdjustedTime := 1000 } _ _ _ _ = _
    decide +kernel
  exact @Filled.accept _ _ _ _ openPolicy 1000 _
    (@Filled.accept _ _ [] _ openPolicy 1000 _ .empty hissue) htransfer

theorem not_ok_of_toOption {x : Verdict α} (h : x.toOption.isSome = false) : ¬ ∃ a, x = .ok a := by
  rintro ⟨a, rfl⟩
  cases h

/-- The template takes a transfer to an output that is not there, but the block is
refused. -/
theorem createNewBlock_outside :
    NextBlock (templateAcceptance 5) (mintedState 121) (templateBlock 5) (templateEntry 5)
        (samplePool 5) (emptyCoinbase 1) [poolIssueTx, poolTransferTx 5] ∧
      Filled (templateAcceptance 5).surroundings.env (mintedState 121) (samplePool 5) ∧
      createNewBlock (templateAcceptance 5).surroundings.env minerSettings (mintedState 121)
        (samplePool 5) = .ok (some (templateCoinbase, [poolIssueTx, poolTransferTx 5])) ∧
      ∃ start, connectNext (templateAcceptance 5) (mintedState 121) (templateBlock 5)
          (templateEntry 5) (emptyCoinbase 1) (initialState false (templateBlock 5)) =
            .ok start ∧
        ¬ ∃ final, connectAll (templateAcceptance 5) (mintedState 121) (templateBlock 5)
          (templateEntry 5) [poolIssueTx, poolTransferTx 5] start = .ok final := by
  refine ⟨nextBlock_templateBlock 5, filled_samplePool ?_, ?_, _, rfl, not_ok_of_toOption ?_⟩
  · decide +kernel
  · decide +kernel
  · decide +kernel

theorem transferValid_of_toOption (h : (x >>= fun queued => ofCall (env.getAllBFXTInputsOfTx tx
      queued.mapQueuedBFXTInputs queued.mapQueuedChanges >>= readBFXTDataFromTx env.toNodeEnv
      emptyBFXTTransaction tx)).toOption.isSome = true) (hx : x = .ok next) :
    TransferValid env tx next := by
  intro _ _ _
  rw [hx, ok_bind] at h
  cases hread : ofCall (env.getAllBFXTInputsOfTx tx next.mapQueuedBFXTInputs
      next.mapQueuedChanges >>= readBFXTDataFromTx env.toNodeEnv emptyBFXTTransaction tx) with
  | error refusal =>
    rw [hread] at h
    cases h
  | ok bfxttx =>
    obtain ⟨inputsTxs, hinputs, hread⟩ := bind_eq_ok.mp (ofCall_eq_ok.mp hread)
    exact ⟨inputsTxs, bfxttx, hinputs, hread⟩

/-- A transfer to the first output is connected behind the issuance. -/
theorem createNewBlock_connects_transfer :
    createNewBlock (templateAcceptance 0).surroundings.env minerSettings (mintedState 121)
        (samplePool 0) = .ok (some (templateCoinbase, [poolIssueTx, poolTransferTx 0])) ∧
      ∃ start, connectNext (templateAcceptance 0) (mintedState 121) (templateBlock 0)
          (templateEntry 0) (emptyCoinbase 1) (initialState false (templateBlock 0)) = .ok start ∧
        ∃ final, connectAll (templateAcceptance 0) (mintedState 121) (templateBlock 0)
          (templateEntry 0) [poolIssueTx, poolTransferTx 0] start = .ok final := by
  have hcreate : createNewBlock (templateAcceptance 0).surroundings.env minerSettings
      (mintedState 121) (samplePool 0) =
        .ok (some (templateCoinbase, [poolIssueTx, poolTransferTx 0])) := by
    decide +kernel
  refine ⟨hcreate, _, rfl, (createNewBlock_connects_iff (nextBlock_templateBlock 0)
    (filled_samplePool (by decide +kernel)) hcreate rfl).mpr ⟨?_, fun next hnext => ⟨?_, ?_⟩⟩⟩
  · exact fun _ _ hnone => absurd hnone (by decide +kernel)
  · exact transferValid_of_toOption (by decide +kernel) hnext
  · exact fun _ _ => trivial

end Bfx.TemplateConnection
