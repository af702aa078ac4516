import Bfx.NodeEnvironments
import Bfx.SymbolUniqueness

/-!
Symbols of issuances that have left the main chain. The table of symbols is never
cleaned, so the search comes across transactions that the node may no longer know.
-/

namespace Bfx.SymbolRelease

open BestChain BlockConnection BlockTree CallOutcome ChainAgreement ChainIndex HexText
  InputConnection NodeEnvironments NodeState SpentIndex SymbolUniqueness TokenInputs TokenReading
  TokenSymbols TokenTransaction TransferInterpreter Transaction List Function

variable {symbol : Bytes} {txdb : NodeDb TokenTables}

section Entries

variable {env : NodeEnv} {tx : CTransaction} {tables : TokenTables}

/-- An issuance whose token has an id that is not blacklisted. -/
def Named (env : NodeEnv) (tx : CTransaction) (symbol : Bytes) : Prop :=
  ∃ flags first rest tokenId, issuanceOf env tx = some (symbol, flags) ∧ tx.vin = first :: rest ∧
    getTokenID env symbol flags first.prevout.hash.toHex first.prevout.n = .ok tokenId ∧
    (isBFXTTokenBlacklisted tokenId).isSome = false

theorem Named.issues (h : Named env tx symbol) : Issues env tx symbol := by
  obtain ⟨flags, first, rest, tokenId, hissuance, hvin, hid, hallowed⟩ := h
  refine ⟨flags, hissuance, ?_⟩
  rw [isBlacklisted, hvin]
  dsimp only
  rw [hid]
  exact hallowed

/-- The record of the transaction has been read from it. -/
def HasRecord (env : NodeEnv) (tables : TokenTables) (tx : CTransaction) : Prop :=
  ∃ opReturnArg bfxttx, isTxBFXT env tx = some opReturnArg ∧
    tables.bfxtTxs (env.getHash tx) = some bfxttx ∧
    ReadFrom (env.getHash tx) tx opReturnArg bfxttx

/-- What a write may change, also one that throws. -/
structure Touches (env : NodeEnv) (tx : CTransaction) (tables tables' : TokenTables) : Prop where
  names : ∀ pair ∈ tables'.bfxttokenNames,
    pair ∈ tables.bfxttokenNames ∨ (pair.2 = env.getHash tx ∧ Named env tx pair.1)
  records : ∀ hash, hash ≠ env.getHash tx → tables'.bfxtTxs hash = tables.bfxtTxs hash
  record : HasRecord env tables' tx

theorem issuanceOf_of_issuanceScript (htoken : isTxBFXT env tx = some opReturnArg)
    (hread : ReadFrom (env.getHash tx) tx opReturnArg bfxttx)
    (h : issuanceScript what bfxttx = .ok script) : issuanceOf env tx = some script := by
  rw [issuanceScript, getBFXTOpReturnScriptHex_of_readFrom htoken hread, ok_bind] at h
  obtain ⟨parsed, hparsed, h⟩ := bind_eq_ok.mp h
  rw [issuanceOf, htoken, Option.bind_some, hparsed]
  dsimp only at h ⊢
  split at h
  · rename_i htype hkind
    cases h
    rw [htype, hkind]
  · cases h
  · cases h

theorem touches_writeBFXTTxToDbAndDisk (htoken : isTxBFXT env tx = some opReturnArg)
    (hread : ReadFrom (env.getHash tx) tx opReturnArg bfxttx) :
    Touches env tx tables (writeBFXTTxToDbAndDisk env bfxttx tables).2 := by
  have hwritten : ∀ tables', tables'.bfxtTxs = (writeBFXTTx bfxttx.txHash bfxttx tables).bfxtTxs →
      (∀ pair ∈ tables'.bfxttokenNames,
        pair ∈ tables.bfxttokenNames ∨ (pair.2 = env.getHash tx ∧ Named env tx pair.1)) →
      Touches env tx tables tables' := by
    intro tables' hrecords hnames
    rw [writeBFXTTx, hread.txHash_eq] at hrecords
    refine ⟨hnames, fun hash hne => ?_, opReturnArg, bfxttx, htoken, ?_, hread⟩
    · rw [hrecords]
      exact update_of_ne hne _ _
    · rw [hrecords]
      exact update_self _ _ _
  have hkept := hwritten _ rfl fun pair hpair => .inl hpair
  rw [writeBFXTTxToDbAndDisk, if_neg hread.type_ne]
  dsimp only
  split
  · split
    · exact hkept
    rename_i txin vin hvin
    split
    · exact hkept
    rename_i tokenId hid
    split
    · exact hkept
    rename_i hallowed
    split
    · exact hkept
    rename_i symbol hsymbol
    split
    · exact hkept
    rename_i written hnoted
    -- the only case in which the symbol is noted
    obtain ⟨first, rest, hfirst, hprevout⟩ := prevout_of_readFrom hread hvin
    obtain ⟨script, hscript, hid⟩ := bind_eq_ok.mp hid
    obtain ⟨script', hscript', hsymbol⟩ := bind_eq_ok.mp hsymbol
    cases hsymbol
    have hissuance := issuanceOf_of_issuanceScript htoken hread hscript
    obtain rfl := Option.some.inj
      (hissuance.symm.trans (issuanceOf_of_issuanceScript htoken hread hscript'))
    obtain ⟨hsame, hnames⟩ := writeBFXTTxWithTokenSymbol_eq_some hnoted
    refine hwritten written hsame fun pair hpair => ((hnames pair).mp hpair).symm.imp id ?_
    rintro rfl
    rw [← hprevout] at hid
    exact ⟨hread.txHash_eq, script.2, first, rest, tokenId, hissuance, hfirst, hid,
      Bool.eq_false_iff.mpr hallowed⟩
  · exact hkept

end Entries

section Written

variable {env : ChainEnv} {known : CTransaction → Prop} {tables : TokenTables}

def DistinctIds (env : ChainEnv) (known : CTransaction → Prop) : Prop :=
  ∀ tx tx', known tx → known tx' → env.getHash tx = env.getHash tx' → tx = tx'

/-- Every entry of the table of symbols is an issuance with its record. -/
def Backed (env : NodeEnv) (known : CTransaction → Prop) (tables : TokenTables) : Prop :=
  ∀ pair ∈ tables.bfxttokenNames, ∃ tx, known tx ∧ env.getHash tx = pair.2 ∧
    Named env tx pair.1 ∧ HasRecord env tables tx

theorem Backed.writeBFXTTxToDiskFromRawTx (h : Backed env.toNodeEnv known tables)
    (hids : DistinctIds env known) (htx : known tx) :
    Backed env.toNodeEnv known
      (TokenSymbols.writeBFXTTxToDiskFromRawTx env txdb tx tables).2 := by
  rw [TokenSymbols.writeBFXTTxToDiskFromRawTx]
  split
  · rename_i hwrites
    obtain ⟨opReturnArg, htoken⟩ := Option.isSome_iff_exists.mp hwrites.2
    split
    · exact h
    rename_i bfxttx hread
    obtain ⟨inputsTxs, -, hread⟩ := bind_eq_ok.mp hread
    have htouches : Touches env.toNodeEnv tx tables _ :=
      touches_writeBFXTTxToDbAndDisk htoken (readFrom_of_readBFXTDataFromTx htoken hread)
    intro pair hpair
    rcases htouches.names pair hpair with hpair | ⟨hhash, hnamed⟩
    · obtain ⟨tx', htx', hhash, hnamed, opReturnArg, bfxttx, htoken, hrecord, hread⟩ := h pair hpair
      refine ⟨tx', htx', hhash, hnamed, ?_⟩
      rcases eq_or_ne (env.getHash tx') (env.getHash tx) with heq | hne
      · rw [hids tx' tx htx' htx heq]
        exact htouches.record
      · exact ⟨opReturnArg, bfxttx, htoken, (htouches.records _ hne).trans hrecord, hread⟩
    · exact ⟨tx, htx, hhash.symm, hnamed, htouches.record⟩
  · exact h

theorem writeBFXTBlockTransactionsToDisk_keeps {P : TokenTables → Prop}
    (hstep : ∀ tx ∈ vtx, ∀ tables, P tables → P (writeBFXTTxToDiskFromRawTx env txdb tx tables).2)
    (h : P txdb.tokens) : P (writeBFXTBlockTransactionsToDisk env txdb vtx).2 := by
  rw [writeBFXTBlockTransactionsToDisk]
  split
  · generalize vtx.length = left
    generalize txdb.tokens = tables at h
    induction left generalizing vtx tables with
    | zero => exact h
    | succ left ih =>
      rw [writeLeaves]
      split
      · exact h
      rename_i tx rest hpop
      have hperm := popLeafTransaction_eq_some hpop
      have hwritten := hstep tx (hperm.mem_iff.mp mem_cons_self) tables h
      split
      · rename_i written heq
        rw [heq] at hwritten
        exact ih (fun tx' htx' =>
          hstep tx' (hperm.mem_iff.mp (mem_cons_of_mem _ htx'))) _ hwritten
      · exact hwritten
  · exact h

theorem Backed.writeBFXTBlockTransactionsToDisk {txdb : NodeDb TokenTables}
    {vtx : List CTransaction} (h : Backed env.toNodeEnv known txdb.tokens)
    (hids : DistinctIds env known) (hvtx : ∀ tx ∈ vtx, known tx) :
    Backed env.toNodeEnv known
      (TokenSymbols.writeBFXTBlockTransactionsToDisk env txdb vtx).2 :=
  writeBFXTBlockTransactionsToDisk_keeps
    (fun tx htx _ htables => htables.writeBFXTTxToDiskFromRawTx hids (hvtx tx htx)) h

end Written

section Histories

variable {env : ChainEnv} {known : CTransaction → Prop} {state next : State TokenTables}

def atMoment (env : ChainEnv) (getAdjustedTime nBestHeight : Int)
    (mempoolLookup : UInt256 → Option CTransaction) : ChainEnv :=
  { env with
    getAdjustedTime := getAdjustedTime
    nBestHeight := nBestHeight
    mempoolLookup := mempoolLookup }

/-- An entry of the index points to its transaction. -/
def Indexed (env : ChainEnv) (known : CTransaction → Prop) (txdb : NodeDb TokenTables) : Prop :=
  ∀ hash pos, positions txdb.txIndex hash = some pos →
    ∃ tx, known tx ∧ env.getHash tx = hash ∧ readTx env txdb pos = some tx

/-- More blocks are stored; the index and the tables stay. -/
structure Stores (txdb txdb' : NodeDb TokenTables) : Prop where
  blocks : ∀ key block, txdb.blocks key = some block → txdb'.blocks key = some block
  txIndex_eq : txdb'.txIndex = txdb.txIndex
  tokens_eq : txdb'.tokens = txdb.tokens

/-- Blocks are stored, connected and disconnected, the changes are committed or
dropped, and memory changes in any way. There are no tokens at the start. -/
inductive History (env : ChainEnv) (known : CTransaction → Prop) : State TokenTables → Prop
  | start {state : State TokenTables} (hindexed : Indexed env known state.committed)
      (htokens : state.committed.tokens = ⟨fun _ => none, []⟩)
      (htxdb : state.txdb = state.committed) : History env known state
  | memory {state : State TokenTables} (hrun : History env known state) (memory : Memory) :
      History env known { state with memory := memory }
  | store {state : State TokenTables} (hrun : History env known state)
      {txdb : NodeDb TokenTables} (hstores : Stores state.txdb txdb) :
      History env known { state with txdb := txdb }
  | connect {state next : State TokenTables} {s : Surroundings TokenTables} {entry : IndexEntry}
      {pprev : IndexPtr} {block : CBlock} (hrun : History env known state)
      (henv : ∃ getAdjustedTime nBestHeight mempoolLookup,
        s.env = atMoment env getAdjustedTime nBestHeight mempoolLookup)
      (hlayer : s.tokens = tokenLayer)
      (hread : readFromDisk s.env state.txdb (entry :: pprev) = some block)
      (hknown : ∀ tx ∈ block.vtx, known tx)
      (hcall : connectOrLeave s entry pprev block state = (.ok (), next)) : History env known next
  | disconnect {state next : State TokenTables} {s : Surroundings TokenTables} {entry : IndexEntry}
      {pprev : IndexPtr} {block : CBlock} (hrun : History env known state)
      (hcall : disconnectOrLeave s entry pprev block state = (.ok (), next)) :
      History env known next
  | commit {state : State TokenTables} (hrun : History env known state) :
      History env known { state with committed := state.txdb }
  | abort {state : State TokenTables} (hrun : History env known state) :
      History env known { state with txdb := state.committed }

/-- What the index and the table of symbols point to is there. -/
structure Sound (env : ChainEnv) (known : CTransaction → Prop) (txdb : NodeDb TokenTables) :
    Prop where
  indexed : Indexed env known txdb
  backed : Backed env.toNodeEnv known txdb.tokens

theorem Indexed.mono (h : Indexed env known txdb)
    (hblocks : ∀ key block, txdb.blocks key = some block → txdb'.blocks key = some block) (hindex :
      ∀ hash pos, positions txdb'.txIndex hash = some pos → positions txdb.txIndex hash = some pos)
    :
    Indexed env known txdb' := by
  intro hash pos hpos
  obtain ⟨tx, htx, hhash, hread⟩ := h hash pos (hindex hash pos hpos)
  obtain ⟨block, hblock, hat⟩ := Option.bind_eq_some_iff.mp hread
  exact ⟨tx, htx, hhash, Option.bind_eq_some_iff.mpr ⟨block, hblocks _ _ hblock, hat⟩⟩

theorem Sound.store (h : Sound env known txdb) (hstores : Stores txdb txdb') :
    Sound env known txdb' := by
  refine ⟨h.indexed.mono hstores.blocks fun hash pos hpos => ?_, ?_⟩
  · rwa [hstores.txIndex_eq] at hpos
  · rw [hstores.tokens_eq]
    exact h.backed

/-- Where a connected block leaves the tables. An exception of the
token layer is ignored before the fork, so the tables may be those of a failed call. -/
theorem connectOrLeave_tables (hlayer : s.tokens = tokenLayer)
    (h : connectOrLeave s entry pprev block state = (.ok (), next)) :
    next.txdb.tokens = (writeBFXTBlockTransactionsToDisk (connectEnv s state entry.hashBlock)
      { state.txdb with txIndex := next.txdb.txIndex } block.vtx).2 := by
  obtain ⟨result, hresult, hstate⟩ := bind_eq_ok.mp (connectBlockIn_eq_ok h)
  cases hstate
  obtain ⟨final, hfinal, hqueued⟩ := connectBlock_queued hresult
  rw [connectTransactions_writer] at hfinal
  rw [writeBlockIndex_tokens, writeBlockIndex_tokens, writeBlockIndex_txIndex,
    writeBlockIndex_txIndex, hlayer]
  dsimp only
  rw [queuedChanges, hfinal, hqueued]
  rfl

theorem Sound.connect {s : Surroundings TokenTables} {entry : IndexEntry} {pprev : IndexPtr}
    {block : CBlock} (h : Sound env known state.txdb)
    (hsize : ∀ tx, 0 < env.getSerializeSize tx) (hids : DistinctIds env known)
    (henv : ∃ getAdjustedTime nBestHeight mempoolLookup,
      s.env = atMoment env getAdjustedTime nBestHeight mempoolLookup)
    (hlayer : s.tokens = tokenLayer)
    (hread : readFromDisk s.env state.txdb (entry :: pprev) = some block)
    (hknown : ∀ tx ∈ block.vtx, known tx)
    (hcall : connectOrLeave s entry pprev block state = (.ok (), next)) :
    Sound env known next.txdb := by
  obtain ⟨getAdjustedTime, nBestHeight, mempoolLookup, henv⟩ := henv
  obtain ⟨hmoved, hpositions⟩ := connectOrLeave_eq_ok hcall
  have hblocks := hmoved.blocks_eq
  constructor
  · intro hash pos hpos
    rcases hpositions hash with ⟨-, heq⟩ | ⟨before, tx, after, hvtx, hhash, heq⟩
    · obtain ⟨tx, htx, hhash, hold⟩ := h.indexed hash pos (heq.symm.trans hpos)
      refine ⟨tx, htx, hhash, ?_⟩
      rw [readTx, hblocks]
      exact hold
    obtain rfl := Option.mem_unique heq hpos
    rw [henv] at hhash
    refine ⟨tx, hknown tx ?_, hhash, ?_⟩
    · rw [hvtx]
      exact mem_append_right _ mem_cons_self
    · rw [readTx, hblocks, (stored_of_readFromDisk hread).1, Option.bind_some, hvtx, henv]
      exact txAt_append hsize before after tx _
  have hbacked : Backed (connectEnv s state entry.hashBlock).toNodeEnv known state.txdb.tokens := by
    rw [connectEnv, henv]
    exact h.backed
  have hids' : DistinctIds (connectEnv s state entry.hashBlock) known := by
    rw [connectEnv, henv]
    exact hids
  have hafter := @Backed.writeBFXTBlockTransactionsToDisk _ _
    { state.txdb with txIndex := next.txdb.txIndex } _ hbacked hids' hknown
  rw [← connectOrLeave_tables hlayer hcall, connectEnv, henv] at hafter
  exact hafter

theorem Sound.disconnect {s : Surroundings TokenTables} {entry : IndexEntry} {pprev : IndexPtr}
    {block : CBlock} (h : Sound env known state.txdb)
    (hcall : disconnectOrLeave s entry pprev block state = (.ok (), next)) :
    Sound env known next.txdb := by
  obtain ⟨hmoved, htokens, hindex⟩ := disconnectOrLeave_eq_ok hcall
  refine ⟨h.indexed.mono (fun key block hblock => ?_) fun hash pos hpos => ?_, ?_⟩
  · rw [hmoved.blocks_eq]
    exact hblock
  · rw [hindex] at hpos
    split at hpos
    · cases hpos
    · exact hpos
  · rw [htokens]
    exact h.backed

theorem History.sound (hrun : History env known state) (hsize : ∀ tx, 0 < env.getSerializeSize tx)
    (hids : DistinctIds env known) :
    Sound env known state.committed ∧ Sound env known state.txdb := by
  induction hrun with
  | @start state hindexed htokens htxdb =>
    have hsound : Sound env known state.committed := by
      refine ⟨hindexed, ?_⟩
      rw [htokens]
      exact nofun
    exact ⟨hsound, htxdb ▸ hsound⟩
  | memory _ _ ih => exact ih
  | store _ hstores ih => exact ⟨ih.1, ih.2.store hstores⟩
  | connect _ henv hlayer hread hknown hcall ih =>
    rw [(connectOrLeave_eq_ok hcall).1.committed_eq]
    exact ⟨ih.1, ih.2.connect hsize hids henv hlayer hread hknown hcall⟩
  | disconnect _ hcall ih =>
    rw [(disconnectOrLeave_eq_ok hcall).1.committed_eq]
    exact ⟨ih.1, ih.2.disconnect hcall⟩
  | commit _ ih => exact ⟨ih.2, ih.2⟩
  | abort _ ih => exact ⟨ih.1, ih.1⟩

end Histories

section Search

variable {env : ChainEnv} {known : CTransaction → Prop} {state : State TokenTables}

/-- A transaction of a block that counts as one of the main chain. -/
def OnMainChain (env : ChainEnv) (state : State TokenTables) (tx : CTransaction) : Prop :=
  ∃ key block pindex, state.committed.blocks key = some block ∧ tx ∈ block.vtx ∧
    state.memory.mapBlockIndex (env.getBlockHash block) = some pindex ∧
    isInMainChain state.memory pindex = true

/-- No other issuance of the main chain has the symbol, in any case. -/
def Unclaimed (env : ChainEnv) (state : State TokenTables) (symbol : Bytes) (txHash : UInt256) :
    Prop :=
  ∀ tx symbol', OnMainChain env state tx → Issues env.toNodeEnv tx symbol' →
    toUpper symbol' = toUpper symbol → env.getHash tx = txHash

/-- The blocks of the database are in the tree. No block has the hash zero. -/
structure Loaded (env : ChainEnv) (state : State TokenTables) : Prop where
  zero : state.memory.mapBlockIndex 0 = none
  known : ∀ key block, state.committed.blocks key = some block →
    (state.memory.mapBlockIndex (env.getBlockHash block)).isSome

/-- The transaction is in the index, and not in the memory pool. -/
def Retained (env : ChainEnv) (state : State TokenTables) (hash : UInt256) : Prop :=
  env.mempoolLookup hash = none ∧ (state.committed.txIndex hash).isSome

variable (hloaded : Loaded env state)
include hloaded

/-- The search throws for a transaction that is in the memory pool or has left the
index. -/
theorem retained_of_assertOtherSymbol {hash : UInt256}
    (h : assertOtherSymbol env state symbol txHash hash = .ok ()) :
    Retained env state hash := by
  obtain ⟨inMainChain, hmain, -⟩ := bind_eq_ok.mp h
  rw [isTxInMainChain] at hmain
  split at hmain
  · cases hmain
  rename_i hashBlock hfound
  rw [getTransaction] at hfound
  split at hfound
  · cases hfound
    rw [hloaded.zero] at hmain
    cases hmain
  rename_i hpool
  refine ⟨Option.not_isSome_iff_eq_none.mp hpool, ?_⟩
  split at hfound
  · cases hfound
  rename_i houtput
  obtain ⟨txindex, hindex, -⟩ := Option.bind_eq_some_iff.mp houtput
  exact Option.isSome_iff_exists.mpr ⟨txindex, hindex⟩

variable (hindexed : Indexed env known state.committed)
include hindexed

/-- An issuance that is in the index and not in the memory pool is found with its
block. -/
theorem exists_isTxInMainChain (hids : DistinctIds env known) (htx : known tx)
    (htoken : isTxBFXT env.toNodeEnv tx = some opReturnArg)
    (hretained : Retained env state (env.getHash tx)) :
    ∃ inMainChain, isTxInMainChain env state.memory state.committed (env.getHash tx) =
        .ok inMainChain ∧
      fetchTxFromDisk env state.committed (env.getHash tx) = .ok tx ∧
      (inMainChain = true → OnMainChain env state tx) := by
  obtain ⟨hpool, hsome⟩ := hretained
  obtain ⟨txindex, hindex⟩ := Option.isSome_iff_exists.mp hsome
  have hpos : positions state.committed.txIndex (env.getHash tx) = some txindex.pos :=
    Option.map_eq_some_iff.mpr ⟨txindex, hindex, rfl⟩
  obtain ⟨stored, hstored, hhash, hread⟩ := hindexed _ _ hpos
  obtain rfl := hids stored tx hstored htx hhash
  obtain ⟨block, hblock, hat⟩ := Option.bind_eq_some_iff.mp hread
  obtain ⟨pindex, hpindex⟩ := Option.isSome_iff_exists.mp (hloaded.known _ _ hblock)
  have hfound : getTransaction env state.committed (env.getHash stored) =
      some (env.getBlockHash block) := by
    have houtput : ∃ txout, readOutputFromDisk (toReader env state.committed)
        ⟨env.getHash stored, 0⟩ = some (txindex, stored, txout) := by
      obtain ⟨txout, vout, hvout⟩ := exists_cons_of_ne_nil
        (vout_ne_nil_of_isTxBFXT (Option.isSome_iff_exists.mpr ⟨opReturnArg, htoken⟩))
      refine ⟨txout, Option.bind_eq_some_iff.mpr ⟨txindex, hindex,
        Option.bind_eq_some_iff.mpr ⟨stored, hread, ?_⟩⟩⟩
      rw [hvout]
      rfl
    obtain ⟨txout, houtput⟩ := houtput
    rw [getTransaction, hpool, Option.isSome_none, if_neg Bool.false_ne_true, houtput]
    dsimp only
    rw [hblock]
  refine ⟨isInMainChain state.memory pindex, ?_, ?_, fun hmain => ?_⟩
  · rw [isTxInMainChain, hfound]
    dsimp only
    rw [hpindex]
  · rw [fetchTxFromDisk, hindex]
    dsimp only
    rw [hread]
  · exact ⟨_, block, pindex, hblock, mem_of_txAt hat, hpindex, hmain⟩

/-- A retained entry passes the search for a symbol that is not claimed. -/
theorem assertOtherSymbol_of_retained (hbacked : Backed env.toNodeEnv known state.txdb.tokens)
    (hids : DistinctIds env known) (hunclaimed : Unclaimed env state symbol txHash)
    (hpair : pair ∈ state.txdb.tokens.bfxttokenNames) (hretained : Retained env state pair.2) :
    assertOtherSymbol env state (toUpper symbol) txHash pair.2 = .ok () := by
  obtain ⟨tx, htx, hhash, hnamed, opReturnArg, bfxttx, htoken, hrecord, hread⟩ :=
    hbacked pair hpair
  rw [← hhash] at hretained ⊢
  obtain ⟨inMainChain, hmain, hfetch, honMain⟩ :=
    exists_isTxInMainChain hloaded hindexed hids htx htoken hretained
  refine bind_eq_ok.mpr ⟨inMainChain, hmain, ?_⟩
  cases inMainChain with
  | false => rfl
  | true =>
    rw [if_pos rfl]
    refine bind_eq_ok.mpr ⟨tx, hfetch, ?_⟩
    have hfetched : fetchStored env state.txdb.tokens.bfxtTxs tx = (tx, bfxttx) := by
      rw [fetchStored, htoken, Option.isSome_some, if_pos rfl, fetchBFXTTxFromDisk, hrecord]
    obtain ⟨flags, first, rest, tokenId, hissuance, hvin, hid, hallowed⟩ := id hnamed
    have hblacklisted : isIssuedTokenBlacklisted env.toNodeEnv (tx, bfxttx) = .ok false := by
      rw [isIssuedTokenBlacklisted, hvin]
      dsimp only
      rw [getTokenIdIfIssuance, issuanceScript_of_readFrom hissuance htoken hread, ok_bind, hid,
        ok_bind, hallowed]
    dsimp only
    rw [hfetched, getTokenSymbolIfIssuance_of_readFrom hissuance htoken hread, ok_bind,
      hblacklisted, ok_bind, if_neg]
    rintro ⟨-, hsame, hother⟩
    exact hother (hunclaimed tx pair.1 (honMain rfl) hnamed.issues hsame.symm).symm

omit hindexed

omit hloaded

/-- A symbol that is not claimed can be issued exactly if every transaction that the
search reads, of this symbol and of those behind it, is still in the index and not in
the memory pool. -/
theorem assertBFXTTokenNameIsNotAlreadyInMainChain_iff (hrun : History env known state)
    (hsize : ∀ tx, 0 < env.getSerializeSize tx) (hids : DistinctIds env known)
    (hloaded : Loaded env state) {bfxttx : BFXTTransaction} {symbol : Bytes}
    (htype : bfxttx.bfxtTransactionType = .issuance)
    (hsymbol : getTokenSymbolIfIssuance bfxttx = .ok symbol)
    (hunclaimed : Unclaimed env state symbol bfxttx.txHash) :
    assertBFXTTokenNameIsNotAlreadyInMainChain env state bfxttx = .ok () ↔
      ∀ hash ∈ readBFXTTxsWithTokenSymbol state.txdb.tokens (toUpper symbol),
        Retained env state hash := by
  obtain ⟨hcommitted, htxdb⟩ := hrun.sound hsize hids
  rw [assertBFXTTokenNameIsNotAlreadyInMainChain, htype]
  dsimp only
  rw [hsymbol, ok_bind, assertOtherSymbols_eq_ok]
  constructor
  · exact fun h hash hmem => retained_of_assertOtherSymbol hloaded (h hash hmem)
  intro h hash hmem
  obtain ⟨pair, hpair, rfl⟩ := mem_map.mp hmem
  exact assertOtherSymbol_of_retained hloaded hcommitted.indexed htxdb.backed hids hunclaimed
    ((dropWhile_sublist _).subset hpair) (h _ hmem)

end Search

section Example

/-! A block with an issuance is connected and disconnected again. -/

def storedState : State TokenTables :=
  { mintedState 200000 with
    memory := { mintedMemory 200000 with
      mapBlockIndex := update (mintedMemory 200000).mapBlockIndex 222
        (some (chainEntry 122 123 :: mintedPtr 121)) }
    txdb := { mintedDb with blocks := update mintedDb.blocks 222 (some (issueBlock 1)) } }

theorem blocks_storedState : storedState.txdb.blocks =
    update mintedDb.blocks 222 (some (issueBlock 1)) := rfl

def connectedState : State TokenTables :=
  (connectOrLeave symbolSurroundings (chainEntry 122 123) (mintedPtr 121) (issueBlock 1)
    storedState).2

def disconnectedState : State TokenTables :=
  (disconnectOrLeave symbolSurroundings (chainEntry 122 123) (mintedPtr 121) (issueBlock 1)
    connectedState).2

def committing (state : State TokenTables) : State TokenTables :=
  { state with committed := state.txdb }

/-- The block has been taken off the main chain. -/
def releasedState : State TokenTables := committing disconnectedState

/-- A connected block becomes the best one. -/
def adopted (pindex : IndexPtr) (state : State TokenTables) : State TokenTables :=
  { state with
    memory := { state.memory with pindexBest := pindex }
    committed := state.txdb }

def heldState : State TokenTables := adopted (chainEntry 122 123 :: mintedPtr 121) connectedState

theorem connected_storedState :
    connectOrLeave symbolSurroundings (chainEntry 122 123) (mintedPtr 121) (issueBlock 1) storedState =
      (.ok (), connectedState) := by
  refine Prod.ext ?_ ?_
  · decide +kernel
  · rw [connectedState]

theorem disconnected_connectedState :
    disconnectOrLeave symbolSurroundings (chainEntry 122 123) (mintedPtr 121) (issueBlock 1)
      connectedState = (.ok (), disconnectedState) := by
  refine Prod.ext ?_ ?_
  · decide +kernel
  · rw [disconnectedState]

/-- The transactions of the stored blocks. -/
abbrev storedKnown : CTransaction → Prop := StoredTx storedState.txdb

theorem distinctIds_storedKnown : DistinctIds symbolEnv storedKnown := collisionFree_issued rfl

theorem blocks_of_mintedDb (h : mintedDb.blocks key = some block) :
    storedState.txdb.blocks key = some block := by
  refine (update_of_ne ?_ _ _).trans h
  rintro rfl
  rw [blocks_mintedDb, numbered, if_neg (by decide)] at h
  cases h

theorem history_storedState (hknown : ∀ n, 1 ≤ n → n ≤ 121 → known (mintedTx n)) :
    History symbolEnv known storedState := by
  have hindexed : Indexed symbolEnv known mintedDb := by
    intro hash pos hpos
    obtain ⟨txindex, htxindex, rfl⟩ := Option.map_eq_some_iff.mp hpos
    rw [txIndex_mintedDb] at htxindex
    obtain ⟨n, hfirst, hlast, rfl, rfl⟩ := numbered_eq_some htxindex
    refine ⟨mintedTx n, hknown n hfirst hlast, rfl, ?_⟩
    exact Option.bind_eq_some_iff.mpr ⟨mintedBlock n, mintedBlock_stored hlast, if_pos rfl⟩
  have hstart : History symbolEnv known (mintedState 200000) := .start hindexed rfl rfl
  exact (hstart.store ⟨fun _ _ => blocks_of_mintedDb, rfl, rfl⟩).memory storedState.memory

theorem read_storedState :
    readFromDisk symbolEnv storedState.txdb (chainEntry 122 123 :: mintedPtr 121) =
      some (issueBlock 1) := by
  refine Option.bind_eq_some_iff.mpr ⟨_, rfl, Option.bind_eq_some_iff.mpr ⟨issueBlock 1, ?_, ?_⟩⟩
  · rw [blocks_storedState]
    exact update_self _ _ _
  · exact if_pos rfl

theorem storedKnown_mintedTx (hn : n ≤ 121) : storedKnown (mintedTx n) :=
  ⟨_, mintedBlock n, blocks_of_mintedDb (mintedBlock_stored hn), mem_singleton_self _⟩

theorem history_connectedState : History symbolEnv storedKnown connectedState := by
  have hstored := history_storedState fun _ _ hlast => storedKnown_mintedTx hlast
  refine hstored.connect ⟨_, _, _, rfl⟩ rfl read_storedState (fun tx htx => ?_) connected_storedState
  exact storedTx_of_readFromDisk read_storedState htx

theorem moved_connectedState : Moved storedState connectedState :=
  (connectOrLeave_eq_ok connected_storedState).1

theorem moved_disconnectedState : Moved connectedState disconnectedState :=
  (disconnectOrLeave_eq_ok disconnected_connectedState).1

variable {state : State TokenTables}

theorem History.adopted (hrun : History env known state) (pindex : IndexPtr) :
    History env known (SymbolRelease.adopted pindex state) :=
  hrun.commit.memory { state.memory with pindexBest := pindex }

theorem history_heldState : History symbolEnv storedKnown heldState :=
  history_connectedState.adopted _

variable (hblocks : state.committed.blocks = storedState.txdb.blocks)
include hblocks

theorem onMainChain_issued (h : OnMainChain symbolEnv state tx)
    (hissues : Issues symbolEnv.toNodeEnv tx symbol) :
    tx = issueTx 1 ∧ ∃ pindex, state.memory.mapBlockIndex 222 = some pindex ∧
      isInMainChain state.memory pindex = true := by
  obtain ⟨key, block, pindex, hblock, htx, hpindex, hmain⟩ := h
  rw [hblocks] at hblock
  change update mintedDb.blocks 222 (some (issueBlock 1)) key = some block at hblock
  rcases eq_or_ne key 222 with rfl | hne
  · rw [update_self] at hblock
    cases hblock
    refine ⟨?_, pindex, hpindex, hmain⟩
    rcases mem_cons.mp htx with rfl | htx
    · obtain ⟨flags, hissuance, -⟩ := hissues
      have hnone : issuanceOf symbolEnv.toNodeEnv (emptyCoinbase 1) = none := by decide +kernel
      cases hnone.symm.trans hissuance
    · exact mem_singleton.mp htx
  rw [update_of_ne hne, blocks_mintedDb] at hblock
  obtain ⟨n, -, -, -, rfl⟩ := numbered_eq_some hblock
  obtain rfl := mem_singleton.mp htx
  exact absurd hissues (not_issues_mintedTx _ symbol)

theorem loaded_of_stored (hmap : state.memory.mapBlockIndex = storedState.memory.mapBlockIndex) :
    Loaded symbolEnv state := by
  constructor
  · rw [hmap]
    rfl
  intro key block hblock
  rw [hblocks] at hblock
  rw [hmap]
  change update mintedDb.blocks 222 (some (issueBlock 1)) key = some block at hblock
  change (update (mintedMemory 200000).mapBlockIndex 222
    (some (chainEntry 122 123 :: mintedPtr 121)) (symbolEnv.getBlockHash block)).isSome
  rcases eq_or_ne (symbolEnv.getBlockHash block) 222 with heq | hother
  · rw [heq, update_self]
    rfl
  rw [update_of_ne hother]
  rcases eq_or_ne key 222 with rfl | hne
  · rw [update_self] at hblock
    cases hblock
    exact absurd rfl hother
  rw [update_of_ne hne, blocks_mintedDb] at hblock
  obtain ⟨n, hfirst, hlast, -, rfl⟩ := numbered_eq_some hblock
  change ((mintedMemory 200000).mapBlockIndex (BitVec.ofNat 256 (100 + (n - 100)))).isSome
  rw [mapBlockIndex_mintedMemory, numbered_ofNat _ (by omega) (by omega) (by omega)]
  rfl

omit hblocks

def issueRecord (n : Nat) : Outcome BFXTTransaction :=
  readBFXTDataFromTx symbolEnv.toNodeEnv emptyBFXTTransaction (issueTx n)
    [(mintedTx n, readBFXTDataFromTxMinimal symbolEnv.toNodeEnv emptyBFXTTransaction (mintedTx n))]

theorem blocks_committing (h : Moved state connected) (h' : Moved connected disconnected) :
    (committing disconnected).committed.blocks = state.txdb.blocks :=
  h'.blocks_eq.trans h.blocks_eq

theorem memory_committing (h : Moved state connected) (h' : Moved connected disconnected) :
    (committing disconnected).memory =
      { state.memory with amounts := disconnected.memory.amounts } := by
  change disconnected.memory = _
  rw [h'.memory_eq, h.memory_eq]

theorem blocks_releasedState : releasedState.committed.blocks = storedState.txdb.blocks :=
  blocks_committing moved_connectedState moved_disconnectedState

theorem memory_releasedState : releasedState.memory =
    { storedState.memory with amounts := disconnectedState.memory.amounts } :=
  memory_committing moved_connectedState moved_disconnectedState

theorem isInMainChain_amounts (memory : Memory) (amounts : UInt256 → Amounts) (pindex : IndexPtr) :
    isInMainChain { memory with amounts := amounts } pindex = isInMainChain memory pindex := rfl

theorem not_issued_releasedState (hissues : Issues symbolEnv.toNodeEnv tx symbol) :
    ¬ OnMainChain symbolEnv releasedState tx := by
  intro honMain
  obtain ⟨-, pindex, hpindex, hin⟩ := onMainChain_issued blocks_releasedState honMain hissues
  rw [memory_releasedState] at hpindex hin
  change update (mintedMemory 200000).mapBlockIndex 222
    (some (chainEntry 122 123 :: mintedPtr 121)) 222 = _ at hpindex
  rw [update_self] at hpindex
  rw [← Option.some.inj hpindex, isInMainChain_amounts] at hin
  have hout : isInMainChain storedState.memory (chainEntry 122 123 :: mintedPtr 121) = false := by
    decide +kernel
  exact absurd (hout.symm.trans hin) Bool.false_ne_true

/-- The symbol of an issuance that has been disconnected and is not in the memory
pool is refused to the next one. -/
theorem symbol_not_released :
    History symbolEnv storedKnown releasedState ∧ DistinctIds symbolEnv storedKnown ∧
      Loaded symbolEnv releasedState ∧ ∃ bfxttx, issueRecord 2 = .ok bfxttx ∧
        bfxttx.bfxtTransactionType = .issuance ∧
        getTokenSymbolIfIssuance bfxttx = .ok [65, 66, 67, 68, 69] ∧
        Unclaimed symbolEnv releasedState [65, 66, 67, 68, 69] bfxttx.txHash ∧
        assertBFXTTokenNameIsNotAlreadyInMainChain symbolEnv releasedState bfxttx ≠ .ok () := by
  refine ⟨(history_connectedState.disconnect disconnected_connectedState).commit,
    distinctIds_storedKnown, loaded_of_stored blocks_releasedState (by rw [memory_releasedState]), ?_⟩
  obtain ⟨bfxttx, hrecord, htype, hsymbol, hassert⟩ := @exists_of_toOption _ _ (issueRecord 2)
    (fun bfxttx => bfxttx.bfxtTransactionType = .issuance ∧
      getTokenSymbolIfIssuance bfxttx = .ok [65, 66, 67, 68, 69] ∧
      assertBFXTTokenNameIsNotAlreadyInMainChain symbolEnv releasedState bfxttx ≠ .ok ())
    inferInstance (by decide +kernel)
  exact ⟨bfxttx, hrecord, htype, hsymbol,
    fun tx symbol honMain hissues _ => absurd honMain (not_issued_releasedState hissues), hassert⟩

theorem blocks_adopted (h : Moved state connected) (pindex : IndexPtr) :
    (adopted pindex connected).committed.blocks = state.txdb.blocks :=
  h.blocks_eq

theorem mapBlockIndex_adopted (h : Moved state connected) (pindex : IndexPtr) :
    (adopted pindex connected).memory.mapBlockIndex = state.memory.mapBlockIndex := by
  change connected.memory.mapBlockIndex = _
  rw [h.memory_eq]

theorem symbol_free_heldState : ∃ bfxttx, issueRecord 1 = .ok bfxttx ∧
    readBFXTTxsWithTokenSymbol heldState.txdb.tokens [65, 66, 67, 68, 69] = [201] ∧
    assertBFXTTokenNameIsNotAlreadyInMainChain symbolEnv heldState bfxttx = .ok () := by
  have hread : readBFXTTxsWithTokenSymbol heldState.txdb.tokens [65, 66, 67, 68, 69] = [201] := by
    decide +kernel
  have hblocks : heldState.committed.blocks = storedState.txdb.blocks :=
    blocks_adopted moved_connectedState _
  obtain ⟨bfxttx, hrecord, htype, hsymbol, hhash⟩ := @exists_of_toOption _ _ (issueRecord 1)
    (fun bfxttx => bfxttx.bfxtTransactionType = .issuance ∧
      getTokenSymbolIfIssuance bfxttx = .ok [65, 66, 67, 68, 69] ∧ bfxttx.txHash = 201)
    inferInstance (by decide +kernel)
  refine ⟨bfxttx, hrecord, hread, ?_⟩
  refine (assertBFXTTokenNameIsNotAlreadyInMainChain_iff history_heldState
    (fun _ => Nat.zero_lt_succ 99) distinctIds_storedKnown
    (loaded_of_stored hblocks (mapBlockIndex_adopted moved_connectedState _)) htype hsymbol
    (fun tx symbol honMain hissues _ => ?_)).mpr (fun hash hmem => ?_)
  · rw [(onMainChain_issued hblocks honMain hissues).1, hhash]
    rfl
  have hupper : toUpper [65, 66, 67, 68, 69] = [65, 66, 67, 68, 69] := by decide
  rw [hupper, hread] at hmem
  obtain rfl := mem_singleton.mp hmem
  exact ⟨rfl, by decide +kernel⟩

end Example

end Bfx.SymbolRelease
