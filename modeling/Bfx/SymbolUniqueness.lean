import Bfx.BlockAcceptance
import Bfx.ChainSwitch
import Bfx.TokenSymbols

/-!
Token symbols on the best chain: when blocks that are connected, by extensions and
reorganisations, leave no two issuances whose symbols differ in case only.
-/

namespace Bfx.SymbolUniqueness

open Bfx.BestChain Function List
open Bfx.BlockAcceptance hiding Runs
open BlockConnection BlockTree CallOutcome ChainAgreement ChainIndex CompactNumber HexText
  InputConnection MintingBound NodeState Retarget ScriptText SpentIndex TokenSymbols
  TokenTransaction Transaction

variable {tx : CTransaction} {txdb' : NodeDb TokenTables} {memory : Memory}

section Chain

variable {τ : Type}

def StoredTx (txdb : NodeDb τ) (tx : CTransaction) : Prop :=
  ∃ key block, txdb.blocks key = some block ∧ tx ∈ block.vtx

/-- A transaction of a block of the chain. -/
def InChain (env : ChainEnv) (txdb : NodeDb τ) (pindex : IndexPtr) (tx : CTransaction) : Prop :=
  ∃ pindex' block, pindex' <:+ pindex ∧ readFromDisk env txdb pindex' = some block ∧ tx ∈ block.vtx

/-- Stored transactions with one id are one transaction. -/
def CollisionFree (env : ChainEnv) (txdb : NodeDb τ) : Prop :=
  ∀ tx tx', StoredTx txdb tx → StoredTx txdb tx' → env.getHash tx = env.getHash tx' → tx = tx'

/-- No two issuances of the chain have symbols that are equal up to case. -/
def UniqueSymbols (env : ChainEnv) (txdb : NodeDb τ) (pindex : IndexPtr) : Prop :=
  ∀ tx tx' symbol symbol', InChain env txdb pindex tx → InChain env txdb pindex tx' →
    Issues env.toNodeEnv tx symbol → Issues env.toNodeEnv tx' symbol' → tx ≠ tx' →
    toUpper symbol ≠ toUpper symbol'

/-- An entry of the index points to its transaction in a block of the chain. -/
def IndexInChain (env : ChainEnv) (txdb : NodeDb τ) (pindex : IndexPtr) : Prop :=
  ∀ hash pos, positions txdb.txIndex hash = some pos → ∃ entry pprev block tx,
    entry :: pprev <:+ pindex ∧ readFromDisk env txdb (entry :: pprev) = some block ∧
    tx ∈ block.vtx ∧ env.getHash tx = hash ∧ pos.nBlockPos = entry.blockKeyInDB ∧
    readTx env txdb pos = some tx

variable {env : ChainEnv} {pindex : IndexPtr}

theorem storedTx_of_readFromDisk (h : readFromDisk env txdb pindex = some block)
    (htx : tx ∈ block.vtx) : StoredTx txdb tx := by
  cases pindex with
  | nil => cases h
  | cons entry pprev => exact ⟨_, block, (stored_of_readFromDisk h).1, htx⟩

theorem InChain.storedTx (h : InChain env txdb pindex tx) : StoredTx txdb tx := by
  obtain ⟨pindex', block, -, hread, htx⟩ := h
  exact storedTx_of_readFromDisk hread htx

theorem InChain.mono (h : InChain env txdb p tx) (hsuffix : p <:+ q) : InChain env txdb q tx := by
  obtain ⟨pindex', block, hpindex', hread, htx⟩ := h
  exact ⟨pindex', block, hpindex'.trans hsuffix, hread, htx⟩

theorem inChain_cons (hread : readFromDisk env txdb (entry :: pprev) = some block) :
    InChain env txdb (entry :: pprev) tx ↔ tx ∈ block.vtx ∨ InChain env txdb pprev tx := by
  constructor
  · rintro ⟨pindex', block', hsuffix, hread', htx⟩
    rcases suffix_cons_iff.mp hsuffix with rfl | hsuffix
    · obtain rfl := Option.mem_unique hread hread'
      exact .inl htx
    · exact .inr ⟨pindex', block', hsuffix, hread', htx⟩
  rintro (htx | h)
  · exact ⟨_, block, suffix_refl _, hread, htx⟩
  · exact h.mono (suffix_cons _ _)

theorem inChain_congr (h : ∀ pindex', pindex' <:+ pindex → readFromDisk env txdb' pindex' =
      readFromDisk env txdb pindex') :
    InChain env txdb' pindex tx ↔ InChain env txdb pindex tx := by
  constructor
  · rintro ⟨pindex', block, hsuffix, hread, htx⟩
    rw [h pindex' hsuffix] at hread
    exact ⟨pindex', block, hsuffix, hread, htx⟩
  rintro ⟨pindex', block, hsuffix, hread, htx⟩
  rw [← h pindex' hsuffix] at hread
  exact ⟨pindex', block, hsuffix, hread, htx⟩

theorem txAt_append {env : ChainEnv} (hsize : ∀ tx, 0 < env.getSerializeSize tx)
    (before after : List CTransaction) (tx : CTransaction) (pos : Nat) :
    txAt env (pos + (before.map env.getSerializeSize).sum) pos (before ++ tx :: after) =
      some tx := by
  induction before generalizing pos with
  | nil => exact if_pos rfl
  | cons first before ih =>
    rw [map_cons, sum_cons, cons_append, txAt, if_neg, ← Nat.add_assoc]
    · exact ih _
    · have hpos := hsize first
      omega

theorem mem_of_txAt (h : txAt env nTxPos pos vtx = some tx) : tx ∈ vtx := by
  induction vtx generalizing pos with
  | nil => cases h
  | cons first vtx ih =>
    rw [txAt] at h
    split at h
    · cases h
      exact mem_cons_self
    · exact mem_cons_of_mem _ (ih h)

theorem readTx_congr {env env' : ChainEnv} (h : env'.getSerializeSize = env.getSerializeSize)
    (txdb : NodeDb τ) : readTx env' txdb = readTx env txdb := by
  have htxAt : ∀ nTxPos vtx pos, txAt env' nTxPos pos vtx = txAt env nTxPos pos vtx := by
    intro nTxPos vtx
    induction vtx with
    | nil => exact fun _ => rfl
    | cons tx vtx ih =>
      intro pos
      rw [txAt, txAt, h, ih]
  funext pos
  simp only [readTx, htxAt]

end Chain

section Block

/-- An issuance of the block has passed the search in the tables. -/
def Searched (env : ChainEnv) (state : State TokenTables) (tx : CTransaction) (symbol : Bytes) :
    Prop :=
  ∀ hash, (toUpper symbol, hash) ∈ state.txdb.tokens.bfxttokenNames →
    assertOtherSymbol env state (toUpper symbol) (env.getHash tx) hash = .ok ()

/-- Issuances that are not coinbases have different symbols. -/
def OtherSymbols (env : NodeEnv) (tx tx' : CTransaction) : Prop :=
  isCoinBase tx = false → isCoinBase tx' = false → ∀ symbol symbol', Issues env tx symbol →
    Issues env tx' symbol' → toUpper symbol ≠ toUpper symbol'

instance (env : NodeEnv) : Std.Symm (OtherSymbols env) where
  symm _ _ h htx htx' _ _ hissues hissues' := (h htx' htx _ _ hissues' hissues).symm

variable {env : ChainEnv} {block : CBlock} {pindex : CBlockIndex} {next : BlockState}

theorem connectTransaction_symbols
    (h : connectTransaction outer txdb block pindex ancestors fJustCheck tx state = .ok next)
    (hactive : outer.isForkActivated .tachyon = true)
    (hassert : outer.assertIssuanceUniquenessInBlock = assertIssuanceUniquenessInBlock env node) :
    (∀ key, (state.issuedTokensSymbolsInThisBlock key).isSome →
        (next.issuedTokensSymbolsInThisBlock key).isSome) ∧
      (isCoinBase tx = false → ∀ symbol, Issues env.toNodeEnv tx symbol →
        state.issuedTokensSymbolsInThisBlock (toUpper symbol) = none ∧
          (next.issuedTokensSymbolsInThisBlock (toUpper symbol)).isSome ∧
          Searched env node tx symbol) := by
  simp only [connectTransaction, bind_eq_ok] at h
  obtain ⟨_, -, _, -, ⟨connected, inputsWithBFXT⟩, hconnect, h⟩ := h
  cases h
  obtain ⟨htx, rfl, nValueOut, rfl⟩ | ⟨-, hconnect⟩ := connectByKind_cases hconnect
  · exact ⟨fun _ hkey => hkey, fun hnot => absurd htx (Bool.eq_false_iff.mp hnot)⟩
  simp only [connectSpending, bind_eq_ok] at hconnect
  obtain ⟨_, -, _, -, _, -, _, -, _, -, _, -, symbols, hsymbols, _, -, hconnect⟩ := hconnect
  cases hconnect
  rw [verifySymbols, if_pos hactive, catchCall_eq_ok, hassert] at hsymbols
  exact ⟨fun _ hkey => assertIssuanceUniquenessInBlock_mono hsymbols hkey,
    fun _ symbol hissues => assertIssuanceUniquenessInBlock_issues hissues hsymbols⟩

theorem connectTransactions_symbols
    (h : connectTransactions outer txdb block pindex ancestors fJustCheck vtx state = .ok final)
    (hactive : outer.isForkActivated .tachyon = true)
    (hassert : outer.assertIssuanceUniquenessInBlock = assertIssuanceUniquenessInBlock env node) :
    (∀ tx ∈ vtx, isCoinBase tx = false → ∀ symbol, Issues env.toNodeEnv tx symbol →
        state.issuedTokensSymbolsInThisBlock (toUpper symbol) = none ∧
          Searched env node tx symbol) ∧
      vtx.Pairwise (OtherSymbols env.toNodeEnv) := by
  induction vtx generalizing state with
  | nil => exact ⟨nofun, .nil⟩
  | cons tx vtx ih =>
    obtain ⟨next, hnext, h⟩ := bind_eq_ok.mp h
    obtain ⟨hmono, hfirst⟩ := connectTransaction_symbols hnext hactive hassert
    obtain ⟨hrest, hpairwise⟩ := ih h
    refine ⟨forall_mem_cons.mpr ⟨?_, ?_⟩, pairwise_cons.mpr ⟨?_, hpairwise⟩⟩
    · intro htx symbol hissues
      obtain ⟨hnone, -, hsearched⟩ := hfirst htx symbol hissues
      exact ⟨hnone, hsearched⟩
    · intro other hother hcoinbase symbol hissues
      obtain ⟨hnone, hsearched⟩ := hrest other hother hcoinbase symbol hissues
      refine ⟨?_, hsearched⟩
      by_contra hsome
      have hlater := hmono _ (Option.isSome_iff_ne_none.mpr hsome)
      rw [hnone] at hlater
      cases hlater
    intro other hother htx hcoinbase symbol symbol' hissues hissues' heq
    obtain ⟨-, hsome, -⟩ := hfirst htx symbol hissues
    obtain ⟨hnone, -⟩ := hrest other hother hcoinbase symbol' hissues'
    rw [heq, hnone] at hsome
    cases hsome

end Block

section Connect

variable {s : Surroundings TokenTables} {state next final : State TokenTables}
  {entry : IndexEntry} {pprev : IndexPtr} {block : CBlock}

/-- The node as the search sees it while a block is connected. -/
def searchEnv (s : Surroundings TokenTables) (memory : Memory) (hash : UInt256) : ChainEnv :=
  { s.env with
    nBestHeight := memory.nBestHeight
    mempoolLookup := s.mempoolLookup hash }

theorem issues_searchEnv (s : Surroundings TokenTables) (memory : Memory) (hash : UInt256) :
    Issues (searchEnv s memory hash).toNodeEnv = Issues s.env.toNodeEnv :=
  issues_withHeight s.env.toNodeEnv memory.nBestHeight

def Enforced (env : ChainEnv) (nBestHeight : Int) : Prop :=
  ChainEnv.isForkActivated { env with nBestHeight := nBestHeight } .tachyon = true

instance (env : ChainEnv) (nBestHeight : Int) : Decidable (Enforced env nBestHeight) :=
  inferInstanceAs (Decidable (_ = true))

/-- What connecting a block does to the index and the tables. -/
structure Connects (s : Surroundings TokenTables) (entry : IndexEntry) (block : CBlock)
    (state next : State TokenTables) : Prop where
  positions : ∀ hash,
    (hash ∉ block.vtx.map s.env.getHash ∧
        positions next.txdb.txIndex hash = positions state.txdb.txIndex hash) ∨
      PlacedAt s.env entry.blockKeyInDB (firstTxPos false block) block.vtx hash
        (positions next.txdb.txIndex hash)
  searched : ∀ tx ∈ block.vtx, isCoinBase tx = false → ∀ symbol, Issues s.env.toNodeEnv tx symbol →
    Searched (searchEnv s state.memory entry.hashBlock) state tx symbol
  others : block.vtx.Pairwise (OtherSymbols s.env.toNodeEnv)
  written : ∃ updated : NodeDb TokenTables, updated.tokens = state.txdb.tokens ∧
    writeBFXTBlockTransactionsToDisk (connectEnv s state entry.hashBlock) updated block.vtx =
      (.ok (), next.txdb.tokens)

theorem connects_of_connectOrLeave (hlayer : s.tokens = tokenLayer)
    (henforced : Enforced s.env state.memory.nBestHeight)
    (h : connectOrLeave s entry pprev block state = (.ok (), next)) :
    Connects s entry block state next := by
  have hpositions := (connectOrLeave_eq_ok h).2
  obtain ⟨result, hresult, hstate⟩ := bind_eq_ok.mp (connectBlockIn_eq_ok h)
  cases hstate
  obtain ⟨final, hfinal, -⟩ := connectBlock_queued hresult
  simp only [connectBlock, bind_eq_ok] at hresult
  obtain ⟨_, -, _, -, _, -, _, -, hresult⟩ := hresult
  rw [if_neg Bool.false_ne_true] at hresult
  obtain ⟨_, -, hresult⟩ := bind_eq_ok.mp hresult
  obtain ⟨_, hwritten, -⟩ := bind_eq_ok.mp hresult
  rw [writeTokens, if_pos, catchCall_eq_ok] at hwritten
  swap
  · exact henforced
  have hassert : (connectEnv s state entry.hashBlock).assertIssuanceUniquenessInBlock =
      assertIssuanceUniquenessInBlock (searchEnv s state.memory entry.hashBlock) state := by
    rw [connectEnv, hlayer]
    rfl
  obtain ⟨hsearched, hothers⟩ := connectTransactions_symbols hfinal henforced hassert
  delta OtherSymbols at hothers
  rw [issues_searchEnv] at hsearched hothers
  refine ⟨hpositions, fun tx htx hcoinbase symbol hissues => ?_, hothers, ?_⟩
  · exact (hsearched tx htx hcoinbase symbol hissues).2
  rw [writeBlockIndex_tokens, writeBlockIndex_tokens]
  dsimp only at hwritten ⊢
  rw [hlayer] at hwritten ⊢
  refine ⟨_, ?_, Prod.ext hwritten rfl⟩
  rfl

/-- The issuances of a block are recorded, under the symbol that the search looks for. -/
def Recordable (env : ChainEnv) (nBestHeight : Int) (block : CBlock) : Prop :=
  ∀ tx ∈ block.vtx, ∀ symbol, Issues env.toNodeEnv tx symbol →
    passedFirstValidBFXTTx { env with nBestHeight := nBestHeight } = true ∧ toUpper symbol = symbol

/-- The index and the tables are those of a chain with unique symbols. -/
structure ChainOk (env : ChainEnv) (txdb : NodeDb TokenTables) (pindex : IndexPtr) : Prop where
  indexed : IndexInChain env txdb pindex
  noted : ∀ tx, InChain env txdb pindex tx → Noted env.toNodeEnv txdb.tokens tx
  upper : ∀ tx symbol, InChain env txdb pindex tx → Issues env.toNodeEnv tx symbol →
    toUpper symbol = symbol
  unique : UniqueSymbols env txdb pindex

/-- More blocks are stored; the chain, its index and the tables stay. -/
structure Extends (env : ChainEnv) (pindex : IndexPtr) (txdb txdb' : NodeDb TokenTables) : Prop where
  blocks : ∀ key block, txdb.blocks key = some block → txdb'.blocks key = some block
  read_eq : ∀ pindex', pindex' <:+ pindex →
    readFromDisk env txdb' pindex' = readFromDisk env txdb pindex'
  txIndex_eq : txdb'.txIndex = txdb.txIndex
  tokens_eq : txdb'.tokens = txdb.tokens

theorem extends_of_eq (hblocks : txdb'.blocks = txdb.blocks)
    (htxIndex : txdb'.txIndex = txdb.txIndex) (htokens : txdb'.tokens = txdb.tokens) :
    Extends env pindex txdb txdb' :=
  ⟨fun _ _ h => hblocks ▸ h, fun _ _ => readFromDisk_congr hblocks _, htxIndex, htokens⟩

theorem ChainOk.extend (h : ChainOk env txdb pindex) (hext : Extends env pindex txdb txdb') :
    ChainOk env txdb' pindex := by
  have hchain : ∀ tx, InChain env txdb' pindex tx → InChain env txdb pindex tx :=
    fun tx => (inChain_congr hext.read_eq).mp
  refine ⟨fun hash pos hpos => ?_, fun tx htx => ?_, fun tx symbol htx => h.upper tx symbol (hchain tx htx),
    fun tx tx' symbol symbol' htx htx' =>
      h.unique tx tx' symbol symbol' (hchain tx htx) (hchain tx' htx')⟩
  · rw [hext.txIndex_eq] at hpos
    obtain ⟨entry, pprev, block, tx, hsuffix, hread, htx, hhash, hkey, htxread⟩ :=
      h.indexed hash pos hpos
    refine ⟨entry, pprev, block, tx, hsuffix, (hext.read_eq _ hsuffix).trans hread, htx, hhash, hkey, ?_⟩
    obtain ⟨stored, hstored, hat⟩ := Option.bind_eq_some_iff.mp htxread
    exact Option.bind_eq_some_iff.mpr ⟨stored, hext.blocks _ _ hstored, hat⟩
  · rw [hext.tokens_eq]
    exact h.noted tx (hchain tx htx)

theorem IndexInChain.connect (hsize : ∀ tx, 0 < s.env.getSerializeSize tx)
    (h : IndexInChain s.env state.txdb pprev)
    (hread : readFromDisk s.env state.txdb (entry :: pprev) = some block)
    (hblocks : next.txdb.blocks = state.txdb.blocks) (hconnects : Connects s entry block state next) :
    IndexInChain s.env next.txdb (entry :: pprev) := by
  intro hash pos hpos
  have hreads := @readFromDisk_congr _ s.env _ _ hblocks
  rcases hconnects.positions hash with ⟨-, heq⟩ | ⟨before, tx, after, hvtx, hhash, heq⟩
  · obtain ⟨entry', pprev', block', tx, hsuffix, hread', htx, hhash, hkey, htxread⟩ :=
      h hash pos (heq.symm.trans hpos)
    refine ⟨entry', pprev', block', tx, hsuffix.trans (suffix_cons _ _), ?_, htx, hhash, hkey, ?_⟩
    · rw [hreads, hread']
    · rw [readTx, hblocks]
      exact htxread
  obtain rfl := Option.mem_unique heq hpos
  refine ⟨entry, pprev, block, tx, suffix_refl _, (hreads _).trans hread, ?_, hhash, rfl, ?_⟩
  · rw [hvtx]
    exact mem_append_right _ mem_cons_self
  · rw [readTx, hblocks, (stored_of_readFromDisk hread).1, Option.bind_some, hvtx]
    exact txAt_append hsize before after tx _

/-- What is noted after a block has been connected; a coinbase issues nothing. -/
theorem Connects.noted (hconnects : Connects s entry block state next)
    (hfree : CollisionFree s.env state.txdb)
    (hread : readFromDisk s.env state.txdb (entry :: pprev) = some block)
    (hrecordable : Recordable s.env state.memory.nBestHeight block) :
    (∀ tx, StoredTx state.txdb tx →
        (Noted s.env.toNodeEnv state.txdb.tokens tx ∨ tx ∈ block.vtx) →
        Noted s.env.toNodeEnv next.txdb.tokens tx) ∧
      ∀ tx ∈ block.vtx, ∀ symbol, Issues s.env.toNodeEnv tx symbol → isCoinBase tx = false := by
  obtain ⟨updated, htokens, hwritten⟩ := hconnects.written
  rw [writeBFXTBlockTransactionsToDisk, htokens] at hwritten
  split at hwritten
  · rename_i hpassed
    obtain ⟨hcoinbase, hnoted⟩ := writeLeaves_eq_ok hpassed (Nat.le_refl _) hwritten
    have hheight : Noted (connectEnv s state entry.hashBlock).toNodeEnv = Noted s.env.toNodeEnv :=
      noted_withHeight s.env.toNodeEnv state.memory.nBestHeight
    rw [hheight] at hnoted
    refine ⟨hnoted (StoredTx state.txdb) hfree (fun tx htx => storedTx_of_readFromDisk hread htx),
      fun tx htx symbol hissues => hcoinbase tx htx ?_⟩
    obtain ⟨flags, hissuance, -⟩ := hissues
    obtain ⟨opReturnArg, -, -, htoken, -⟩ := issuanceOf_eq_some hissuance
    exact Option.isSome_iff_exists.mpr ⟨opReturnArg, htoken⟩
  rename_i hpassed
  have hnone : ∀ tx ∈ block.vtx, ∀ symbol, ¬ Issues s.env.toNodeEnv tx symbol :=
    fun tx htx symbol hissues => hpassed (hrecordable tx htx symbol hissues).1
  rw [← (Prod.mk.inj hwritten).2]
  refine ⟨fun tx _ hbefore => ?_, fun tx htx symbol hissues => absurd hissues (hnone tx htx symbol)⟩
  rcases hbefore with hbefore | htx
  · exact hbefore
  · exact fun symbol hissues => absurd hissues (hnone tx htx symbol)

/-- Two issuances with symbols that are equal up to case. -/
def Rivals (env : NodeEnv) (tx tx' : CTransaction) : Prop :=
  tx ≠ tx' ∧ ∃ symbol symbol', Issues env tx symbol ∧ Issues env tx' symbol' ∧
    toUpper symbol = toUpper symbol'

/-- The search finds the transaction in the main chain, or throws. -/
def Visible (s : Surroundings TokenTables) (hash : UInt256) (state : State TokenTables)
    (tx : CTransaction) : Prop :=
  isTxInMainChain (searchEnv s state.memory hash) state.memory state.committed (s.env.getHash tx) ≠
    .ok false

/-- A handle of its own reads no other transaction under the id. -/
def Fetched (env : ChainEnv) (committed : NodeDb TokenTables) (tx : CTransaction) : Prop :=
  ∀ stored, fetchTxFromDisk env committed (env.getHash tx) = .ok stored → stored = tx

/-- An issuance of the chain has no rival in a block that is connected, if it is
visible. -/
theorem Connects.not_rivals (hconnects : Connects s entry block state next)
    (h : ChainOk s.env state.txdb pprev) (hfree : CollisionFree s.env state.txdb)
    (hread : readFromDisk s.env state.txdb (entry :: pprev) = some block)
    (hrecordable : Recordable s.env state.memory.nBestHeight block) (htx : tx ∈ block.vtx)
    (htx' : InChain s.env state.txdb pprev tx') (hvisible : Visible s entry.hashBlock state tx')
    (hfetched : Fetched s.env state.committed tx') : ¬ Rivals s.env.toNodeEnv tx tx' := by
  rintro ⟨hne, symbol, symbol', hissues, hissues', heq⟩
  have hcoinbase := (hconnects.noted hfree hread hrecordable).2 tx htx symbol hissues
  have hsearched := hconnects.searched tx htx hcoinbase symbol hissues
  have hnoted := h.noted tx' htx'
  have hname := (hnoted symbol' hissues').1
  rw [← h.upper tx' symbol' htx' hissues', ← heq] at hname
  have hassert := hsearched _ hname
  rw [heq] at hassert
  have hids : s.env.getHash tx ≠ s.env.getHash tx' := fun hid =>
    hne (hfree tx tx' (storedTx_of_readFromDisk hread htx) htx'.storedTx hid)
  rw [← issues_searchEnv s state.memory entry.hashBlock] at hissues'
  rw [← noted_withHeight _ state.memory.nBestHeight] at hnoted
  refine hvisible (isTxInMainChain_of_assertOtherSymbol hissues' hnoted hids (fun stored hstored => ?_)
    hassert)
  rw [fetchTxFromDisk, @readTx_congr _ s.env (searchEnv s _ _) rfl, ← fetchTxFromDisk] at hstored
  exact hfetched stored hstored

/-- The rule is in force, and no two stored transactions share an id. -/
structure Ready (s : Surroundings TokenTables) (state : State TokenTables) : Prop where
  tokens_eq : s.tokens = tokenLayer
  size_pos : ∀ tx, 0 < s.env.getSerializeSize tx
  enforced : Enforced s.env state.memory.nBestHeight
  free : CollisionFree s.env state.txdb

theorem ChainOk.connect (hready : Ready s state) (h : ChainOk s.env state.txdb pprev)
    (hread : readFromDisk s.env state.txdb (entry :: pprev) = some block)
    (hrecordable : Recordable s.env state.memory.nBestHeight block)
    (hfound : ∀ tx ∈ block.vtx, ∀ tx', InChain s.env state.txdb pprev tx' →
      Rivals s.env.toNodeEnv tx tx' → Visible s entry.hashBlock state tx' ∧
      Fetched s.env state.committed tx')
    (hconnect : connectOrLeave s entry pprev block state = (.ok (), next)) :
    ChainOk s.env next.txdb (entry :: pprev) := by
  have hfree := hready.free
  have hconnects := connects_of_connectOrLeave hready.tokens_eq hready.enforced hconnect
  have hblocks := (connectOrLeave_eq_ok hconnect).1.blocks_eq
  obtain ⟨hnoted, hcoinbase⟩ := hconnects.noted hfree hread hrecordable
  have hchain : ∀ tx, InChain s.env next.txdb (entry :: pprev) tx ↔
      tx ∈ block.vtx ∨ InChain s.env state.txdb pprev tx :=
    fun tx => (inChain_congr fun _ _ => readFromDisk_congr hblocks _).trans (inChain_cons hread)
  have hclash : ∀ tx ∈ block.vtx, ∀ tx', InChain s.env state.txdb pprev tx' →
      ¬ Rivals s.env.toNodeEnv tx tx' := by
    intro tx htx tx' htx' hrivals
    obtain ⟨hvisible, hfetched⟩ := hfound tx htx tx' htx' hrivals
    exact hconnects.not_rivals h hfree hread hrecordable htx htx' hvisible hfetched hrivals
  refine ⟨h.indexed.connect hready.size_pos hread hblocks hconnects, ?_, ?_, ?_⟩
  · intro tx htx
    rcases (hchain tx).mp htx with htx | htx
    · exact hnoted tx (storedTx_of_readFromDisk hread htx) (.inr htx)
    · exact hnoted tx htx.storedTx (.inl (h.noted tx htx))
  · intro tx symbol htx hissues
    rcases (hchain tx).mp htx with htx | htx
    · exact (hrecordable tx htx symbol hissues).2
    · exact h.upper tx symbol htx hissues
  intro tx tx' symbol symbol' htx htx' hissues hissues' hne heq
  rcases (hchain tx).mp htx with htx | htx
  · rcases (hchain tx').mp htx' with htx' | htx'
    · exact hconnects.others.forall htx htx' hne (hcoinbase tx htx symbol hissues)
        (hcoinbase tx' htx' symbol' hissues') symbol symbol' hissues hissues' heq
    · exact hclash tx htx tx' htx' ⟨hne, symbol, symbol', hissues, hissues', heq⟩
  rcases (hchain tx').mp htx' with htx' | htx'
  · exact hclash tx' htx' tx htx ⟨hne.symm, symbol', symbol, hissues', hissues, heq.symm⟩
  · exact h.unique tx tx' symbol symbol' htx htx' hissues hissues' hne heq

theorem ChainOk.disconnect (h : ChainOk s.env state.txdb (entry :: pprev))
    (hread : readFromDisk s.env state.txdb (entry :: pprev) = some block)
    (hdisconnect : disconnectOrLeave s entry pprev block state = (.ok (), next)) :
    ChainOk s.env next.txdb pprev := by
  obtain ⟨hmoved, htokens, hindex⟩ := disconnectOrLeave_eq_ok hdisconnect
  have hreads := @readFromDisk_congr _ s.env _ _ hmoved.blocks_eq
  have hbelow : ∀ tx, InChain s.env next.txdb pprev tx → InChain s.env state.txdb (entry :: pprev) tx :=
    fun tx htx => ((inChain_congr fun _ _ => hreads _).mp htx).mono (suffix_cons _ _)
  refine ⟨fun hash pos hpos => ?_, fun tx htx => ?_, fun tx symbol htx => h.upper tx symbol (hbelow tx htx),
    fun tx tx' symbol symbol' htx htx' =>
      h.unique tx tx' symbol symbol' (hbelow tx htx) (hbelow tx' htx')⟩
  · rw [hindex] at hpos
    split at hpos
    · cases hpos
    rename_i hnot
    obtain ⟨entry', pprev', block', tx, hsuffix, hread', htx, hhash, hkey, htxread⟩ :=
      h.indexed hash pos hpos
    rcases suffix_cons_iff.mp hsuffix with heq | hsuffix
    · rw [heq, hread] at hread'
      cases hread'
      exact absurd (mem_map.mpr ⟨tx, htx, hhash⟩) hnot
    refine ⟨entry', pprev', block', tx, hsuffix, (hreads _).trans hread', htx, hhash, hkey, ?_⟩
    rw [readTx, hmoved.blocks_eq]
    exact htxread
  · rw [htokens]
    exact h.noted tx (hbelow tx htx)

end Connect

section Search

variable {s : Surroundings TokenTables} {state next : State TokenTables} {c q : IndexPtr}

/-- The pointers of a chain are found in the tree. -/
def Known (memory : Memory) (pindex : IndexPtr) : Prop :=
  ∀ entry pprev, entry :: pprev <:+ pindex →
    memory.mapBlockIndex entry.hashBlock = some (entry :: pprev)

theorem Known.distinct (h : Known memory c) : Distinct c := by
  intro entry pprev entry' pprev' hsuffix hsuffix' heq
  have hfirst := h entry pprev hsuffix
  rw [heq] at hfirst
  exact Option.mem_unique hfirst (h entry' pprev' hsuffix')

theorem Known.suffix (h : Known memory q) (hsuffix : c <:+ q) : Known memory c :=
  fun _ _ hentry => h _ _ (hentry.trans hsuffix)

/-- The committed index is that of the chain of `c`, and the links are those of the
chain of `q`. -/
structure SearchOk (s : Surroundings TokenTables) (c q : IndexPtr) (state : State TokenTables) :
    Prop where
  zero : state.memory.mapBlockIndex 0 = none
  known : Known state.memory c
  indexed : IndexInChain s.env state.committed c
  linked : LinkedTo state.memory.pnext q
  blocks : ∀ key block, state.committed.blocks key = some block →
    state.txdb.blocks key = some block

theorem CollisionFree.anti {txdb : NodeDb TokenTables} (h : CollisionFree env txdb')
    (hblocks : ∀ key block, txdb.blocks key = some block → txdb'.blocks key = some block) :
    CollisionFree env txdb := by
  have hstored : ∀ tx, StoredTx txdb tx → StoredTx txdb' tx := by
    rintro tx ⟨key, block, hblock, htx⟩
    exact ⟨key, block, hblocks key block hblock, htx⟩
  exact fun tx tx' htx htx' => h tx tx' (hstored tx htx) (hstored tx' htx')

theorem CollisionFree.congr {txdb : NodeDb TokenTables} (h : CollisionFree env txdb)
    (hblocks : txdb'.blocks = txdb.blocks) : CollisionFree env txdb' :=
  h.anti fun _ _ hblock => hblocks ▸ hblock

theorem readFromDisk_mono {txdb txdb' : NodeDb τ}
    (h : ∀ key block, txdb.blocks key = some block → txdb'.blocks key = some block)
    (hread : readFromDisk env txdb pindex = some block) :
    readFromDisk env txdb' pindex = some block := by
  obtain ⟨entry, hentry, hread⟩ := Option.bind_eq_some_iff.mp hread
  obtain ⟨stored, hstored, hread⟩ := Option.bind_eq_some_iff.mp hread
  refine Option.bind_eq_some_iff.mpr ⟨entry, hentry, Option.bind_eq_some_iff.mpr ⟨stored, ?_, hread⟩⟩
  exact h _ _ hstored

/-- Where the transaction is that the search does not find in the main chain. -/
theorem SearchOk.located (h : SearchOk s c q state) {hash txHash : UInt256}
    (hmain : isTxInMainChain (searchEnv s state.memory hash) state.memory state.committed txHash =
      .ok false) :
    ∃ entry pprev block tx, entry :: pprev <:+ c ∧
      readFromDisk s.env state.committed (entry :: pprev) = some block ∧ tx ∈ block.vtx ∧
      s.env.getHash tx = txHash ∧ isInMainChain state.memory (entry :: pprev) = false := by
  have hzero : ∀ hashBlock, getTransaction (searchEnv s state.memory hash) state.committed txHash =
      some hashBlock → hashBlock ≠ 0 := by
    rintro hashBlock hfound rfl
    rw [isTxInMainChain, hfound] at hmain
    dsimp only at hmain
    rw [h.zero] at hmain
    cases hmain
  rw [isTxInMainChain] at hmain
  split at hmain
  · cases hmain
  rename_i hashBlock hfound
  have hne := hzero hashBlock hfound
  rw [getTransaction] at hfound
  split at hfound
  · exact absurd (Option.some.inj hfound).symm hne
  split at hfound
  · cases hfound
  rename_i txindex _ _ houtput
  obtain ⟨txindex', hindex, houtput⟩ := Option.bind_eq_some_iff.mp houtput
  obtain ⟨_, -, houtput⟩ := Option.bind_eq_some_iff.mp houtput
  obtain ⟨_, -, houtput⟩ := Option.bind_eq_some_iff.mp houtput
  obtain rfl := (Prod.mk.inj (Option.some.inj houtput)).1
  have hpos : positions state.committed.txIndex txHash = some txindex'.pos :=
    Option.map_eq_some_iff.mpr ⟨txindex', hindex, rfl⟩
  obtain ⟨entry, pprev, block, tx, hsuffix, hread, htx, hhash, hkey, -⟩ :=
    h.indexed txHash txindex'.pos hpos
  obtain ⟨hstored, hentry⟩ := stored_of_readFromDisk hread
  rw [hkey, hstored] at hfound
  cases hfound
  have hknown : state.memory.mapBlockIndex ((searchEnv s state.memory hash).getBlockHash block) =
      some (entry :: pprev) := by
    rw [← h.known entry pprev hsuffix, ← hentry]
    rfl
  rw [hknown] at hmain
  exact ⟨entry, pprev, block, tx, hsuffix, hread, htx, hhash, Except.ok.inj hmain⟩

theorem SearchOk.found (h : SearchOk s c q state) (hfree : CollisionFree s.env state.txdb)
    {hash : UInt256} (htx : StoredTx state.txdb tx)
    (hmain : ∀ pindex block, pindex <:+ c → readFromDisk s.env state.txdb pindex = some block →
      tx ∈ block.vtx → pindex = state.memory.pindexBest ∨ (pindex <:+ q ∧ pindex ≠ q)) :
    Visible s hash state tx ∧ Fetched s.env state.committed tx := by
  constructor
  · intro hhidden
    obtain ⟨entry, pprev, block, other, hsuffix, hread, hother, hhash, hnot⟩ := h.located hhidden
    have hread' := readFromDisk_mono h.blocks hread
    obtain rfl := hfree other tx (storedTx_of_readFromDisk hread' hother) htx hhash
    have hin : isInMainChain state.memory (entry :: pprev) = true := by
      rcases hmain _ block hsuffix hread' hother with heq | ⟨hbelow, hne⟩
      · rw [NodeState.isInMainChain, heq, beq_self_eq_true, Bool.or_true]
      · exact LinkedTo.isInMainChain h.linked hbelow hne
    rw [hin] at hnot
    cases hnot
  intro stored hstored
  rw [fetchTxFromDisk] at hstored
  split at hstored
  · cases hstored
  rename_i txPos hindex
  split at hstored
  · cases hstored
  rename_i found hfound
  obtain rfl := Except.ok.inj hstored
  have hpos : positions state.committed.txIndex (s.env.getHash tx) = some txPos.pos :=
    Option.map_eq_some_iff.mpr ⟨txPos, hindex, rfl⟩
  obtain ⟨entry, pprev, block, other, -, hread, hother, hhash, -, htxread⟩ :=
    h.indexed _ _ hpos
  obtain rfl := Option.mem_unique hfound htxread
  exact hfree found tx (storedTx_of_readFromDisk (readFromDisk_mono h.blocks hread) hother) htx
    hhash

end Search

section Moves

variable {s : Surroundings TokenTables} {state next final : State TokenTables} {p q : IndexPtr}

/-- The tree and the best block stay while blocks are connected. -/
structure Follows (start state : State TokenTables) : Prop where
  mapBlockIndex_eq : state.memory.mapBlockIndex = start.memory.mapBlockIndex
  pindexBest_eq : state.memory.pindexBest = start.memory.pindexBest
  pindexGenesisBlock_eq : state.memory.pindexGenesisBlock = start.memory.pindexGenesisBlock
  nBestHeight_eq : state.memory.nBestHeight = start.memory.nBestHeight
  blocks_eq : state.txdb.blocks = start.txdb.blocks

theorem follows_of_memory_eq
    (h : next.memory = { state.memory with amounts := amounts, pnext := pnext })
    (hblocks : next.txdb.blocks = state.txdb.blocks) : Follows state next := by
  constructor
  · rw [h]
  · rw [h]
  · rw [h]
  · rw [h]
  · exact hblocks

theorem Moved.follows (h : Moved state next) : Follows state next :=
  follows_of_memory_eq h.memory_eq h.blocks_eq

theorem Advanced.follows {hash : UInt256}
    (h : Advanced env create list hash state next) : Follows state next :=
  follows_of_memory_eq h.memory_eq h.blocks_eq

theorem Follows.trans (h : Follows state next) (h' : Follows next final) : Follows state final :=
  ⟨h'.mapBlockIndex_eq.trans h.mapBlockIndex_eq, h'.pindexBest_eq.trans h.pindexBest_eq,
    h'.pindexGenesisBlock_eq.trans h.pindexGenesisBlock_eq, h'.nBestHeight_eq.trans h.nBestHeight_eq,
    h'.blocks_eq.trans h.blocks_eq⟩

theorem Ready.follow (h : Ready s state) (hfollows : Follows state next) : Ready s next := by
  refine ⟨h.tokens_eq, h.size_pos, ?_, h.free.congr hfollows.blocks_eq⟩
  rw [hfollows.nBestHeight_eq]
  exact h.enforced

theorem SearchOk.moved (h : SearchOk s c q state) (hmoved : Moved state next) :
    SearchOk s c q next := by
  refine ⟨?_, ?_, ?_, ?_, ?_⟩
  · rw [hmoved.memory_eq]
    exact h.zero
  · rw [hmoved.memory_eq]
    exact h.known
  · rw [hmoved.committed_eq]
    exact h.indexed
  · rw [hmoved.memory_eq]
    exact h.linked
  · rw [hmoved.committed_eq, hmoved.blocks_eq]
    exact h.blocks

theorem ChainOk.disconnectBlocks (h : ChainOk s.env state.txdb q) (hsuffix : p <:+ q)
    (hblocks : ∀ key block, state.committed.blocks key = some block → state.txdb.blocks key =
      some block) (hrun : BestChain.disconnectBlocks s (above p q) state = (.ok (), final)) :
    ChainOk s.env final.txdb p := by
  obtain ⟨upper, rfl⟩ := hsuffix
  induction upper generalizing state with
  | nil =>
    rw [nil_append, above_self] at hrun
    rw [← (Prod.mk.inj hrun).2]
    exact h
  | cons entry upper ih =>
    rw [cons_append, above_cons (suffix_append _ _), BestChain.disconnectBlocks] at hrun
    split at hrun
    · cases (Prod.mk.inj hrun).1
    rename_i block hread
    obtain ⟨next, hdisconnect, hrun⟩ := andThen_eq_ok.mp hrun
    rw [orError_eq_ok] at hdisconnect
    have hmoved := (disconnectOrLeave_eq_ok hdisconnect).1
    refine ih ?_ (h.disconnect (readFromDisk_mono hblocks hread) hdisconnect) hrun
    rw [hmoved.committed_eq, hmoved.blocks_eq]
    exact hblocks

variable {list : List IndexPtr} {create : Bool}

/-- Blocks are connected while the links and the committed data are still those of
the best chain: every issuance of the new chain that is in the index is found. -/
theorem ChainOk.connectBlocks (hready : Ready s state) (hclimbs : Climbs p list q)
    (h : ChainOk s.env state.txdb p)
    (hsearch : SearchOk s state.memory.pindexBest state.memory.pindexBest state)
    (hrecordable : ∀ pindex ∈ list, ∀ block, readFromDisk s.env state.txdb pindex = some block →
      Recordable s.env state.memory.nBestHeight block)
    (hrun : BestChain.connectBlocks s list state = (.ok (), final)) :
    ChainOk s.env final.txdb q := by
  induction hclimbs generalizing state with
  | refl p =>
    rw [← (Prod.mk.inj hrun).2]
    exact h
  | @step entry p q list hrest ih =>
    rw [BestChain.connectBlocks] at hrun
    split at hrun
    · cases (Prod.mk.inj hrun).1
    rename_i block hread
    obtain ⟨next, hconnect, hrun⟩ := andThen_eq_ok.mp hrun
    rw [orError_eq_ok] at hconnect
    have hmoved := (connectOrLeave_eq_ok hconnect).1
    have hfollows := Moved.follows hmoved
    have hnext : ChainOk s.env next.txdb (entry :: p) := by
      refine h.connect hready hread (hrecordable _ mem_cons_self block hread)
        (fun tx _ tx' htx' _ => ?_) hconnect
      exact hsearch.found hready.free htx'.storedTx fun pindex _ hpindex _ _ =>
        (Classical.em (pindex = state.memory.pindexBest)).imp id fun hne => ⟨hpindex, hne⟩
    refine ih (hready.follow hfollows) hnext ?_ ?_ hrun
    · rw [hfollows.pindexBest_eq]
      exact hsearch.moved hmoved
    intro pindex hpindex block hread
    rw [readFromDisk_congr hmoved.blocks_eq] at hread
    rw [hfollows.nBestHeight_eq]
    exact hrecordable pindex (mem_cons_of_mem _ hpindex) block hread

/-- The chain of `q` is connected, and has been committed if the call commits by
itself. -/
structure OnTop (s : Surroundings TokenTables) (createDbTransaction : Bool) (best q : IndexPtr)
    (state : State TokenTables) : Prop where
  chain : ChainOk s.env state.txdb q
  search : SearchOk s (if createDbTransaction then q else best) q state

/-- A step up to `q` that commits by itself, or leaves it to its caller. -/
theorem OnTop.move (h : OnTop s create best p state) (hfollows : Follows state final)
    (hchain : ChainOk s.env final.txdb q) (hknown : Known state.memory q)
    (hcommitted : final.committed = if create then final.txdb else state.committed)
    (hlinked : LinkedTo final.memory.pnext q) : OnTop s create best q final := by
  refine ⟨hchain, ?_, ?_, ?_, hlinked, ?_⟩
  · rw [hfollows.mapBlockIndex_eq]
    exact h.search.zero
  · rw [Known, hfollows.mapBlockIndex_eq]
    cases create with
    | false => exact h.search.known
    | true => exact hknown
  · rw [hcommitted]
    cases create with
    | false => exact h.search.indexed
    | true => exact hchain.indexed
  rw [hcommitted]
  cases create with
  | false =>
    rw [hfollows.blocks_eq]
    exact h.search.blocks
  | true => exact fun _ _ hblock => hblock

theorem OnTop.inner (hready : Ready s state) (h : OnTop s create best p state)
    (hbest : state.memory.pindexBest = best) (hknown : Known state.memory (entry :: p))
    (hread : readFromDisk s.env state.txdb (entry :: p) = some block)
    (hrecordable : Recordable s.env state.memory.nBestHeight block) (hmain : ∀ tx ∈ block.vtx, ∀
      tx', InChain s.env state.txdb p tx' → Rivals s.env.toNodeEnv tx tx' → ∀ pindex block', pindex
      <:+ (if create then p else best) → readFromDisk s.env state.txdb pindex = some
      block' → tx' ∈ block'.vtx → pindex = best ∨ (pindex <:+ p ∧ pindex ≠ p))
    (hinner : setBestChainInner s create entry p block state = (.ok (), final)) :
    OnTop s create best (entry :: p) final := by
  obtain ⟨next, written, hconnect, rfl, hfinal⟩ := setBestChainInner_runs hinner
  have hadvanced := setBestChainInner_eq_ok hread hinner
  have hnext : ChainOk s.env next.txdb (entry :: p) := by
    refine h.chain.connect hready hread hrecordable (fun tx htx tx' htx' hrivals => ?_) hconnect
    refine h.search.found hready.free htx'.storedTx ?_
    rw [hbest]
    exact hmain tx htx tx' htx' hrivals
  refine h.move (Advanced.follows hadvanced) ?_ hknown hadvanced.committed_eq ?_
  · rw [hfinal, commitIf_txdb]
    exact hnext.extend (extends_of_eq rfl rfl rfl)
  · rw [hadvanced.memory_eq]
    exact h.search.linked.link entry (hknown.distinct.suffix (suffix_cons _ _))

/-- While a block is connected on top of `q` after a reorganisation, the search does
not count the transaction as one of the main chain: the best block is still the old
one, and so is the index unless the call commits by itself. -/
def Hidden (env : ChainEnv) (createDbTransaction : Bool) (q : IndexPtr) (state : State TokenTables)
    (tx : CTransaction) : Prop :=
  ∃ pindex block, pindex <:+ (if createDbTransaction then q else state.memory.pindexBest) ∧
    pindex ≠ state.memory.pindexBest ∧ ¬ (pindex <:+ q ∧ pindex ≠ q) ∧
    readFromDisk env state.txdb pindex = some block ∧ tx ∈ block.vtx

theorem OnTop.connectPostponed (hready : Ready s start)
    (hknown : Known start.memory q) (hclimbs : Climbs p list q) (hrecordable : ∀ pindex ∈ list, ∀
      block, readFromDisk s.env start.txdb pindex = some block → Recordable s.env
      start.memory.nBestHeight block) (hvisible : ∀ entry pprev block, entry :: pprev ∈ list →
      readFromDisk s.env start.txdb (entry :: pprev) = some block → ∀ tx ∈ block.vtx, ∀ tx', InChain
      s.env start.txdb pprev tx' → Rivals s.env.toNodeEnv tx tx' → ¬ Hidden s.env
      create pprev start tx') (hfollows : Follows start state)
    (h : OnTop s create start.memory.pindexBest p state)
    (hconnect : PostponedConnect s create list state)
    (hrun : BestChain.connectPostponed s create list state = (.ok (), final)) :
    Follows start final ∧ OnTop s create start.memory.pindexBest q final := by
  induction hclimbs generalizing state with
  | refl p =>
    rw [← (Prod.mk.inj hrun).2]
    exact ⟨hfollows, h⟩
  | @step entry p q list hrest ih =>
    obtain ⟨entry', pprev, block, next, heq, hread, hinner, hconnect⟩ := hconnect
    obtain ⟨rfl, rfl⟩ := List.cons.inj heq
    rw [BestChain.connectPostponed, hread] at hrun
    dsimp only at hrun
    rw [hinner] at hrun
    have hreads := @readFromDisk_congr _ s.env _ _ hfollows.blocks_eq
    have hread' := (hreads _).symm.trans hread
    have hnext : OnTop s create start.memory.pindexBest (entry :: p) next := by
      refine h.inner (hready.follow hfollows) hfollows.pindexBest_eq ?_ hread ?_ ?_ hinner
      · rw [Known, hfollows.mapBlockIndex_eq]
        exact hknown.suffix hrest.suffix
      · rw [hfollows.nBestHeight_eq]
        exact hrecordable _ mem_cons_self block hread'
      intro tx htx tx' htx' hrivals pindex block' hpindex hblock' hmem
      rw [hreads] at hblock'
      rw [inChain_congr fun _ _ => hreads _] at htx'
      by_contra hnot
      rw [not_or] at hnot
      exact hvisible entry p block mem_cons_self hread' tx htx tx' htx' hrivals
        ⟨pindex, block', hpindex, hnot.1, hnot.2, hblock', hmem⟩
    refine ih hknown (fun pindex hpindex => hrecordable pindex (mem_cons_of_mem _ hpindex))
      (fun entry' pprev' block' hmem => hvisible entry' pprev' block' (mem_cons_of_mem _ hmem))
      (hfollows.trans (Advanced.follows (setBestChainInner_eq_ok hread hinner))) hnext hconnect hrun

theorem OnTop.reorganize (hready : Ready s state) (hknown : Known state.memory pindexNew)
    (h : OnTop s create state.memory.pindexBest state.memory.pindexBest state)
    (hrecordable : ∀ pindex block, pindex <:+ pindexNew → ¬ pindex <:+ state.memory.pindexBest →
      readFromDisk s.env state.txdb pindex = some block → Recordable s.env state.memory.nBestHeight
      block) (hrun : BestChain.reorganize s create pindexNew state = (.ok (), final)) :
    Follows state final ∧ OnTop s create state.memory.pindexBest pindexNew final := by
  have hsearch : SearchOk s state.memory.pindexBest state.memory.pindexBest state := by
    have hsearch := h.search
    rwa [ite_self] at hsearch
  obtain ⟨pfork, disconnected, connected, written, hfork, hdisconnect, hconnect, rfl, hfinal⟩ :=
    reorganize_runs hrun
  obtain ⟨-, hbest, hlow, hmax⟩ := findFork_eq_ok hfork
  have hmoved := (disconnectBlocks_eq_ok hdisconnect).1
  have hboth := hmoved.trans (connectBlocks_eq_ok hconnect).1
  have hdown := Moved.follows hmoved
  have hclimbs := climbs_above hlow
  have hconnected : ChainOk s.env connected.txdb pindexNew := by
    refine ChainOk.connectBlocks (hready.follow hdown) hclimbs
      (h.chain.disconnectBlocks hbest hsearch.blocks hdisconnect) ?_ ?_ hconnect
    · rw [hdown.pindexBest_eq]
      exact hsearch.moved hmoved
    intro pindex hpindex block hread
    obtain ⟨hnew, hnot⟩ := hclimbs.mem_iff.mp hpindex
    rw [readFromDisk_congr hmoved.blocks_eq] at hread
    rw [hdown.nBestHeight_eq]
    exact hrecordable pindex block hnew (fun hold => hnot (hmax _ hold hnew)) hread
  have hmemory : final.memory = { connected.memory with pnext := final.memory.pnext } := by
    rw [hfinal]
  have hblocks : final.txdb.blocks = connected.txdb.blocks := by rw [hfinal, commitIf_txdb]
  have hfollows := (Moved.follows hboth).trans (follows_of_memory_eq hmemory hblocks)
  refine ⟨hfollows, h.move hfollows ?_ hknown ?_ ?_⟩
  · rw [hfinal, commitIf_txdb]
    exact hconnected.extend (extends_of_eq rfl rfl rfl)
  · rw [hfinal, commitIf_txdb, commitIf_committed, ← hboth.committed_eq]
  · rw [hfinal, hboth.memory_eq]
    exact (hsearch.linked.descend hbest hsearch.known.distinct).climb hclimbs hknown.distinct

end Moves

section Runs

def atTime (env : ChainEnv) (getAdjustedTime : Int) : ChainEnv :=
  { env with getAdjustedTime := getAdjustedTime }

theorem chainOk_atTime :
    ChainOk (atTime env getAdjustedTime) txdb pindex ↔ ChainOk env txdb pindex := by
  have hread : readTx (atTime env getAdjustedTime) txdb = readTx env txdb :=
    @readTx_congr _ env (atTime env getAdjustedTime) rfl txdb
  have hindexed : IndexInChain (atTime env getAdjustedTime) txdb pindex ↔
      IndexInChain env txdb pindex := by
    rw [IndexInChain, hread]
    exact Iff.rfl
  constructor
  · exact fun h => ⟨hindexed.mp h.indexed, h.noted, h.upper, h.unique⟩
  · exact fun h => ⟨hindexed.mpr h.indexed, h.noted, h.upper, h.unique⟩

/-- The node between two calls. No block has the hash zero. -/
structure Rest (env : ChainEnv) (state : State TokenTables) : Prop where
  map : MapOk state.memory
  zero : state.memory.mapBlockIndex 0 = none
  pindexGenesisBlock_ne : state.memory.pindexGenesisBlock ≠ []
  best : state.memory.mapBlockIndex state.memory.hashBestChain = some state.memory.pindexBest
  linked : LinkedTo state.memory.pnext state.memory.pindexBest
  chain : ChainOk env state.committed state.memory.pindexBest
  view : Extends env state.memory.pindexBest state.committed state.txdb

/-- Blocks come into the tree and the database, and the best chain stays. -/
structure Grows (env : ChainEnv) (state next : State TokenTables) : Prop where
  map : MapOk next.memory
  zero : next.memory.mapBlockIndex 0 = none
  known : ∀ hash pindex, state.memory.mapBlockIndex hash = some pindex →
    next.memory.mapBlockIndex hash = some pindex
  pnext_eq : next.memory.pnext = state.memory.pnext
  pindexGenesisBlock_eq : next.memory.pindexGenesisBlock = state.memory.pindexGenesisBlock
  pindexBest_eq : next.memory.pindexBest = state.memory.pindexBest
  hashBestChain_eq : next.memory.hashBestChain = state.memory.hashBestChain
  committed : Extends env state.memory.pindexBest state.committed next.committed
  view : Extends env state.memory.pindexBest next.committed next.txdb

theorem Rest.grow (h : Rest env state)
    (hgrows : Grows env state state') : Rest env state' := by
  refine ⟨hgrows.map, hgrows.zero, ?_, ?_, ?_, ?_, ?_⟩
  · rw [hgrows.pindexGenesisBlock_eq]
    exact h.pindexGenesisBlock_ne
  · rw [hgrows.hashBestChain_eq, hgrows.pindexBest_eq]
    exact hgrows.known _ _ h.best
  · rw [hgrows.pnext_eq, hgrows.pindexBest_eq]
    exact h.linked
  · rw [hgrows.pindexBest_eq]
    exact h.chain.extend hgrows.committed
  · rw [hgrows.pindexBest_eq]
    exact hgrows.view

/-- A call of `SetBestChain` with the rule in force. -/
structure Calls (env : ChainEnv) (s : Surroundings TokenTables) (entry : IndexEntry)
    (pprev : IndexPtr) (block : CBlock) (state : State TokenTables) : Prop where
  env_eq : ∃ getAdjustedTime, s.env = atTime env getAdjustedTime
  tokens_eq : s.tokens = tokenLayer
  tip : NewTip s entry pprev block state
  enforced : Enforced s.env state.memory.nBestHeight

def ToConnect (best pindexNew pindex : IndexPtr) : Prop :=
  pindex <:+ pindexNew ∧
    (¬ pindex <:+ best ∨ pindex ∈ (postpone (nChainTrust best) pindexNew).1)

/-- When the rule does what it is for: the issuances of the blocks are recorded under
symbols in upper case, and postponed blocks are connected and have no hidden rivals. -/
structure Guarded (s : Surroundings TokenTables) (createDbTransaction : Bool) (pindexNew : IndexPtr)
    (state : State TokenTables) : Prop where
  recordable : ∀ pindex block, ToConnect state.memory.pindexBest pindexNew pindex →
    readFromDisk s.env state.txdb pindex = some block →
    Recordable s.env state.memory.nBestHeight block
  postponed : ∀ reorganized, reorganize s createDbTransaction
      (postpone (nChainTrust state.memory.pindexBest) pindexNew).2 state = (.ok (), reorganized) →
    PostponedConnect s createDbTransaction
      (postpone (nChainTrust state.memory.pindexBest) pindexNew).1.reverse reorganized
  visible : ∀ entry pprev block,
    entry :: pprev ∈ (postpone (nChainTrust state.memory.pindexBest) pindexNew).1 →
    readFromDisk s.env state.txdb (entry :: pprev) = some block → ∀ tx ∈ block.vtx,
      ∀ tx', InChain s.env state.txdb pprev tx' → Rivals s.env.toNodeEnv tx tx' →
        ¬ Hidden s.env createDbTransaction pprev state tx'

variable {env : ChainEnv} {s : Surroundings TokenTables} {create : Bool}
  {entry : IndexEntry} {pprev : IndexPtr} {block : CBlock} {state next final : State TokenTables}

theorem Rest.onTop (h : Rest env state) {getAdjustedTime : Int}
    (henv : s.env = atTime env getAdjustedTime) :
    OnTop s create state.memory.pindexBest state.memory.pindexBest state := by
  have hcommitted : ChainOk s.env state.committed state.memory.pindexBest := by
    rw [henv]
    exact chainOk_atTime.mpr h.chain
  have htxdb : ChainOk s.env state.txdb state.memory.pindexBest := by
    rw [henv]
    exact chainOk_atTime.mpr (h.chain.extend h.view)
  refine ⟨htxdb, ?_⟩
  rw [ite_self]
  exact ⟨h.zero, h.map.closed _ _ h.best, hcommitted.indexed, h.linked, h.view.blocks⟩

/-- A call that returns true has connected the chain of the new block. -/
theorem onTop_of_setBestChain (h : Rest env state) (hsize : ∀ tx, 0 < env.getSerializeSize tx)
    (hfree : CollisionFree env state.txdb) (hcalls : Calls env s entry pprev block state)
    (hguarded : Guarded s create (entry :: pprev) state)
    (hcall : setBestChain s create entry pprev block state = (.ok (), final)) :
    ∃ last, final = adopt (s.env.getBlockHash block) (entry :: pprev) last ∧ Follows state last ∧
      OnTop s create state.memory.pindexBest (entry :: pprev) last := by
  obtain ⟨getAdjustedTime, henv⟩ := hcalls.env_eq
  have hready : Ready s state := by
    refine ⟨hcalls.tokens_eq, ?_, hcalls.enforced, ?_⟩
    · rw [henv]
      exact hsize
    · rw [henv]
      exact hfree
  have hknown : Known state.memory (entry :: pprev) := hcalls.tip.map.closed _ _ hcalls.tip.new
  have honTop := @Rest.onTop _ s create _ h _ henv
  obtain ⟨last, hlast, hfinal⟩ := andThen_eq_ok.mp hcall
  refine ⟨last, (Prod.mk.inj hfinal).2.symm, ?_⟩
  rw [if_neg fun hgenesis => h.pindexGenesisBlock_ne hgenesis.1] at hlast
  split at hlast
  · rename_i hextends
    have hpprev : pprev = state.memory.pindexBest := by
      have hparent := hcalls.tip.parent
      rwa [hextends, h.best] at hparent
    subst hpprev
    rw [orError_eq_ok] at hlast
    have hnew : ToConnect state.memory.pindexBest (entry :: state.memory.pindexBest)
        (entry :: state.memory.pindexBest) := ⟨suffix_refl _, .inl not_cons_suffix⟩
    refine ⟨Advanced.follows (setBestChainInner_eq_ok hcalls.tip.read hlast), ?_⟩
    refine honTop.inner hready rfl hknown hcalls.tip.read
      (hguarded.recordable _ _ hnew hcalls.tip.read) ?_ hlast
    intro tx _ tx' _ _ pindex block' hpindex _ _
    rw [ite_self] at hpindex
    exact (Classical.em (pindex = state.memory.pindexBest)).imp id fun hne => ⟨hpindex, hne⟩
  obtain ⟨reorganized, hreorganize, hpostponed⟩ := switchChain_eq_ok hlast
  obtain ⟨hhigh, hsecondary⟩ :=
    postpone_eq (nChainTrust state.memory.pindexBest) (entry :: pprev)
  have hclimbs := climbs_above hhigh
  rw [← hsecondary] at hclimbs
  obtain ⟨hfollows, hreorganized⟩ := OnTop.reorganize hready (hknown.suffix hhigh) honTop
    (fun pindex block hnew hnot => hguarded.recordable pindex block ⟨hnew.trans hhigh, .inl hnot⟩)
    hreorganize
  refine OnTop.connectPostponed hready hknown hclimbs ?_ ?_ hfollows hreorganized
    (hguarded.postponed _ hreorganize) hpostponed
  · intro pindex hpindex block
    exact hguarded.recordable pindex block
      ⟨hclimbs.mem_suffix hpindex, .inr (mem_reverse.mp hpindex)⟩
  · intro entry' pprev' block' hmem
    exact hguarded.visible entry' pprev' block' (mem_reverse.mp hmem)

theorem Rest.setBestChain (h : Rest env state) (hsize : ∀ tx, 0 < env.getSerializeSize tx)
    (hfree : CollisionFree env state.txdb) (hcalls : Calls env s entry pprev block state)
    (hguarded : Guarded s create (entry :: pprev) state)
    (hcall : BestChain.setBestChain s create entry pprev block state = (.ok (), final)) :
    Rest env { final with committed := final.txdb } := by
  obtain ⟨last, rfl, hfollows, honTop⟩ :=
    onTop_of_setBestChain h hsize hfree hcalls hguarded hcall
  obtain ⟨getAdjustedTime, henv⟩ := hcalls.env_eq
  have hmap := hfollows.mapBlockIndex_eq
  have hchain := honTop.chain
  rw [henv] at hchain
  refine ⟨⟨?_, ?_⟩, ?_, ?_, ?_, honTop.search.linked, chainOk_atTime.mp hchain,
    extends_of_eq rfl rfl rfl⟩
  · change ∀ hash pindex, last.memory.mapBlockIndex hash = some pindex → _
    rw [hmap]
    exact h.map.hash_eq
  · change ∀ hash pindex, last.memory.mapBlockIndex hash = some pindex →
      Known last.memory pindex
    simp only [Known, hmap]
    exact h.map.closed
  · change last.memory.mapBlockIndex 0 = none
    rw [hmap]
    exact h.zero
  · change last.memory.pindexGenesisBlock ≠ []
    rw [hfollows.pindexGenesisBlock_eq]
    exact h.pindexGenesisBlock_ne
  change last.memory.mapBlockIndex (s.env.getBlockHash block) = some (entry :: pprev)
  rw [hmap, getBlockHash_of_readFromDisk hcalls.tip.read]
  exact hcalls.tip.new

/-- Blocks come in, and calls of `SetBestChain` return true, after which the data is
committed. -/
inductive Runs (env : ChainEnv) : State TokenTables → State TokenTables → Prop
  | refl (state : State TokenTables) : Runs env state state
  | grow {start state next : State TokenTables} (hrun : Runs env start state)
      (hgrows : Grows env state next) : Runs env start next
  | best {start state final : State TokenTables} {s : Surroundings TokenTables}
      {createDbTransaction : Bool} {entry : IndexEntry} {pprev : IndexPtr} {block : CBlock}
      (hrun : Runs env start state) (hcalls : Calls env s entry pprev block state)
      (hguarded : Guarded s createDbTransaction (entry :: pprev) state)
      (hcall : BestChain.setBestChain s createDbTransaction entry pprev block state =
        (.ok (), final)) :
      Runs env start { final with committed := final.txdb }

theorem same_of_setBestChain (hgenesis : state.memory.pindexGenesisBlock ≠ [])
    (htip : NewTip s entry pprev block state) (hguarded : Guarded s create (entry :: pprev) state)
    (hcall : BestChain.setBestChain s create entry pprev block state = (.ok (), final)) :
    final.txdb.blocks = state.txdb.blocks ∧
      final.memory.pindexGenesisBlock = state.memory.pindexGenesisBlock := by
  obtain ⟨last, hlast, hfinal⟩ := andThen_eq_ok.mp hcall
  rw [← (Prod.mk.inj hfinal).2]
  change last.txdb.blocks = _ ∧ last.memory.pindexGenesisBlock = _
  rw [if_neg fun h => hgenesis h.1] at hlast
  split at hlast
  · rw [orError_eq_ok] at hlast
    have hfollows := Advanced.follows (setBestChainInner_eq_ok htip.read hlast)
    exact ⟨hfollows.blocks_eq, hfollows.pindexGenesisBlock_eq⟩
  obtain ⟨reorganized, hreorganize, hpostponed⟩ := switchChain_eq_ok hlast
  obtain ⟨pfork, disconnected, -, hmoved, -, hadvanced⟩ := reorganize_eq_ok hreorganize
  obtain ⟨hhigh, hsecondary⟩ :=
    postpone_eq (nChainTrust state.memory.pindexBest) (entry :: pprev)
  have hclimbs := climbs_above hhigh
  rw [← hsecondary] at hclimbs
  have hfollows := Advanced.follows (connectPostponed_advanced hadvanced hclimbs
    (hguarded.postponed _ hreorganize) hpostponed)
  refine ⟨hfollows.blocks_eq.trans hmoved.blocks_eq, hfollows.pindexGenesisBlock_eq.trans ?_⟩
  rw [hmoved.memory_eq]

theorem Runs.blocks (hrun : Runs env start final) (h : Rest env start) :
    (∀ key block, final.committed.blocks key = some block → final.txdb.blocks key = some block) ∧
      final.memory.pindexGenesisBlock ≠ [] := by
  induction hrun with
  | refl => exact ⟨h.view.blocks, h.pindexGenesisBlock_ne⟩
  | grow _ hgrows ih =>
    refine ⟨hgrows.view.blocks, ?_⟩
    rw [hgrows.pindexGenesisBlock_eq]
    exact ih.2
  | best _ hcalls hguarded hcall ih =>
    refine ⟨fun _ _ hblock => hblock, ?_⟩
    rw [(same_of_setBestChain ih.2 hcalls.tip hguarded hcall).2]
    exact ih.2

theorem Runs.rest (hrun : Runs env start final) (h : Rest env start)
    (hsize : ∀ tx, 0 < env.getSerializeSize tx) (hfree : CollisionFree env final.committed) :
    Rest env final := by
  induction hrun with
  | refl => exact h
  | grow _ hgrows ih => exact (ih (hfree.anti hgrows.committed.blocks)).grow hgrows
  | best hrun hcalls hguarded hcall ih =>
    obtain ⟨hblocks, hgenesis⟩ := hrun.blocks h
    have hsame := same_of_setBestChain hgenesis hcalls.tip hguarded hcall
    have hfree' := hfree.congr hsame.1.symm
    exact (ih (hfree'.anti hblocks)).setBestChain hsize hfree' hcalls hguarded hcall

/-! `CBlock::WriteToDisk` is such a step. -/

theorem mapOk_insertEntry (h : MapOk memory) (hnew : memory.mapBlockIndex entry.hashBlock = none)
    (hpprev : Known memory pprev) : MapOk (insertEntry entry pprev memory) := by
  have hold : ∀ hash pindex, memory.mapBlockIndex hash = some pindex →
      (insertEntry entry pprev memory).mapBlockIndex hash = some pindex := by
    intro hash pindex hpindex
    refine (update_of_ne ?_ _ _).trans hpindex
    rintro rfl
    cases hnew.symm.trans hpindex
  have hself : (insertEntry entry pprev memory).mapBlockIndex entry.hashBlock =
      some (entry :: pprev) := update_self _ _ _
  have hcases : ∀ hash pindex, (insertEntry entry pprev memory).mapBlockIndex hash = some pindex →
      (hash = entry.hashBlock ∧ pindex = entry :: pprev) ∨
        memory.mapBlockIndex hash = some pindex := by
    intro hash pindex hpindex
    rcases eq_or_ne hash entry.hashBlock with rfl | hne
    · exact .inl ⟨rfl, (Option.mem_unique hself hpindex).symm⟩
    · exact .inr ((update_of_ne hne _ _).symm.trans hpindex)
  constructor
  · intro hash pindex hpindex
    rcases hcases hash pindex hpindex with ⟨rfl, rfl⟩ | hpindex
    · exact ⟨entry, pprev, rfl, rfl⟩
    · exact h.hash_eq hash pindex hpindex
  intro hash pindex hpindex entry' pprev' hsuffix
  rcases hcases hash pindex hpindex with ⟨rfl, rfl⟩ | hpindex
  · rcases suffix_cons_iff.mp hsuffix with heq | hsuffix
    · obtain ⟨rfl, rfl⟩ := List.cons.inj heq
      exact hself
    · exact hold _ _ (hpprev entry' pprev' hsuffix)
  · exact hold _ _ (h.closed hash pindex hpindex entry' pprev' hsuffix)

theorem known_getD (h : MapOk memory) (hash : UInt256) :
    Known memory ((memory.mapBlockIndex hash).getD []) := by
  cases hpindex : memory.mapBlockIndex hash with
  | none =>
    intro entry pprev hsuffix
    cases suffix_nil.mp hsuffix
  | some pindex => exact h.closed hash pindex hpindex

variable {a : Acceptance TokenTables} {hashProof : UInt256}

theorem txdb_insertBlock (a : Acceptance TokenTables) :
    let txdb := (insertBlock a entry pprev (beginWrite a block state)).txdb
    txdb.blocks =
        update state.committed.blocks (a.surroundings.env.getBlockHash block) (some block) ∧
      txdb.txIndex = state.committed.txIndex ∧ txdb.tokens = state.committed.tokens := by
  rw [insertBlock]
  dsimp only
  split
  · rw [writeBlockIndex_blocks, writeBlockIndex_txIndex, writeBlockIndex_tokens]
    exact ⟨rfl, rfl, rfl⟩
  · exact ⟨rfl, rfl, rfl⟩

theorem extends_insertBlock (h : Rest env state)
    (henv : a.surroundings.env.getBlockHash = env.getBlockHash)
    (hnew : state.memory.mapBlockIndex (env.getBlockHash block) = none)
    (hstored : ∀ stored, state.committed.blocks (env.getBlockHash block) = some stored →
      stored = block) :
    Extends env state.memory.pindexBest state.committed
      (insertBlock a entry pprev (beginWrite a block state)).txdb := by
  obtain ⟨hblocks, htxIndex, htokens⟩ := @txdb_insertBlock entry pprev block state a
  rw [henv] at hblocks
  refine ⟨fun key stored hkey => ?_, fun pindex hpindex => ?_, htxIndex, htokens⟩
  · rw [hblocks]
    rcases eq_or_ne key (env.getBlockHash block) with rfl | hne
    · rw [update_self, hstored stored hkey]
    · rwa [update_of_ne hne]
  · cases pindex with
    | nil => rfl
    | cons entry' pprev' =>
      have hknown := h.map.closed _ _ h.best entry' pprev' hpindex
      rw [readFromDisk, readFromDisk, hblocks, List.head?_cons, Option.bind_some, Option.bind_some]
      rcases eq_or_ne entry'.blockKeyInDB (env.getBlockHash block) with hkey | hne
      · -- a chain with the hash of the block is known
        have hother : env.getBlockHash block ≠ entry'.hashBlock := by
          intro heq
          rw [heq, hknown] at hnew
          cases hnew
        rw [hkey, update_self, Option.bind_some, if_neg hother]
        refine (Option.bind_eq_none_iff.mpr fun stored hkept => ?_).symm
        rw [hstored stored hkept, if_neg hother]
      · rw [update_of_ne hne]

theorem grows_insertBlock (h : Rest env state)
    (henv : a.surroundings.env.getBlockHash = env.getBlockHash)
    (hmake : makeEntry a state.memory block hashProof = .ok (entry, pprev))
    (hzero : env.getBlockHash block ≠ 0)
    (hstored : ∀ stored, state.committed.blocks (env.getBlockHash block) = some stored → stored =
      block) : Grows env state (insertBlock a entry pprev (beginWrite a block state)) := by
  obtain ⟨hhash, -, hpprev, hnew⟩ := makeEntry_eq_ok hmake
  rw [henv] at hhash
  have hlink : state.memory.pnext entry.hashBlock = none := by
    by_contra hsome
    obtain ⟨hashNext, hnext⟩ := Option.ne_none_iff_exists'.mp hsome
    obtain ⟨entry', parent, pprev', hsuffix, hparent, -⟩ := (h.linked _ _).mp hnext
    have hknown := h.map.closed _ _ h.best parent pprev' ((suffix_cons _ _).trans hsuffix)
    rw [hparent, hnew] at hknown
    cases hknown
  refine ⟨mapOk_insertEntry h.map hnew ?_, ?_, fun hash pindex hpindex => ?_, ?_, rfl, rfl, rfl,
    extends_of_eq rfl rfl rfl, extends_insertBlock h henv (hhash ▸ hnew) hstored⟩
  · rw [hpprev]
    exact known_getD h.map _
  · refine (update_of_ne ?_ _ _).trans h.zero
    rw [hhash]
    exact hzero.symm
  · refine (update_of_ne ?_ _ _).trans hpindex
    rintro rfl
    cases hnew.symm.trans hpindex
  · exact Function.update_eq_self_iff.mpr hlink.symm

theorem newTip_insertBlock
    (hgrows : Grows env state (insertBlock a entry pprev (beginWrite a block state)))
    (hmake : makeEntry a state.memory block hashProof = .ok (entry, pprev))
    (hparent : (state.memory.mapBlockIndex block.hashPrevBlock).isSome) :
    NewTip a.surroundings entry pprev block (insertBlock a entry pprev (beginWrite a block state)) := by
  obtain ⟨hhash, hkey, hpprev, hnew⟩ := makeEntry_eq_ok hmake
  obtain ⟨pindexPrev, hprev⟩ := Option.isSome_iff_exists.mp hparent
  refine ⟨hgrows.map, update_self _ _ _, ?_, ?_⟩
  · rw [hprev] at hpprev
    rw [hgrows.known _ _ hprev]
    exact hpprev
  · rw [readFromDisk, (txdb_insertBlock a).1, List.head?_cons, Option.bind_some, hkey, hhash,
      update_self, Option.bind_some, if_pos rfl]

theorem writeToDisk_eq_ok (h : writeToDisk a block hashProof state = (.ok (), final)) :
    ∃ entry pprev next, makeEntry a state.memory block hashProof = .ok (entry, pprev) ∧
      final = { next with committed := next.txdb } ∧
      (next = insertBlock a entry pprev (beginWrite a block state) ∨
        BestChain.setBestChain a.surroundings false entry pprev block
          (insertBlock a entry pprev (beginWrite a block state)) = (.ok (), next)) := by
  rw [writeToDisk] at h
  split at h
  · split at h
    · rename_i next hnext
      rw [orError_eq_ok, addToBlockIndex] at hnext
      split at hnext
      · cases (Prod.mk.inj hnext).1
      rename_i entry pprev hmake
      refine ⟨entry, pprev, next, hmake, (Prod.mk.inj h).2.symm, ?_⟩
      dsimp only at hnext
      split at hnext
      · exact .inr hnext
      · exact .inl (Prod.mk.inj hnext).2.symm
    · cases (Prod.mk.inj h).1
  · cases (Prod.mk.inj h).1

theorem Runs.writeToDisk {start : State TokenTables} (hrun : Runs env start state)
    (h : Rest env state) {getAdjustedTime : Int}
    (henv : a.surroundings.env = atTime env getAdjustedTime)
    (htokens : a.surroundings.tokens = tokenLayer)
    (henforced : Enforced a.surroundings.env state.memory.nBestHeight)
    (hparent : (state.memory.mapBlockIndex block.hashPrevBlock).isSome)
    (hzero : env.getBlockHash block ≠ 0)
    (hstored : ∀ stored, state.committed.blocks (env.getBlockHash block) = some stored → stored =
      block)
    (hguarded : ∀ entry pprev, makeEntry a state.memory block hashProof = .ok (entry, pprev) →
      Guarded a.surroundings false (entry :: pprev) (insertBlock a entry pprev (beginWrite a block
      state))) (hcall : BlockAcceptance.writeToDisk a block hashProof state = (.ok (), final)) :
    Runs env start final ∧ final.committed.blocks =
      update state.committed.blocks (env.getBlockHash block) (some block) := by
  obtain ⟨entry, pprev, next, hmake, rfl, hnext⟩ := writeToDisk_eq_ok hcall
  have hhash : a.surroundings.env.getBlockHash = env.getBlockHash := by rw [henv, atTime]
  have hgrows := grows_insertBlock h hhash hmake hzero hstored
  have htip := newTip_insertBlock hgrows hmake hparent
  have hblocks := (@txdb_insertBlock entry pprev block state a).1
  rw [hhash] at hblocks
  have hgenesis : (insertBlock a entry pprev
      (beginWrite a block state)).memory.pindexGenesisBlock ≠ [] := h.pindexGenesisBlock_ne
  rcases hnext with rfl | hset
  · refine ⟨(hrun.grow hgrows).grow ⟨hgrows.map, hgrows.zero, fun _ _ hpindex => hpindex, rfl, rfl,
      rfl, rfl, hgrows.view, extends_of_eq rfl rfl rfl⟩, hblocks⟩
  refine ⟨(hrun.grow hgrows).best ⟨⟨_, henv⟩, htokens, htip, henforced⟩
    (hguarded entry pprev hmake) hset, ?_⟩
  have hsame := same_of_setBestChain hgenesis htip (hguarded entry pprev hmake) hset
  exact hsame.1.trans hblocks

/-- In every run from a chain with unique symbols, symbols stay unique. -/
theorem uniqueSymbols_of_runs {start : State TokenTables} (hstart : Rest env start)
    (hrun : Runs env start final) (hsize : ∀ tx, 0 < env.getSerializeSize tx)
    (hfree : CollisionFree env final.committed) :
    UniqueSymbols env final.committed final.memory.pindexBest :=
  (hrun.rest hstart hsize hfree).chain.unique

/-- In every run the links mark the ancestors of the best block, and the transactions
that the index finds are in these blocks. -/
theorem mainChain_of_runs {start : State TokenTables} (hstart : Rest env start)
    (hrun : Runs env start final) (hsize : ∀ tx, 0 < env.getSerializeSize tx)
    (hfree : CollisionFree env final.committed) :
    (∀ hash pindex, final.memory.mapBlockIndex hash = some pindex →
      (isInMainChain final.memory pindex = true ↔ pindex <:+ final.memory.pindexBest)) ∧
    ∀ hash pos, positions final.committed.txIndex hash = some pos → ∃ pindex block tx,
      isInMainChain final.memory pindex = true ∧
      readFromDisk env final.committed pindex = some block ∧ tx ∈ block.vtx ∧
      env.getHash tx = hash ∧ readTx env final.committed pos = some tx := by
  have h := hrun.rest hstart hsize hfree
  refine ⟨fun hash pindex hpindex => ChainSwitch.isInMainChain_iff h.map hpindex h.best h.linked,
    fun hash pos hpos => ?_⟩
  obtain ⟨entry, pprev, block, tx, hsuffix, hread, htx, hhash, -, hreadTx⟩ :=
    h.chain.indexed hash pos hpos
  have hpindex := h.map.closed _ _ h.best entry pprev hsuffix
  have hmain := (ChainSwitch.isInMainChain_iff h.map hpindex h.best h.linked).mpr hsuffix
  exact ⟨entry :: pprev, block, tx, hmain, hread, htx, hhash, hreadTx⟩

end Runs

section Example

/-! A main chain of height 121, whose coinbases are old enough to be spent. The next
two blocks issue one token each, with the same symbol. -/

/-- Token ids play no part, so the hash that they are made with is constant. -/
def symbolEnv : ChainEnv := { workEnv with sha256 := fun _ => [] }

def mintedTx (n : Nat) : CTransaction :=
  ⟨n, [⟨⟨0, 2 ^ 32 - 1⟩, [1, 1]⟩], [⟨20 * COIN, [0x51]⟩], 0⟩

def mintedBlock (n : Nat) : CBlock :=
  ⟨6, BitVec.ofNat 256 (99 + n), BitVec.ofNat 256 n, 100 + n, 0, 0, [mintedTx n], []⟩

def mintedPtr : Nat → IndexPtr
  | 0 => [chainEntry 0 1]
  | n + 1 => chainEntry (n + 1) (n + 2) :: mintedPtr n

/-- A table whose keys are the numbers from the first to the last one. -/
def numbered {α : Type} (first last : Nat) (f : Nat → α) (hash : UInt256) : Option α :=
  if first ≤ hash.toNat ∧ hash.toNat ≤ last then some (f hash.toNat) else none

def mintedMemory (nBestHeight : Int) : Memory where
  mapBlockIndex := numbered 100 221 fun n => mintedPtr (n - 100)
  amounts _ := ⟨0, 0⟩
  setStakeSeen _ := false
  pnext := (above (mintedPtr 0) (mintedPtr 121)).reverse.foldl link fun _ => none
  pindexGenesisBlock := mintedPtr 0
  pindexBest := mintedPtr 121
  hashBestChain := 221
  nBestHeight := nBestHeight
  nBestChainTrust := 122
  nBestInvalidTrust := 0

def mintedDb : NodeDb TokenTables where
  blocks := numbered 100 221 fun n => mintedBlock (n - 100)
  blockIndexes _ := none
  txIndex := numbered 1 121 fun n => CTxIndex.new ⟨BitVec.ofNat 256 (100 + n), 81⟩ 1
  hashBestChain := some 221
  bestInvalidTrust := none
  tokens := ⟨fun _ => none, []⟩

def mintedState (nBestHeight : Int) : State TokenTables :=
  ⟨mintedMemory nBestHeight, mintedDb, mintedDb⟩

theorem mapBlockIndex_mintedMemory (nBestHeight : Int) :
    (mintedMemory nBestHeight).mapBlockIndex = numbered 100 221 fun n => mintedPtr (n - 100) := rfl

theorem blocks_mintedDb : mintedDb.blocks = numbered 100 221 fun n => mintedBlock (n - 100) := rfl

theorem txIndex_mintedDb :
    mintedDb.txIndex = numbered 1 121 fun n => CTxIndex.new ⟨BitVec.ofNat 256 (100 + n), 81⟩ 1 := rfl

theorem toNat_ofNat_of_lt (h : n < 1000) : (BitVec.ofNat 256 n).toNat = n := by
  rw [BitVec.toNat_ofNat]
  exact Nat.mod_eq_of_lt (Nat.lt_trans h (by decide))

theorem numbered_ofNat {α : Type} {first last n : Nat} (f : Nat → α) (hfirst : first ≤ n)
    (hlast : n ≤ last) (hn : n < 1000) :
    numbered first last f (BitVec.ofNat 256 n) = some (f n) := by
  rw [numbered, toNat_ofNat_of_lt hn, if_pos ⟨hfirst, hlast⟩]

theorem numbered_eq_some {hash : UInt256} (h : numbered first last f hash = some a) :
    ∃ n, first ≤ n ∧ n ≤ last ∧ hash = BitVec.ofNat 256 n ∧ f n = a := by
  rw [numbered] at h
  split at h
  · rename_i hbounds
    refine ⟨hash.toNat, hbounds.1, hbounds.2, BitVec.eq_of_toNat_eq ?_, Option.some.inj h⟩
    rw [BitVec.toNat_ofNat]
    exact (Nat.mod_eq_of_lt hash.isLt).symm
  · cases h

theorem exists_mintedPtr_eq (n : Nat) : ∃ pprev, mintedPtr n = chainEntry n (n + 1) :: pprev := by
  cases n with
  | zero => exact ⟨[], rfl⟩
  | succ n => exact ⟨mintedPtr n, rfl⟩

variable {entry : IndexEntry} {pprev : IndexPtr}

theorem eq_mintedPtr_of_suffix (h : entry :: pprev <:+ mintedPtr n) :
    ∃ m, m ≤ n ∧ entry :: pprev = mintedPtr m := by
  induction n with
  | zero => exact ⟨0, Nat.le_refl 0, h.eq_of_length_le (by simp [mintedPtr])⟩
  | succ n ih =>
    rcases suffix_cons_iff.mp h with heq | h
    · exact ⟨n + 1, Nat.le_refl _, heq⟩
    · obtain ⟨m, hm, heq⟩ := ih h
      exact ⟨m, Nat.le_succ_of_le hm, heq⟩

theorem mintedPtr_suffix (h : m ≤ n) : mintedPtr m <:+ mintedPtr n := by
  induction h with
  | refl => exact suffix_refl _
  | step _ ih => exact ih.trans (suffix_cons _ _)

theorem known_mintedPtr (nBestHeight : Int) {n : Nat} (hn : n ≤ 121) :
    Known (mintedMemory nBestHeight) (mintedPtr n) := by
  intro entry pprev hsuffix
  obtain ⟨m, hm, heq⟩ := eq_mintedPtr_of_suffix hsuffix
  obtain ⟨rest, hrest⟩ := exists_mintedPtr_eq m
  have hentry : entry = chainEntry m (m + 1) := (List.cons.inj (heq.trans hrest)).1
  rw [heq, hentry]
  rw [mapBlockIndex_mintedMemory, chainEntry, numbered_ofNat _ (by omega) (by omega) (by omega),
    Nat.add_sub_cancel_left]

theorem mintedBlock_stored (hn : n ≤ 121) :
    mintedDb.blocks (BitVec.ofNat 256 (100 + n)) = some (mintedBlock n) := by
  rw [blocks_mintedDb, numbered_ofNat _ (by omega) (by omega) (by omega), Nat.add_sub_cancel_left]

theorem read_mintedPtr (hn : n ≤ 121) :
    readFromDisk symbolEnv mintedDb (mintedPtr n) = some (mintedBlock n) := by
  obtain ⟨rest, hrest⟩ := exists_mintedPtr_eq n
  rw [hrest]
  exact Option.bind_eq_some_iff.mpr ⟨_, rfl, Option.bind_eq_some_iff.mpr
    ⟨_, mintedBlock_stored hn, if_pos rfl⟩⟩

theorem eq_mintedTx_of_inChain (h : InChain symbolEnv mintedDb (mintedPtr 121) tx) :
    ∃ n, tx = mintedTx n := by
  obtain ⟨pindex, block, hsuffix, hread, htx⟩ := h
  cases pindex with
  | nil => cases hread
  | cons entry pprev =>
    obtain ⟨m, hm, heq⟩ := eq_mintedPtr_of_suffix hsuffix
    rw [heq, read_mintedPtr hm] at hread
    rw [← Option.some.inj hread] at htx
    exact ⟨m, mem_singleton.mp htx⟩

theorem not_issues_mintedTx (n : Nat) (symbol : Bytes) :
    ¬ Issues symbolEnv.toNodeEnv (mintedTx n) symbol := by
  rintro ⟨flags, hissuance, -⟩
  obtain ⟨opReturnArg, -, -, htoken, -⟩ := issuanceOf_eq_some hissuance
  have hscript : (mintedTx n).vout.findSome?
      (fun txout => matchBFXTOpReturn (scriptToString txout.scriptPubKey)) = none := by
    change [(⟨20 * COIN, [0x51]⟩ : CTxOut)].findSome? _ = none
    decide +kernel
  rw [isTxBFXT, hscript, ite_self] at htoken
  cases htoken

theorem rest_mintedState (nBestHeight : Int) : Rest symbolEnv (mintedState nBestHeight) := by
  have hknown := @known_mintedPtr nBestHeight
  have hnone : ∀ tx symbol, InChain symbolEnv mintedDb (mintedPtr 121) tx →
      ¬ Issues symbolEnv.toNodeEnv tx symbol := by
    intro tx symbol htx
    obtain ⟨n, rfl⟩ := eq_mintedTx_of_inChain htx
    exact not_issues_mintedTx n symbol
  refine ⟨⟨?_, ?_⟩, rfl, cons_ne_nil _ _, ?_, ?_, ⟨?_, ?_, ?_, ?_⟩, extends_of_eq rfl rfl rfl⟩
  · intro hash pindex hpindex
    rw [mintedState, mapBlockIndex_mintedMemory] at hpindex
    obtain ⟨n, hfirst, hlast, rfl, rfl⟩ := numbered_eq_some hpindex
    obtain ⟨rest, hrest⟩ := exists_mintedPtr_eq (n - 100)
    refine ⟨_, rest, hrest, ?_⟩
    change BitVec.ofNat 256 (100 + (n - 100)) = _
    rw [Nat.add_sub_cancel' hfirst]
  · intro hash pindex hpindex
    rw [mintedState, mapBlockIndex_mintedMemory] at hpindex
    obtain ⟨n, hfirst, hlast, rfl, rfl⟩ := numbered_eq_some hpindex
    exact hknown (by omega)
  · exact @numbered_ofNat _ 100 221 221 (fun n => mintedPtr (n - 100)) (by decide) (by decide)
      (by decide)
  · exact (linkedTo_nil _).climb (climbs_above (mintedPtr_suffix (Nat.zero_le _)))
      (hknown (Nat.le_refl _)).distinct
  · intro hash pos hpos
    obtain ⟨txindex, htxindex, rfl⟩ := Option.map_eq_some_iff.mp hpos
    rw [mintedState, txIndex_mintedDb] at htxindex
    obtain ⟨n, hfirst, hlast, rfl, rfl⟩ := numbered_eq_some htxindex
    obtain ⟨rest, hrest⟩ := exists_mintedPtr_eq n
    have hread : readFromDisk symbolEnv mintedDb (chainEntry n (n + 1) :: rest) =
        some (mintedBlock n) := by
      rw [← hrest]
      exact read_mintedPtr hlast
    refine ⟨_, rest, mintedBlock n, mintedTx n, ?_, hread, mem_singleton_self _, rfl, rfl, ?_⟩
    · rw [← hrest]
      exact mintedPtr_suffix hlast
    · exact Option.bind_eq_some_iff.mpr ⟨_, (stored_of_readFromDisk hread).1, if_pos rfl⟩
  · exact fun tx htx symbol hissues => absurd hissues (hnone tx symbol htx)
  · exact fun tx symbol htx hissues => absurd hissues (hnone tx symbol htx)
  · exact fun tx tx' symbol symbol' htx _ hissues => absurd hissues (hnone tx symbol htx)

/-- An issuance that spends a coinbase; the symbol is `ABCDE`. -/
def issueTx (n : Nat) : CTransaction :=
  ⟨200 + n, [⟨⟨BitVec.ofNat 256 n, 0⟩, []⟩],
    [⟨0, [0x6a, 0x0e, 0x4e, 0x54, 0x03, 0x01, 0x41, 0x42, 0x43, 0x44, 0x45, 0x05, 0x01, 0x00, 3,
      0]⟩, ⟨COIN, [0x51]⟩], 0⟩

def emptyCoinbase (n : Nat) : CTransaction :=
  ⟨121 + n, [⟨⟨0, 2 ^ 32 - 1⟩, [1, 1]⟩], [⟨0, [0x51]⟩], 0⟩

def issueBlock (n : Nat) : CBlock :=
  ⟨6, BitVec.ofNat 256 (220 + n), BitVec.ofNat 256 (121 + n), 221 + n, encode bnProofOfWorkLimit, 0,
    [emptyCoinbase n, issueTx n], []⟩

def symbolSurroundings : Surroundings TokenTables where
  env := symbolEnv
  hashGenesisBlock := 100
  tokens := tokenLayer
  mempoolLookup _ _ := none
  writeBlockIndex _ _ := true
  updateTxIndex _ _ := true
  disconnectDB _ := ⟨fun _ _ => true, fun _ => true⟩
  writeHashBestChain _ := true
  writeBestInvalidTrust _ := true
  unfinished _ _ := none
  halfDisconnected _ txdb := txdb.txIndex

def symbolAcceptance : Acceptance TokenTables where
  surroundings := symbolSurroundings
  hashSyncCheckpoint := 100
  hashPendingCheckpoint := 0
  fStrictCheckpoints := true
  fDebug := false
  kernelHash _ _ _ _ _ _ := 0
  getPoWHash := symbolEnv.getBlockHash
  inputsFinal _ := true
  computeNextStakeModifier _ := some (0, true)
  checkStakeModifierCheckpoints _ := true
  checkDiskSpace := true
  writeBlock := true
  writeRecord := true
  pending := symbolSurroundings

theorem issues_issueTx_one : Issues symbolEnv.toNodeEnv (issueTx 1) [65, 66, 67, 68, 69] :=
  ⟨⟨0, false, .aggregatable⟩, by decide +kernel, by decide +kernel⟩

theorem storedTx_issued (hblocks : blocks = update mintedDb.blocks 222 (some (issueBlock 1)))
    (h : ∃ key block, blocks key = some block ∧ tx ∈ block.vtx) :
    tx = (if tx.nTime ≤ 121 then mintedTx tx.nTime
      else if tx.nTime = 122 then emptyCoinbase 1 else issueTx 1) ∧ tx.nTime ≤ 201 := by
  obtain ⟨key, block, hkey, htx⟩ := h
  rw [hblocks] at hkey
  rcases eq_or_ne key 222 with rfl | hne
  · rw [update_self] at hkey
    cases hkey
    rcases mem_cons.mp htx with rfl | htx
    · exact ⟨rfl, by decide⟩
    · obtain rfl := mem_singleton.mp htx
      exact ⟨rfl, by decide⟩
  rw [update_of_ne hne, blocks_mintedDb] at hkey
  obtain ⟨n, hfirst, hlast, -, rfl⟩ := numbered_eq_some hkey
  obtain rfl := mem_singleton.mp htx
  have hle : (mintedTx (n - 100)).nTime ≤ 121 := by
    change n - 100 ≤ 121
    omega
  exact ⟨(if_pos hle).symm, by omega⟩

theorem collisionFree_issued
    (hblocks : txdb.blocks = update mintedDb.blocks 222 (some (issueBlock 1))) :
    CollisionFree symbolEnv txdb := by
  intro tx tx' htx htx' hhash
  obtain ⟨heq, hle⟩ := storedTx_issued hblocks htx
  obtain ⟨heq', hle'⟩ := storedTx_issued hblocks htx'
  have htime : tx.nTime = tx'.nTime := by
    have hnat := congrArg BitVec.toNat hhash
    change (BitVec.ofNat 256 tx.nTime).toNat = (BitVec.ofNat 256 tx'.nTime).toNat at hnat
    rwa [toNat_ofNat_of_lt (by omega), toNat_ofNat_of_lt (by omega)] at hnat
  rw [heq, heq', htime]

theorem recordable_issueBlock : Recordable symbolEnv 200000 (issueBlock 1) := by
  intro tx htx symbol hissues
  rcases mem_cons.mp htx with rfl | htx
  · obtain ⟨flags, hissuance, -⟩ := hissues
    have hnone : issuanceOf symbolEnv.toNodeEnv (emptyCoinbase 1) = none := by decide +kernel
    cases hnone.symm.trans hissuance
  obtain rfl := mem_singleton.mp htx
  obtain ⟨flags, hissuance, -⟩ := hissues
  obtain ⟨flags', hissuance', -⟩ := issues_issueTx_one
  obtain ⟨rfl, -⟩ := Prod.mk.inj (Option.mem_unique hissuance hissuance')
  exact ⟨by decide, by decide⟩

theorem guarded_extension (hpprev : pprev = state.memory.pindexBest) (h : ∀ block, readFromDisk
      s.env state.txdb (entry :: pprev) = some block → Recordable s.env state.memory.nBestHeight
      block) : Guarded s create (entry :: pprev) state := by
  subst hpprev
  have hpostpone : postpone (nChainTrust state.memory.pindexBest)
      (entry :: state.memory.pindexBest) = ([], entry :: state.memory.pindexBest) := by
    rw [postpone, if_neg]
    exact fun hpostponed => Nat.lt_irrefl _ hpostponed.2
  refine ⟨fun pindex block hconnect hread => ?_, fun reorganized _ => ?_, fun entry' pprev' block hmem => ?_⟩
  · obtain ⟨hsuffix, hnew⟩ := hconnect
    rw [hpostpone, or_iff_left not_mem_nil] at hnew
    obtain rfl := (suffix_cons_iff.mp hsuffix).resolve_right hnew
    exact h block hread
  · rw [hpostpone]
    trivial
  · rw [hpostpone] at hmem
    cases hmem

def issued (nBestHeight : Int) : State TokenTables :=
  (writeToDisk symbolAcceptance (issueBlock 1) 0 (mintedState nBestHeight)).2

theorem guarded_issueBlock
    (hmake : makeEntry symbolAcceptance (mintedState 200000).memory (issueBlock 1) 0 =
      .ok (entry, pprev)) :
    Guarded symbolSurroundings false (entry :: pprev) (insertBlock symbolAcceptance entry pprev
      (beginWrite symbolAcceptance (issueBlock 1) (mintedState 200000))) := by
  obtain ⟨hhash, hkey, hpprev, -⟩ := makeEntry_eq_ok hmake
  have hbest := (rest_mintedState 200000).best
  obtain rfl : pprev = (mintedState 200000).memory.pindexBest := by
    rw [hpprev]
    exact congrArg (Option.getD · []) hbest
  refine guarded_extension rfl fun block hread => ?_
  have hstored := (stored_of_readFromDisk hread).1
  rw [(txdb_insertBlock symbolAcceptance).1, hkey, hhash, update_self] at hstored
  rw [← Option.some.inj hstored]
  exact recordable_issueBlock

theorem uniqueSymbols_issued :
    writeToDisk symbolAcceptance (issueBlock 1) 0 (mintedState 200000) = (.ok (), issued 200000) ∧
      Issues symbolEnv.toNodeEnv (issueTx 1) [65, 66, 67, 68, 69] ∧
      UniqueSymbols symbolEnv (issued 200000).committed (issued 200000).memory.pindexBest := by
  have hcall : writeToDisk symbolAcceptance (issueBlock 1) 0 (mintedState 200000) =
      (.ok (), issued 200000) := Prod.ext (by decide +kernel) (by rw [issued])
  have hrest := rest_mintedState 200000
  have hnew : (mintedState 200000).committed.blocks 222 = none := by decide +kernel
  obtain ⟨hrun, hblocks⟩ := @Runs.writeToDisk symbolEnv (issueBlock 1) _ _ symbolAcceptance 0 _
    (.refl _) hrest 20 rfl rfl (by decide) (by decide +kernel) (by decide)
    (fun stored hstored => by cases hnew.symm.trans hstored) (fun _ _ => guarded_issueBlock) hcall
  exact ⟨hcall, issues_issueTx_one,
    uniqueSymbols_of_runs hrest hrun (fun _ => Nat.zero_lt_succ 99) (collisionFree_issued hblocks)⟩

theorem mainChain_issued :
    isInMainChain (issued 200000).memory (mintedPtr 7) = true ↔
      mintedPtr 7 <:+ (issued 200000).memory.pindexBest := by
  have hrest := rest_mintedState 200000
  obtain ⟨hrun, hblocks⟩ := @Runs.writeToDisk symbolEnv (issueBlock 1) _ (issued 200000)
    symbolAcceptance 0 _ (.refl _) hrest 20 rfl rfl (by decide) (by decide +kernel) (by decide)
    nofun (fun _ _ => guarded_issueBlock) (Prod.ext (by decide +kernel) (by rw [issued]))
  exact (mainChain_of_runs hrest hrun (fun _ => Nat.zero_lt_succ 99)
    (collisionFree_issued hblocks)).1 107 _ (by decide +kernel)

def twiceIssued : State TokenTables :=
  (writeToDisk symbolAcceptance (issueBlock 2) 0 (issued 121)).2

/-- At a height at which no records are kept yet, the second issuance is accepted. -/
theorem writeToDisk_symbol_twice :
    Rest symbolEnv (mintedState 121) ∧
      (mintedState 121).memory.nBestHeight = nHeight (mintedState 121).memory.pindexBest ∧
      Enforced symbolEnv (mintedState 121).memory.nBestHeight ∧
      writeToDisk symbolAcceptance (issueBlock 1) 0 (mintedState 121) = (.ok (), issued 121) ∧
      Enforced symbolEnv (issued 121).memory.nBestHeight ∧
      writeToDisk symbolAcceptance (issueBlock 2) 0 (issued 121) = (.ok (), twiceIssued) ∧
      ¬ UniqueSymbols symbolEnv twiceIssued.committed twiceIssued.memory.pindexBest := by
  refine ⟨rest_mintedState 121, by decide +kernel, by decide +kernel,
    Prod.ext ?_ (by rw [issued]), ?_, Prod.ext ?_ (by rw [twiceIssued]), fun h => ?_⟩
  · decide +kernel
  · decide +kernel
  · decide +kernel
  refine h (issueTx 1) (issueTx 2) _ _ ⟨twiceIssued.memory.pindexBest.tail, issueBlock 1,
    tail_suffix _, ?_, ?_⟩ ⟨twiceIssued.memory.pindexBest, issueBlock 2, suffix_refl _, ?_, ?_⟩
    issues_issueTx_one ⟨⟨0, false, .aggregatable⟩, by decide +kernel, by decide +kernel⟩ ?_ rfl
  · decide +kernel
  · decide +kernel
  · decide +kernel
  · decide +kernel
  · decide +kernel

end Example

end Bfx.SymbolUniqueness
