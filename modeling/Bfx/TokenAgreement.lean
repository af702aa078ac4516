import Bfx.IssuanceDistribution
import Bfx.LeafOrder
import Bfx.RecordConsistency

/-!
The loop of `ConnectBlock` reads the token data of every transaction of a block, and
`WriteBFXTBlockTransactionsToDisk` reads it again, from the database and in another
order.
-/

namespace Bfx.TokenAgreement

open AcceptedScripts BestChain BlockConnection BlockTree CallOutcome ChainAgreement ChainIndex
  DependencyOrder Function InputConnection IssuanceDistribution LeafOrder List MemoTable
  MintingBound NodeEnvironments NodeState RecordConsistency SpentIndex SpentLog SymbolRelease
open Bfx.SymbolUniqueness hiding Extends Fetched
open TokenInputs TokenReading TokenScript TokenSymbols TokenTransaction TransferInterpreter
  Transaction

variable {parent : CTransaction}

section Order

variable {env : ChainEnv} {txdb : CTxDB} {block : CBlock} {pindex : CBlockIndex}
  {ancestors : List CBlockIndex} {vtx : List CTransaction} {state : BlockState}

theorem connectTransactions_append (before after : List CTransaction) (state : BlockState) :
    connectTransactions env txdb block pindex ancestors false (before ++ after) state =
      connectTransactions env txdb block pindex ancestors false before state >>=
        connectTransactions env txdb block pindex ancestors false after := by
  induction before generalizing state with
  | nil => rfl
  | cons tx before ih =>
    rw [cons_append, connectTransactions, connectTransactions, bind_assoc]
    simp only [ih]

/-- No transaction of the block spends from itself or from a later one. The id of a
later one is not in use, or all of its outputs are spent. -/
theorem connectTransactions_order (hstarts : Starts env txdb vtx state)
    (h : connectTransactions env txdb block pindex ancestors false vtx state = .ok final) :
    (∀ tx ∈ vtx, isCoinBase tx = false → ¬ SpendsFrom env tx tx) ∧
      vtx.Pairwise fun tx later => isCoinBase tx = false → ¬ SpendsFrom env tx later := by
  induction vtx generalizing state with
  | nil => exact ⟨nofun, .nil⟩
  | cons tx vtx ih =>
    obtain ⟨next, hnext, h⟩ := bind_eq_ok.mp h
    have hfirst : ∀ later ∈ tx :: vtx, isCoinBase tx = false → ¬ SpendsFrom env tx later := by
      intro later hlater htx hspends
      obtain ⟨txin, htxin, hhash⟩ := any_eq_true.mp hspends
      have hspent : toCoin txin.prevout ∈
          (toEntry env.getHash tx ⟨pindex.blockKeyInDB, state.nTxPos⟩).spends := by
        rw [toEntry, spentBy, if_neg (by simp [htx])]
        exact mem_map_of_mem (mem_map_of_mem htxin)
      obtain ⟨record, hrecord, hslot⟩ := (hstarts.view hnext).1.unspent _ hspent
      rw [toCoin, eq_of_beq hhash] at hrecord
      exact hstarts.spent later hlater record hrecord (mem_of_getElem? hslot)
    obtain ⟨hself, hpairwise⟩ := ih (hstarts.step hnext) h
    refine ⟨forall_mem_cons.mpr ⟨hfirst tx mem_cons_self, hself⟩, ?_⟩
    exact pairwise_cons.mpr
      ⟨fun later hlater => hfirst later (mem_cons_of_mem _ hlater), hpairwise⟩

/-- A connected block has its transactions behind those that they spend from. -/
theorem connectBlock_order
    (h : connectBlock env txdb pindex ancestors false block = .ok connected) :
    (∀ tx ∈ block.vtx, isCoinBase tx = false → ¬ SpendsFrom env tx tx) ∧
      block.vtx.Pairwise fun tx later => isCoinBase tx = false → ¬ SpendsFrom env tx later := by
  obtain ⟨hcheck, final, hloop, -⟩ := connectBlock_eq_ok h
  exact connectTransactions_order (starts_of_checkBlock hcheck hloop) hloop

theorem connectBlock_order_strayTx : ∃ connected,
    connectBlock workEnv workDb workIndex [] false (workBlock [strayTx]) = .ok connected ∧
      ¬ SpendsFrom workEnv strayTx strayTx := by
  refine ⟨_, rfl, ?_⟩
  exact (@connectBlock_order workEnv workDb (workBlock [strayTx]) workIndex [] _ rfl).1 strayTx
    (by decide) (by decide)

theorem connectTransactions_keeps (hstarts : Starts env txdb vtx state)
    (h : connectTransactions env txdb block pindex ancestors false vtx state = .ok final)
    {hash : UInt256} (hnot : hash ∉ vtx.map env.getHash)
    (hindex : currentIndex txdb state.mapQueuedChanges hash = some txindex) :
    ∃ txindex', currentIndex txdb final.mapQueuedChanges hash = some txindex' ∧
      txindex'.pos = txindex.pos ∧ txindex'.vSpent.length = txindex.vSpent.length := by
  induction vtx generalizing state txindex with
  | nil =>
    cases h
    exact ⟨txindex, hindex, rfl, rfl⟩
  | cons tx vtx ih =>
    obtain ⟨next, hnext, h⟩ := bind_eq_ok.mp h
    rw [map_cons, mem_cons, not_or] at hnot
    have hview := (congrFun (hstarts.view hnext).2 hash).trans
      (update_of_ne hnot.1 _ _)
    rw [setSlots, toView, toView, hindex, Option.map_some, Option.map_some] at hview
    obtain ⟨txindex', hindex', hrecord⟩ := Option.map_eq_some_iff.mp hview
    obtain ⟨hpos, hslots⟩ := Record.mk.inj hrecord
    obtain ⟨last, hlast, hlastPos, hlength⟩ := ih (hstarts.step hnext) h hnot.2 hindex'
    have hmarks := congrArg List.length hslots
    rw [length_map, length_mapIdx, toRecord, length_map] at hmarks
    exact ⟨last, hlast, hlastPos.trans hpos, hlength.trans hmarks⟩

end Order

/-- A call of `ConnectBlock`: the node, its database and the block. -/
structure Call where
  env : ChainEnv
  txdb : CTxDB
  node : NodeDb TokenTables
  block : CBlock
  pindex : CBlockIndex
  ancestors : List CBlockIndex

section Loop

/-- The loop over the first transactions of the block. -/
def Call.loop (c : Call) (vtx : List CTransaction) : Verdict BlockState :=
  connectTransactions c.env c.txdb c.block c.pindex c.ancestors false vtx
    (initialState false c.block)

/-- The record that the loop reads for a transaction, with what is queued when the
transaction is reached. -/
def Call.Computes (c : Call) (tx : CTransaction) (bfxttx : BFXTTransaction) : Prop :=
  ∃ before after current, c.block.vtx = before ++ tx :: after ∧ c.loop before = .ok current ∧
    (c.env.getAllBFXTInputsOfTx tx current.mapQueuedBFXTInputs current.mapQueuedChanges >>=
      readBFXTDataFromTx c.env.toNodeEnv emptyBFXTTransaction tx) = .ok bfxttx

/-- The loop passes, on a node whose index is sound. -/
structure Call.Passes (c : Call) (known : CTransaction → Prop) (final : BlockState) : Prop where
  active : c.env.isForkActivated .tachyon = true
  tokens_eq : ∀ tx mapQueuedBFXTInputs queuedAcceptedTxs,
    c.env.getAllBFXTInputsOfTx tx mapQueuedBFXTInputs queuedAcceptedTxs =
      getAllBFXTInputsOfTx c.env (toReader c.env c.node) c.node.tokens.bfxtTxs mapQueuedBFXTInputs
        queuedAcceptedTxs tx
  readTxIndex_eq : c.txdb.readTxIndex = c.node.txIndex
  readTx_eq : c.txdb.readTx = readTx c.env c.node
  indexed : Indexed c.env known c.node
  stored : c.node.blocks c.pindex.blockKeyInDB = some c.block
  vtx_known : ∀ tx ∈ c.block.vtx, known tx
  size_pos : ∀ tx, 0 < c.env.getSerializeSize tx
  distinct : DistinctIds c.env known
  ids_ne_zero : ∀ tx, known tx → c.env.getHash tx ≠ 0
  starts : Starts c.env c.txdb c.block.vtx (initialState false c.block)
  loop : c.loop c.block.vtx = .ok final

variable {c : Call} {known : CTransaction → Prop} {final : BlockState}

theorem Call.Passes.order (h : c.Passes known final) :
    (∀ tx ∈ c.block.vtx, ¬ SpendsFrom c.env tx tx) ∧
      c.block.vtx.Pairwise fun tx later => ¬ SpendsFrom c.env tx later := by
  obtain ⟨hself, hpairwise⟩ := connectTransactions_order h.starts h.loop
  have hcoinbase : ∀ tx later, later ∈ c.block.vtx →
      (isCoinBase tx = false → ¬ SpendsFrom c.env tx later) → ¬ SpendsFrom c.env tx later := by
    intro tx later hlater hspending
    cases htx : isCoinBase tx with
    | false => exact hspending htx
    | true =>
      rw [isCoinBase] at htx
      split at htx
      · rename_i txin hvin
        have hnull : txin.prevout.hash = 0 := by
          rw [Bool.and_eq_true, COutPoint.isNull, Bool.and_eq_true] at htx
          exact eq_of_beq htx.1.1
        rw [SpendsFrom, hvin, any_cons, any_nil, Bool.or_false, beq_iff_eq, hnull]
        exact (h.ids_ne_zero later (h.vtx_known later hlater)).symm
      · cases htx
  refine ⟨fun tx htx => hcoinbase tx tx htx (hself tx htx), ?_⟩
  exact hpairwise.imp_of_mem fun _ hlater hspending => hcoinbase _ _ hlater hspending

theorem Call.Passes.acyclic (h : c.Passes known final) :
    Acyclic (SpendsFrom c.env) c.block.vtx :=
  acyclic_of_pairwise h.order.2 h.order.1

variable {before after : List CTransaction}

variable (h : c.Passes known final)
include h

theorem Call.Passes.mem_before (hvtx : c.block.vtx = before ++ tx :: after)
    (hparent : parent ∈ c.block.vtx) (hspends : SpendsFrom c.env tx parent) : parent ∈ before := by
  obtain ⟨hself, hpairwise⟩ := h.order
  rw [hvtx] at hself hpairwise hparent
  rcases mem_append.mp hparent with hbefore | hbehind
  · exact hbefore
  rcases mem_cons.mp hbehind with rfl | hafter
  · exact absurd hspends (hself parent (mem_append_right _ mem_cons_self))
  · have hrest := (pairwise_append.mp hpairwise).2.1
    exact absurd hspends ((pairwise_cons.mp hrest).1 parent hafter)

theorem Call.Passes.indexed_loop (hvtx : c.block.vtx = before ++ after)
    (hloop : c.loop before = .ok current) :
    Indexed c.env known
      { c.node with txIndex := currentIndex c.txdb current.mapQueuedChanges } := by
  intro hash pos hpos
  have hsum := h.starts.pos_lt
  rw [hvtx, map_append, sum_append] at hsum
  rcases connectTransactions_positions (by omega) hloop hash with
    ⟨-, heq⟩ | ⟨first, tx, rest, hbefore, hhash, heq⟩
  · have hempty : currentIndex c.txdb (initialState false c.block).mapQueuedChanges =
        c.node.txIndex := (currentIndex_empty _).trans h.readTxIndex_eq
    rw [hempty] at heq
    exact h.indexed hash pos (heq.symm.trans hpos)
  obtain rfl := Option.mem_unique heq hpos
  have htx : tx ∈ c.block.vtx := by
    rw [hvtx, hbefore]
    exact mem_append_left _ (mem_append_right _ mem_cons_self)
  refine ⟨tx, h.vtx_known tx htx, hhash, ?_⟩
  rw [readTx, h.stored, Option.bind_some, hvtx, hbefore, append_assoc, cons_append]
  exact txAt_append h.size_pos first _ tx _

omit h

end Loop

section Validation

theorem connectTransaction_tokens {next : BlockState} (hactive : env.isForkActivated .tachyon = true)
    (h : connectTransaction env txdb block pindex ancestors false tx state = .ok next) :
    ∃ inputsTxs, next.mapQueuedBFXTInputs =
        update state.mapQueuedBFXTInputs (env.getHash tx) (some inputsTxs) ∧
      (isCoinBase tx = false →
        (∃ mapInputs, fetchInputs env txdb state.mapQueuedChanges true false tx (fun _ => none) =
          .ok mapInputs) ∧
        ((isTxBFXT env.toNodeEnv tx).isSome →
          env.getAllBFXTInputsOfTx tx state.mapQueuedBFXTInputs state.mapQueuedChanges =
            .ok inputsTxs ∧
          ∃ bfxttx, readBFXTDataFromTx env.toNodeEnv emptyBFXTTransaction tx inputsTxs =
            .ok bfxttx)) := by
  simp only [connectTransaction, bind_eq_ok] at h
  obtain ⟨_, -, _, -, ⟨connected, inputsTxs⟩, hconnect, h⟩ := h
  cases h
  obtain ⟨htx, rfl, nValueOut, rfl⟩ | ⟨-, hconnect⟩ := connectByKind_cases hconnect
  · exact ⟨[], rfl, fun hnot => absurd htx (Bool.eq_false_iff.mp hnot)⟩
  simp only [connectSpending, bind_eq_ok] at hconnect
  obtain ⟨mapInputs, hfetch, _, -, _, -, _, -, _, -, inputs, hverify, _, -, _, -, hconnect⟩ :=
    hconnect
  obtain ⟨rfl, rfl⟩ := Prod.mk.inj (Except.ok.inj hconnect)
  refine ⟨inputs, rfl, fun _ => ⟨⟨mapInputs, hfetch⟩, fun htoken => ?_⟩⟩
  rw [verifyTokens, hactive, Bool.true_and, if_pos htoken, catchCall_eq_ok] at hverify
  obtain ⟨inputs', hinputs, hverify⟩ := bind_eq_ok.mp hverify
  obtain ⟨bfxttx, hread, hverify⟩ := bind_eq_ok.mp hverify
  cases hverify
  exact ⟨hinputs, bfxttx, hread⟩

/-- A token transaction that is not a coinbase: the loop reads it. -/
structure ReadInLoop (env : ChainEnv) (tx : CTransaction) : Prop where
  spending : isCoinBase tx = false
  token : (isTxBFXT env.toNodeEnv tx).isSome

/-- The token transactions that the block spends from have records, or the loop reads
them. -/
def Call.ParentsRecorded (c : Call) (known : CTransaction → Prop) : Prop :=
  ∀ tx ∈ c.block.vtx, ReadInLoop c.env tx → ∀ parent, known parent → SpendsFrom c.env tx parent →
    (isTxBFXT c.env.toNodeEnv parent).isSome →
    (c.node.tokens.bfxtTxs (c.env.getHash parent)).isSome ∨
      (parent ∈ c.block.vtx ∧ ReadInLoop c.env parent)

/-- The records after the first transactions, with those of the database. -/
structure Call.Computed (c : Call) (known : CTransaction → Prop) (hids : DistinctIds c.env known)
    (before : List CTransaction) (current : BlockState)
    (records : UInt256 → Option BFXTTransaction) : Prop where
  consistent : (recordRule c.env known hids).Consistent records
  extends_db : Extends c.node.tokens.bfxtTxs records
  queued : ∀ tx ∈ before, ReadInLoop c.env tx → ∃ inputsTxs bfxttx,
    current.mapQueuedBFXTInputs (c.env.getHash tx) = some inputsTxs ∧
    List.Forall₂ (PairOf c.env known records) tx.vin inputsTxs ∧
    readBFXTDataFromTx c.env.toNodeEnv emptyBFXTTransaction tx inputsTxs = .ok bfxttx ∧
    records (c.env.getHash tx) = some bfxttx ∧ c.Computes tx bfxttx
  fresh : ∀ hash, hash ∉ before.map c.env.getHash → current.mapQueuedBFXTInputs hash = none

variable {c : Call} {known : CTransaction → Prop} {hids : DistinctIds c.env known}
  {final current next : BlockState} {before after : List CTransaction} {tx : CTransaction}
  {records records' : UInt256 → Option BFXTTransaction}

theorem Call.Computed.push (h : c.Computed known hids before current records)
    (hfresh : c.env.getHash tx ∉ before.map c.env.getHash) (hqueue : next.mapQueuedBFXTInputs =
      update current.mapQueuedBFXTInputs (c.env.getHash tx) (some inputsTxs))
    (hconsistent : (recordRule c.env known hids).Consistent records')
    (hextends : Extends records records') (hown : ReadInLoop c.env tx → ∃ bfxttx, List.Forall₂
      (PairOf c.env known records') tx.vin inputsTxs ∧ readBFXTDataFromTx c.env.toNodeEnv
      emptyBFXTTransaction tx inputsTxs = .ok bfxttx ∧ records' (c.env.getHash tx) = some bfxttx ∧
      c.Computes tx bfxttx) : c.Computed known hids (before ++ [tx]) next records' := by
  refine ⟨hconsistent, h.extends_db.trans hextends, fun other hother hloop => ?_, fun hash hhash => ?_⟩
  · rw [hqueue]
    rcases mem_append.mp hother with hbefore | hlast
    · obtain ⟨inputs, bfxttx, hqueued, hpairs, hread, hrecord, hcomputes⟩ :=
        h.queued other hbefore hloop
      have hne : c.env.getHash other ≠ c.env.getHash tx :=
        fun heq => hfresh (heq ▸ mem_map_of_mem hbefore)
      rw [update_of_ne hne]
      exact ⟨inputs, bfxttx, hqueued, hpairs.imp fun _ _ hpair => hpair.mono hextends, hread,
        hextends _ _ hrecord, hcomputes⟩
    obtain rfl := mem_singleton.mp hlast
    obtain ⟨bfxttx, hpairs, hread, hrecord, hcomputes⟩ := hown hloop
    rw [update_self]
    exact ⟨inputsTxs, bfxttx, rfl, hpairs, hread, hrecord, hcomputes⟩
  rw [map_append, mem_append, not_or, map_singleton, mem_singleton] at hhash
  rw [hqueue, update_of_ne hhash.2]
  exact h.fresh hash hhash.1

variable (h : c.Computed known hids before current records)
include h

variable (hpasses : c.Passes known final)
include hpasses

variable (hparents : c.ParentsRecorded known)
include hparents

variable (hvtx : c.block.vtx = before ++ tx :: after)
include hvtx

theorem Call.Computed.pairs (hloop : c.loop before = .ok current)
    (hfresh : c.env.getHash tx ∉ before.map c.env.getHash) (hread : ReadInLoop c.env tx) (hinputs :
      c.env.getAllBFXTInputsOfTx tx current.mapQueuedBFXTInputs current.mapQueuedChanges = .ok
      inputsTxs)
    (hrecord : readBFXTDataFromTx c.env.toNodeEnv emptyBFXTTransaction tx inputsTxs = .ok bfxttx) :
    List.Forall₂ (PairOf c.env known records) tx.vin inputsTxs := by
  obtain ⟨opReturnArg, hscript⟩ := Option.isSome_iff_exists.mp hread.token
  have htx : tx ∈ c.block.vtx := by
    rw [hvtx]
    exact mem_append_right _ mem_cons_self
  have hindex : currentIndex (toReader c.env c.node) current.mapQueuedChanges =
      currentIndex c.txdb current.mapQueuedChanges := by
    funext hash
    rw [currentIndex, currentIndex, hpasses.readTxIndex_eq]
    rfl
  have hreads := readsById_of_indexed (hpasses.indexed_loop hvtx hloop)
  rw [← hindex] at hreads
  rw [hpasses.tokens_eq] at hinputs
  refine forall₂_of_mem
    (inputs_of_readBFXTDataFromTx hreads (h.fresh _ hfresh) hscript hinputs hrecord) ?_
  rintro txin htxin pair ⟨hknown, hhash, hpair, hlt⟩
  rcases pairOf_cases hpair hlt with ⟨hplain, hminimal⟩ | ⟨htoken, hstored⟩ |
    ⟨htoken, hnone, inputsOfInput, hqueued, hreadInput, -⟩
  · refine ⟨hknown, hhash, fun htoken => ?_, fun _ => hminimal⟩
    rw [hplain] at htoken
    cases htoken
  · refine ⟨hknown, hhash, fun _ => h.extends_db _ _ hstored, fun hplain => ?_⟩
    rw [hplain] at htoken
    cases htoken
  -- without a record it is in the block, and has been read before
  have hspends : SpendsFrom c.env tx pair.1 :=
    any_eq_true.mpr ⟨txin, htxin, beq_iff_eq.mpr hhash.symm⟩
  rcases hparents tx htx hread pair.1 hknown hspends htoken with hsome | ⟨hmem, hparent⟩
  · rw [hnone] at hsome
    cases hsome
  obtain ⟨queued, parentRecord, hmap, -, hreadQueued, hrecorded, -⟩ :=
    h.queued pair.1 (hpasses.mem_before hvtx hmem hspends) hparent
  obtain ⟨mapInputs, -, hqueued⟩ := bind_eq_ok.mp hqueued
  rw [stdFetchedInputTxsToBFXT] at hqueued
  obtain ⟨pairs, -, hqueued⟩ := bind_eq_ok.mp hqueued
  rw [hmap] at hqueued
  obtain rfl := Except.ok.inj hqueued
  obtain rfl := Except.ok.inj (hreadQueued.symm.trans hreadInput)
  refine ⟨hknown, hhash, fun _ => hrecorded, fun hplain => ?_⟩
  rw [hplain] at htoken
  cases htoken

theorem Call.Computed.step (hloop : c.loop before = .ok current)
    (hnext : connectTransaction c.env c.txdb c.block c.pindex c.ancestors false tx current =
      .ok next) :
    ∃ records', c.Computed known hids (before ++ [tx]) next records' := by
  have hfresh : c.env.getHash tx ∉ before.map c.env.getHash := by
    have hnodup := hpasses.starts.nodup
    rw [hvtx, map_append, map_cons, nodup_middle, nodup_cons] at hnodup
    exact fun hmem => hnodup.1 (mem_append_left _ hmem)
  have htx : known tx := by
    apply hpasses.vtx_known
    rw [hvtx]
    exact mem_append_right _ mem_cons_self
  obtain ⟨inputsTxs, hqueue, hspending⟩ := connectTransaction_tokens hpasses.active hnext
  rcases Classical.em (ReadInLoop c.env tx) with hread | hnot
  · obtain ⟨hinputs, bfxttx, hrecord⟩ := (hspending hread.spending).2 hread.token
    have hpairs := h.pairs hpasses hparents hvtx hloop hfresh hread hinputs hrecord
    have hmakes : (recordRule c.env known hids).makes _ (c.env.getHash tx) bfxttx :=
      ⟨tx, htx, rfl, hread.token, inputsTxs, c.env.nBestHeight, hpairs, hrecord⟩
    have hextends := h.consistent.extends_update hmakes
    refine ⟨_, h.push hfresh hqueue (h.consistent.update hmakes) hextends fun _ => ?_⟩
    refine ⟨bfxttx, hpairs.imp fun _ _ hpair => hpair.mono hextends, hrecord,
      update_self _ _ _, before, after, current, hvtx, hloop, ?_⟩
    exact bind_eq_ok.mpr ⟨inputsTxs, hinputs, hrecord⟩
  · exact ⟨records, h.push hfresh hqueue h.consistent (Extends.refl _) fun hread => absurd hread hnot⟩

omit hvtx

theorem Call.Computed.run
    (hvtx : c.block.vtx = before ++ after) (hloop : c.loop before = .ok current)
    (hrest : connectTransactions c.env c.txdb c.block c.pindex c.ancestors false after current =
      .ok final) :
    ∃ records', c.Computed known hids c.block.vtx final records' := by
  induction after generalizing before current records with
  | nil =>
    cases hrest
    rw [append_nil] at hvtx
    exact ⟨records, hvtx ▸ h⟩
  | cons tx after ih =>
    obtain ⟨next, hnext, hrest⟩ := bind_eq_ok.mp hrest
    obtain ⟨records', hcomputed⟩ := h.step hpasses hparents hvtx hloop hnext
    refine ih hcomputed ?_ ?_ hrest
    · rw [hvtx, append_assoc, singleton_append]
    rw [Call.loop] at hloop ⊢
    rw [connectTransactions_append, hloop, ok_bind]
    exact bind_eq_ok.mpr ⟨next, hnext, rfl⟩

omit hparents

omit hpasses

omit h

theorem Call.Passes.computed (hpasses : c.Passes known final) (hparents : c.ParentsRecorded known)
    (hconsistent : (recordRule c.env known hids).Consistent c.node.tokens.bfxtTxs) :
    ∃ records, c.Computed known hids c.block.vtx final records := by
  have hempty : c.Computed known hids [] (initialState false c.block) c.node.tokens.bfxtTxs :=
    ⟨hconsistent, Extends.refl _, nofun, fun _ _ => rfl⟩
  exact hempty.run hpasses hparents rfl rfl hpasses.loop

end Validation

section Inputs

variable {env : ChainEnv} {txdb : CTxDB} {tx : CTransaction} {vin : List CTxIn}
  {inputs : MapPrevTx}

theorem ensureFetched_ok_iff : ensureFetched env tx inputs vin = .ok () ↔
    ∀ txin ∈ vin, ∃ txindex txPrev, inputs txin.prevout.hash = some (txindex, txPrev) ∧
      txin.prevout.n < txPrev.vout.length ∧ txin.prevout.n < txindex.vSpent.length := by
  induction vin with
  | nil => exact iff_of_true rfl (forall_mem_nil _)
  | cons txin vin ih =>
    rw [forall_mem_cons, ← ih, ensureFetched]
    cases hfound : inputs txin.prevout.hash with
    | none =>
      refine iff_of_false (by rintro ⟨⟩) ?_
      rintro ⟨⟨txindex, txPrev, hentry, -⟩, -⟩
      cases hentry
    | some entry =>
      obtain ⟨txindex, txPrev⟩ := entry
      dsimp only
      rw [bind_eq_ok]
      constructor
      · rintro ⟨_, hrange, hrest⟩
        exact ⟨⟨txindex, txPrev, rfl, ensure_eq_ok.mp hrange⟩, hrest⟩
      rintro ⟨⟨txindex', txPrev', hentry, hrange⟩, hrest⟩
      cases hentry
      exact ⟨(), ensure_eq_ok.mpr hrange, hrest⟩

theorem exists_fetchEach {queue : UInt256 → Option CTxIndex}
    (h : ∀ txin ∈ vin, ∃ txindex txPrev, currentIndex txdb queue txin.prevout.hash = some txindex ∧
      readPrev env txdb txin.prevout.hash txindex.pos = some txPrev) :
    ∃ inputs', fetchEach env txdb queue true false tx vin inputs = .ok inputs' ∧
      (∀ hash, (inputs hash).isSome → (inputs' hash).isSome) ∧
      ∀ txin ∈ vin, (inputs' txin.prevout.hash).isSome := by
  induction vin generalizing inputs with
  | nil => exact ⟨inputs, rfl, fun _ hsome => hsome, nofun⟩
  | cons txin vin ih =>
    obtain ⟨⟨txindex, txPrev, hindex, hprev⟩, hrest⟩ := forall_mem_cons.mp h
    obtain ⟨next, hnext, hmono, hsome⟩ : ∃ next,
        fetchInput env txdb queue true false tx inputs txin.prevout = .ok next ∧
        (∀ hash, (inputs hash).isSome → (next hash).isSome) ∧
        (next txin.prevout.hash).isSome := by
      rw [fetchInput]
      cases hfound : inputs txin.prevout.hash with
      | some entry =>
        exact ⟨inputs, rfl, fun _ hsome => hsome, Option.isSome_iff_exists.mpr ⟨entry, hfound⟩⟩
      | none =>
        dsimp only
        rw [Bool.true_or, if_pos rfl, hindex]
        dsimp only
        rw [hprev]
        refine ⟨_, rfl, fun hash hsome => ?_, ?_⟩
        · rcases eq_or_ne hash txin.prevout.hash with rfl | hne
          · rw [update_self]
            rfl
          · rwa [update_of_ne hne]
        · rw [update_self]
          rfl
    obtain ⟨inputs', hinputs, hmono', hsomes⟩ := @ih next hrest
    refine ⟨inputs', bind_eq_ok.mpr ⟨next, hnext, hinputs⟩, fun hash hhash => ?_, ?_⟩
    · exact hmono' hash (hmono hash hhash)
    · exact forall_mem_cons.mpr ⟨hmono' _ hsome, hsomes⟩

/-- Every input of the transaction can be read, with the output that it spends. -/
def Readable (env : ChainEnv) (txdb : CTxDB) (index : UInt256 → Option CTxIndex)
    (tx : CTransaction) : Prop :=
  ∀ txin ∈ tx.vin, ∃ txindex txPrev, index txin.prevout.hash = some txindex ∧
    readPrev env txdb txin.prevout.hash txindex.pos = some txPrev ∧
    txin.prevout.n < txPrev.vout.length ∧ txin.prevout.n < txindex.vSpent.length

theorem readable_of_fetchInputs (htx : isCoinBase tx = false)
    (h : fetchInputs env txdb queue true false tx (fun _ => none) = .ok inputs) :
    Readable env txdb (currentIndex txdb queue) tx := by
  have hfetched := fetchInputs_fetched htx h
  rw [fetchInputs, if_neg (by simp [htx])] at h
  obtain ⟨inputs', -, h⟩ := bind_eq_ok.mp h
  obtain ⟨_, hensure, h⟩ := bind_eq_ok.mp h
  cases h
  intro txin htxin
  obtain ⟨txindex, txPrev, hentry, hlt⟩ := ensureFetched_ok_iff.mp hensure txin htxin
  obtain ⟨hindex, hprev⟩ := hfetched _ _ _ hentry
  exact ⟨txindex, txPrev, hindex, hprev, hlt⟩

theorem exists_fetchInputsForTokens {queue : UInt256 → Option CTxIndex}
    (htx : isCoinBase tx = false)
    (h : Readable env txdb (currentIndex txdb queue) tx) :
    ∃ mapInputs, fetchInputsForTokens env txdb queue tx = .ok mapInputs ∧
      Fetched env txdb queue mapInputs ∧
      ∀ txin ∈ tx.vin, (mapInputs txin.prevout.hash).isSome := by
  have hreads : ∀ txin ∈ tx.vin, ∃ txindex txPrev,
      currentIndex txdb queue txin.prevout.hash = some txindex ∧
      readPrev env txdb txin.prevout.hash txindex.pos = some txPrev := by
    intro txin htxin
    obtain ⟨txindex, txPrev, hindex, hprev, -⟩ := h txin htxin
    exact ⟨txindex, txPrev, hindex, hprev⟩
  obtain ⟨mapInputs, hfetch, -, hsome⟩ := @exists_fetchEach env txdb tx _ (fun _ => none) _ hreads
  have hempty : Fetched env txdb queue fun _ => none :=
    fun hash txindex txPrev hentry => nomatch hentry
  have hfetched := fetchEach_fetched hempty hfetch
  refine ⟨mapInputs, ?_, hfetched, hsome⟩
  have hensure : ensureFetched env tx mapInputs tx.vin = .ok () := by
    refine ensureFetched_ok_iff.mpr fun txin htxin => ?_
    obtain ⟨⟨txindex, txPrev⟩, hentry⟩ := Option.isSome_iff_exists.mp (hsome txin htxin)
    obtain ⟨hindex, hprev⟩ := hfetched _ _ _ hentry
    obtain ⟨txindex', txPrev', hindex', hprev', hlt⟩ := h txin htxin
    obtain rfl := Option.mem_unique hindex hindex'
    obtain rfl := Option.mem_unique hprev hprev'
    exact ⟨txindex, txPrev, hentry, hlt⟩
  rw [fetchInputsForTokens, if_neg (by simp [htx]), hfetch]
  dsimp only
  rw [hensure]

theorem getAllBFXTInputsOfTx_of_pairs (htx : isCoinBase tx = false) (hids : DistinctIds env known)
    (hreads : ReadsById env known (toReader env node) node.txIndex)
    (hreadable : Readable env (toReader env node) node.txIndex tx)
    (hpairs : List.Forall₂ (PairOf env known bfxtTxs) tx.vin inputsTxs) :
    getAllBFXTInputsOfTx env (toReader env node) bfxtTxs (fun _ => none) (fun _ => none) tx =
      .ok inputsTxs := by
  obtain ⟨mapInputs, hfetch, hfetched, hsome⟩ :=
    @exists_fetchInputsForTokens env (toReader env node) tx (fun _ => none) htx hreadable
  have hminimal : tx.vin.mapM (inputPair env tx mapInputs) = .ok (inputsTxs.map fun pair =>
      (pair.1, readBFXTDataFromTxMinimal env.toNodeEnv emptyBFXTTransaction pair.1)) := by
    refine mapM_eq_ok.mpr (forall₂_map_right_iff.mpr (forall₂_of_mem hpairs ?_))
    intro txin htxin pair hpair
    obtain ⟨⟨txindex, txPrev⟩, hentry⟩ := Option.isSome_iff_exists.mp (hsome txin htxin)
    obtain ⟨hindex, hprev⟩ := hfetched _ _ _ hentry
    obtain ⟨hknown, hhash⟩ := hreads _ _ _ hindex hprev
    obtain rfl := hids _ _ hpair.known hknown (hpair.hash_eq.trans hhash.symm)
    rw [inputPair, hentry]
  have htokens : (inputsTxs.map fun pair =>
      (pair.1, readBFXTDataFromTxMinimal env.toNodeEnv emptyBFXTTransaction pair.1)).mapM
        (tokenData env bfxtTxs (fun _ => none) fun parent =>
          fetchInputsForTokens env (toReader env node) (fun _ => none) parent >>= fun mapInputs =>
            stdFetchedInputTxsToBFXT env (toReader env node) bfxtTxs (fun _ => none) (fun _ => none)
              31 parent mapInputs) = .ok inputsTxs := by
    refine mapM_eq_ok.mpr (forall₂_map_left_iff.mpr (forall₂_same.mpr fun pair hmem => ?_))
    obtain ⟨txin, -, hpair⟩ := exists_of_forall₂ hpairs.flip hmem
    rw [tokenData]
    dsimp only
    split
    · rename_i htoken
      rw [hpair.token htoken, Option.isSome_some, if_pos rfl, fetchBFXTTxFromDisk,
        hpair.token htoken]
    · rename_i hplain
      rw [← hpair.plain (Option.not_isSome_iff_eq_none.mp hplain)]
  rw [getAllBFXTInputsOfTx, hfetch, ok_bind, maxRecursion, stdFetchedInputTxsToBFXT, hminimal,
    ok_bind]
  exact htokens

end Inputs

section Record

variable {env : NodeEnv} {tx : CTransaction} {opReturnArg : String} {bfxttx self : BFXTTransaction}
  {inputsTxs : List InputPair}

variable (htoken : isTxBFXT env tx = some opReturnArg)
include htoken

variable (hread : readBFXTDataFromTx env self tx inputsTxs = .ok bfxttx)
include hread

theorem issuance_of_readBFXTDataFromTx (htype : bfxttx.bfxtTransactionType = .issuance) :
    ∃ script first rest tokenId, issuanceOf env tx = some script ∧ tx.vin = first :: rest ∧
      getTokenID env script.1 script.2 first.prevout.hash.toHex first.prevout.n = .ok tokenId := by
  rw [readBFXTDataFromTx_of_token self inputsTxs htoken] at hread
  obtain ⟨totalOutput, vin, totalInput, script, -, -, hparse, hread⟩ := readTokenScript_eq_ok hread
  rcases executeScript_cases hread with
    ⟨tokenSymbol, amount, issuanceFlags, hscript, hkind, hread⟩ | ⟨burn, -, -, hread⟩
  · obtain ⟨-, first, rest, issued, hvin, -⟩ := executeIssuance_eq_ok hread
    obtain ⟨version, op, haccepted⟩ := accepted_of_parseScript hparse
    have hbody := haccepted.body.kind
    rw [hscript] at hbody
    rcases hbody with ⟨hkind', hissuance⟩
    obtain ⟨rfl, rfl, rfl⟩ := ScriptKind.issuance.inj (hkind.symm.trans hkind')
    obtain ⟨tokenId, hid⟩ := @exists_newTokenId
      ⟨env, tx, opReturnArg, first.prevout, tokenSymbol, issuanceFlags⟩
      hissuance.divisibility_le hissuance.policy_known
    refine ⟨(tokenSymbol, issuanceFlags), first, rest, tokenId, ?_, hvin, hid⟩
    rw [issuanceOf, htoken, Option.bind_some, hparse]
    dsimp only
    rw [hscript, hkind]
  · rw [(transferTokens_keeps hread).1] at htype
    cases burn <;> cases htype

theorem writeBFXTTxToDbAndDisk_ok (tables : TokenTables) :
    (writeBFXTTxToDbAndDisk env bfxttx tables).1 = .ok () := by
  have hfrom := readFrom_of_readBFXTDataFromTx htoken hread
  rw [writeBFXTTxToDbAndDisk, if_neg hfrom.type_ne]
  dsimp only
  split
  · rename_i htype
    obtain ⟨script, first, rest, tokenId, hissuance, hvin, hid⟩ :=
      issuance_of_readBFXTDataFromTx htoken hread htype
    have hprevouts := hfrom.prevouts_eq
    rw [hvin, map_cons] at hprevouts
    obtain ⟨txin, vin, hrecordVin, hprevout, -⟩ := map_eq_cons_iff.mp hprevouts
    have hsymbol := getTokenSymbolIfIssuance_of_readFrom hissuance htoken hfrom
    have hidOf : getTokenIdIfIssuance env bfxttx txin.prevout.hash.toHex txin.prevout.n =
        .ok tokenId := by
      rw [getTokenIdIfIssuance, issuanceScript_of_readFrom hissuance htoken hfrom, ok_bind,
        hprevout, hid]
    have hnotNull : bfxttx.isNull = false := by
      rw [BFXTTransaction.isNull, hrecordVin]
      rfl
    rw [hrecordVin]
    dsimp only
    rw [hidOf]
    dsimp only
    split
    · rfl
    rw [hsymbol]
    dsimp only
    rw [writeBFXTTxWithTokenSymbol, hnotNull, if_neg Bool.false_ne_true, hsymbol]
    dsimp only
    rw [if_neg (not_not_intro rfl)]
    split
    · rename_i hnone
      split at hnone
      · cases hnone
      · cases hnone
    · rfl
  · rfl

omit hread

omit htoken

end Record

section Writing

/-- The database when the tokens are written: the index has been updated. -/
def Call.updated (c : Call) (final : BlockState) : NodeDb TokenTables :=
  { c.node with txIndex := currentIndex c.txdb final.mapQueuedChanges }

def writeEach (env : ChainEnv) (txdb : NodeDb TokenTables) :
    List CTransaction → TokenTables → Outcome Unit × TokenTables
  | [], tables => (.ok (), tables)
  | tx :: order, tables =>
    match writeBFXTTxToDiskFromRawTx env txdb tx tables with
    | (.ok (), tables) => writeEach env txdb order tables
    | failed => failed

theorem writeLeaves_eq (left : Nat) (vtx : List CTransaction) (tables : TokenTables) :
    writeLeaves env txdb left vtx tables = writeEach env txdb (popLeaves env left vtx) tables := by
  induction left generalizing vtx tables with
  | zero => rfl
  | succ left ih =>
    rw [writeLeaves, popLeaves]
    cases popLeafTransaction env vtx with
    | none => rfl
    | some popped =>
      dsimp only
      rw [writeEach]
      rcases writeBFXTTxToDiskFromRawTx env txdb popped.1 tables with ⟨_ | _, next⟩
      · rfl
      · exact ih _ _

variable {c : Call} {known : CTransaction → Prop} {hids : DistinctIds c.env known}
  {final : BlockState} {tx : CTransaction}

theorem Call.Passes.split (h : c.Passes known final) {before after : List CTransaction}
    (hvtx : c.block.vtx = before ++ after) :
    ∃ current, c.loop before = .ok current ∧
      connectTransactions c.env c.txdb c.block c.pindex c.ancestors false after current =
        .ok final := by
  have hloop := h.loop
  rw [Call.loop, hvtx, connectTransactions_append] at hloop
  exact bind_eq_ok.mp hloop

/-- What the transactions of the block spend can still be read when the index has been
updated. -/
theorem Call.Passes.readable (h : c.Passes known final) (htx : tx ∈ c.block.vtx)
    (hspending : isCoinBase tx = false) :
    Readable c.env (toReader c.env (c.updated final)) (c.updated final).txIndex tx := by
  obtain ⟨before, after, hvtx⟩ := append_of_mem htx
  obtain ⟨current, hloop, hrest⟩ := h.split hvtx
  have hstarts : Starts c.env c.txdb (tx :: after) current := (hvtx ▸ h.starts).run hloop
  obtain ⟨next, hnext, -⟩ := bind_eq_ok.mp hrest
  obtain ⟨inputsTxs, -, hspends⟩ := connectTransaction_tokens h.active hnext
  obtain ⟨⟨mapInputs, hfetch⟩, -⟩ := hspends hspending
  intro txin htxin
  obtain ⟨txindex, txPrev, hindex, hprev, hvout, hspent⟩ :=
    readable_of_fetchInputs hspending hfetch txin htxin
  have hnot : txin.prevout.hash ∉ (tx :: after).map c.env.getHash := by
    intro hmem
    obtain ⟨parent, hparent, hhash⟩ := mem_map.mp hmem
    have hspendsFrom : SpendsFrom c.env tx parent :=
      any_eq_true.mpr ⟨txin, htxin, beq_iff_eq.mpr hhash.symm⟩
    have hbefore := h.mem_before hvtx (hvtx ▸ mem_append_right _ hparent) hspendsFrom
    have hnodup := h.starts.nodup
    rw [hvtx, map_append] at hnodup
    exact (nodup_append.mp hnodup).2.2 _ (mem_map_of_mem hbefore) _
      (mem_map_of_mem hparent) rfl
  obtain ⟨txindex', hindex', hpos, hlength⟩ := connectTransactions_keeps hstarts hrest hnot hindex
  refine ⟨txindex', txPrev, hindex', ?_, hvout, hlength ▸ hspent⟩
  rw [readPrev, h.readTx_eq] at hprev
  rw [hpos]
  exact hprev

/-- The tables while the block is written. -/
structure Call.Writing (c : Call) (records : UInt256 → Option BFXTTransaction)
    (order : List CTransaction) (tables : TokenTables) : Prop where
  extends_db : Extends c.node.tokens.bfxtTxs tables.bfxtTxs
  extended : Extends tables.bfxtTxs records
  done : ∀ tx ∈ order, ReadInLoop c.env tx → (tables.bfxtTxs (c.env.getHash tx)).isSome

variable {records : UInt256 → Option BFXTTransaction} {done : List CTransaction}
  {tables : TokenTables}

variable (h : c.Writing records done tables)
include h

theorem Call.Writing.push (hentry : records (c.env.getHash tx) = some bfxttx)
    (hwritten : tables'.bfxtTxs = update tables.bfxtTxs (c.env.getHash tx) (some bfxttx)) :
    c.Writing records (done ++ [tx]) tables' := by
  have hself : tables'.bfxtTxs (c.env.getHash tx) = some bfxttx := by
    rw [hwritten, update_self]
  have hgrows : Extends tables.bfxtTxs tables'.bfxtTxs := by
    intro hash stored hstored
    rcases eq_or_ne hash (c.env.getHash tx) with rfl | hne
    · rw [hself, ← hentry, h.extended _ _ hstored]
    · rwa [hwritten, update_of_ne hne]
  refine ⟨h.extends_db.trans hgrows, hwritten ▸ h.extended.update hentry, fun other hother hread => ?_⟩
  rcases mem_append.mp hother with hmem | hlast
  · obtain ⟨stored, hstored⟩ := Option.isSome_iff_exists.mp (h.done other hmem hread)
    exact Option.isSome_iff_exists.mpr ⟨stored, hgrows _ _ hstored⟩
  · rw [mem_singleton.mp hlast, hself, Option.isSome_some]

/-- A token transaction is written as the loop has read it, when those in the block
that it spends from have been written. -/
theorem Call.Writing.step (hpasses : c.Passes known final)
    (hcomputed : c.Computed known hids c.block.vtx final records)
    (hparents : c.ParentsRecorded known) (hpassed : passedFirstValidBFXTTx c.env = true)
    (htx : tx ∈ c.block.vtx) (hcoinbase : (isTxBFXT c.env.toNodeEnv tx).isSome →
      isCoinBase tx = false)
    (hdone : ∀ parent ∈ c.block.vtx, SpendsFrom c.env tx parent → parent ∈ done) :
    ∃ tables', writeBFXTTxToDiskFromRawTx c.env (c.updated final) tx tables = (.ok (), tables') ∧
      c.Writing records (done ++ [tx]) tables' := by
  rw [writeBFXTTxToDiskFromRawTx]
  split
  · rename_i hwrites
    have hread : ReadInLoop c.env tx := ⟨hcoinbase hwrites.2, hwrites.2⟩
    obtain ⟨inputsTxs, bfxttx, -, hpairs, hrecord, hentry, -⟩ := hcomputed.queued tx htx hread
    have hpairs' : List.Forall₂ (PairOf c.env known tables.bfxtTxs) tx.vin inputsTxs := by
      refine forall₂_of_mem hpairs fun txin htxin pair hpair => ?_
      refine ⟨hpair.known, hpair.hash_eq, fun htoken => ?_, hpair.plain⟩
      have hspends : SpendsFrom c.env tx pair.1 :=
        any_eq_true.mpr ⟨txin, htxin, beq_iff_eq.mpr hpair.hash_eq.symm⟩
      have hsome : (tables.bfxtTxs (c.env.getHash pair.1)).isSome := by
        rcases hparents tx htx hread pair.1 hpair.known hspends htoken with hstored | ⟨hmem, hloop⟩
        · obtain ⟨stored, hstored⟩ := Option.isSome_iff_exists.mp hstored
          exact Option.isSome_iff_exists.mpr ⟨stored, h.extends_db _ _ hstored⟩
        · exact h.done pair.1 (hdone pair.1 hmem hspends) hloop
      obtain ⟨stored, hstored⟩ := Option.isSome_iff_exists.mp hsome
      rw [hstored, ← h.extended _ _ hstored, hpair.token htoken]
    have hinputs := getAllBFXTInputsOfTx_of_pairs hread.spending hids
      (readsById_of_indexed (hpasses.indexed_loop (append_nil _).symm hpasses.loop))
      (hpasses.readable htx hread.spending) hpairs'
    obtain ⟨opReturnArg, hscript⟩ := Option.isSome_iff_exists.mp hread.token
    have hfrom := readFrom_of_readBFXTDataFromTx hscript hrecord
    rw [Call.updated, hinputs, ok_bind, hrecord]
    refine ⟨_, Prod.ext (writeBFXTTxToDbAndDisk_ok hscript hrecord tables) rfl, h.push hentry ?_⟩
    rw [bfxtTxs_writeBFXTTxToDbAndDisk hfrom.type_ne, hfrom.txHash_eq]
  rename_i hnot
  refine ⟨tables, rfl, h.extends_db, h.extended, fun other hother hread => ?_⟩
  rcases mem_append.mp hother with hmem | hlast
  · exact h.done other hmem hread
  · rw [mem_singleton.mp hlast] at hread
    exact absurd ⟨hpassed, hread.token⟩ hnot

theorem Call.Writing.run (hpasses : c.Passes known final)
    (hcomputed : c.Computed known hids c.block.vtx final records)
    (hparents : c.ParentsRecorded known) (hpassed : passedFirstValidBFXTTx c.env = true)
    (hcoinbase : ∀ tx ∈ c.block.vtx, (isTxBFXT c.env.toNodeEnv tx).isSome → isCoinBase tx = false)
    (hperm : (done ++ order).Perm c.block.vtx)
    (horder : DependenciesFirst (SpendsFrom c.env) (done ++ order)) :
    ∃ tables', writeEach c.env (c.updated final) order tables = (.ok (), tables') ∧
      c.Writing records (done ++ order) tables' := by
  induction order generalizing done tables with
  | nil => exact ⟨tables, rfl, (append_nil done).symm ▸ h⟩
  | cons tx order ih =>
    have htx : tx ∈ c.block.vtx :=
      hperm.subset (mem_append_right _ mem_cons_self)
    have hat : (done ++ tx :: order)[done.length]? = some tx := by
      rw [List.getElem?_append_right (Nat.le_refl _), Nat.sub_self, List.getElem?_cons_zero]
    have hdone : ∀ parent ∈ c.block.vtx, SpendsFrom c.env tx parent → parent ∈ done := by
      intro parent hparent hspends
      obtain ⟨j, hj⟩ := mem_iff_getElem?.mp (hperm.mem_iff.mpr hparent)
      have hlt := horder done.length j tx parent hat hj hspends
      rw [List.getElem?_append_left hlt] at hj
      exact mem_of_getElem? hj
    obtain ⟨next, hnext, hwriting⟩ :=
      h.step hpasses hcomputed hparents hpassed htx (hcoinbase tx htx) hdone
    have hsplit : done ++ tx :: order = (done ++ [tx]) ++ order := by
      rw [append_assoc, singleton_append]
    rw [hsplit] at hperm horder ⊢
    obtain ⟨tables', htables, hfinal⟩ := ih hwriting hperm horder
    refine ⟨tables', ?_, hfinal⟩
    rw [writeEach, hnext]
    exact htables

omit h

/-- What is read when a transaction is written; the records of other blocks are as
before. -/
theorem writeEach_reads (hreads : ReadsById env known (toReader env txdb) txdb.txIndex)
    (hpassed : passedFirstValidBFXTTx env = true)
    (h : writeEach env txdb order tables = (.ok (), tables')) :
    ∀ tx ∈ order, (isTxBFXT env.toNodeEnv tx).isSome → isCoinBase tx = false ∧
      ∃ bfxtTxs bfxttx, ReadsTo env known bfxtTxs tx bfxttx ∧
        ∀ hash, hash ∉ order.map env.getHash → bfxtTxs hash = tables.bfxtTxs hash := by
  induction order generalizing tables with
  | nil => exact nofun
  | cons first order ih =>
    rw [writeEach] at h
    split at h
    · rename_i next hnext
      obtain ⟨hwrites, hcoinbase⟩ := writeBFXTTxToDiskFromRawTx_eq_ok hpassed hnext
      refine forall_mem_cons.mpr ⟨fun htoken => ⟨hcoinbase htoken, ?_⟩, fun tx htx htoken => ?_⟩
      · rw [writeBFXTTxToDiskFromRawTx, if_pos ⟨hpassed, htoken⟩] at hnext
        split at hnext
        · cases (Prod.mk.inj hnext).1
        rename_i bfxttx hread
        obtain ⟨inputsTxs, hinputs, hread⟩ := bind_eq_ok.mp hread
        exact ⟨tables.bfxtTxs, bfxttx,
          readsTo_of_getAllBFXTInputsOfTx hreads htoken hinputs hread, fun _ _ => rfl⟩
      obtain ⟨hspending, bfxtTxs, bfxttx, hreadsTo, hsame⟩ := ih h tx htx htoken
      refine ⟨hspending, bfxtTxs, bfxttx, hreadsTo, fun hash hhash => ?_⟩
      rw [map_cons, mem_cons, not_or] at hhash
      rw [hsame hash hhash.2, hwrites.records hash hhash.1]
    · rename_i hfailed
      exact absurd h (hfailed _)

end Writing

section Agreement

/-- The call of `WriteBFXTBlockTransactionsToDisk` behind the loop. -/
def Call.written (c : Call) (final : BlockState) : Outcome Unit × TokenTables :=
  writeBFXTBlockTransactionsToDisk c.env (c.updated final) c.block.vtx

/-- The call succeeds and leaves the records that the loop has read. -/
def Call.Agrees (c : Call) (final : BlockState) : Prop :=
  (c.written final).1 = .ok () ∧ ∀ tx ∈ c.block.vtx, ReadInLoop c.env tx →
    ∃ bfxttx, c.Computes tx bfxttx ∧
      (c.written final).2.bfxtTxs (c.env.getHash tx) = some bfxttx

/-- Before the first valid height nothing is written, so the records must be there. From
then on the coinbase has no script, and the token transactions of other blocks have
records. -/
def Call.CanAgree (c : Call) (known : CTransaction → Prop) : Prop :=
  if passedFirstValidBFXTTx c.env then
    ∀ tx ∈ c.block.vtx, (isTxBFXT c.env.toNodeEnv tx).isSome → isCoinBase tx = false ∧
      ∀ parent, known parent → SpendsFrom c.env tx parent →
        (isTxBFXT c.env.toNodeEnv parent).isSome → parent ∉ c.block.vtx →
        (c.node.tokens.bfxtTxs (c.env.getHash parent)).isSome
  else
    ∀ tx ∈ c.block.vtx, ReadInLoop c.env tx →
      (c.node.tokens.bfxtTxs (c.env.getHash tx)).isSome

variable {c : Call} {known : CTransaction → Prop} {final : BlockState}

/-- A record is read with the records of the token transactions that are spent. -/
theorem isSome_of_readsTo (hids : DistinctIds env known) (h : ReadsTo env known bfxtTxs tx bfxttx)
    (hparent : known parent) (hspends : SpendsFrom env tx parent)
    (htoken : (isTxBFXT env.toNodeEnv parent).isSome) : (bfxtTxs (env.getHash parent)).isSome := by
  obtain ⟨-, inputsTxs, -, hpairs, -⟩ := h
  obtain ⟨txin, htxin, hhash⟩ := any_eq_true.mp hspends
  obtain ⟨pair, -, hpair⟩ := exists_of_forall₂ hpairs htxin
  obtain rfl := hids pair.1 parent hpair.known hparent (hpair.hash_eq.trans (eq_of_beq hhash))
  exact Option.isSome_iff_exists.mpr ⟨pair.2, hpair.token htoken⟩

theorem Call.Passes.written_eq (h : c.Passes known final)
    (hpassed : passedFirstValidBFXTTx c.env = true) :
    ∃ order, order.Perm c.block.vtx ∧ DependenciesFirst (SpendsFrom c.env) order ∧
      c.written final = writeEach c.env (c.updated final) order c.node.tokens := by
  have hpops := popsTo_popLeaves h.acyclic (Nat.le_refl _)
  refine ⟨_, hpops.perm, hpops.dependenciesFirst h.acyclic, ?_⟩
  rw [Call.written, writeBFXTBlockTransactionsToDisk, if_pos hpassed, writeLeaves_eq]
  rfl

theorem Call.written_of_not_passed (hpassed : passedFirstValidBFXTTx c.env = false) :
    c.written final = (.ok (), c.node.tokens) := by
  rw [Call.written, writeBFXTBlockTransactionsToDisk, hpassed, if_neg Bool.false_ne_true]
  rfl

theorem Call.Agrees.canAgree (h : c.Agrees final) (hpasses : c.Passes known final) :
    c.CanAgree known := by
  rw [Call.CanAgree]
  split
  · rename_i hpassed
    obtain ⟨order, hperm, -, hwritten⟩ := hpasses.written_eq hpassed
    have hreads := readsById_of_indexed
      (hpasses.indexed_loop (append_nil _).symm hpasses.loop)
    have hok : writeEach c.env (c.updated final) order c.node.tokens =
        (.ok (), (c.written final).2) := by
      rw [← hwritten]
      exact Prod.ext h.1 rfl
    intro tx htx htoken
    obtain ⟨hspending, bfxtTxs, bfxttx, hreadsTo, hsame⟩ :=
      writeEach_reads hreads hpassed hok tx (hperm.mem_iff.mpr htx) htoken
    refine ⟨hspending, fun parent hparent hspends htokenParent hother => ?_⟩
    rw [← hsame]
    · exact isSome_of_readsTo hpasses.distinct hreadsTo hparent hspends htokenParent
    intro hmem
    obtain ⟨member, hmember, hhash⟩ := mem_map.mp hmem
    have hin := hperm.subset hmember
    obtain rfl := hpasses.distinct _ _ (hpasses.vtx_known _ hin) hparent hhash
    exact hother hin
  rename_i hpassed
  intro tx htx hread
  obtain ⟨bfxttx, -, hrecord⟩ := h.2 tx htx hread
  rw [Call.written_of_not_passed (Bool.eq_false_iff.mpr hpassed)] at hrecord
  exact Option.isSome_iff_exists.mpr ⟨bfxttx, hrecord⟩

theorem Call.CanAgree.agrees (h : c.CanAgree known) (hpasses : c.Passes known final)
    (hconsistent : (recordRule c.env known hids).Consistent c.node.tokens.bfxtTxs) :
    c.Agrees final := by
  rw [Call.CanAgree] at h
  split at h
  · rename_i hpassed
    have hparents : c.ParentsRecorded known := by
      intro tx htx hread parent hparent hspends htoken
      rcases Classical.em (parent ∈ c.block.vtx) with hmem | hother
      · exact .inr ⟨hmem, (h parent hmem htoken).1, htoken⟩
      · exact .inl ((h tx htx hread.token).2 parent hparent hspends htoken hother)
    obtain ⟨records, hcomputed⟩ := hpasses.computed hparents hconsistent
    obtain ⟨order, hperm, horder, hwritten⟩ := hpasses.written_eq hpassed
    have hstart : c.Writing records [] c.node.tokens :=
      ⟨Extends.refl _, hcomputed.extends_db, nofun⟩
    obtain ⟨tables, htables, hwriting⟩ := hstart.run hpasses hcomputed hparents hpassed
      (fun tx htx htoken => (h tx htx htoken).1) hperm horder
    rw [Call.Agrees, hwritten, htables]
    refine ⟨rfl, fun tx htx hread => ?_⟩
    obtain ⟨-, bfxttx, -, -, -, hrecord, hcomputes⟩ := hcomputed.queued tx htx hread
    obtain ⟨stored, hstored⟩ := Option.isSome_iff_exists.mp
      (hwriting.done tx (hperm.mem_iff.mpr htx) hread)
    obtain rfl := Option.mem_unique (hwriting.extended _ _ hstored) hrecord
    exact ⟨stored, hcomputes, hstored⟩
  rename_i hpassed
  have hparents : c.ParentsRecorded known := by
    intro tx htx hread parent hparent hspends htoken
    obtain ⟨bfxttx, hrecord⟩ := Option.isSome_iff_exists.mp (h tx htx hread)
    obtain ⟨tx', htx', hhash, hreadsTo⟩ := hconsistent _ _ hrecord
    obtain rfl := hids tx' tx htx' (hpasses.vtx_known tx htx) hhash
    exact .inl (isSome_of_readsTo hids hreadsTo hparent hspends htoken)
  obtain ⟨records, hcomputed⟩ := hpasses.computed hparents hconsistent
  rw [Call.Agrees, Call.written_of_not_passed (Bool.eq_false_iff.mpr hpassed)]
  refine ⟨rfl, fun tx htx hread => ?_⟩
  obtain ⟨-, bfxttx, -, -, -, hrecord, hcomputes⟩ := hcomputed.queued tx htx hread
  obtain ⟨stored, hstored⟩ := Option.isSome_iff_exists.mp (h tx htx hread)
  obtain rfl := Option.mem_unique (hcomputed.extends_db _ _ hstored) hrecord
  exact ⟨stored, hcomputes, hstored⟩

end Agreement

section Node

variable {env : ChainEnv} {known : CTransaction → Prop} {state : State TokenTables}
  {s : Surroundings TokenTables} {entry : IndexEntry} {pprev : IndexPtr} {block : CBlock}
  {final : BlockState}

/-- The call that connects a block to the chain of the node. -/
def connectCall (s : Surroundings TokenTables) (state : State TokenTables) (entry : IndexEntry)
    (pprev : IndexPtr) (block : CBlock) : Call where
  env := connectEnv s state entry.hashBlock
  txdb := toCTxDB s state.txdb entry.hashBlock
  node := state.txdb
  block := block
  pindex := toCBlockIndex state.memory.amounts entry pprev.length
  ancestors := toCBlockIndexes state.memory.amounts pprev

/-- The layer is called with the node as it is before its own hooks are set. -/
theorem getAllBFXTInputsOfTx_connectEnv (hlayer : s.tokens = tokenLayer) (hash : UInt256)
    (tx : CTransaction) (mapQueuedBFXTInputs : UInt256 → Option (List InputPair))
    (queue : UInt256 → Option CTxIndex) :
    (connectEnv s state hash).getAllBFXTInputsOfTx tx mapQueuedBFXTInputs queue =
      getAllBFXTInputsOfTx (connectEnv s state hash) (toReader (connectEnv s state hash) state.txdb)
        state.txdb.tokens.bfxtTxs mapQueuedBFXTInputs queue tx := by
  have hhook : (connectEnv s state hash).getAllBFXTInputsOfTx =
      tokenLayer.getAllBFXTInputsOfTx (searchEnv s state.memory hash) state.txdb := by
    rw [connectEnv, hlayer]
    rfl
  have hsame : SameNode (connectEnv s state hash) (searchEnv s state.memory hash) :=
    ⟨rfl, rfl, rfl, rfl, rfl, rfl⟩
  have hreads := @readTx_congr _ (connectEnv s state hash) (searchEnv s state.memory hash) rfl
    state.txdb
  rw [hhook]
  exact @getAllBFXTInputsOfTx_congr _ _ (toReader (connectEnv s state hash) state.txdb)
    (toReader (searchEnv s state.memory hash) state.txdb) _ _ _ hsame rfl rfl hreads tx

variable (hrun : History env known state)
  (hsize : ∀ tx, 0 < env.getSerializeSize tx) (hids : DistinctIds env known)
  (hzero : ∀ tx, known tx → env.getHash tx ≠ 0)
  (henv : ∃ getAdjustedTime nBestHeight mempoolLookup,
    s.env = atMoment env getAdjustedTime nBestHeight mempoolLookup)
  (hlayer : s.tokens = tokenLayer)
  (hread : readFromDisk s.env state.txdb (entry :: pprev) = some block)
  (hknown : ∀ tx ∈ block.vtx, known tx)
  (hactive : (connectCall s state entry pprev block).env.isForkActivated .tachyon = true)
  (hcheck : checkBlock (connectCall s state entry pprev block).env true true false block = .ok ())
  (hloop : (connectCall s state entry pprev block).loop block.vtx = .ok final)

include hrun hsize hids hzero henv hlayer hread hknown hactive hcheck hloop

theorem passes_connectCall :
    (connectCall s state entry pprev block).Passes known final := by
  obtain ⟨getAdjustedTime, nBestHeight, mempoolLookup, henv⟩ := henv
  have hsame : (connectCall s state entry pprev block).env.getHash = env.getHash ∧
      (connectCall s state entry pprev block).env.getSerializeSize = env.getSerializeSize := by
    rw [connectCall, connectEnv, henv]
    exact ⟨rfl, rfl⟩
  refine ⟨hactive, getAllBFXTInputsOfTx_connectEnv hlayer entry.hashBlock, rfl, ?_, ?_,
    (stored_of_readFromDisk hread).1, hknown, ?_, ?_, ?_, starts_of_checkBlock hcheck hloop, hloop⟩
  · exact @readTx_congr _ (connectEnv s state entry.hashBlock) s.env rfl state.txdb
  · intro hash pos hpos
    obtain ⟨tx, htx, hhash, hat⟩ := (hrun.sound hsize hids).2.indexed hash pos hpos
    refine ⟨tx, htx, hsame.1 ▸ hhash, ?_⟩
    rw [readTx_congr hsame.2]
    exact hat
  · exact fun tx => hsame.2 ▸ hsize tx
  · exact fun tx tx' htx htx' hhash => hids tx tx' htx htx' (hsame.1 ▸ hhash)
  · exact fun tx htx => hsame.1 ▸ hzero tx htx

/-- With the fork active, what is written for a block on which the loop passes is what
the loop has read exactly if one of these holds: the first valid height is passed, the
coinbase has no script and the token transactions of other blocks that are spent from
have records; or it is not passed, and the records are in the tables already. -/
theorem writeBFXTBlockTransactionsToDisk_agrees_iff :
    (connectCall s state entry pprev block).Agrees final ↔
      (connectCall s state entry pprev block).CanAgree known := by
  have hpasses := passes_connectCall hrun hsize hids hzero henv hlayer hread hknown hactive hcheck
    hloop
  refine ⟨fun h => h.canAgree hpasses, fun h => ?_⟩
  have hconsistent := (RecordConsistency.History.consistent hrun hsize hids).2
  obtain ⟨getAdjustedTime, nBestHeight, mempoolLookup, henv⟩ := henv
  have hnode : ∀ n, atHeight env.toNodeEnv n =
      atHeight (connectCall s state entry pprev block).env.toNodeEnv n := by
    intro n
    rw [connectCall, connectEnv, henv]
    rfl
  exact h.agrees hpasses (@consistent_congr _ _ _ _ hids hpasses.distinct hconsistent hnode)

end Node

/-! The block with an issuance, at two heights of the node. -/

def storedAt (nBestHeight : Int) : State TokenTables :=
  { storedState with memory := { storedState.memory with nBestHeight := nBestHeight } }

def issueCall (nBestHeight : Int) : Call :=
  connectCall symbolSurroundings (storedAt nBestHeight) (chainEntry 122 123) (mintedPtr 121)
    (issueBlock 1)

/-- The transactions of the stored blocks, without that of the first one. -/
def storedLater (tx : CTransaction) : Prop := storedKnown tx ∧ tx.nTime ≠ 0

theorem history_storedAt (nBestHeight : Int) :
    History symbolEnv storedLater (storedAt nBestHeight) :=
  (history_storedState fun _ hfirst hlast =>
    ⟨storedKnown_mintedTx hlast, Nat.ne_of_gt hfirst⟩).memory _

theorem distinctIds_storedLater : DistinctIds symbolEnv storedLater :=
  fun tx tx' htx htx' => distinctIds_storedKnown tx tx' htx.1 htx'.1

theorem ids_storedLater (tx : CTransaction) (htx : storedLater tx) : symbolEnv.getHash tx ≠ 0 := by
  intro hzero
  have hle := (storedTx_issued blocks_storedState htx.1).2
  have hnat := congrArg BitVec.toNat hzero
  change (BitVec.ofNat 256 tx.nTime).toNat = 0 at hnat
  rw [toNat_ofNat_of_lt (by omega)] at hnat
  exact htx.2 hnat

theorem storedLater_issueBlock : ∀ tx ∈ (issueBlock 1).vtx, storedLater tx := by
  intro tx htx
  refine ⟨storedTx_of_readFromDisk read_storedState htx, ?_⟩
  rcases mem_cons.mp htx with rfl | htx
  · decide
  · obtain rfl := mem_singleton.mp htx
    decide

theorem checked_issueCall :
    checkBlock (issueCall 121).env true true false (issueBlock 1) = .ok () ∧
      checkBlock (issueCall 200000).env true true false (issueBlock 1) = .ok () := by
  constructor <;> decide +kernel

theorem exists_loop_issueCall :
    (∃ final, (issueCall 121).loop (issueBlock 1).vtx = .ok final) ∧
      ∃ final, (issueCall 200000).loop (issueBlock 1).vtx = .ok final :=
  ⟨exists_of_isOk (by decide +kernel), exists_of_isOk (by decide +kernel)⟩

theorem readInLoop_issueTx (nBestHeight : Int) :
    ReadInLoop (issueCall nBestHeight).env (issueTx 1) := by
  have htoken : (isTxBFXT symbolEnv.toNodeEnv (issueTx 1)).isSome := by decide +kernel
  exact ⟨by decide, htoken⟩

/-- Below the first valid height the loop reads an issuance, but nothing is written. -/
theorem issuance_not_written :
    History symbolEnv storedLater (storedAt 121) ∧ (∀ tx, 0 < symbolEnv.getSerializeSize tx) ∧
      DistinctIds symbolEnv storedLater ∧
      (∀ tx, storedLater tx → symbolEnv.getHash tx ≠ 0) ∧ symbolSurroundings.tokens = tokenLayer ∧
      readFromDisk symbolEnv (storedAt 121).txdb (chainEntry 122 123 :: mintedPtr 121) =
        some (issueBlock 1) ∧
      (∀ tx ∈ (issueBlock 1).vtx, storedLater tx) ∧
      (issueCall 121).env.isForkActivated .tachyon = true ∧
      checkBlock (issueCall 121).env true true false (issueBlock 1) = .ok () ∧
      issueTx 1 ∈ (issueBlock 1).vtx ∧ ReadInLoop (issueCall 121).env (issueTx 1) ∧
      ∃ final, (issueCall 121).loop (issueBlock 1).vtx = .ok final ∧
        ((issueCall 121).written final).1 = .ok () ∧
        ((issueCall 121).written final).2.bfxtTxs (symbolEnv.getHash (issueTx 1)) = none ∧
        ¬ (issueCall 121).Agrees final := by
  obtain ⟨final, hloop⟩ := exists_loop_issueCall.1
  have hmem : issueTx 1 ∈ (issueBlock 1).vtx := mem_cons_of_mem _ mem_cons_self
  have hpassed : passedFirstValidBFXTTx (issueCall 121).env = false := by decide +kernel
  have hwritten := @Call.written_of_not_passed (issueCall 121) final hpassed
  have hnone : ((issueCall 121).written final).2.bfxtTxs (symbolEnv.getHash (issueTx 1)) = none := by
    rw [hwritten]
    rfl
  refine ⟨history_storedAt 121, fun _ => Nat.zero_lt_succ 99, distinctIds_storedLater,
    ids_storedLater, rfl, read_storedState, storedLater_issueBlock, by decide +kernel,
    checked_issueCall.1, hmem, readInLoop_issueTx 121, final, hloop, ?_, hnone, fun hagrees => ?_⟩
  · rw [hwritten]
  · obtain ⟨bfxttx, -, hstored⟩ := hagrees.2 _ hmem (readInLoop_issueTx 121)
    cases hnone.symm.trans hstored

theorem canAgree_issueCall : (issueCall 200000).CanAgree storedLater := by
  have hpassed : passedFirstValidBFXTTx (issueCall 200000).env = true := by decide +kernel
  rw [Call.CanAgree, if_pos hpassed]
  intro tx htx htoken
  rcases mem_cons.mp htx with rfl | htx
  · have hplain : isTxBFXT (issueCall 200000).env.toNodeEnv (emptyCoinbase 1) = none := by
      decide +kernel
    rw [hplain] at htoken
    cases htoken
  obtain rfl := mem_singleton.mp htx
  refine ⟨by decide, fun parent hparent hspends hparentToken => ?_⟩
  obtain ⟨txin, htxin, hhash⟩ := any_eq_true.mp hspends
  obtain rfl := mem_singleton.mp htxin
  have hminted : storedLater (mintedTx 1) := ⟨storedKnown_mintedTx (by decide), by decide⟩
  obtain rfl := distinctIds_storedLater parent (mintedTx 1) hparent hminted
    (eq_of_beq hhash).symm
  have hplain : isTxBFXT (issueCall 200000).env.toNodeEnv (mintedTx 1) = none := by
    decide +kernel
  rw [hplain] at hparentToken
  cases hparentToken

/-- From the first valid height on the issuance is written as the loop has read it. -/
theorem issuance_written :
    ∃ final, (issueCall 200000).loop (issueBlock 1).vtx = .ok final ∧
      ReadInLoop (issueCall 200000).env (issueTx 1) ∧ (issueCall 200000).Agrees final := by
  obtain ⟨final, hloop⟩ := exists_loop_issueCall.2
  refine ⟨final, hloop, readInLoop_issueTx 200000, ?_⟩
  refine (writeBFXTBlockTransactionsToDisk_agrees_iff (history_storedAt 200000)
    (fun _ => Nat.zero_lt_succ 99) distinctIds_storedLater ids_storedLater ⟨_, _, _, rfl⟩ rfl
    read_storedState storedLater_issueBlock (by decide +kernel) checked_issueCall.2 hloop).mpr ?_
  exact canAgree_issueCall

end Bfx.TokenAgreement
