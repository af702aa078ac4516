import Bfx.ForkVerification

/-!
When `VerifyInputsUnspent` is exact: the block tree, the index of the main chain,
and the inputs that the check and the chain of the block disagree about.
-/

namespace Bfx.ForkExactness

open BlockTree CallOutcome ChainIndex ForkVerification List MintingBound NodeState Transaction

variable {pindex : IndexPtr} {hash : UInt256}

section Chains

variable {τ : Type} (txdb : NodeDb τ)

def blocksOf (pindex : IndexPtr) : List CBlock :=
  pindex.reverse.filterMap fun entry => txdb.blocks entry.hashBlock

def txsOf (pindex : IndexPtr) : List CTransaction := (blocksOf txdb pindex).flatMap (·.vtx)

/-- The transactions that are indexed: the genesis block is never connected. -/
def connectedTxs (pindex : IndexPtr) : List CTransaction := txsOf txdb pindex.dropLast

theorem txsOf_append (upper lower : IndexPtr) :
    txsOf txdb (upper ++ lower) = txsOf txdb lower ++ txsOf txdb upper := by
  simp [txsOf, blocksOf]

theorem txsOf_singleton (hblock : txdb.blocks entry.hashBlock = some block) :
    txsOf txdb [entry] = block.vtx := by
  simp [txsOf, blocksOf, hblock]

theorem connectedTxs_append (hlower : lower ≠ []) :
    connectedTxs txdb (upper ++ lower) = connectedTxs txdb lower ++ txsOf txdb upper := by
  rw [connectedTxs, dropLast_append_of_ne_nil hlower, txsOf_append, connectedTxs]

theorem inputsOf_append (vtx vtx' : List CTransaction) :
    inputsOf (vtx ++ vtx') = inputsOf vtx ++ inputsOf vtx' :=
  flatMap_append

theorem txsOf_eq (hgenesis : pindex.getLast? = some genesis) :
    txsOf txdb pindex = txsOf txdb [genesis] ++ connectedTxs txdb pindex := by
  obtain ⟨rest, rfl⟩ := List.getLast?_eq_some_iff.mp hgenesis
  rw [txsOf_append, connectedTxs, dropLast_concat]

end Chains

section Tree

variable {τ : Type} (env : ChainEnv) (memory : Memory) (txdb : NodeDb τ)

def SpendsIn (pindex : IndexPtr) (prevout : COutPoint) : Prop :=
  ∃ block, txdb.blocks (getBlockHash pindex) = some block ∧ prevout ∈ inputsOf block.vtx

/-- The index is that of the main chain: it has the transactions of its blocks,
and an output is marked with the only block that spends it. -/
structure IndexExact : Prop where
  found : ∀ hash, (txdb.txIndex hash).isSome ↔
    ∃ tx ∈ connectedTxs txdb memory.pindexBest, env.getHash tx = hash
  size : ∀ hash txindex, txdb.txIndex hash = some txindex →
    ∀ tx ∈ connectedTxs txdb memory.pindexBest, env.getHash tx = hash →
      txindex.vSpent.length = tx.vout.length
  unspent : ∀ hash txindex, txdb.txIndex hash = some txindex → ∀ n pos,
    txindex.vSpent[n]? = some pos → pos.isNull = true →
      ⟨hash, n⟩ ∉ inputsOf (txsOf txdb memory.pindexBest)
  spender : ∀ hash txindex, txdb.txIndex hash = some txindex → ∀ n pos,
    txindex.vSpent[n]? = some pos → pos.isNull = false →
      ∃ pindex, memory.mapBlockIndex pos.nBlockPos = some pindex ∧
        pindex <:+ memory.pindexBest ∧ SpendsIn txdb pindex ⟨hash, n⟩ ∧
        ∀ other, other <:+ memory.pindexBest → SpendsIn txdb other ⟨hash, n⟩ → other = pindex

/-- Every stored block passed the check: its inputs are outputs of its own chain.
The genesis block has no inputs. -/
structure BlocksPassed : Prop where
  genesis : ∀ hash entry block, memory.mapBlockIndex hash = some [entry] →
    txdb.blocks hash = some block → ∀ tx ∈ block.vtx, isCoinBase tx = true
  inputs : ∀ hash entry pprev block, pprev ≠ [] →
    memory.mapBlockIndex hash = some (entry :: pprev) → txdb.blocks hash = some block →
      ∀ s ∈ spendings block.vtx,
        ∃ tx ∈ connectedTxs txdb pprev ++ s.earlier, Creates env tx s.prevout

end Tree

theorem mem_inputSpendings_iff {earlier : List CTransaction} {tx : CTransaction}
    {spent prevouts : List COutPoint} {prevout : COutPoint} :
    (∃ s ∈ inputSpendings earlier tx spent prevouts, s.prevout = prevout) ↔ prevout ∈ prevouts := by
  induction prevouts generalizing spent with
  | nil => simp [inputSpendings]
  | cons first prevouts ih =>
    rw [inputSpendings, exists_mem_cons_iff, ih, mem_cons, eq_comm]

theorem mem_spendingsFrom_iff :
    (∃ s ∈ spendingsFrom earlier spent vtx, s.prevout = prevout) ↔ prevout ∈ inputsOf vtx := by
  induction vtx generalizing earlier spent with
  | nil => simp [spendingsFrom, inputsOf]
  | cons tx vtx ih =>
    rw [inputsOf, flatMap_cons, mem_append, ← inputsOf,
      ← @ih (earlier ++ [tx]) (spent ++ spentBy tx), ← @mem_inputSpendings_iff earlier tx spent]
    simp only [spendingsFrom, mem_append, or_and_right, exists_or]

theorem mem_of_mem_spendingsFrom (hs : s ∈ spendingsFrom earlier spent vtx) :
    ∀ tx ∈ s.earlier ++ [s.tx], tx ∈ earlier ++ vtx := by
  induction vtx generalizing earlier spent with
  | nil => cases hs
  | cons first vtx ih =>
    rcases mem_append.mp hs with hs | hs
    · obtain ⟨hearlier, htx⟩ := mem_inputSpendings hs
      intro tx hmem
      rw [hearlier, htx] at hmem
      rcases mem_append.mp hmem with hmem | hmem
      · exact mem_append_left _ hmem
      · rw [mem_singleton.mp hmem]
        exact mem_append_right _ mem_cons_self
    intro tx hmem
    have hlater := ih hs tx hmem
    rwa [append_assoc] at hlater

theorem mem_vtx_of_spendings (hs : s ∈ spendings vtx) : ∀ tx ∈ s.earlier ++ [s.tx], tx ∈ vtx :=
  mem_of_mem_spendingsFrom hs

section Spent

variable {τ : Type}

theorem mem_inputsOf_txsOf :
    prevout ∈ inputsOf (txsOf txdb pindex) ↔
      ∃ entry pprev, entry :: pprev <:+ pindex ∧ SpendsIn txdb (entry :: pprev) prevout := by
  induction pindex with
  | nil => simp [txsOf, blocksOf, inputsOf]
  | cons entry pprev ih =>
    have hsplit : entry :: pprev = [entry] ++ pprev := rfl
    rw [hsplit, txsOf_append, inputsOf_append, mem_append, ih]
    constructor
    · rintro (⟨other, rest, hsuffix, hspends⟩ | hmem)
      · exact ⟨other, rest, hsuffix.trans (suffix_cons _ _), hspends⟩
      refine ⟨entry, pprev, suffix_refl _, ?_⟩
      cases hblock : txdb.blocks entry.hashBlock with
      | none =>
        rw [txsOf, blocksOf, reverse_singleton, filterMap_cons, hblock] at hmem
        cases hmem
      | some block =>
        rw [txsOf_singleton txdb hblock] at hmem
        exact ⟨block, hblock, hmem⟩
    rintro ⟨other, rest, hsuffix, hspends⟩
    rcases suffix_cons_iff.mp hsuffix with heq | hsuffix
    · obtain ⟨rfl, rfl⟩ := List.cons.inj heq
      obtain ⟨block, hblock, hmem⟩ := hspends
      right
      rwa [txsOf_singleton txdb hblock]
    · exact .inl ⟨other, rest, hsuffix, hspends⟩

theorem BlocksPassed.created (hpassed : BlocksPassed env memory txdb) (htree : TreeOk memory txdb)
    (hpindex : memory.mapBlockIndex hash = some pindex)
    (hspent : prevout ∈ inputsOf (txsOf txdb pindex)) :
    ∃ tx ∈ connectedTxs txdb pindex, Creates env tx prevout := by
  obtain ⟨entry, pprev, hsuffix, block, hblock, hmem⟩ := mem_inputsOf_txsOf.mp hspent
  have hentry := htree.closed hash pindex hpindex entry pprev hsuffix
  obtain ⟨upper, rfl⟩ := hsuffix
  rcases eq_or_ne pprev ([]) with rfl | hpprev
  · obtain ⟨tx, htx, hin⟩ := mem_flatMap.mp hmem
    rw [spentBy, if_pos (hpassed.genesis _ entry block hentry hblock tx htx)] at hin
    cases hin
  obtain ⟨s, hs, rfl⟩ := mem_spendingsFrom_iff.mpr hmem
  obtain ⟨tx, htx, hcreates⟩ := hpassed.inputs _ entry pprev block hpprev hentry hblock s hs
  refine ⟨tx, ?_, hcreates⟩
  have hsplit : upper ++ entry :: pprev = (upper ++ [entry]) ++ pprev := by simp
  rw [hsplit, connectedTxs_append txdb hpprev, txsOf_append, txsOf_singleton txdb hblock]
  rcases mem_append.mp htx with htx | htx
  · exact mem_append_left _ htx
  · exact mem_append_right _
      (mem_append_left _ (mem_vtx_of_spendings hs tx (mem_append_left _ htx)))

end Spent

section ForkPart

variable {τ : Type} {env : ChainEnv} {memory : Memory} {txdb : NodeDb τ}

theorem exists_forkPart_eq (htree : TreeOk memory txdb)
    (hpindex : memory.mapBlockIndex hash = some pindex) :
    ∃ fork common, pindex = fork ++ common ∧
      forkPart memory pindex = (fork.reverse.map (·.hashBlock), common) ∧
      common ≠ [] ∧ common <:+ memory.pindexBest := by
  induction pindex generalizing hash with
  | nil =>
    obtain ⟨entry, pprev, hcons, -⟩ := htree.hash_eq hash [] hpindex
    cases hcons
  | cons entry pprev ih =>
    rw [forkPart]
    split
    · rename_i hmain
      exact ⟨[], entry :: pprev, rfl, rfl, cons_ne_nil _ _, (htree.main _ _ hpindex).mp hmain⟩
    rename_i hmain
    cases pprev with
    | nil =>
      -- the genesis block is in every chain
      obtain ⟨genesis, hgenesis⟩ := htree.genesis
      obtain ⟨best, hbest⟩ := htree.best
      obtain ⟨rest, hrest⟩ := List.getLast?_eq_some_iff.mp (hgenesis _ _ hbest)
      have hlast := hgenesis _ _ hpindex
      obtain rfl : entry = genesis := Option.some.inj hlast
      exact absurd ((htree.main _ _ hpindex).mpr ⟨rest, hrest.symm⟩) hmain
    | cons parent pprev =>
      have hparent := htree.closed _ _ hpindex parent pprev (suffix_cons _ _)
      obtain ⟨fork, common, heq, hpart, hne, hsuffix⟩ := ih hparent
      refine ⟨entry :: fork, common, congrArg (entry :: ·) heq, ?_, hne, hsuffix⟩
      rw [hpart]
      simp

theorem mapM_readForkBlock {entries : List IndexEntry}
    (hstored : ∀ entry ∈ entries, (txdb.blocks entry.hashBlock).isSome) :
    (entries.map (·.hashBlock)).mapM (readForkBlock txdb) =
      .ok (entries.filterMap fun entry => txdb.blocks entry.hashBlock) := by
  induction entries with
  | nil => rfl
  | cons entry entries ih =>
    obtain ⟨hfirst, hrest⟩ := forall_mem_cons.mp hstored
    obtain ⟨block, hblock⟩ := Option.isSome_iff_exists.mp hfirst
    rw [map_cons, mapM_cons, ih hrest, readForkBlock, filterMap_cons, hblock]
    rfl

def allTxs (memory : Memory) (txdb : NodeDb τ) (pprev : IndexPtr) (block : CBlock) :
    List CTransaction :=
  txsOf txdb memory.pindexBest ++ (txsOf txdb pprev ++ block.vtx)

/-- A block with its parent, where the chain of the parent is split into the fork
and the part that it shares with the main chain. -/
structure ForkBlock (env : ChainEnv) (memory : Memory) (txdb : NodeDb τ) (block : CBlock)
    (fork common : IndexPtr) : Prop where
  tree : TreeOk memory txdb
  index : IndexExact env memory txdb
  passed : BlocksPassed env memory txdb
  parent : memory.mapBlockIndex block.hashPrevBlock = some (fork ++ common)
  forkPart_eq : forkPart memory (fork ++ common) = (fork.reverse.map (·.hashBlock), common)
  common_ne : common ≠ []
  common_suffix : common <:+ memory.pindexBest
  distinct : ((txsOf txdb (fork ++ common) ++ block.vtx).map env.getHash).Nodup
  noCollision : NoCollision env (allTxs memory txdb (fork ++ common) block)

end ForkPart

section Replay

variable {τ : Type} {env : ChainEnv} {memory : Memory} {txdb : NodeDb τ} {block : CBlock}
  {fork common : IndexPtr}

theorem mem_txsOf_of_connectedTxs (htx : tx ∈ connectedTxs txdb pindex) :
    tx ∈ txsOf txdb pindex := by
  rcases eq_or_ne pindex ([]) with rfl | hne
  · exact htx
  obtain ⟨genesis, hgenesis⟩ := Option.isSome_iff_exists.mp (List.getLast?_isSome.mpr hne)
  rw [txsOf_eq txdb hgenesis]
  exact mem_append_right _ htx

theorem mem_allTxs_best (htx : tx ∈ connectedTxs txdb memory.pindexBest) :
    tx ∈ allTxs memory txdb pprev block :=
  mem_append_left _ (mem_txsOf_of_connectedTxs htx)

theorem suffix_iff_nHeight_le (h : pindex <:+ best) (h' : pindex' <:+ best) :
    pindex <:+ pindex' ↔ nHeight pindex ≤ nHeight pindex' := by
  rw [nHeight, nHeight]
  constructor
  · intro hsuffix
    have hle := hsuffix.length_le
    omega
  · intro hle
    exact suffix_of_suffix_length_le h h' (by omega)

theorem addForkTxs_addForkTxs (forkTxs : UInt256 → Option CTransaction)
    (vtx vtx' : List CTransaction) :
    addForkTxs env (addForkTxs env forkTxs vtx) vtx' = addForkTxs env forkTxs (vtx ++ vtx') :=
  foldl_append.symm

theorem flatMap_vtx_concat :
    (blocksOf txdb fork ++ [block]).flatMap (·.vtx) = txsOf txdb fork ++ block.vtx := by
  rw [flatMap_append, txsOf, flatMap_singleton]

namespace ForkBlock

variable (hb : ForkBlock env memory txdb block fork common)

include hb

theorem common_mem : ∃ hash, memory.mapBlockIndex hash = some common := by
  obtain ⟨entry, pprev, rfl⟩ := exists_cons_of_ne_nil hb.common_ne
  exact ⟨_, hb.tree.closed _ _ hb.parent entry pprev (suffix_append _ _)⟩

theorem mem_connectedTxs_best (htx : tx ∈ connectedTxs txdb common) :
    tx ∈ connectedTxs txdb memory.pindexBest := by
  obtain ⟨upper, hupper⟩ := hb.common_suffix
  rw [← hupper, connectedTxs_append txdb hb.common_ne]
  exact mem_append_left _ htx

theorem found_iff (hash : UInt256) : (txdb.txIndex hash).isSome ↔
    ∃ tx ∈ connectedTxs txdb memory.pindexBest, env.getHash tx = hash :=
  hb.index.found hash

theorem vSpent_length (hindex : txdb.txIndex hash = some txindex)
    (htx : tx ∈ allTxs memory txdb (fork ++ common) block) (hhash : env.getHash tx = hash) :
    txindex.vSpent.length = tx.vout.length := by
  obtain ⟨other, hother, hsame⟩ := (hb.found_iff hash).mp (hindex ▸ rfl)
  rw [hb.noCollision tx htx other (mem_allTxs_best hother) (hhash.trans hsame.symm)]
  exact hb.index.size hash txindex hindex other hother hsame

theorem spentInMainChain : SpentInMainChain memory txdb := by
  intro hash txindex hindex pos hpos hspent
  obtain ⟨n, hn⟩ := mem_iff_getElem?.mp hpos
  obtain ⟨pindex, hpindex, hsuffix, -⟩ := hb.index.spender hash txindex hindex n pos hn hspent
  exact ⟨pindex, hpindex, (hb.tree.main _ _ hpindex).mpr hsuffix⟩

theorem cleared_isNull_iff (hindex : txdb.txIndex hash = some txindex)
    (hslot : txindex.vSpent[n]? = some pos) :
    (isAbove memory common pos = true ∨ pos.isNull = true) ↔
      ⟨hash, n⟩ ∉ inputsOf (txsOf txdb common) := by
  obtain ⟨upper, hupper⟩ := hb.common_suffix
  cases hnull : pos.isNull with
  | true =>
    refine iff_of_true (.inr rfl) fun hmem => ?_
    refine hb.index.unspent hash txindex hindex n pos hslot hnull ?_
    rw [← hupper, txsOf_append, inputsOf_append]
    exact mem_append_left _ hmem
  | false =>
    obtain ⟨pindex, hpindex, hsuffix, hspends, honly⟩ :=
      hb.index.spender hash txindex hindex n pos hslot hnull
    rw [or_iff_left Bool.false_ne_true, isAbove_of_main hnull hpindex, decide_eq_true_iff, gt_iff_lt,
      ← Int.not_le, ← suffix_iff_nHeight_le hsuffix hb.common_suffix, mem_inputsOf_txsOf]
    refine not_congr ⟨fun hcommon => ?_, ?_⟩
    · obtain ⟨entry, pprev, rfl, -⟩ := hb.tree.hash_eq _ _ hpindex
      exact ⟨entry, pprev, hcommon, hspends⟩
    rintro ⟨entry, pprev, hcommon, hother⟩
    rw [← honly _ (hcommon.trans hb.common_suffix) hother]
    exact hcommon

theorem replays (h : Unspends memory txdb common (inputsOf (txsOf txdb fork ++ block.vtx))
      modifiedOutputsTxs) :
    Replays env txdb (allTxs memory txdb (fork ++ common) block) (inputsOf (txsOf txdb common))
      (inputsOf (txsOf txdb fork ++ block.vtx)) [] modifiedOutputsTxs := by
  constructor
  · intro hash txindex hlookup tx htx hhash
    rw [h.eq_clear hash] at hlookup
    obtain ⟨old, hold, rfl⟩ := Option.map_eq_some_iff.mp hlookup
    rw [← hb.vSpent_length hold htx hhash]
    exact length_mapIdx
  · intro prevout hprevout txindex pos hlookup hslot
    rw [h.eq_clear prevout.hash] at hlookup
    obtain ⟨old, hold, rfl⟩ := Option.map_eq_some_iff.mp hlookup
    dsimp only at hslot
    rw [getElem?_clearAbove] at hslot
    obtain ⟨oldPos, holdSlot, rfl⟩ := Option.map_eq_some_iff.mp hslot
    rw [and_iff_left not_mem_nil, ← hb.cleared_isNull_iff hold holdSlot]
    split
    · rename_i hcleared
      exact iff_of_true rfl (.inl hcleared.2)
    · rename_i hcleared
      exact (or_iff_right fun habove => hcleared ⟨hprevout, habove⟩).symm
  · exact nofun

/-- What is spent up to the common ancestor is not an output of the fork or the
block. -/
theorem isNew (htx : tx ∈ txsOf txdb fork ++ block.vtx) :
    IsNew env (allTxs memory txdb (fork ++ common) block) (inputsOf (txsOf txdb common)) tx := by
  have hdistinct := hb.distinct
  rw [txsOf_append, append_assoc, map_append] at hdistinct
  rw [IsNew, allTxs, txsOf_append, append_assoc]
  refine ⟨mem_append_right _ (mem_append_right _ htx), fun prevout hprevout hhash => ?_⟩
  obtain ⟨hash, hcommon⟩ := hb.common_mem
  obtain ⟨creator, hcreator, hcreates, -⟩ := hb.passed.created hb.tree hcommon hprevout
  refine disjoint_of_nodup_append hdistinct
    (mem_map_of_mem (mem_txsOf_of_connectedTxs hcreator)) ?_
  rw [hcreates, hhash]
  exact mem_map_of_mem htx

theorem resolves
    (hcreated : ∃ tx ∈ allTxs memory txdb (fork ++ common) block, Creates env tx prevout)
    (hfound : (txdb.txIndex prevout.hash).isSome ∨ (forkTxs prevout.hash).isSome) :
    Resolves txdb forkTxs prevout := by
  rw [Resolves]
  cases hindex : txdb.txIndex prevout.hash with
  | some txindex =>
    obtain ⟨tx, htx, hhash, hlt⟩ := hcreated
    exact hlt.trans_eq (hb.vSpent_length hindex htx hhash).symm
  | none =>
    refine hfound.resolve_left ?_
    rw [hindex]
    exact Bool.false_ne_true

theorem created_of_fork (hpart : fork = rest ++ part)
    (hprevout : prevout ∈ inputsOf (txsOf txdb part)) :
    ∃ tx, Creates env tx prevout ∧ (tx ∈ connectedTxs txdb common ∨ tx ∈ txsOf txdb part) := by
  have hmap : ∃ hash, memory.mapBlockIndex hash = some (part ++ common) := by
    obtain ⟨entry, pprev, hcons⟩ := exists_cons_of_ne_nil
      (append_ne_nil_of_right_ne_nil part hb.common_ne)
    refine ⟨entry.hashBlock, ?_⟩
    rw [hcons]
    refine hb.tree.closed _ _ hb.parent entry pprev ⟨rest, ?_⟩
    rw [← hcons, hpart, append_assoc]
  obtain ⟨hash, hhash⟩ := hmap
  have hspent : prevout ∈ inputsOf (txsOf txdb (part ++ common)) := by
    rw [txsOf_append, inputsOf_append]
    exact mem_append_right _ hprevout
  obtain ⟨tx, htx, hcreates⟩ := hb.passed.created hb.tree hhash hspent
  rw [connectedTxs_append txdb hb.common_ne] at htx
  exact ⟨tx, hcreates, mem_append.mp htx⟩

theorem mem_allTxs_fork (htx : tx ∈ txsOf txdb fork) :
    tx ∈ allTxs memory txdb (fork ++ common) block :=
  (hb.isNew (mem_append_left _ htx)).1

theorem found_of_fork (hpart : fork = rest ++ part)
    (hprevout : prevout ∈ inputsOf (txsOf txdb part)) :
    (∃ tx ∈ allTxs memory txdb (fork ++ common) block, Creates env tx prevout) ∧
      ((txdb.txIndex prevout.hash).isSome ∨ ∃ tx ∈ txsOf txdb part, env.getHash tx = prevout.hash) := by
  obtain ⟨tx, hcreates, htx | htx⟩ := hb.created_of_fork hpart hprevout
  · have hbest := hb.mem_connectedTxs_best htx
    exact ⟨⟨tx, mem_allTxs_best hbest, hcreates⟩,
      .inl ((hb.found_iff _).mpr ⟨tx, hbest, hcreates.1⟩)⟩
  refine ⟨⟨tx, hb.mem_allTxs_fork ?_, hcreates⟩, .inr ⟨tx, htx, hcreates.1⟩⟩
  rw [hpart, txsOf_append]
  exact mem_append_left _ htx

/-- The first pass finds every output if it finds those that the block spends. -/
theorem blocksResolve (hblock : ∀ prevout ∈ inputsOf block.vtx, Resolves txdb (addForkTxs env (fun _
      => none) (txsOf txdb fork ++ block.vtx)) prevout) {later : List IndexEntry}
    (hpart : fork = later.reverse ++ part) :
    BlocksResolve env txdb (addForkTxs env (fun _ => none) (txsOf txdb part))
      (later.filterMap (fun entry => txdb.blocks entry.hashBlock) ++ [block]) := by
  induction later generalizing part with
  | nil =>
    obtain rfl : fork = part := hpart
    refine ⟨?_, trivial⟩
    rwa [addForkTxs_addForkTxs]
  | cons entry later ih =>
    rw [reverse_cons, append_assoc] at hpart
    have hstored : (txdb.blocks entry.hashBlock).isSome := by
      refine hb.tree.stored _ _
        (hb.tree.closed _ _ hb.parent entry (part ++ common) ⟨later.reverse, ?_⟩)
      rw [hpart]
      simp
    obtain ⟨blk, hblk⟩ := Option.isSome_iff_exists.mp hstored
    have htxs : txsOf txdb part ++ blk.vtx = txsOf txdb ([entry] ++ part) := by
      rw [txsOf_append, txsOf_singleton txdb hblk]
    rw [filterMap_cons, hblk]
    dsimp only
    rw [cons_append, BlocksResolve, addForkTxs_addForkTxs, htxs]
    refine ⟨fun prevout hprevout => ?_, ih hpart⟩
    have hspent : prevout ∈ inputsOf (txsOf txdb ([entry] ++ part)) := by
      rw [← htxs, inputsOf_append]
      exact mem_append_right _ hprevout
    obtain ⟨hcreated, hfound⟩ := hb.found_of_fork hpart hspent
    exact hb.resolves hcreated (hfound.imp_right fun h => addForkTxs_isSome (.inl h))

theorem getAlternateChainTxsUpToCommonAncestor_eq :
    getAlternateChainTxsUpToCommonAncestor env memory txdb block =
      unspendBlocks env memory txdb common (blocksOf txdb fork ++ [block]) (fun _ => none)
          (fun _ => none) >>= fun result =>
        respendBlocks env txdb block result.1 (blocksOf txdb fork) result.2 := by
  have hread : (fork.reverse.map (·.hashBlock)).mapM (readForkBlock txdb) =
      .ok (blocksOf txdb fork) := by
    refine mapM_readForkBlock fun entry hentry => ?_
    obtain ⟨upper, lower, hsplit⟩ := append_of_mem (mem_reverse.mp hentry)
    refine hb.tree.stored _ _ (hb.tree.closed _ _ hb.parent entry (lower ++ common) ⟨upper, ?_⟩)
    rw [hsplit]
    simp
  rw [getAlternateChainTxsUpToCommonAncestor, getBlocksUpToCommonAncestorInMainChain, hb.parent]
  dsimp only
  rw [hb.forkPart_eq, ok_bind]
  dsimp only
  rw [hread, ok_bind]

/-- The hashes for which the third pass starts with an entry. -/
def Found (env : ChainEnv) (txdb : NodeDb τ) (fork : IndexPtr) (hash : UInt256) : Prop :=
  (txdb.txIndex hash).isSome ∨ Stored env (txsOf txdb fork) hash

theorem exists_of_found (hfound : Found env txdb fork hash) :
    (txdb.txIndex hash).isSome ∨ ∃ tx ∈ txsOf txdb fork, env.getHash tx = hash := by
  rcases hfound with hindex | ⟨tx, htx, -, hhash⟩ | ⟨prevout, hprevout, rfl⟩
  · exact .inl hindex
  · exact .inr ⟨tx, htx, hhash⟩
  · exact (hb.found_of_fork (nil_append fork).symm hprevout).2

def AcceptsIn (env : ChainEnv) (memory : Memory) (txdb : NodeDb τ) (block : CBlock)
    (fork common : IndexPtr) (s : Spending) : Prop :=
  Accepts env (allTxs memory txdb (fork ++ common) block) (inputsOf (txsOf txdb common))
    (inputsOf (txsOf txdb fork)) (FoundAt env (Found env txdb fork) s) s

/-- The second pass returns, and the third one accepts exactly what it is for. -/
theorem returns_respendBlocks (hunspend : unspendBlocks env memory txdb common (blocksOf txdb fork
      ++ [block]) (fun _ => none) (fun _ => none) = .ok (forkTxs, modified)) :
    Returns (respendBlocks env txdb block forkTxs (blocksOf txdb fork) modified) fun queuedTxs =>
      (∃ queued, verifyTxs env txdb block block.vtx queuedTxs = .ok queued) ↔
        ∀ s ∈ spendings block.vtx, AcceptsIn env memory txdb block fork common s := by
  obtain ⟨rfl, hcleared⟩ := ((Unspends.nil common).blocks hb.spentInMainChain _).of_eq_ok hunspend
  rw [flatMap_vtx_concat, nil_append] at hcleared
  rw [flatMap_vtx_concat]
  refine ((hb.replays hcleared).respendBlocks hb.noCollision (fun hash tx htx => ?_) block
    (fun tx htx => hb.isNew (mem_append_left _ htx)) fun prevout hprevout => ?_).mono
      fun queuedTxs ⟨hreplays, hfound⟩ => ?_
  · rcases addForkTxs_eq_some htx with ⟨hmem, hhash⟩ | hnone
    · exact ⟨hb.isNew hmem, hhash⟩
    · cases hnone
  · obtain ⟨hcreated, hfound⟩ := hb.found_of_fork (nil_append fork).symm hprevout
    refine ⟨hfound.imp_right ?_, hcreated⟩
    rintro ⟨tx, htx, hhash⟩
    exact addForkTxs_isSome (.inl ⟨tx, mem_append_left _ htx, hhash⟩)
  rw [nil_append, ← txsOf, ← append_nil (inputsOf (txsOf txdb fork))] at hreplays
  refine verifyTxs_iff hb.noCollision hreplays (fun hash => ?_) (fun hash hfound => ?_)
    (fun tx htx => absurd htx not_mem_nil) (fun tx htx => hb.isNew (mem_append_right _ htx))
    (fun prevout hprevout => ?_) block
  · rw [hfound, hcleared.eq_clear, Option.isSome_map]
    exact (or_iff_left (by simp)).symm
  · rcases hb.exists_of_found hfound with hindex | ⟨tx, htx, hhash⟩
    · obtain ⟨tx, htx, hhash⟩ := (hb.found_iff hash).mp hindex
      exact ⟨tx, mem_allTxs_best htx, hhash⟩
    · exact ⟨tx, hb.mem_allTxs_fork htx, hhash⟩
  · rw [inputsOf_append]
    exact mem_append_right _ hprevout

theorem verifyInputsUnspent_iff : verifyInputsUnspent env memory txdb block = .ok () ↔
    ∀ s ∈ spendings block.vtx, AcceptsIn env memory txdb block fork common s := by
  rw [verifyInputsUnspent, hb.getAlternateChainTxsUpToCommonAncestor_eq]
  constructor
  · intro hok
    split at hok
    · cases hok
    · cases hok
    rename_i queuedTxs hpasses
    obtain ⟨⟨forkTxs, modified⟩, hunspend, hrespend⟩ := bind_eq_ok.mp hpasses
    obtain ⟨queued, hverify, -⟩ := bind_eq_ok.mp hok
    obtain ⟨_, hreturns, hiff⟩ := hb.returns_respendBlocks hunspend
    cases hreturns.symm.trans hrespend
    exact hiff.mp ⟨queued, hverify⟩
  intro haccepts
  have hblock : ∀ prevout ∈ inputsOf block.vtx, Resolves txdb
      (addForkTxs env (fun _ => none) (txsOf txdb fork ++ block.vtx)) prevout := by
    intro prevout hprevout
    obtain ⟨s, hs, rfl⟩ := mem_spendingsFrom_iff.mpr hprevout
    obtain ⟨hfound, hcreated, -⟩ := haccepts s hs
    refine hb.resolves hcreated ?_
    rcases hfound with hfound | ⟨tx, htx, hhash⟩
    · refine (hb.exists_of_found hfound).imp_right ?_
      rintro ⟨tx, htx, hhash⟩
      exact addForkTxs_isSome (.inl ⟨tx, mem_append_left _ htx, hhash⟩)
    · exact .inr (addForkTxs_isSome
        (.inl ⟨tx, mem_append_right _ (mem_vtx_of_spendings hs tx htx), hhash⟩))
  have hpart : fork = fork.reverse.reverse ++ [] := by simp
  obtain ⟨⟨forkTxs, modified⟩, hunspend, -⟩ :=
    ((Unspends.nil common).blocks hb.spentInMainChain _).returns (hb.blocksResolve hblock hpart)
  obtain ⟨queuedTxs, hrespend, hiff⟩ := hb.returns_respendBlocks hunspend
  obtain ⟨queued, hverify⟩ := hiff.mpr haccepts
  have hpasses : (unspendBlocks env memory txdb common (blocksOf txdb fork ++ [block])
      (fun _ => none) (fun _ => none) >>= fun result =>
        respendBlocks env txdb block result.1 (blocksOf txdb fork) result.2) = .ok queuedTxs :=
    bind_eq_ok.mpr ⟨_, hunspend, hrespend⟩
  rw [hpasses]
  exact bind_eq_ok.mpr ⟨queued, hverify, rfl⟩

end ForkBlock

end Replay

section Exactness

variable {τ : Type} (env : ChainEnv) (memory : Memory) (txdb : NodeDb τ) (pprev : IndexPtr)

/-- An output of the chain of the block, or of an earlier transaction of the block. -/
def Created (s : Spending) : Prop :=
  ∃ tx ∈ txsOf txdb pprev ++ s.earlier, Creates env tx s.prevout

def Unspent (s : Spending) : Prop :=
  s.prevout ∉ inputsOf (txsOf txdb pprev) ∧ s.prevout ∉ s.spent

def InputsUnspent (block : CBlock) : Prop :=
  ∀ s ∈ spendings block.vtx, Created env txdb pprev s ∧ Unspent txdb pprev s

/-- An output that the check takes although it is not one of the chain of the
block: one of the main chain, or one of the spending transaction itself. -/
def Fake (s : Spending) : Prop :=
  Unspent txdb pprev s ∧ ¬ Created env txdb pprev s ∧
    ∃ tx, Creates env tx s.prevout ∧ (tx ∈ connectedTxs txdb memory.pindexBest ∨ tx = s.tx)

/-- An output that the check does not find: one of a coinbase of the fork, while
no output of that coinbase is spent in the fork, or one of the genesis block. -/
def Lost (s : Spending) : Prop :=
  Unspent txdb pprev s ∧ ∃ tx ∈ txsOf txdb pprev, isCoinBase tx = true ∧ Creates env tx s.prevout ∧
    (∀ tx' ∈ connectedTxs txdb memory.pindexBest, env.getHash tx' ≠ s.prevout.hash) ∧
      ∀ coin ∈ inputsOf (txsOf txdb pprev), coin.hash ≠ s.prevout.hash

variable {env memory txdb pprev} {block : CBlock} {fork common : IndexPtr}

theorem unspent_iff (s : Spending) : Unspent txdb (fork ++ common) s ↔
    s.prevout ∉ inputsOf (txsOf txdb common) ∧ s.prevout ∉ inputsOf (txsOf txdb fork) ∧
      s.prevout ∉ s.spent := by
  rw [Unspent, txsOf_append, inputsOf_append, mem_append, not_or, and_assoc]

theorem Lost.created (h : Lost env memory txdb pprev s) : Created env txdb pprev s := by
  obtain ⟨-, tx, htx, -, hcreates, -⟩ := h
  exact ⟨tx, mem_append_left _ htx, hcreates⟩

namespace ForkBlock

variable (hb : ForkBlock env memory txdb block fork common) {s : Spending}

include hb

theorem creates_of_hash (htx : tx ∈ allTxs memory txdb (fork ++ common) block)
    (htx' : tx' ∈ allTxs memory txdb (fork ++ common) block)
    (hhash : env.getHash tx = s.prevout.hash) (hcreates : Creates env tx' s.prevout) :
    Creates env tx s.prevout := by
  rwa [hb.noCollision tx htx tx' htx' (hhash.trans hcreates.1.symm)]

theorem created_or_fake_of_found (hs : s ∈ spendings block.vtx)
    (hfound : FoundAt env (Found env txdb fork) s s.prevout.hash)
    (hcreated : ∃ tx ∈ allTxs memory txdb (fork ++ common) block, Creates env tx s.prevout) :
    Created env txdb (fork ++ common) s ∨
      ∃ tx, Creates env tx s.prevout ∧ (tx ∈ connectedTxs txdb memory.pindexBest ∨ tx = s.tx) := by
  obtain ⟨creator, hcreator, hcreates⟩ := hcreated
  rcases hfound with hfound | ⟨tx, htx, hhash⟩
  · rcases hb.exists_of_found hfound with hindex | ⟨tx, htx, hhash⟩
    · obtain ⟨tx, htx, hhash⟩ := (hb.found_iff _).mp hindex
      exact .inr ⟨tx, hb.creates_of_hash (mem_allTxs_best htx) hcreator hhash hcreates, .inl htx⟩
    refine .inl ⟨tx, ?_, hb.creates_of_hash (hb.mem_allTxs_fork htx) hcreator hhash hcreates⟩
    rw [txsOf_append]
    exact mem_append_left _ (mem_append_right _ htx)
  have hmem : tx ∈ allTxs memory txdb (fork ++ common) block :=
    mem_append_right _ (mem_append_right _ (mem_vtx_of_spendings hs tx htx))
  have hcreates := hb.creates_of_hash hmem hcreator hhash hcreates
  rcases mem_append.mp htx with hearlier | hself
  · exact .inl ⟨tx, mem_append_right _ hearlier, hcreates⟩
  · exact .inr ⟨tx, hcreates, .inr (mem_singleton.mp hself)⟩

theorem not_lost_of_found (hs : s ∈ spendings block.vtx)
    (hfound : FoundAt env (Found env txdb fork) s s.prevout.hash) :
    ¬ Lost env memory txdb (fork ++ common) s := by
  rintro ⟨-, creator, hcreator, hcoinbase, hcreates, hindex, hspent⟩
  rcases hfound with (hfound | ⟨tx, htx, hnot, hhash⟩ | ⟨coin, hcoin, hhash⟩) | ⟨tx, htx, hhash⟩
  · obtain ⟨tx, htx, hhash⟩ := (hb.found_iff _).mp hfound
    exact hindex tx htx hhash
  · have hsame : tx = creator := hb.noCollision tx (hb.mem_allTxs_fork htx) creator
      (mem_append_right _ (mem_append_left _ hcreator)) (hhash.trans hcreates.1.symm)
    rw [hsame, hcoinbase] at hnot
    cases hnot
  · refine hspent coin ?_ hhash
    rw [txsOf_append, inputsOf_append]
    exact mem_append_right _ hcoin
  have hdistinct := hb.distinct
  rw [map_append] at hdistinct
  refine disjoint_of_nodup_append hdistinct (mem_map_of_mem hcreator) ?_
  rw [hcreates.1, ← hhash]
  exact mem_map_of_mem (mem_vtx_of_spendings hs tx htx)

theorem found_of_created (hcreated : Created env txdb (fork ++ common) s)
    (hunspent : Unspent txdb (fork ++ common) s)
    (hlost : ¬ Lost env memory txdb (fork ++ common) s) :
    FoundAt env (Found env txdb fork) s s.prevout.hash := by
  have hindexed : ∀ tx ∈ connectedTxs txdb memory.pindexBest, env.getHash tx = s.prevout.hash →
      FoundAt env (Found env txdb fork) s s.prevout.hash := by
    intro tx htx hhash
    exact .inl (.inl ((hb.found_iff _).mpr ⟨tx, htx, hhash⟩))
  obtain ⟨tx, htx, hcreates⟩ := hcreated
  rcases mem_append.mp htx with htx | htx
  · cases hcoinbase : isCoinBase tx with
    | false =>
      rw [txsOf_append, mem_append] at htx
      rcases htx with htx | htx
      · obtain ⟨genesis, hgenesis⟩ := hb.tree.genesis
        obtain ⟨best, hbest⟩ := hb.tree.best
        obtain ⟨rest, hrest⟩ := List.getLast?_eq_some_iff.mp (hgenesis _ _ hbest)
        have hmap := hb.tree.closed _ _ hbest genesis [] ⟨rest, hrest.symm⟩
        obtain ⟨blk, hblk⟩ := Option.isSome_iff_exists.mp (hb.tree.stored _ _ hmap)
        obtain ⟨hash, hcommon⟩ := hb.common_mem
        rw [txsOf_eq txdb (hgenesis _ _ hcommon), mem_append, txsOf_singleton txdb hblk] at htx
        rcases htx with htx | htx
        · rw [hb.passed.genesis _ genesis blk hmap hblk tx htx] at hcoinbase
          cases hcoinbase
        · exact hindexed tx (hb.mem_connectedTxs_best htx) hcreates.1
      · exact .inl (.inr (.inl ⟨tx, htx, hcoinbase, hcreates.1⟩))
    | true =>
      by_contra hnot
      refine hlost ⟨hunspent, tx, htx, hcoinbase, hcreates, ?_, ?_⟩
      · exact fun other hother hhash => hnot (hindexed other hother hhash)
      intro coin hcoin hhash
      rw [txsOf_append, inputsOf_append, mem_append] at hcoin
      rcases hcoin with hcoin | hcoin
      · obtain ⟨hash, hcommon⟩ := hb.common_mem
        obtain ⟨other, hother, hcreates', -⟩ := hb.passed.created hb.tree hcommon hcoin
        exact hnot (hindexed other (hb.mem_connectedTxs_best hother) (hcreates'.trans hhash))
      · exact hnot (.inl (.inr (.inr ⟨coin, hcoin, hhash⟩)))
  · exact .inr ⟨tx, mem_append_left _ htx, hcreates.1⟩

theorem acceptsIn_iff (hs : s ∈ spendings block.vtx) :
    AcceptsIn env memory txdb block fork common s ↔
      ((Created env txdb (fork ++ common) s ∧ Unspent txdb (fork ++ common) s) ∧
        ¬ Lost env memory txdb (fork ++ common) s) ∨ Fake env memory txdb (fork ++ common) s := by
  rw [AcceptsIn, Accepts, ← unspent_iff]
  constructor
  · rintro ⟨hfound, hcreated, hunspent⟩
    rcases Classical.em (Created env txdb (fork ++ common) s) with hchain | hchain
    · exact .inl ⟨⟨hchain, hunspent⟩, hb.not_lost_of_found hs hfound⟩
    · exact .inr ⟨hunspent, hchain,
        (hb.created_or_fake_of_found hs hfound hcreated).resolve_left hchain⟩
  rintro (⟨⟨hcreated, hunspent⟩, hlost⟩ | ⟨hunspent, -, tx, hcreates, htx⟩)
  · have hfound := hb.found_of_created hcreated hunspent hlost
    obtain ⟨tx, htx, hcreates⟩ := hcreated
    refine ⟨hfound, ⟨tx, mem_append_right _ (mem_append.mpr ((mem_append.mp htx).imp_right ?_)),
      hcreates⟩, hunspent⟩
    exact fun hmem => mem_vtx_of_spendings hs tx (mem_append_left _ hmem)
  rcases htx with htx | rfl
  · exact ⟨.inl (.inl ((hb.found_iff _).mpr ⟨tx, htx, hcreates.1⟩)),
      ⟨tx, mem_allTxs_best htx, hcreates⟩, hunspent⟩
  have hself : s.tx ∈ s.earlier ++ [s.tx] := mem_append_right _ mem_cons_self
  exact ⟨.inr ⟨s.tx, hself, hcreates.1⟩, ⟨s.tx, mem_append_right _
    (mem_append_right _ (mem_vtx_of_spendings hs s.tx hself)), hcreates⟩, hunspent⟩

end ForkBlock

/-- An input that is refused on both sides. -/
def Invalid (env : ChainEnv) (memory : Memory) (txdb : NodeDb τ) (pprev : IndexPtr) (s : Spending) :
    Prop :=
  ¬ Unspent txdb pprev s ∨ (¬ Created env txdb pprev s ∧
    ∀ tx, Creates env tx s.prevout → tx ∉ connectedTxs txdb memory.pindexBest ∧ tx ≠ s.tx)

theorem invalid_iff (s : Spending) : Invalid env memory txdb pprev s ↔
    ¬ (Created env txdb pprev s ∧ Unspent txdb pprev s) ∧ ¬ Fake env memory txdb pprev s := by
  constructor
  · rintro (hspent | ⟨hcreated, hnone⟩)
    · exact ⟨fun h => hspent h.2, fun h => hspent h.1⟩
    refine ⟨fun h => hcreated h.1, ?_⟩
    rintro ⟨-, -, tx, hcreates, htx | htx⟩
    · exact (hnone tx hcreates).1 htx
    · exact (hnone tx hcreates).2 htx
  rintro ⟨hspec, hfake⟩
  rcases Classical.em (Unspent txdb pprev s) with hunspent | hspent
  · have hcreated : ¬ Created env txdb pprev s := fun h => hspec ⟨h, hunspent⟩
    refine .inr ⟨hcreated, fun tx hcreates => ⟨fun htx => ?_, fun htx => ?_⟩⟩
    · exact hfake ⟨hunspent, hcreated, tx, hcreates, .inl htx⟩
    · exact hfake ⟨hunspent, hcreated, tx, hcreates, .inr htx⟩
  · exact .inl hspent

def genesisTx : CTransaction := ⟨1, [⟨⟨0, 2 ^ 32 - 1⟩, [0, 42]⟩], [⟨0, []⟩], 0⟩

def mainTx : CTransaction := ⟨2, [⟨⟨0, 2 ^ 32 - 1⟩, [1, 1]⟩], [⟨2000 * COIN, [0x51]⟩], 0⟩

def genesisEntry : IndexEntry :=
  ⟨100, 100, 1, false, false, true, 0, ⟨0, 0⟩, 0, 100, 100, 0⟩

def mainEntry : IndexEntry :=
  ⟨101, 101, 2, false, false, true, 0, ⟨0, 0⟩, 0, 101, 101, 0⟩

def twoBlocksMemory : Memory where
  mapBlockIndex hash :=
    if hash = 100 then some [genesisEntry]
    else if hash = 101 then some [mainEntry, genesisEntry] else none
  amounts _ := ⟨0, 0⟩
  setStakeSeen _ := false
  pnext hash := if hash = 100 then some 101 else none
  pindexGenesisBlock := [genesisEntry]
  pindexBest := [mainEntry, genesisEntry]
  hashBestChain := 101
  nBestHeight := 1
  nBestChainTrust := 2
  nBestInvalidTrust := 0

def twoBlocksDb : NodeDb Unit where
  blocks hash :=
    if hash = 100 then some ⟨1, 0, 1, 100, 0, 0, [genesisTx], []⟩
    else if hash = 101 then some ⟨6, 100, 2, 101, 0, 0, [mainTx], []⟩ else none
  blockIndexes _ := none
  txIndex hash := if hash = 2 then some (CTxIndex.new ⟨101, 81⟩ 1) else none
  hashBestChain := some 101
  bestInvalidTrust := none
  tokens := ()

theorem forall_twoBlocks {motive : UInt256 → IndexPtr → Prop} (hgenesis : motive 100 [genesisEntry])
    (hmain : motive 101 [mainEntry, genesisEntry]) :
    ∀ hash pindex, twoBlocksMemory.mapBlockIndex hash = some pindex → motive hash pindex := by
  intro hash pindex h
  rw [twoBlocksMemory] at h
  dsimp only at h
  split at h
  · rename_i hhash
    rwa [hhash, ← Option.some.inj h]
  split at h
  · rename_i hhash
    rwa [hhash, ← Option.some.inj h]
  · cases h

theorem twoBlocks_treeOk : TreeOk twoBlocksMemory twoBlocksDb := by
  refine ⟨⟨forall_twoBlocks ⟨_, _, rfl, rfl⟩ ⟨_, _, rfl, rfl⟩, ?_⟩, forall_twoBlocks rfl rfl,
    forall_twoBlocks (iff_of_true (by decide) (suffix_cons _ _))
      (iff_of_true (by decide) (suffix_refl _)), ⟨101, rfl⟩,
    ⟨genesisEntry, forall_twoBlocks rfl rfl⟩⟩
  have hbest : ∀ hash pindex, twoBlocksMemory.mapBlockIndex hash = some pindex →
      pindex <:+ [mainEntry, genesisEntry] := forall_twoBlocks (suffix_cons _ _) (suffix_refl _)
  intro hash pindex h entry pprev hsuffix
  rcases suffix_cons_iff.mp (hsuffix.trans (hbest hash pindex h)) with heq | hgenesis
  · obtain ⟨rfl, rfl⟩ := List.cons.inj heq
    rfl
  rcases suffix_cons_iff.mp hgenesis with heq | hnil
  · obtain ⟨rfl, rfl⟩ := List.cons.inj heq
    rfl
  · cases suffix_nil.mp hnil

theorem twoBlocks_indexExact : IndexExact workEnv twoBlocksMemory twoBlocksDb := by
  have hindex : ∀ {hash txindex}, twoBlocksDb.txIndex hash = some txindex →
      hash = 2 ∧ txindex = CTxIndex.new ⟨101, 81⟩ 1 := by
    intro hash txindex h
    obtain ⟨hhash, htxindex⟩ := Option.ite_none_right_eq_some.mp h
    exact ⟨hhash, (Option.some.inj htxindex).symm⟩
  have hconnected : connectedTxs twoBlocksDb twoBlocksMemory.pindexBest = [mainTx] := rfl
  constructor
  · intro hash
    rw [hconnected]
    constructor
    · intro hsome
      obtain ⟨txindex, htxindex⟩ := Option.isSome_iff_exists.mp hsome
      exact ⟨mainTx, mem_cons_self, (hindex htxindex).1.symm⟩
    rintro ⟨tx, htx, rfl⟩
    rw [mem_singleton.mp htx]
    rfl
  · intro hash txindex h tx htx _
    rw [hconnected] at htx
    rw [(hindex h).2, mem_singleton.mp htx]
    rfl
  · intro hash txindex h n pos _ _
    exact not_mem_nil
  intro hash txindex h n pos hslot hspent
  rw [(hindex h).2] at hslot
  have hnull := eq_of_mem_replicate (mem_of_getElem? hslot)
  rw [hnull] at hspent
  cases hspent

theorem twoBlocks_blocksPassed : BlocksPassed workEnv twoBlocksMemory twoBlocksDb := by
  have hcases : ∀ hash pindex, twoBlocksMemory.mapBlockIndex hash = some pindex →
      hash = 100 ∧ pindex = [genesisEntry] ∨ hash = 101 ∧ pindex = [mainEntry, genesisEntry] :=
    forall_twoBlocks (.inl ⟨rfl, rfl⟩) (.inr ⟨rfl, rfl⟩)
  constructor
  · intro hash entry block h hblock tx htx
    rcases hcases _ _ h with ⟨rfl, -⟩ | ⟨rfl, heq⟩
    · cases hblock
      rw [mem_singleton.mp htx]
      rfl
    · cases heq
  intro hash entry pprev block hne h hblock s hs
  rcases hcases _ _ h with ⟨rfl, heq⟩ | ⟨rfl, -⟩
  · exact absurd (List.cons.inj heq).2 hne
  · cases hblock
    cases hs

def spendingBlock (hashPrevBlock : UInt256) : CBlock :=
  ⟨6, hashPrevBlock, 3, 102, 0, 0, [⟨3, [⟨⟨0, 2 ^ 32 - 1⟩, [1, 2]⟩], [⟨0, []⟩], 0⟩,
      ⟨4, [⟨⟨2, 0⟩, []⟩], [⟨0, []⟩, ⟨COIN, [0x51]⟩], 0⟩], []⟩

end Exactness

end Bfx.ForkExactness
