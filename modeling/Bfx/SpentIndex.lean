import Bfx.MintingBound
import Bfx.SpentLog

/-!
The transaction index over whole runs of connected and disconnected blocks. The
database entries, the changes queued while a block is connected and the inputs
that a transaction has fetched are one view of the chain; connecting a
transaction appends an entry to a log and disconnecting it removes the entry.
-/

namespace Bfx.SpentIndex

open BlockConnection CallOutcome ChainIndex Function InputConnection List MintingBound SpentLog
  Transaction

variable {tx : CTransaction} {ancestors : List CBlockIndex} {block : CBlock} {pindex : CBlockIndex}

section Disconnect

/-- The database as `DisconnectBlock` uses it: the index is state, writes may fail. -/
structure DisconnectDB where
  updateTxIndex : UInt256 → CTxIndex → Bool
  writeBlockIndex : CBlockIndex → Bool

variable (txdb : DisconnectDB)

/-- The loop of `DisconnectInputs`. -/
def relinquishInputs : List CTxIn → (UInt256 → Option CTxIndex) →
    Verdict (UInt256 → Option CTxIndex)
  | [], index => .ok index
  | txin :: vin, index =>
    match index txin.prevout.hash with
    | none => .error (.logged "DisconnectInputs() : ReadTxIndex failed")
    | some txindex => do
      ensure (txin.prevout.n < txindex.vSpent.length)
        (.logged "DisconnectInputs() : prevout.n out of range")
      let txindex := { txindex with vSpent := txindex.vSpent.set txin.prevout.n .null }
      ensure (txdb.updateTxIndex txin.prevout.hash txindex)
        (.logged "DisconnectInputs() : UpdateTxIndex failed")
      relinquishInputs vin (update index txin.prevout.hash (some txindex))

/-- Relinquish previous transactions' spent pointers. -/
def relinquish (tx : CTransaction) (index : UInt256 → Option CTxIndex) :
    Verdict (UInt256 → Option CTxIndex) :=
  if isCoinBase tx then .ok index else relinquishInputs txdb tx.vin index

/-- The result of `EraseTxIndex` is ignored. -/
def disconnectInputs (getHash : CTransaction → UInt256) (tx : CTransaction)
    (index : UInt256 → Option CTxIndex) : Verdict (UInt256 → Option CTxIndex) := do
  let index ← relinquish txdb tx index
  .ok (update index (getHash tx) none)

def disconnectTransactions (getHash : CTransaction → UInt256) :
    List CTransaction → (UInt256 → Option CTxIndex) → Verdict (UInt256 → Option CTxIndex)
  | [], index => .ok index
  | tx :: vtx, index => do
    let index ← disconnectInputs txdb getHash tx index
    disconnectTransactions getHash vtx index

/-- The index after the block; `pprev` is the entry of its parent. -/
def disconnectBlock (getHash : CTransaction → UInt256) (pprev : Option CBlockIndex)
    (block : CBlock) (index : UInt256 → Option CTxIndex) :
    Verdict (UInt256 → Option CTxIndex) := do
  let index ← disconnectTransactions txdb getHash block.vtx.reverse index
  ensure (∀ blockindexPrev ∈ pprev, txdb.writeBlockIndex blockindexPrev = true)
    (.logged "DisconnectBlock() : WriteBlockIndex failed")
  .ok index

end Disconnect

def toSlot (pos : CDiskTxPos) : Option CDiskTxPos := if pos.isNull then none else some pos

def toRecord (txindex : CTxIndex) : Record CDiskTxPos := ⟨txindex.pos, txindex.vSpent.map toSlot⟩

def toView (index : UInt256 → Option CTxIndex) : View UInt256 CDiskTxPos :=
  fun hash => (index hash).map toRecord

def toCoin (prevout : COutPoint) : UInt256 × Nat := (prevout.hash, prevout.n)

def toEntry (getHash : CTransaction → UInt256) (tx : CTransaction) (pos : CDiskTxPos) :
    Entry UInt256 CDiskTxPos :=
  ⟨getHash tx, pos, (spentBy tx).map toCoin, tx.vout.length⟩

theorem toCoin_injective : Function.Injective toCoin := by
  rintro ⟨_, _⟩ ⟨_, _⟩ h
  cases h
  rfl

theorem toView_update (index : UInt256 → Option CTxIndex) (hash : UInt256)
    (txindex : Option CTxIndex) :
    toView (update index hash txindex) =
      update (toView index) hash (txindex.map toRecord) :=
  comp_update (Option.map toRecord) index hash txindex

theorem toView_set {index : UInt256 → Option CTxIndex} (hindex : index prevout.hash = some txindex)
    (pos : CDiskTxPos) :
    toView (update index prevout.hash
        (some { txindex with vSpent := txindex.vSpent.set prevout.n pos })) =
      setSlots (toView index) [toCoin prevout] (toSlot pos) := by
  funext hash
  rw [toView_update]
  rcases eq_or_ne hash prevout.hash with rfl | hne
  · rw [update_self, setSlots, toView, hindex, Option.map_some, Option.map_some,
      Option.map_some, toRecord, toRecord, Record.setSlots]
    congr 2
    apply ext_getElem?
    intro n
    rw [List.getElem?_mapIdx, List.getElem?_map, List.getElem?_map]
    rcases eq_or_ne prevout.n n with rfl | hn
    · rw [List.getElem?_set_self']
      rcases txindex.vSpent[prevout.n]? with _ | spent
      · rfl
      · simp [toCoin]
    rw [List.getElem?_set_ne hn]
    rcases txindex.vSpent[n]? with _ | spent
    · rfl
    · simp [toCoin, Ne.symm hn]
  rw [update_of_ne hne, setSlots_of_notMem]
  intro coin hcoin
  rw [mem_singleton.mp hcoin]
  exact Ne.symm hne

section Connect

variable {env : ChainEnv}

theorem unspent_of_mem_unspentCoins {index : UInt256 → Option CTxIndex}
    (h : coin ∈ unspentCoins index) : Unspent (toView index) (toCoin coin) := by
  obtain ⟨txindex, spent, hindex, hspent, hnull⟩ := mem_unspentCoins.mp h
  refine ⟨toRecord txindex, ?_, ?_⟩
  · rw [toView, toCoin, hindex, Option.map_some]
  · rw [toRecord, List.getElem?_map, toCoin, hspent, Option.map_some, toSlot, if_pos hnull]

theorem spendInputs_view (hpos : pos.isNull = false) (hinputs : FromIndex txdb mapTestPool inputs)
    (h : spendInputs env pos true false tx i vin inputs mapTestPool = .ok mapTestPool') :
    toView (currentIndex txdb mapTestPool') =
      setSlots (toView (currentIndex txdb mapTestPool)) ((vin.map (·.prevout)).map toCoin)
        (some pos) := by
  have hslot : toSlot pos = some pos := if_neg (by simp [hpos])
  induction vin generalizing i inputs mapTestPool with
  | nil =>
    cases h
    exact (setSlots_nil _ _).symm
  | cons txin vin ih =>
    rw [spendInputs] at h
    split at h
    · cases h
    rename_i txindex txPrev hfound
    simp only [bind_eq_ok] at h
    obtain ⟨spent, -, _, -, _, -, h⟩ := h
    rw [ih (FromIndex.update hinputs _ _ _) h, currentIndex_update,
      toView_set (hinputs _ _ _ hfound), hslot, setSlots_append]
    rfl

/-- A transaction of the connected chain, and whether one with the same id has been
connected since. -/
structure ChainTx where
  tx : CTransaction
  pos : CDiskTxPos
  overwritten : Bool

def pushTx (getHash : CTransaction → UInt256) (chain : List ChainTx) (tx : CTransaction)
    (pos : CDiskTxPos) : List ChainTx :=
  ⟨tx, pos, false⟩ :: chain.map fun older =>
    { older with overwritten := older.overwritten || getHash older.tx == getHash tx }

/-- The transactions of a block go on top of the chain, at their positions. -/
def pushTxs (env : ChainEnv) (blockKeyInDB : UInt256) :
    Nat → List CTransaction → List ChainTx → List ChainTx
  | _, [], chain => chain
  | nTxPos, tx :: vtx, chain =>
    pushTxs env blockKeyInDB (nTxPos + env.getSerializeSize tx) vtx
      (pushTx env.getHash chain tx ⟨blockKeyInDB, nTxPos⟩)

def toMarked (getHash : CTransaction → UInt256) (chainTx : ChainTx) : Marked UInt256 CDiskTxPos :=
  ⟨toEntry getHash chainTx.tx chainTx.pos, chainTx.overwritten⟩

def toLog (getHash : CTransaction → UInt256) (chain : List ChainTx) :
    List (Marked UInt256 CDiskTxPos) :=
  chain.map (toMarked getHash)

/-- What holds at the start of the loop, or of the rest of it. -/
structure Starts (env : ChainEnv) (txdb : CTxDB) (vtx : List CTransaction) (state : BlockState) :
    Prop where
  pos_lt : state.nTxPos + (vtx.map env.getSerializeSize).sum < 2 ^ 32 - 1
  nodup : (vtx.map env.getHash).Nodup
  spent : ∀ tx ∈ vtx,
    AllSpent (toView (currentIndex txdb state.mapQueuedChanges)) (env.getHash tx)

section Starts

variable {state next : BlockState} (h : Starts env txdb (tx :: vtx) state)
  (hnext : connectTransaction env txdb block pindex ancestors false tx state = .ok next)

include h hnext

theorem Starts.nTxPos_eq : next.nTxPos = state.nTxPos + env.getSerializeSize tx := by
  have hpos := h.pos_lt
  exact (connectTransaction_step (by omega) hnext).txPos_eq

theorem Starts.view :
    Fits (toView (currentIndex txdb state.mapQueuedChanges))
        (toEntry env.getHash tx ⟨pindex.blockKeyInDB, state.nTxPos⟩) ∧
      toView (currentIndex txdb next.mapQueuedChanges) =
        append (toView (currentIndex txdb state.mapQueuedChanges))
          (toEntry env.getHash tx ⟨pindex.blockKeyInDB, state.nTxPos⟩) := by
  have hpos : state.nTxPos < 2 ^ 32 - 1 := Nat.lt_of_le_of_lt (Nat.le_add_right _ _) h.pos_lt
  obtain ⟨left, htakes, -⟩ := (connectTransaction_step hpos hnext).takes
  have hnull : CDiskTxPos.isNull ⟨pindex.blockKeyInDB, state.nTxPos⟩ = false :=
    beq_eq_false_iff_ne.mpr (Nat.ne_of_lt hpos)
  refine ⟨⟨htakes.nodup.map toCoin_injective, fun coin hcoin => ?_, h.spent tx mem_cons_self⟩,
    ?_⟩
  · obtain ⟨prevout, hprevout, rfl⟩ := mem_map.mp hcoin
    exact unspent_of_mem_unspentCoins (htakes.mem prevout hprevout)
  simp only [connectTransaction, bind_eq_ok] at hnext
  obtain ⟨_, -, _, -, ⟨connected, inputsWithBFXT⟩, hconnect, hnext⟩ := hnext
  cases hnext
  have hview : toView (currentIndex txdb connected.mapQueuedChanges) =
      setSlots (toView (currentIndex txdb state.mapQueuedChanges)) ((spentBy tx).map toCoin)
        (some ⟨pindex.blockKeyInDB, state.nTxPos⟩) := by
    obtain ⟨htx, rfl, nValueOut, rfl⟩ | ⟨htx, hconnect⟩ := connectByKind_cases hconnect
    · rw [spentBy, if_pos htx, map_nil, setSlots_nil]
    simp only [connectSpending, bind_eq_ok] at hconnect
    obtain ⟨mapInputs, hfetch, _, -, _, -, _, -, _, -, _, -, _, -, mapQueuedChanges, hinputs,
      hconnect⟩ := hconnect
    cases hconnect
    rw [show spentBy tx = tx.vin.map (·.prevout) from if_neg (by simp [htx])]
    exact spendInputs_view hnull (fun _ _ _ hhash => (fetchInputs_fetched htx hfetch _ _ _ hhash).1)
      (spendInputs_of_connectInputs htx hinputs)
  rw [currentIndex_update, toView_update, hview, Option.map_some, toRecord, CTxIndex.new,
    map_replicate]
  rfl

theorem Starts.step : Starts env txdb vtx next := by
  have hpos := h.pos_lt
  rw [map_cons, sum_cons, ← Nat.add_assoc, ← h.nTxPos_eq hnext] at hpos
  have hnodup := h.nodup
  rw [map_cons, nodup_cons] at hnodup
  refine ⟨hpos, hnodup.2, fun other hother => ?_⟩
  rw [(h.view hnext).2]
  refine (h.spent other (mem_cons_of_mem _ hother)).append fun hid => hnodup.1 ?_
  exact mem_map.mpr ⟨other, hother, hid⟩

end Starts

theorem Starts.run {state : BlockState} {before after : List CTransaction}
    (h : Starts env txdb (before ++ after) state)
    (hrun : connectTransactions env txdb block pindex ancestors false before state = .ok current) :
    Starts env txdb after current := by
  induction before generalizing state with
  | nil =>
    cases hrun
    exact h
  | cons tx before ih =>
    obtain ⟨next, hnext, hrun⟩ := bind_eq_ok.mp hrun
    exact ih (h.step hnext) hrun

theorem connectTransactions_tracks (hstarts : Starts env txdb vtx state)
    (htracks : Tracks (toLog env.getHash chain) (toView (currentIndex txdb state.mapQueuedChanges)))
    (h : connectTransactions env txdb block pindex ancestors false vtx state = .ok final) :
    Tracks (toLog env.getHash (pushTxs env pindex.blockKeyInDB state.nTxPos vtx chain))
      (toView (currentIndex txdb final.mapQueuedChanges)) := by
  induction vtx generalizing state chain with
  | nil =>
    cases h
    exact htracks
  | cons tx vtx ih =>
    obtain ⟨next, hnext, h⟩ := bind_eq_ok.mp h
    obtain ⟨hfits, hview⟩ := hstarts.view hnext
    rw [pushTxs, ← hstarts.nTxPos_eq hnext]
    refine ih (hstarts.step hnext) ?_ h
    rw [hview, toLog, pushTx, map_cons, map_map]
    have hpushed := htracks.push hfits
    rw [push, mark, toLog, map_map] at hpushed
    exact hpushed

end Connect

theorem relinquishInputs_view {vin : List CTxIn} {index : UInt256 → Option CTxIndex}
    (h : relinquishInputs txdb vin index = .ok index') :
    toView index' = setSlots (toView index) ((vin.map (·.prevout)).map toCoin) none ∧
      ∀ txin ∈ vin, (toView index txin.prevout.hash).isSome = true := by
  induction vin generalizing index with
  | nil =>
    cases h
    exact ⟨(setSlots_nil _ _).symm, nofun⟩
  | cons txin vin ih =>
    rw [relinquishInputs] at h
    split at h
    · cases h
    rename_i txindex hindex
    obtain ⟨_, -, h⟩ := bind_eq_ok.mp h
    obtain ⟨_, -, h⟩ := bind_eq_ok.mp h
    obtain ⟨hview, hreads⟩ := ih h
    rw [toView_set hindex] at hview hreads
    have hslot : toSlot .null = none := rfl
    refine ⟨?_, forall_mem_cons.mpr ⟨?_, fun other hother => ?_⟩⟩
    · rw [hview, hslot, setSlots_append]
      rfl
    · rw [toView, hindex]
      rfl
    have hsome := hreads other hother
    rw [setSlots, Option.isSome_map] at hsome
    exact hsome

theorem disconnectInputs_view {index : UInt256 → Option CTxIndex} (pos : CDiskTxPos)
    (h : disconnectInputs txdb getHash tx index = .ok index') :
    toView index' = remove (toView index) (toEntry getHash tx pos) ∧
      ∀ coin ∈ (toEntry getHash tx pos).spends, (toView index coin.1).isSome = true := by
  obtain ⟨relinquished, hrelinquish, h⟩ := bind_eq_ok.mp h
  cases h
  rw [toView_update, remove, toEntry, spentBy]
  dsimp only
  rw [relinquish] at hrelinquish
  split at hrelinquish
  · rename_i htx
    cases hrelinquish
    rw [if_pos htx, map_nil, setSlots_nil]
    exact ⟨rfl, forall_mem_nil _⟩
  rename_i htx
  obtain ⟨hview, hreads⟩ := relinquishInputs_view hrelinquish
  rw [if_neg htx, hview]
  refine ⟨rfl, fun coin hcoin => ?_⟩
  obtain ⟨prevout, hprevout, rfl⟩ := mem_map.mp hcoin
  obtain ⟨txin, htxin, rfl⟩ := mem_map.mp hprevout
  exact hreads txin htxin

theorem disconnectTransactions_tracks {index : UInt256 → Option CTxIndex}
    (htracks : Tracks (toLog getHash (top ++ chain)) (toView index))
    (h : disconnectTransactions txdb getHash (top.map (·.tx)) index = .ok index') :
    Tracks (toLog getHash chain) (toView index') := by
  induction top generalizing index with
  | nil =>
    cases h
    exact htracks
  | cons newest top ih =>
    obtain ⟨next, hnext, h⟩ := bind_eq_ok.mp h
    obtain ⟨hview, hreads⟩ := disconnectInputs_view newest.pos hnext
    refine ih ?_ h
    rw [hview]
    exact htracks.remove hreads

section Runs

/-- The connected blocks with the newest first, their transactions, and the index. -/
structure IndexState where
  blocks : List CBlock
  chain : List ChainTx
  index : UInt256 → Option CTxIndex

/-- The states after successful calls of `ConnectBlock` and `DisconnectBlock`, from
the empty index on. The hash function is the same in all calls; everything else a
call reads may change from one to the next. -/
inductive Reachable (getHash : CTransaction → UInt256) : IndexState → Prop
  | empty : Reachable getHash ⟨[], [], fun _ => none⟩
  | connect {state : IndexState} {env : ChainEnv} {txdb : CTxDB} {pindex : CBlockIndex}
      {ancestors : List CBlockIndex} {block : CBlock} {connected : Connected}
      (hstate : Reachable getHash state) (hhash : env.getHash = getHash)
      (hindex : txdb.readTxIndex = state.index)
      (h : connectBlock env txdb pindex ancestors false block = .ok connected) :
      Reachable getHash ⟨block :: state.blocks,
        pushTxs env pindex.blockKeyInDB (firstTxPos false block) block.vtx state.chain,
        currentIndex txdb connected.mapQueuedChanges⟩
  | disconnect {state : IndexState} {txdb : DisconnectDB} {pprev : Option CBlockIndex}
      {block : CBlock} {blocks : List CBlock} {index : UInt256 → Option CTxIndex}
      (hstate : Reachable getHash state) (htip : state.blocks = block :: blocks)
      (h : disconnectBlock txdb getHash pprev block state.index = .ok index) :
      Reachable getHash ⟨blocks, state.chain.drop block.vtx.length, index⟩

def spendersOf (coin : COutPoint) (chain : List ChainTx) : List CDiskTxPos :=
  chain.flatMap fun chainTx => ((spentBy chainTx.tx).filter (· == coin)).map fun _ => chainTx.pos

/-- What is connected behind a transaction before its id is used again. -/
def lifetimeOf (getHash : CTransaction → UInt256) (hash : UInt256) (later : List ChainTx) :
    List ChainTx :=
  (later.reverse.takeWhile fun chainTx => getHash chainTx.tx ≠ hash).reverse

/-- The entry of a transaction is exact: a mark for each output, which is null if no
later input spends the output and else the position of the one that does. -/
def ExactEntry (getHash : CTransaction → UInt256) (chainTx : ChainTx) (later : List ChainTx)
    (txindex : CTxIndex) : Prop :=
  txindex.pos = chainTx.pos ∧ txindex.vSpent.length = chainTx.tx.vout.length ∧
    ∀ n, n < chainTx.tx.vout.length → ∃ spent, txindex.vSpent[n]? = some spent ∧
      ((spent.isNull = true ∧ spendersOf ⟨getHash chainTx.tx, n⟩ later = []) ∨
        (spent.isNull = false ∧ spendersOf ⟨getHash chainTx.tx, n⟩ later = [spent]))

/-- The index is the exact spent map of the chain. -/
structure SpentMap (getHash : CTransaction → UInt256) (state : IndexState) : Prop where
  /-- The chain is that of the connected blocks. -/
  chain_eq : state.chain.map (·.tx) = state.blocks.flatMap fun block => block.vtx.reverse
  /-- Transactions that are not overwritten have an exact entry. -/
  entry : ∀ later chainTx earlier, state.chain = later ++ chainTx :: earlier →
    chainTx.overwritten = false →
    ∃ txindex, state.index (getHash chainTx.tx) = some txindex ∧
      ExactEntry getHash chainTx later txindex
  /-- The outputs of those that are were spent before, once each. -/
  overwritten : ∀ later chainTx earlier, state.chain = later ++ chainTx :: earlier →
    chainTx.overwritten = true → ∀ n, n < chainTx.tx.vout.length →
    ∃ pos, spendersOf ⟨getHash chainTx.tx, n⟩
      (lifetimeOf getHash (getHash chainTx.tx) later) = [pos]
  /-- Every input spends an output that was created before. -/
  created : ∀ later chainTx earlier, state.chain = later ++ chainTx :: earlier →
    ∀ coin ∈ spentBy chainTx.tx, ∃ source ∈ earlier, getHash source.tx = coin.hash ∧
      coin.n < source.tx.vout.length
  /-- No output is spent twice. -/
  spent_once : ∀ later chainTx earlier, state.chain = later ++ chainTx :: earlier →
    ∀ n, n < chainTx.tx.vout.length →
    (spendersOf ⟨getHash chainTx.tx, n⟩
      (lifetimeOf getHash (getHash chainTx.tx) later)).length ≤ 1

variable {getHash : CTransaction → UInt256}

theorem connectBlock_queued (h : connectBlock env txdb pindex ancestors false block = .ok connected)
    :
    ∃ final, connectTransactions env txdb block pindex ancestors false block.vtx
        (initialState false block) = .ok final ∧
      connected.mapQueuedChanges = final.mapQueuedChanges := by
  simp only [connectBlock, bind_eq_ok] at h
  obtain ⟨_, -, final, hfinal, _, -, _, -, h⟩ := h
  rw [if_neg Bool.false_ne_true] at h
  simp only [bind_eq_ok] at h
  obtain ⟨_, -, _, -, _, -, h⟩ := h
  exact ⟨final, hfinal, by rw [← Except.ok.inj h]⟩

theorem currentIndex_empty (txdb : CTxDB) :
    currentIndex txdb (fun _ => none) = txdb.readTxIndex := by
  funext hash
  rfl

theorem starts_of_checkBlock
    (hcheck : checkBlock env fCheckPOW fCheckMerkleRoot fCheckSig block = .ok ()) (hloop :
      connectTransactions env txdb block pindex ancestors false block.vtx (initialState false block)
      = .ok final) : Starts env txdb block.vtx (initialState false block) := by
  obtain ⟨coinbase, others, hchecked⟩ := checkBlock_eq_ok hcheck
  have hpos := hchecked.firstTxPos_lt false
  have hempty : currentIndex txdb (initialState false block).mapQueuedChanges =
      txdb.readTxIndex := currentIndex_empty txdb
  refine ⟨hpos, hchecked.hashes_nodup, fun tx htx => ?_⟩
  rw [hempty]
  intro record hrecord hnone
  obtain ⟨txindex, hindex, rfl⟩ := Option.map_eq_some_iff.mp hrecord
  obtain ⟨spent, hspent, hslot⟩ := mem_map.mp hnone
  have hbip30 := (connectTransactions_run hpos hloop).bip30 tx htx
  rw [checkBIP30Attack, hindex] at hbip30
  have hnull := all_eq_true.mp hbip30 spent hspent
  rw [toSlot] at hslot
  split at hslot
  · rename_i hnull'
    rw [hnull'] at hnull
    cases hnull
  · cases hslot

theorem map_tx_pushTxs (env : ChainEnv) (blockKeyInDB : UInt256) (nTxPos : Nat)
    (vtx : List CTransaction) (chain : List ChainTx) :
    (pushTxs env blockKeyInDB nTxPos vtx chain).map (·.tx) = vtx.reverse ++ chain.map (·.tx) := by
  induction vtx generalizing nTxPos chain with
  | nil => rfl
  | cons tx vtx ih =>
    rw [pushTxs, ih, pushTx, map_cons, map_map, reverse_cons, append_assoc]
    rfl

theorem Reachable.tracks (h : Reachable getHash state) :
    Tracks (toLog getHash state.chain) (toView state.index) ∧
      state.chain.map (·.tx) = state.blocks.flatMap fun block => block.vtx.reverse := by
  induction h with
  | empty => exact ⟨Tracks.nil, rfl⟩
  | @connect state env txdb pindex ancestors block connected _ hhash hindex h ih =>
    obtain ⟨htracks, hchain⟩ := ih
    subst hhash
    rw [← hindex] at htracks
    obtain ⟨final, hfinal, hqueued⟩ := connectBlock_queued h
    dsimp only
    rw [map_tx_pushTxs, hchain, flatMap_cons, hqueued]
    refine ⟨connectTransactions_tracks (starts_of_checkBlock (connectBlock_eq_ok h).1 hfinal) ?_
      hfinal, rfl⟩
    rwa [initialState, currentIndex_empty]
  | @disconnect state txdb pprev block blocks index _ htip h ih =>
    obtain ⟨htracks, hchain⟩ := ih
    rw [htip, flatMap_cons] at hchain
    obtain ⟨disconnected, hdisconnected, h⟩ := bind_eq_ok.mp h
    obtain ⟨_, -, h⟩ := bind_eq_ok.mp h
    cases h
    have htop : (state.chain.take block.vtx.length).map (·.tx) = block.vtx.reverse := by
      rw [map_take, hchain, ← length_reverse, take_left]
    have hsplit : Tracks (toLog getHash (state.chain.take block.vtx.length ++
        state.chain.drop block.vtx.length)) (toView state.index) := by
      rw [take_append_drop]
      exact htracks
    rw [← htop] at hdisconnected
    refine ⟨disconnectTransactions_tracks hsplit hdisconnected, ?_⟩
    dsimp only
    rw [map_drop, hchain, ← length_reverse, drop_left]

theorem spenders_toLog (getHash : CTransaction → UInt256) (coin : COutPoint)
    (chain : List ChainTx) :
    spenders (toCoin coin) (entries (toLog getHash chain)) = spendersOf coin chain := by
  rw [spenders, entries, toLog, map_map, flatMap_map, spendersOf]
  congr 1
  funext chainTx
  have hcoin : ((fun other => other == toCoin coin) ∘ toCoin) = fun other => other == coin := by
    funext other
    rw [comp_apply, Bool.eq_iff_iff, beq_iff_eq, beq_iff_eq]
    exact toCoin_injective.eq_iff
  rw [comp_apply, toMarked, toEntry, filter_map, map_map, hcoin]
  rfl

theorem lifetime_toLog (getHash : CTransaction → UInt256) (hash : UInt256)
    (later : List ChainTx) :
    lifetime hash (entries (toLog getHash later)) =
      entries (toLog getHash (lifetimeOf getHash hash later)) := by
  rw [lifetime, entries, toLog, map_map, ← map_reverse, takeWhile_map,
    ← map_reverse, lifetimeOf, entries, toLog, map_map]
  rfl

theorem lifetimeOf_of_forall {hash : UInt256}
    (h : ∀ marked ∈ toLog getHash later, marked.entry.id ≠ hash) :
    lifetimeOf getHash hash later = later := by
  rw [lifetimeOf, takeWhile_eq_self_iff.mpr, reverse_reverse]
  intro chainTx hmem
  exact decide_eq_true (h _ (mem_map_of_mem (mem_reverse.mp hmem)))

theorem exactEntry_of_slots {index : UInt256 → Option CTxIndex}
    (hview : toView index (getHash chainTx.tx) = some ⟨chainTx.pos, slots⟩)
    (hlength : slots.length = chainTx.tx.vout.length) (hslots : ∀ n, n < chainTx.tx.vout.length → ∃
      slot, slots[n]? = some slot ∧ spendersOf ⟨getHash chainTx.tx, n⟩ later = slot.toList) :
    ∃ txindex, index (getHash chainTx.tx) = some txindex ∧
      ExactEntry getHash chainTx later txindex := by
  obtain ⟨txindex, hindex, hrecord⟩ := Option.map_eq_some_iff.mp hview
  obtain ⟨hpos, rfl⟩ := Record.mk.inj hrecord
  rw [length_map] at hlength
  refine ⟨txindex, hindex, hpos, hlength, fun n hn => ?_⟩
  obtain ⟨slot, hslot, hspenders⟩ := hslots n hn
  rw [List.getElem?_map] at hslot
  obtain ⟨spent, hspent, rfl⟩ := Option.map_eq_some_iff.mp hslot
  refine ⟨spent, hspent, ?_⟩
  rw [hspenders, toSlot]
  cases spent.isNull with
  | true => exact .inl ⟨rfl, rfl⟩
  | false => exact .inr ⟨rfl, rfl⟩

/-- The index is the exact spent map of the connected chain after any sequence of
successful calls. -/
theorem spentMap_of_reachable (getHash : CTransaction → UInt256) (state : IndexState)
    (h : Reachable getHash state) : SpentMap getHash state := by
  obtain ⟨htracks, hchain⟩ := h.tracks
  have hsplit : ∀ {later chainTx earlier}, state.chain = later ++ chainTx :: earlier →
      Tracks (toLog getHash later ++ toMarked getHash chainTx :: toLog getHash earlier)
        (toView state.index) := by
    intro later chainTx earlier heq
    rw [heq, toLog, map_append, map_cons] at htracks
    exact htracks
  have hentry : ∀ {later chainTx earlier}, state.chain = later ++ chainTx :: earlier →
      chainTx.overwritten = false →
      ∃ txindex, state.index (getHash chainTx.tx) = some txindex ∧
        ExactEntry getHash chainTx later txindex := by
    intro later chainTx earlier heq hmark
    obtain ⟨slots, hview, hlength, hslots⟩ := (hsplit heq).exact hmark
    refine exactEntry_of_slots hview hlength fun n hn => ?_
    rw [← spenders_toLog getHash]
    exact hslots n hn
  have hover : ∀ {later chainTx earlier}, state.chain = later ++ chainTx :: earlier →
      chainTx.overwritten = true → ∀ n, n < chainTx.tx.vout.length →
      ∃ pos, spendersOf ⟨getHash chainTx.tx, n⟩
        (lifetimeOf getHash (getHash chainTx.tx) later) = [pos] := by
    intro later chainTx earlier heq hmark n hn
    obtain ⟨pos, hpos⟩ := (hsplit heq).overwritten hmark n hn
    refine ⟨pos, ?_⟩
    rw [← spenders_toLog getHash, ← lifetime_toLog]
    exact hpos
  refine ⟨hchain, fun later chainTx earlier => hentry, fun later chainTx earlier => hover, ?_, ?_⟩
  · intro later chainTx earlier heq coin hcoin
    obtain ⟨created, hcreated, hid, hlt⟩ := (hsplit heq).valid_append.spends_created (toCoin coin)
      (mem_map_of_mem hcoin)
    obtain ⟨marked, hmarked, rfl⟩ := mem_map.mp hcreated
    obtain ⟨source, hsource, rfl⟩ := mem_map.mp hmarked
    exact ⟨source, hsource, hid, hlt⟩
  intro later chainTx earlier heq n hn
  cases hmark : chainTx.overwritten with
  | true =>
    obtain ⟨pos, hpos⟩ := hover heq hmark n hn
    rw [hpos]
    exact Nat.le_refl 1
  | false =>
    have hlifetime : lifetimeOf getHash (getHash chainTx.tx) later = later :=
      lifetimeOf_of_forall ((hsplit heq).not_used_again hmark)
    obtain ⟨txindex, -, -, -, hexact⟩ := hentry heq hmark
    obtain ⟨spent, -, ⟨-, hspenders⟩ | ⟨-, hspenders⟩⟩ := hexact n hn
    · rw [hlifetime, hspenders]
      exact Nat.zero_le 1
    · rw [hlifetime, hspenders]
      exact Nat.le_refl 1

def minerTx (nTime : Nat) : CTransaction :=
  ⟨nTime, [⟨⟨0, 2 ^ 32 - 1⟩, [1, 1]⟩], [⟨2000 * COIN, [0x51]⟩], 0⟩

def firstBlock : CBlock := ⟨6, 0, 10, 20, 0, 0, [minerTx 10], []⟩

def secondBlock : CBlock :=
  ⟨6, 0, 12, 20, 0, 0,
    [minerTx 12, ⟨13, [⟨⟨10, 0⟩, []⟩], [⟨2000 * COIN - MIN_TX_FEE, [0x51]⟩], 0⟩], []⟩

def indexDb (index : UInt256 → Option CTxIndex) : CTxDB where
  readTxIndex := index
  readTx pos := if pos = ⟨200, 81⟩ then some (minerTx 10) else none
  readBlockTime _ := some 20
  writeBlockIndex _ := true
  updateTxIndex _ := true

theorem spentMap_two_blocks :
    ∃ connected disconnected, connected.blocks = [secondBlock, firstBlock] ∧
      disconnected.blocks = [firstBlock] ∧ SpentMap workEnv.getHash connected ∧
      SpentMap workEnv.getHash disconnected := by
  have hfirst := @Reachable.connect workEnv.getHash _ workEnv (indexDb fun _ => none)
    ⟨200, 1, 0, 0⟩ [] firstBlock _ .empty rfl rfl rfl
  have hsecond := @Reachable.connect workEnv.getHash _ workEnv (indexDb _)
    ⟨201, 2, 0, 0⟩ [] secondBlock _ hfirst rfl rfl rfl
  have hthird := @Reachable.disconnect workEnv.getHash _ ⟨fun _ _ => true, fun _ => true⟩ none
    _ _ _ hsecond rfl rfl
  exact ⟨_, _, rfl, rfl, spentMap_of_reachable _ _ hsecond, spentMap_of_reachable _ _ hthird⟩

end Runs

end Bfx.SpentIndex
