import Bfx.MemoTable
import Bfx.SymbolRelease

/-!
The records of token transactions are determined by the transactions: a record is
read from the transaction and the records of the transactions it spends from. The
tables of every history have only such records.
-/

namespace Bfx.RecordConsistency

open BestChain BlockConnection CallOutcome ChainAgreement ChainIndex HexText InputConnection
  MemoTable NodeState SymbolRelease SymbolUniqueness TokenInputs TokenReading TokenScript
  TokenSymbols TokenTransaction TransferConservation TransferInterpreter Transaction List Function

variable {self bfxttx : BFXTTransaction} {script : BFXTScript} {vin : List CTxIn} {pair : InputPair}

section Heights

/-! The height of the node only decides whether blacklisted tokens may be moved. -/

def atHeight (env : NodeEnv) (nBestHeight : Int) : NodeEnv :=
  { env with nBestHeight := nBestHeight }

variable {env : NodeEnv} {nBestHeight : Int} {tx : CTransaction} {vinSize : Nat} {hex : String}
  {burnOutput31 : Bool}

section Transfers

variable (hle : nBestHeight ≤ env.nBestHeight)
include hle

theorem distributeTokens_lower :
    Below (distributeTokens ⟨env, tx, vinSize, hex, burnOutput31⟩ i ti burns fuel j amount state)
      (distributeTokens ⟨atHeight env nBestHeight, tx, vinSize, hex, burnOutput31⟩ i ti burns fuel j
        amount state) := by
  induction fuel generalizing j amount state with
  | zero => exact .rfl
  | succ fuel ih =>
    refine .bind .rfl fun input => .ite .rfl (.bind .rfl fun found => .bind ?_ fun _ => ?_)
    · unfold ensureNotBlacklisted
      split
      · split
        · exact .raise
        rename_i hallowed
        rw [if_neg]
        · exact .rfl
        · exact fun hheight => hallowed (le_trans hheight hle)
      · exact .rfl
    refine .ite (.ite ih ih) (.ite .raise ?_)
    refine .bind .rfl fun token => .bind .rfl fun vout => .bind .rfl fun slots => ?_
    exact .bind .rfl fun input => .ite .rfl ih

theorem runInstructions_lower :
    Below (runInstructions ⟨env, tx, vinSize, hex, burnOutput31⟩ i tis state)
      (runInstructions ⟨atHeight env nBestHeight, tx, vinSize, hex, burnOutput31⟩ i tis state) := by
  induction tis generalizing i state with
  | nil => exact .rfl
  | cons ti tis ih =>
    refine .bind (.ite .raise (.ite .raise (.bind .rfl fun cursor => ?_))) fun next => ?_
    · cases cursor with
      | none => exact .rfl
      | some currentInputIndex => exact .bind (distributeTokens_lower hle) fun _ => .rfl
    cases next with
    | none => exact .rfl
    | some next => exact ih

end Transfers

variable (hle : nBestHeight ≤ env.nBestHeight)
include hle

theorem transferTokens_lower : Below (transferTokens env self script tx inputsTxs burnOutput31)
    (transferTokens (atHeight env nBestHeight) self script tx inputsTxs burnOutput31) := by
  refine .bind .rfl fun _ => .bind .rfl fun _ => ?_
  rw [show loadInputs (atHeight env nBestHeight) = loadInputs env by delta loadInputs; rfl]
  exact .bind .rfl fun slots => .bind (runInstructions_lower hle) fun _ => .rfl

theorem readBFXTDataFromTx_lower : Below (readBFXTDataFromTx env self tx inputsTxs)
    (readBFXTDataFromTx (atHeight env nBestHeight) self tx inputsTxs) := by
  refine .ite .rfl ?_
  have hsame : isTxBFXT (atHeight env nBestHeight) tx = isTxBFXT env tx := rfl
  rw [hsame]
  split
  · exact .rfl
  refine .ite .raise (.bind .rfl fun totalOutput => ?_)
  rw [show readInputs (atHeight env nBestHeight) = readInputs env by delta readInputs; rfl]
  refine .bind .rfl fun inputs => .bind .rfl fun _ => .bind .rfl fun _ => .ite .raise ?_
  refine .bind .rfl fun script => ?_
  unfold executeScript
  split
  · rw [show executeIssuance (atHeight env nBestHeight) = executeIssuance env by
      delta executeIssuance issueOutputs issueInstructions passInputTokens
      rfl]
    exact .rfl
  · exact transferTokens_lower hle
  · exact transferTokens_lower hle
  all_goals exact .rfl

omit hle

end Heights

section Reading

variable {env : NodeEnv} {tx : CTransaction} {inputsTxs : List InputPair} {opReturnArg : String}
  {result : BFXTTransaction}

/-- The input is found, and its output in the transaction and in the record. -/
def OutputFound (env : NodeEnv) (inputsTxs : List InputPair) (txin : CTxIn) : Prop :=
  ∃ input ∈ inputsTxs, env.getHash input.1 = txin.prevout.hash ∧
    txin.prevout.n < input.1.vout.length ∧ txin.prevout.n < input.2.vout.length

theorem transferTokens_found
    (h : transferTokens env self script tx inputsTxs burnOutput31 = .ok result) :
    ∀ txin ∈ tx.vin, ∃ input, getPrevInputIt env tx txin.prevout.hash inputsTxs = .ok input ∧
      txin.prevout.n < input.2.vout.length := by
  simp only [transferTokens, bind_eq_ok] at h
  obtain ⟨_, -, _, -, slots, hslots, -⟩ := h
  exact (loadInputs_eq_ok hslots).2

/-- A token transaction that can be read finds all outputs that it spends. -/
theorem outputFound_of_readBFXTDataFromTx {self : BFXTTransaction}
    (htoken : isTxBFXT env tx = some opReturnArg)
    (h : readBFXTDataFromTx env self tx inputsTxs = .ok result) :
    ∀ txin ∈ tx.vin, OutputFound env inputsTxs txin := by
  rw [readBFXTDataFromTx_of_token _ _ htoken] at h
  obtain ⟨totalOutput, vin, totalInput, script, -, hinputs, -, h⟩ := readTokenScript_eq_ok h
  intro txin htxin
  obtain ⟨input, hinput, hlt⟩ : ∃ input, getPrevInputIt env tx txin.prevout.hash inputsTxs = .ok input ∧
      txin.prevout.n < input.2.vout.length := by
    rcases executeScript_cases h with ⟨_, _, _, -, -, h⟩ | ⟨burn, -, -, h⟩
    · obtain ⟨-, _, _, _, -, -, hpass, -⟩ := executeIssuance_eq_ok h
      exact (passInputTokens_eq_ok hpass).2.2 txin htxin
    · exact transferTokens_found h txin htxin
  obtain ⟨hmem, hhash⟩ := mem_of_getPrevInputIt hinput
  exact ⟨input, hmem, hhash, (readInputs_eq_ok hinputs).2 txin htxin input hinput, hlt⟩

end Reading

section Rule

variable {env : ChainEnv} {known : CTransaction → Prop}
  {bfxtTxs bfxtTxs' : UInt256 → Option BFXTTransaction} {tx : CTransaction} {txin : CTxIn}

/-- An input with the transaction that it spends from, and the record of that. -/
structure PairOf (env : ChainEnv) (known : CTransaction → Prop)
    (bfxtTxs : UInt256 → Option BFXTTransaction) (txin : CTxIn) (pair : InputPair) : Prop where
  known : known pair.1
  hash_eq : env.getHash pair.1 = txin.prevout.hash
  token : (isTxBFXT env.toNodeEnv pair.1).isSome → bfxtTxs (env.getHash pair.1) = some pair.2
  plain : isTxBFXT env.toNodeEnv pair.1 = none →
    pair.2 = readBFXTDataFromTxMinimal env.toNodeEnv emptyBFXTTransaction pair.1

theorem PairOf.mono (h : PairOf env known bfxtTxs txin pair) (hextends : Extends bfxtTxs bfxtTxs') :
    PairOf env known bfxtTxs' txin pair :=
  ⟨h.known, h.hash_eq, fun htoken => hextends _ _ (h.token htoken), h.plain⟩

theorem PairOf.unique (h : PairOf env known bfxtTxs txin pair)
    (h' : PairOf env known bfxtTxs txin pair') (hids : DistinctIds env known) : pair = pair' := by
  have hfirst : pair.1 = pair'.1 :=
    hids _ _ h.known h'.known (h.hash_eq.trans h'.hash_eq.symm)
  refine Prod.ext hfirst ?_
  cases htoken : isTxBFXT env.toNodeEnv pair.1 with
  | none => rw [h.plain htoken, h'.plain (hfirst ▸ htoken), hfirst]
  | some opReturnArg =>
    have hsome : (isTxBFXT env.toNodeEnv pair.1).isSome := by rw [htoken, Option.isSome_some]
    have hrecord := h.token hsome
    rw [hfirst, h'.token (hfirst ▸ hsome)] at hrecord
    exact (Option.some.inj hrecord).symm

/-- The record is read from a token transaction and the records of its inputs. -/
def ReadsTo (env : ChainEnv) (known : CTransaction → Prop)
    (bfxtTxs : UInt256 → Option BFXTTransaction) (tx : CTransaction) (bfxttx : BFXTTransaction) :
    Prop :=
  (isTxBFXT env.toNodeEnv tx).isSome ∧ ∃ inputsTxs nBestHeight,
    List.Forall₂ (PairOf env known bfxtTxs) tx.vin inputsTxs ∧
    readBFXTDataFromTx (atHeight env.toNodeEnv nBestHeight) emptyBFXTTransaction tx inputsTxs =
      .ok bfxttx

theorem ReadsTo.mono (h : ReadsTo env known bfxtTxs tx bfxttx)
    (hextends : Extends bfxtTxs bfxtTxs') :
    ReadsTo env known bfxtTxs' tx bfxttx := by
  obtain ⟨htoken, inputsTxs, nBestHeight, hpairs, hread⟩ := h
  exact ⟨htoken, inputsTxs, nBestHeight, hpairs.imp fun _ _ hpair => hpair.mono hextends, hread⟩

theorem ReadsTo.unique (h : ReadsTo env known bfxtTxs tx bfxttx)
    (h' : ReadsTo env known bfxtTxs tx bfxttx') (hids : DistinctIds env known) :
    bfxttx = bfxttx' := by
  obtain ⟨-, inputsTxs, nBestHeight, hpairs, hread⟩ := h
  obtain ⟨-, inputsTxs', nBestHeight', hpairs', hread'⟩ := h'
  obtain rfl := Relator.RightUnique.forall₂ (fun _ _ _ h h' => h.unique h' hids) hpairs hpairs'
  have hlow := @readBFXTDataFromTx_lower _ (atHeight env.toNodeEnv nBestHeight) _ _
    (min_le_left nBestHeight nBestHeight') _ _ hread
  have hlow' := @readBFXTDataFromTx_lower _ (atHeight env.toNodeEnv nBestHeight') _ _
    (min_le_right nBestHeight nBestHeight') _ _ hread'
  exact Except.ok.inj (hlow.symm.trans hlow')

def recordRule (env : ChainEnv) (known : CTransaction → Prop) (hids : DistinctIds env known) :
    Rule UInt256 BFXTTransaction where
  makes bfxtTxs hash bfxttx :=
    ∃ tx, known tx ∧ env.getHash tx = hash ∧ ReadsTo env known bfxtTxs tx bfxttx
  mono := by
    rintro bfxtTxs bfxtTxs' hash bfxttx hextends ⟨tx, htx, hhash, hreads⟩
    exact ⟨tx, htx, hhash, hreads.mono hextends⟩
  unique := by
    rintro bfxtTxs hash bfxttx bfxttx' ⟨tx, htx, hhash, hreads⟩ ⟨tx', htx', hhash', hreads'⟩
    obtain rfl := hids tx tx' htx htx' (hhash.trans hhash'.symm)
    exact hreads.unique hreads' hids

section Environments

variable {env' : ChainEnv}

theorem PairOf.congr (h : PairOf env known bfxtTxs txin pair)
    (hnode : ∀ n, atHeight env.toNodeEnv n = atHeight env'.toNodeEnv n) :
    PairOf env' known bfxtTxs txin pair := by
  have hhash : ∀ tx, env.getHash tx = env'.getHash tx :=
    fun tx => congrArg (fun node => node.getHash tx) (hnode 0)
  have htoken : ∀ tx, isTxBFXT env.toNodeEnv tx = isTxBFXT env'.toNodeEnv tx := by
    intro tx
    show isTxBFXT (atHeight env.toNodeEnv 0) tx = isTxBFXT (atHeight env'.toNodeEnv 0) tx
    rw [hnode]
  refine ⟨h.known, (hhash _).symm.trans h.hash_eq, fun hsome => ?_, fun hplain => ?_⟩
  · rw [← htoken] at hsome
    rw [← hhash]
    exact h.token hsome
  rw [← htoken] at hplain
  rw [h.plain hplain]
  show readBFXTDataFromTxMinimal (atHeight env.toNodeEnv 0) _ _ =
    readBFXTDataFromTxMinimal (atHeight env'.toNodeEnv 0) _ _
  rw [hnode]

theorem consistent_congr {hids : DistinctIds env known} {hids' : DistinctIds env' known}
    (h : (recordRule env known hids).Consistent bfxtTxs)
    (hnode : ∀ n, atHeight env.toNodeEnv n = atHeight env'.toNodeEnv n) :
    (recordRule env' known hids').Consistent bfxtTxs := by
  intro hash bfxttx hrecord
  obtain ⟨tx, htx, hhash, htoken, inputsTxs, nBestHeight, hpairs, hread⟩ := h hash bfxttx hrecord
  refine ⟨tx, htx, ?_, ?_, inputsTxs, nBestHeight, ?_, ?_⟩
  · exact (congrArg (fun node => node.getHash tx) (hnode 0)).symm.trans hhash
  · exact (congrArg (fun node => (isTxBFXT node tx).isSome) (hnode 0)).symm.trans htoken
  · exact hpairs.imp fun _ _ hpair => hpair.congr hnode
  · rw [← hnode]
    exact hread

end Environments

end Rule

section Inputs

variable {env : ChainEnv} {known : CTransaction → Prop} {txdb : CTxDB}
  {bfxtTxs : UInt256 → Option BFXTTransaction}
  {mapQueuedBFXTInputs : UInt256 → Option (List InputPair)}
  {queuedAcceptedTxs : UInt256 → Option CTxIndex} {tx : CTransaction}

/-- What is read at an entry of the index is the transaction with the id. -/
def ReadsById (env : ChainEnv) (known : CTransaction → Prop) (txdb : CTxDB)
    (index : UInt256 → Option CTxIndex) : Prop :=
  ∀ hash txindex txPrev, index hash = some txindex →
    readPrev env txdb hash txindex.pos = some txPrev → known txPrev ∧ env.getHash txPrev = hash

/-- An entry of the map is from the index, or was made for an input that is not
found. -/
def FetchedOrNull (env : ChainEnv) (txdb : CTxDB) (queuedAcceptedTxs : UInt256 → Option CTxIndex)
    (mapInputs : MapPrevTx) : Prop :=
  ∀ hash txindex txPrev, mapInputs hash = some (txindex, txPrev) →
    (currentIndex txdb queuedAcceptedTxs hash = some txindex ∧
      readPrev env txdb hash txindex.pos = some txPrev) ∨ txPrev = nullTransaction env

theorem fetchedOrNull_of_fetched (h : Fetched env txdb queue mapInputs) :
    FetchedOrNull env txdb queue mapInputs :=
  fun hash txindex txPrev hentry => .inl (h hash txindex txPrev hentry)

theorem fetchedOrNull_fetchedUntilFailure (h : Fetched env txdb queue inputsRet) :
    FetchedOrNull env txdb queue
      (fetchedUntilFailure env txdb queue tx vin inputsRet) := by
  induction vin generalizing inputsRet with
  | nil => exact fetchedOrNull_of_fetched h
  | cons txin vin ih =>
    rw [fetchedUntilFailure]
    split
    · rename_i next hnext
      have hone : fetchEach env txdb queue true false tx [txin] inputsRet = .ok next :=
        bind_eq_ok.mpr ⟨next, hnext, rfl⟩
      exact ih (fetchEach_fetched h hone)
    intro hash txindex txPrev hentry
    rcases eq_or_ne hash txin.prevout.hash with rfl | hne
    · rw [update_self] at hentry
      exact .inr (Prod.mk.inj (Option.some.inj hentry)).2.symm
    · rw [update_of_ne hne] at hentry
      exact .inl (h hash txindex txPrev hentry)

theorem fetchedOrNull_of_fetchInputsForTokens
    (h : fetchInputsForTokens env txdb queue tx = .ok mapInputs) :
    FetchedOrNull env txdb queue mapInputs := by
  have hempty : Fetched env txdb queue fun _ => none :=
    fun hash txindex txPrev hentry => nomatch hentry
  rw [fetchInputsForTokens] at h
  split at h
  · cases h
    exact fetchedOrNull_of_fetched hempty
  split at h
  · cases h
    exact fetchedOrNull_fetchedUntilFailure hempty
  rename_i hfetch
  split at h
  · cases h
  · cases h
    exact fetchedOrNull_of_fetched (fetchEach_fetched hempty hfetch)

def inputsOfQueued (env : ChainEnv) (txdb : CTxDB) (bfxtTxs : UInt256 → Option BFXTTransaction)
    (mapQueuedBFXTInputs : UInt256 → Option (List InputPair))
    (queuedAcceptedTxs : UInt256 → Option CTxIndex) (left : Nat) (parent : CTransaction) :
    Outcome (List InputPair) :=
  fetchInputsForTokens env txdb queuedAcceptedTxs parent >>= fun mapInputs =>
    stdFetchedInputTxsToBFXT env txdb bfxtTxs mapQueuedBFXTInputs queuedAcceptedTxs left parent
      mapInputs

def pairOf (env : ChainEnv) (txdb : CTxDB) (bfxtTxs : UInt256 → Option BFXTTransaction)
    (mapQueuedBFXTInputs : UInt256 → Option (List InputPair))
    (queuedAcceptedTxs : UInt256 → Option CTxIndex) (txPrev : CTransaction) : Outcome InputPair :=
  tokenData env bfxtTxs queuedAcceptedTxs
    (inputsOfQueued env txdb bfxtTxs mapQueuedBFXTInputs queuedAcceptedTxs 31)
    (txPrev, readBFXTDataFromTxMinimal env.toNodeEnv emptyBFXTTransaction txPrev)

/-- The inputs of a token transaction that can be read are the transactions that it
spends from, with records that have the outputs. -/
theorem inputs_of_readBFXTDataFromTx (hreads : ReadsById env known txdb (currentIndex txdb queue))
    (hqueued : mapQueuedBFXTInputs (env.getHash tx) = none)
    (htoken : isTxBFXT env.toNodeEnv tx = some opReturnArg) (h : getAllBFXTInputsOfTx env txdb
      bfxtTxs mapQueuedBFXTInputs queue tx = .ok inputsTxs) (hread : readBFXTDataFromTx
      (atHeight env.toNodeEnv nBestHeight) self tx inputsTxs = .ok bfxttx) :
    List.Forall₂ (fun txin pair => known pair.1 ∧ env.getHash pair.1 = txin.prevout.hash ∧
      pairOf env txdb bfxtTxs mapQueuedBFXTInputs queue pair.1 = .ok pair ∧
      txin.prevout.n < pair.2.vout.length) tx.vin inputsTxs := by
  obtain ⟨mapInputs, hfetch, h⟩ := bind_eq_ok.mp h
  have hentries := fetchedOrNull_of_fetchInputsForTokens hfetch
  rw [maxRecursion, stdFetchedInputTxsToBFXT] at h
  obtain ⟨pairs, hpairs, h⟩ := bind_eq_ok.mp h
  rw [hqueued] at h
  replace hpairs : List.Forall₂ (fun txin pair => ∃ txindex txPrev,
      mapInputs txin.prevout.hash = some (txindex, txPrev) ∧
      pairOf env txdb bfxtTxs mapQueuedBFXTInputs queue txPrev = .ok pair) tx.vin inputsTxs := by
    refine (forall₂_iff_of_steps (P := fun _ => True) (mapM_eq_ok.mp hpairs) (mapM_eq_ok.mp h)
      fun txin _ pair input hpair hinput => iff_of_true ?_ trivial).mpr fun _ _ => trivial
    rw [inputPair] at hpair
    split at hpair
    · cases hpair
    rename_i txindex txPrev hentry
    cases hpair
    exact ⟨txindex, txPrev, hentry, hinput⟩
  have hfound := @outputFound_of_readBFXTDataFromTx (atHeight env.toNodeEnv nBestHeight) _ _ _ _ _
    htoken hread
  refine forall₂_of_mem hpairs ?_
  rintro txin htxin pair ⟨txindex, txPrev, hentry, hpair⟩
  -- the input that is found for it has an output, so it has been fetched
  obtain ⟨input, hmem, hhash, hlt, hlt'⟩ := hfound txin htxin
  obtain ⟨txin', -, txindex', txPrev', hentry', hinput⟩ := exists_of_forall₂ hpairs.flip hmem
  rw [(tokenData_eq_ok (length_map _) hinput).1] at hhash hlt
  rcases hentries _ _ _ hentry' with ⟨hindex, hprev⟩ | rfl
  · obtain ⟨hknown, hid⟩ := hreads _ _ _ hindex hprev
    have hsame : txin'.prevout.hash = txin.prevout.hash := hid.symm.trans hhash
    rw [hsame] at hentry'
    obtain ⟨-, rfl⟩ := Prod.mk.inj (Option.mem_unique hentry hentry')
    obtain rfl := Except.ok.inj (hpair.symm.trans hinput)
    rw [(tokenData_eq_ok (length_map _) hpair).1]
    exact ⟨hknown, hhash, hpair, hlt'⟩
  · exact absurd hlt (Nat.not_lt_zero _)

theorem pairOf_cases (h : pairOf env txdb bfxtTxs mapQueuedBFXTInputs queue txPrev = .ok pair)
    (hlt : n < pair.2.vout.length) :
    (isTxBFXT env.toNodeEnv txPrev = none ∧
        pair.2 = readBFXTDataFromTxMinimal env.toNodeEnv emptyBFXTTransaction txPrev) ∨
      ((isTxBFXT env.toNodeEnv txPrev).isSome ∧ bfxtTxs (env.getHash txPrev) = some pair.2) ∨
      ((isTxBFXT env.toNodeEnv txPrev).isSome ∧ bfxtTxs (env.getHash txPrev) = none ∧
        ∃ inputsOfInput, inputsOfQueued env txdb bfxtTxs mapQueuedBFXTInputs queue 31
            txPrev = .ok inputsOfInput ∧
          readBFXTDataFromTx env.toNodeEnv emptyBFXTTransaction txPrev inputsOfInput =
            .ok pair.2 ∧ (queue (env.getHash txPrev)).isSome) := by
  rw [pairOf, tokenData] at h
  split at h
  · rename_i htoken
    dsimp only at htoken h
    cases hrecord : bfxtTxs (env.getHash txPrev) with
    | some bfxttx =>
      rw [hrecord, Option.isSome_some, if_pos rfl, fetchBFXTTxFromDisk, hrecord] at h
      cases h
      exact .inr (.inl ⟨htoken, rfl⟩)
    | none =>
      rw [hrecord, Option.isSome_none, if_neg Bool.false_ne_true] at h
      split at h
      · rename_i hqueued
        obtain ⟨inputsOfInput, hinputs, h⟩ := bind_eq_ok.mp h
        obtain ⟨bfxttx, hread, h⟩ := bind_eq_ok.mp h
        cases h
        obtain ⟨opReturnArg, hscript⟩ := Option.isSome_iff_exists.mp htoken
        refine .inr (.inr ⟨htoken, rfl, inputsOfInput, hinputs, ?_, hqueued⟩)
        rw [readBFXTDataFromTx_of_token _ _ hscript] at hread ⊢
        exact hread
      -- the record has been cleared
      rw [fetchBFXTTxFromDisk, hrecord] at h
      cases h
      exact absurd hlt (Nat.not_lt_zero _)
  rename_i htoken
  cases h
  exact .inl ⟨Option.not_isSome_iff_eq_none.mp htoken, rfl⟩

end Inputs

section Writing

variable {env : ChainEnv} {known : CTransaction → Prop} {txdb : NodeDb TokenTables}
  {tx : CTransaction}

theorem bfxtTxs_writeBFXTTxToDbAndDisk {env : NodeEnv}
    (htype : bfxttx.bfxtTransactionType ≠ .unknown) :
    (writeBFXTTxToDbAndDisk env bfxttx tables).2.bfxtTxs =
      update tables.bfxtTxs bfxttx.txHash (some bfxttx) := by
  rw [writeBFXTTxToDbAndDisk, if_neg htype]
  dsimp only
  split
  · split
    · rfl
    split
    · rfl
    split
    · rfl
    split
    · rfl
    split
    · rfl
    · rename_i hwritten
      exact (writeBFXTTxWithTokenSymbol_eq_some hwritten).1
  · rfl

variable (hreads : ReadsById env known (toReader env txdb) txdb.txIndex)
include hreads

theorem readsTo_of_getAllBFXTInputsOfTx (htoken : (isTxBFXT env.toNodeEnv tx).isSome) (hinputs :
      getAllBFXTInputsOfTx env (toReader env txdb) bfxtTxs (fun _ => none) (fun _ => none) tx = .ok
      inputsTxs)
    (hread : readBFXTDataFromTx env.toNodeEnv emptyBFXTTransaction tx inputsTxs = .ok bfxttx) :
    ReadsTo env known bfxtTxs tx bfxttx := by
  obtain ⟨opReturnArg, hscript⟩ := Option.isSome_iff_exists.mp htoken
  refine ⟨htoken, inputsTxs, env.nBestHeight, ?_, hread⟩
  refine (inputs_of_readBFXTDataFromTx hreads rfl hscript hinputs hread).imp ?_
  rintro txin pair ⟨hknown, hhash, hpair, hlt⟩
  rcases pairOf_cases hpair hlt with ⟨hplain, hminimal⟩ | ⟨htoken, hrecord⟩ |
    ⟨-, -, -, -, -, hqueued⟩
  · refine ⟨hknown, hhash, fun htoken => ?_, fun _ => hminimal⟩
    rw [hplain] at htoken
    cases htoken
  · refine ⟨hknown, hhash, fun _ => hrecord, fun hplain => ?_⟩
    rw [hplain] at htoken
    cases htoken
  · cases hqueued

/-- The records stay consistent also if the call throws. -/
theorem consistent_writeBFXTTxToDiskFromRawTx (htx : known tx)
    (h : (recordRule env known hids).Consistent tables.bfxtTxs) :
    (recordRule env known hids).Consistent
      (writeBFXTTxToDiskFromRawTx env txdb tx tables).2.bfxtTxs := by
  rw [writeBFXTTxToDiskFromRawTx]
  split
  · rename_i hwrites
    split
    · exact h
    rename_i bfxttx hread
    obtain ⟨inputsTxs, hinputs, hread⟩ := bind_eq_ok.mp hread
    obtain ⟨opReturnArg, htoken⟩ := Option.isSome_iff_exists.mp hwrites.2
    have hfrom := readFrom_of_readBFXTDataFromTx htoken hread
    rw [bfxtTxs_writeBFXTTxToDbAndDisk hfrom.type_ne, hfrom.txHash_eq]
    exact h.update
      ⟨tx, htx, rfl, readsTo_of_getAllBFXTInputsOfTx hreads hwrites.2 hinputs hread⟩
  · exact h

end Writing

section Histories

variable {env : ChainEnv} {state next : State TokenTables}

theorem le_of_txAt (h : txAt env nTxPos pos vtx = some tx) : pos ≤ nTxPos := by
  induction vtx generalizing pos with
  | nil => cases h
  | cons first vtx ih =>
    rw [txAt] at h
    split at h
    · rename_i heq
      exact Nat.le_of_eq heq
    · exact le_trans (Nat.le_add_right _ _) (ih h)

/-- The mark for the memory pool is not the position of a stored transaction. -/
theorem readPrev_of_readTx (h : readTx env txdb pos = some tx) (hash : UInt256) :
    readPrev env (toReader env txdb) hash pos = some tx := by
  obtain ⟨block, -, hat⟩ := Option.bind_eq_some_iff.mp h
  have hle := le_of_txAt hat
  rw [firstTxPos, if_neg Bool.false_ne_true, headerSize] at hle
  rw [readPrev, if_neg]
  · exact h
  rintro rfl
  dsimp only at hle
  omega

theorem readsById_of_indexed (h : Indexed env known txdb) :
    ReadsById env known (toReader env txdb) txdb.txIndex := by
  intro hash txindex txPrev hindex hprev
  obtain ⟨tx, htx, hhash, hread⟩ :=
    h hash txindex.pos (Option.map_eq_some_iff.mpr ⟨txindex, hindex, rfl⟩)
  rw [readPrev_of_readTx hread] at hprev
  rw [← Option.some.inj hprev]
  exact ⟨htx, hhash⟩

theorem consistent_connect (h : (recordRule env known hids).Consistent state.txdb.tokens.bfxtTxs)
    (hnext : Indexed env known next.txdb) (henv : ∃ getAdjustedTime nBestHeight mempoolLookup, s.env
      = atMoment env getAdjustedTime nBestHeight mempoolLookup) (hlayer : s.tokens = tokenLayer)
    (hknown : ∀ tx ∈ block.vtx, known tx)
    (hcall : connectOrLeave s entry pprev block state = (.ok (), next)) :
    (recordRule env known hids).Consistent next.txdb.tokens.bfxtTxs := by
  obtain ⟨getAdjustedTime, nBestHeight, mempoolLookup, henv⟩ := henv
  have hblocks := (connectOrLeave_eq_ok hcall).1.blocks_eq
  have hindexed : Indexed (connectEnv s state entry.hashBlock) known
      { state.txdb with txIndex := next.txdb.txIndex } := by
    intro hash pos hpos
    obtain ⟨tx, htx, hhash, hread⟩ := hnext hash pos hpos
    rw [readTx, hblocks] at hread
    refine ⟨tx, htx, ?_, ?_⟩
    · rw [connectEnv, henv]
      exact hhash
    rw [@readTx_congr _ env (connectEnv s state entry.hashBlock)]
    · exact hread
    · rw [connectEnv, henv]
      rfl
  have hids' : DistinctIds (connectEnv s state entry.hashBlock) known := by
    rw [connectEnv, henv]
    exact hids
  have hnode : ∀ n, atHeight env.toNodeEnv n =
      atHeight (connectEnv s state entry.hashBlock).toNodeEnv n := by
    intro n
    rw [connectEnv, henv]
    rfl
  rw [connectOrLeave_tables hlayer hcall]
  refine @consistent_congr _ _ _ _ hids' _ ?_ fun n => (hnode n).symm
  exact writeBFXTBlockTransactionsToDisk_keeps
    (P := fun tables => (recordRule _ known hids').Consistent tables.bfxtTxs)
    (fun tx htx _ => consistent_writeBFXTTxToDiskFromRawTx (readsById_of_indexed hindexed)
      (hknown tx htx)) (consistent_congr h hnode)

/-- The records of every history are determined by the transactions. -/
theorem History.consistent (hrun : History env known state)
    (hsize : ∀ tx, 0 < env.getSerializeSize tx) (hids : DistinctIds env known) :
    (recordRule env known hids).Consistent state.committed.tokens.bfxtTxs ∧
      (recordRule env known hids).Consistent state.txdb.tokens.bfxtTxs := by
  induction hrun with
  | @start state hindexed htokens htxdb =>
    rw [htxdb, htokens]
    exact ⟨Rule.consistent_empty _, Rule.consistent_empty _⟩
  | memory _ _ ih => exact ih
  | store _ hstores ih =>
    refine ⟨ih.1, ?_⟩
    dsimp only
    rw [hstores.tokens_eq]
    exact ih.2
  | connect hrun henv hlayer hread hknown hcall ih =>
    have hnext := (hrun.connect henv hlayer hread hknown hcall).sound hsize hids
    refine ⟨?_, consistent_connect ih.2 hnext.2.indexed henv hlayer hknown hcall⟩
    rw [(connectOrLeave_eq_ok hcall).1.committed_eq]
    exact ih.1
  | disconnect _ hcall ih =>
    obtain ⟨hmoved, htokens, -⟩ := disconnectOrLeave_eq_ok hcall
    rw [hmoved.committed_eq, htokens]
    exact ih
  | commit _ ih => exact ⟨ih.2, ih.2⟩
  | abort _ ih => exact ⟨ih.1, ih.1⟩

end Histories

end Bfx.RecordConsistency
