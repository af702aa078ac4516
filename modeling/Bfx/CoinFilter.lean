import Bfx.TokenAgreement
import Bfx.WalletSpent

/-!
The outputs that the wallet offers for plain payments and for staking. The tokens of
an output are read again before it is offered, and an exception of that reading is
caught.
-/

namespace Bfx.CoinFilter

open BestChain CallOutcome ChainIndex InputConnection MemoTable NodeState RecordConsistency
  SymbolRelease SymbolUniqueness TokenAgreement TokenInputs TokenReading TokenSymbols
  TokenTransaction TransferInterpreter Transaction WalletSpent List

section Model

variable (env : ChainEnv) (txdb : NodeDb TokenTables)

def getTxOut (bfxttx : BFXTTransaction) (i : Nat) : Outcome BFXTTxOut := index .vout bfxttx.vout i

/-- The token data of a wallet transaction, from the index and the records only. -/
def readAgain (tx : CTransaction) : Outcome BFXTTransaction :=
  getAllBFXTInputsOfTx env (toReader env txdb) txdb.tokens.bfxtTxs (fun _ => none) (fun _ => none)
    tx >>= readBFXTDataFromTx env.toNodeEnv emptyBFXTTransaction tx

def skipsOutput (tx : CTransaction) (i : Nat) : Outcome Bool :=
  if (isTxBFXT env.toNodeEnv tx).isSome then
    match readAgain env txdb tx >>= (getTxOut · i) with
    | .ok txout => .ok (0 < txout.tokens.length)
    | .error (.thrown _) => .ok false
    | .error fault => .error fault
  else .ok false

/-- An output, with what the wallet finds out about its transaction. -/
structure COutput where
  wtx : CWalletTx
  i : Nat
  nDepth : Int
  isFromMe : Bool
  blocksToMaturity : Int

def COutput.nValue (coin : COutput) : Int := ((coin.wtx.tx.vout[coin.i]?).map (·.nValue)).getD 0

/-- The arguments of the two functions, and the wallet. -/
structure Request where
  ctx : WalletContext
  nSpendTime : Nat
  nConfMine : Int
  nConfTheirs : Int

/-- The other tests in the loop of `SelectCoinsMinConf`. -/
def passesForPayment (request : Request) (coin : COutput) : Bool :=
  ¬ coin.nDepth < (if coin.isFromMe then request.nConfMine else request.nConfTheirs) ∧
    ¬ request.nSpendTime < coin.wtx.tx.nTime ∧ ¬ coin.nValue ≤ MIN_TX_FEE

/-- The other tests in the loops of `AvailableCoinsForStaking`. -/
def passesForStaking (request : Request) (coin : COutput) : Bool :=
  ¬ request.nSpendTime < (coin.wtx.tx.nTime + (stakeMinAge env).toNat) % 2 ^ 32 ∧
    ¬ 0 < coin.blocksToMaturity ∧ ¬ coin.nDepth < 1 ∧ ¬ coin.wtx.spentFlag coin.i ∧
    ownsOutput request.ctx coin.wtx.tx coin.i ∧ request.ctx.nMinimumInputValue ≤ coin.nValue

def Passes (request : Request) (coin : COutput) : Prop :=
  passesForPayment request coin ∨ passesForStaking env request coin

/-- After an access out of bounds nothing is known of the output. -/
def Offers (request : Request) (coin : COutput) : Prop :=
  Passes env request coin ∧ skipsOutput env txdb coin.wtx.tx coin.i ≠ .ok true

end Model

section Tokens

variable {env : ChainEnv} {known : CTransaction → Prop} {txdb : NodeDb TokenTables}
  {truth : UInt256 → Option BFXTTransaction} {tx : CTransaction}

/-- A table of records that goes on from the database: also those of transactions that
are not confirmed. -/
structure TrueRecords (env : ChainEnv) (known : CTransaction → Prop) (hids : DistinctIds env known)
    (txdb : NodeDb TokenTables) (truth : UInt256 → Option BFXTTransaction) : Prop where
  consistent : (recordRule env known hids).Consistent truth
  from_db : Extends txdb.tokens.bfxtTxs truth

/-- The output carries tokens by the true records of the transactions that are spent. -/
def CarriesTokens (env : ChainEnv) (known : CTransaction → Prop)
    (truth : UInt256 → Option BFXTTransaction) (tx : CTransaction) (i : Nat) : Prop :=
  (isTxBFXT env.toNodeEnv tx).isSome ∧ ∃ parents txout,
    List.Forall₂ (PairOf env known truth) tx.vin parents ∧
    readBFXTDataFromTx env.toNodeEnv emptyBFXTTransaction tx parents >>= (getTxOut · i) =
      .ok txout ∧ 0 < txout.tokens.length

/-- The transactions that are spent are in the index, and those with tokens have a
record. -/
def ParentsStored (env : ChainEnv) (txdb : NodeDb TokenTables) (tx : CTransaction) : Prop :=
  Readable env (toReader env txdb) txdb.txIndex tx ∧
    ∀ txin ∈ tx.vin, ∀ txindex txPrev, txdb.txIndex txin.prevout.hash = some txindex →
      readPrev env (toReader env txdb) txin.prevout.hash txindex.pos = some txPrev →
      (isTxBFXT env.toNodeEnv txPrev).isSome →
        (txdb.tokens.bfxtTxs txin.prevout.hash).isSome

theorem skipsOutput_eq_true (htoken : (isTxBFXT env.toNodeEnv tx).isSome) :
    skipsOutput env txdb tx i = .ok true ↔
      ∃ txout, readAgain env txdb tx >>= (getTxOut · i) = .ok txout ∧ 0 < txout.tokens.length := by
  rw [skipsOutput, if_pos htoken]
  constructor
  · intro h
    split at h
    · rename_i txout hread
      exact ⟨txout, hread, of_decide_eq_true (Except.ok.inj h)⟩
    · cases h
    · cases h
  rintro ⟨txout, hread, hpos⟩
  rw [hread]
  exact congrArg Except.ok (decide_eq_true hpos)

/-- A transaction that is read from the index and its id. -/
def IndexedTx (env : ChainEnv) (txdb : NodeDb TokenTables) (tx : CTransaction) : Prop :=
  ∃ txindex, txdb.txIndex (env.getHash tx) = some txindex ∧
    readPrev env (toReader env txdb) (env.getHash tx) txindex.pos = some tx

variable (hreads : ReadsById env known (toReader env txdb) txdb.txIndex)
  (hspends : isCoinBase tx = false)
include hreads hspends

/-- What is read again has been found in the database. -/
theorem parentsStored_of_readAgain (htoken : (isTxBFXT env.toNodeEnv tx).isSome)
    (h : readAgain env txdb tx = .ok bfxttx) : ParentsStored env txdb tx := by
  obtain ⟨inputsTxs, hinputs, hread⟩ := bind_eq_ok.mp h
  have hstored : ReadsById env (IndexedTx env txdb) (toReader env txdb) txdb.txIndex := by
    intro hash txindex txPrev hindex hprev
    obtain ⟨-, rfl⟩ := hreads hash txindex txPrev hindex hprev
    exact ⟨⟨txindex, hindex, hprev⟩, rfl⟩
  obtain ⟨-, pairs, -, hpairs, -⟩ := readsTo_of_getAllBFXTInputsOfTx hstored htoken hinputs hread
  obtain ⟨mapInputs, hfetch, -⟩ := bind_eq_ok.mp hinputs
  obtain ⟨inputs, heach, -, -⟩ := @exists_fetchEach env (toReader env txdb) tx tx.vin
    (fun _ => none) (fun _ => none) fun txin htxin => by
      obtain ⟨pair, -, ⟨txindex, hindex, hprev⟩, hhash, -, -⟩ := exists_of_forall₂ hpairs htxin
      rw [hhash] at hindex hprev
      exact ⟨txindex, pair.1, hindex, hprev⟩
  rw [fetchInputsForTokens, if_neg (by simp [hspends]), heach] at hfetch
  dsimp only at hfetch
  split at hfetch
  · cases hfetch
  rename_i hensure
  refine ⟨@readable_of_fetchInputs env (toReader env txdb) tx inputs (fun _ => none) hspends ?_, ?_⟩
  · rw [fetchInputs, if_neg (by simp [hspends]), heach, ok_bind, hensure, ok_bind]
  intro txin htxin txindex txPrev hindex hprev hsome
  obtain ⟨pair, -, ⟨txindex', hindex', hprev'⟩, hhash, hrecord, -⟩ :=
    exists_of_forall₂ hpairs htxin
  rw [hhash] at hindex' hprev'
  obtain rfl := Option.mem_unique hindex hindex'
  obtain rfl := Option.mem_unique hprev hprev'
  rw [← hhash, hrecord hsome, Option.isSome_some]

theorem readAgain_of_parentsStored (hids : DistinctIds env known)
    (hextends : Extends txdb.tokens.bfxtTxs truth)
    (hpairs : List.Forall₂ (PairOf env known truth) tx.vin parents)
    (h : ParentsStored env txdb tx) :
    readAgain env txdb tx = readBFXTDataFromTx env.toNodeEnv emptyBFXTTransaction tx parents := by
  have hstored : List.Forall₂ (PairOf env known txdb.tokens.bfxtTxs) tx.vin parents := by
    refine forall₂_of_mem hpairs fun txin htxin pair hpair => { hpair with token := fun hsome => ?_ }
    obtain ⟨txindex, txPrev, hindex, hprev, -⟩ := h.1 txin htxin
    obtain ⟨hknown, hhash⟩ := hreads _ _ _ hindex hprev
    obtain rfl := hids _ _ hpair.known hknown (hpair.hash_eq.trans hhash.symm)
    obtain ⟨bfxttx, hrecord⟩ := Option.isSome_iff_exists.mp (h.2 txin htxin _ _ hindex hprev hsome)
    rw [← hhash] at hrecord
    have htrue := hpair.token hsome
    rw [hextends _ _ hrecord] at htrue
    rw [hrecord, htrue]
  rw [readAgain, getAllBFXTInputsOfTx_of_pairs hspends hids hreads h.1 hstored, ok_bind]

omit hreads hspends

variable {state : State TokenTables} {hids : DistinctIds env known}

/-- No output with tokens is offered exactly if what it spends is stored. -/
theorem offers_no_tokens_iff (hrun : History env known state)
    (hsize : ∀ tx, 0 < env.getSerializeSize tx) (hzero : ∀ tx, known tx → env.getHash tx ≠ 0)
    (hrecords : TrueRecords env known hids state.txdb truth) (request : Request) (coin : COutput) :
    (Offers env state.txdb request coin →
        ¬ CarriesTokens env known truth coin.wtx.tx coin.i) ↔
      (Passes env request coin → CarriesTokens env known truth coin.wtx.tx coin.i →
        ParentsStored env state.txdb coin.wtx.tx) := by
  have hreads := readsById_of_indexed (hrun.sound hsize hids).2.indexed
  have hspends : CarriesTokens env known truth coin.wtx.tx coin.i →
      isCoinBase coin.wtx.tx = false := by
    rintro ⟨-, parents, -, hpairs, -⟩
    rcases hvin : coin.wtx.tx.vin with _ | ⟨txin, _ | ⟨_, _⟩⟩
    · rw [isCoinBase, hvin]
    · rw [hvin] at hpairs
      obtain ⟨pair, -, hpair, -, -⟩ := forall₂_cons_left_iff.mp hpairs
      have hne := hzero _ hpair.known
      rw [hpair.hash_eq] at hne
      have hnull : txin.prevout.isNull = false := Bool.and_eq_false_iff.mpr (.inl (beq_false_of_ne hne))
      rw [isCoinBase, hvin]
      exact Bool.and_eq_false_iff.mpr (.inl hnull)
    · rw [isCoinBase, hvin]
  constructor
  · intro hsafe hpass hcarries
    have hskips : skipsOutput env state.txdb coin.wtx.tx coin.i = .ok true :=
      by_contra fun hkeeps => hsafe ⟨hpass, hkeeps⟩ hcarries
    obtain ⟨txout, hread, -⟩ := (skipsOutput_eq_true hcarries.1).mp hskips
    obtain ⟨bfxttx, hread, -⟩ := bind_eq_ok.mp hread
    exact parentsStored_of_readAgain hreads (hspends hcarries) hcarries.1 hread
  rintro hstored ⟨hpass, hkeeps⟩ hcarries
  obtain ⟨htoken, parents, txout, hpairs, hread⟩ := id hcarries
  refine hkeeps ((skipsOutput_eq_true htoken).mpr ⟨txout, ?_⟩)
  rwa [readAgain_of_parentsStored hreads (hspends hcarries) hids hrecords.from_db hpairs
    (hstored hpass hcarries)]

end Tokens

section Example

/-! An issuance that is not confirmed, and a transfer of its tokens. -/

def sampleRequest : Request := ⟨ownContext, 1000, 0, 1⟩

def issueCoin : COutput :=
  ⟨newWalletTx ⟨issueTx 1, COIN, by decide⟩ none, 1, 0, true, 0⟩

def transferCoin : COutput :=
  ⟨newWalletTx ⟨{ childTx with nTime := 300, vin := [⟨⟨201, 1⟩, []⟩] }, COIN - MIN_TX_FEE,
    by decide⟩ none, 0, 0, true, 0⟩

def issueParents : List InputPair :=
  [(mintedTx 1, readBFXTDataFromTxMinimal symbolEnv.toNodeEnv emptyBFXTTransaction (mintedTx 1))]

def issueTruth (hash : UInt256) : Option BFXTTransaction :=
  if hash = 201 then
    (readBFXTDataFromTx symbolEnv.toNodeEnv emptyBFXTTransaction (issueTx 1) issueParents).toOption
  else none

theorem pairs_issueParents (bfxtTxs : UInt256 → Option BFXTTransaction) :
    List.Forall₂ (PairOf symbolEnv storedLater bfxtTxs) (issueTx 1).vin issueParents := by
  have hplain : isTxBFXT symbolEnv.toNodeEnv (mintedTx 1) = none := by decide +kernel
  refine .cons ⟨⟨storedKnown_mintedTx (by decide), by decide⟩, rfl, fun hsome => ?_, fun _ => rfl⟩ .nil
  rw [hplain] at hsome
  cases hsome

theorem trueRecords_issueTruth : TrueRecords symbolEnv storedLater distinctIds_storedLater
    (storedAt 200000).txdb issueTruth := by
  refine ⟨?_, nofun⟩
  intro hash bfxttx hrecord
  rw [issueTruth] at hrecord
  split at hrecord
  · rename_i hhash
    have hread : readBFXTDataFromTx symbolEnv.toNodeEnv emptyBFXTTransaction (issueTx 1)
        issueParents = .ok bfxttx := by
      revert hrecord
      cases readBFXTDataFromTx symbolEnv.toNodeEnv emptyBFXTTransaction (issueTx 1) issueParents with
      | error _ => exact nofun
      | ok _ => exact fun h => congrArg _ (Option.some.inj h)
    refine ⟨issueTx 1, storedLater_issueBlock _ (mem_cons_of_mem _ mem_cons_self), hhash.symm, ?_⟩
    exact ⟨by decide +kernel, issueParents, _, pairs_issueParents _, hread⟩
  · cases hrecord

theorem carriesTokens_issueTx : CarriesTokens symbolEnv storedLater issueTruth (issueTx 1) 1 := by
  obtain ⟨txout, hread, hpos⟩ := exists_of_toOption (x := readBFXTDataFromTx symbolEnv.toNodeEnv
    emptyBFXTTransaction (issueTx 1) issueParents >>= (getTxOut · 1))
    (p := fun txout => 0 < txout.tokens.length) (by decide +kernel)
  exact ⟨by decide +kernel, issueParents, txout, pairs_issueParents _, hread, hpos⟩

theorem offers_no_tokens_issueCoin : Passes symbolEnv sampleRequest issueCoin ∧
    CarriesTokens symbolEnv storedLater issueTruth (issueTx 1) 1 ∧
    ¬ Offers symbolEnv (storedAt 200000).txdb sampleRequest issueCoin := by
  refine ⟨.inl (by decide), carriesTokens_issueTx, fun hoffers => ?_⟩
  refine (offers_no_tokens_iff (history_storedAt 200000) (fun _ => Nat.zero_lt_succ 99)
    ids_storedLater trueRecords_issueTruth sampleRequest issueCoin).mpr ?_ hoffers
    carriesTokens_issueTx
  intro _ _
  have hprev : readPrev symbolEnv (toReader symbolEnv (storedAt 200000).txdb) 1 ⟨101, 81⟩ =
      some (mintedTx 1) := by decide +kernel
  have hplain : isTxBFXT symbolEnv.toNodeEnv (mintedTx 1) = none := by decide +kernel
  refine ⟨forall_mem_singleton.mpr ⟨CTxIndex.new ⟨101, 81⟩ 1, mintedTx 1, rfl, hprev, by decide,
    by decide⟩, forall_mem_singleton.mpr fun txindex txPrev hindex hread hsome => ?_⟩
  obtain rfl := Option.some.inj hindex
  obtain rfl := Option.mem_unique hprev hread
  rw [hplain] at hsome
  cases hsome

/-- The parent is not in the index, so that the reading throws. -/
theorem offers_transferCoin :
    Offers symbolEnv (storedAt 200000).txdb sampleRequest transferCoin ∧
      CarriesTokens symbolEnv storedLater issueTruth transferCoin.wtx.tx 0 := by
  refine ⟨⟨.inl (by decide), by decide +kernel⟩, by decide +kernel, ?_⟩
  have hrecord : (issueTruth 201).isSome := by decide +kernel
  obtain ⟨record, hrecord⟩ := Option.isSome_iff_exists.mp hrecord
  have htoken : (isTxBFXT symbolEnv.toNodeEnv (issueTx 1)).isSome := by decide +kernel
  obtain ⟨txout, hread, hpos⟩ := exists_of_toOption (x := readBFXTDataFromTx symbolEnv.toNodeEnv
    emptyBFXTTransaction transferCoin.wtx.tx
    [(issueTx 1, (issueTruth 201).getD emptyBFXTTransaction)] >>= (getTxOut · 0))
    (p := fun txout => 0 < txout.tokens.length) (by decide +kernel)
  refine ⟨_, txout, .cons ⟨storedLater_issueBlock _ (mem_cons_of_mem _ mem_cons_self), rfl,
    fun _ => ?_, fun hplain => ?_⟩ .nil, hread, hpos⟩
  · exact hrecord.trans (congrArg some (by rw [hrecord]; rfl))
  · rw [hplain] at htoken
    cases htoken

end Example

end Bfx.CoinFilter
