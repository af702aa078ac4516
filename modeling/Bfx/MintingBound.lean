import Bfx.BlockConnection

/-!
What a connected block adds to the money supply, compared with the subsidy it is
entitled to. The loop of `ConnectBlock` is followed in two ways: as rounds that
take coins out of the set of unspent outputs, and as a sum of what each
transaction takes in and gives out.
-/

namespace Bfx.MintingBound

open BlockConnection CallOutcome ChainIndex CoinSpending InputConnection TransferInterpreter
  Transaction List Function

variable {tx coinbase : CTransaction} {ancestors : List CBlockIndex} {state next : BlockState}
  {others : List CTransaction}

def spentBy (tx : CTransaction) : List COutPoint :=
  if isCoinBase tx then [] else tx.vin.map (·.prevout)

def valueOut (tx : CTransaction) : Int := (tx.vout.map (·.nValue)).sum

/-- Transactions with the values of the outputs they consume. A transaction of
the block is found at its place in the block, any other in the database. -/
def accounts (env : ChainEnv) (txdb : CTxDB) (pindex : CBlockIndex) (fJustCheck : Bool) :
    (UInt256 → Option CDiskTxPos) → Nat → List CTransaction → List (CTransaction × Int)
  | _, _, [] => []
  | position, nTxPos, tx :: vtx =>
    (tx, ((spentBy tx).map (coinValue env txdb position)).sum) ::
      accounts env txdb pindex fJustCheck
        (update position (env.getHash tx) (some ⟨pindex.blockKeyInDB, nTxPos⟩))
        (nextTxPos env fJustCheck tx nTxPos) vtx

def blockAccounts (env : ChainEnv) (txdb : CTxDB) (pindex : CBlockIndex) (fJustCheck : Bool)
    (block : CBlock) : List (CTransaction × Int) :=
  accounts env txdb pindex fJustCheck (positions txdb.readTxIndex) (firstTxPos fJustCheck block)
    block.vtx

def mint (account : CTransaction × Int) : Int := valueOut account.1 - account.2

/-- The total value of the outputs created less that of the outputs consumed. -/
def netMint (accounts : List (CTransaction × Int)) : Int := (accounts.map mint).sum

def fees (accounts : List (CTransaction × Int)) : Int :=
  (accounts.map fun account =>
    if isCoinBase account.1 || isCoinStake account.1 then 0 else - mint account).sum

/-- What the coinstakes pay out above their inputs. -/
def stakeMint (accounts : List (CTransaction × Int)) : Int :=
  (accounts.map fun account => if isCoinStake account.1 then mint account else 0).sum

theorem isCoinStake_of_isCoinBase (htx : isCoinBase tx = true) :
    isCoinStake tx = false := by
  rw [isCoinBase] at htx
  split at htx
  · rename_i txin hvin
    have hnull : txin.prevout.isNull = true := by
      simp only [Bool.and_eq_true] at htx
      exact htx.1
    rw [isCoinStake]
    split
    · rename_i hvin' _
      rw [hvin] at hvin'
      obtain ⟨rfl, -⟩ := List.cons.inj hvin'
      rw [hnull]
      rfl
    · rfl
  · cases htx

theorem netMint_of_no_coinBase {accounts : List (CTransaction × Int)}
    (h : ∀ account ∈ accounts, isCoinBase account.1 = false) :
    netMint accounts = stakeMint accounts - fees accounts := by
  induction accounts with
  | nil => rfl
  | cons account accounts ih =>
    obtain ⟨haccount, haccounts⟩ := forall_mem_cons.mp h
    have hrest := ih haccounts
    rw [netMint, stakeMint, fees] at hrest ⊢
    simp only [map_cons, sum_cons, haccount, Bool.false_or]
    split
    · omega
    · omega

/-- The coins that a transaction may add. -/
def ownCoins (env : ChainEnv) (tx : CTransaction) : Set COutPoint :=
  {coin | coin.hash = env.getHash tx}

/-- What one turn of the loop does. -/
structure Step (env : ChainEnv) (txdb : CTxDB) (pindex : CBlockIndex) (fJustCheck : Bool)
    (tx : CTransaction) (state next : BlockState) (account : CTransaction × Int) : Prop where
  bip30 : checkBIP30Attack txdb (env.getHash tx) = true
  txPos_eq : next.nTxPos = nextTxPos env fJustCheck tx state.nTxPos
  positions_eq : positions (currentIndex txdb next.mapQueuedChanges) =
    update (positions (currentIndex txdb state.mapQueuedChanges)) (env.getHash tx)
      (some ⟨pindex.blockKeyInDB, state.nTxPos⟩)
  takes : ∃ left, Takes (unspentCoins (currentIndex txdb state.mapQueuedChanges)) (spentBy tx) left ∧
    unspentCoins (currentIndex txdb next.mapQueuedChanges) ⊆
      left ∪ ownCoins env tx
  fees_eq : next.nFees = state.nFees +
    if isCoinBase tx || isCoinStake tx then 0 else - mint account
  stake_eq : next.nStakeReward = if isCoinStake tx then mint account else state.nStakeReward

theorem unspentCoins_update_subset (view : UInt256 → Option CTxIndex) (hash : UInt256)
    (txindex : CTxIndex) :
    unspentCoins (update view hash (some txindex)) ⊆
      unspentCoins view ∪ {coin | coin.hash = hash} := by
  intro coin hcoin
  by_cases hhash : coin.hash = hash
  · exact .inr hhash
  refine .inl ?_
  rw [mem_unspentCoins, update_of_ne hhash] at hcoin
  exact hcoin

theorem connectSpending_eq_ok (htx : isCoinBase tx = false)
    (hnull : posThisTx.isNull = false) (h : connectSpending env txdb pindex ancestors posThisTx tx
      state = .ok (next, inputsWithBFXT)) :
    next.nTxPos = state.nTxPos ∧
      positions (currentIndex txdb next.mapQueuedChanges) =
        positions (currentIndex txdb state.mapQueuedChanges) ∧
      Takes (unspentCoins (currentIndex txdb state.mapQueuedChanges)) (spentBy tx)
        (unspentCoins (currentIndex txdb next.mapQueuedChanges)) ∧
      ∃ minted, minted = mint (tx, ((spentBy tx).map
          (coinValue env txdb (positions (currentIndex txdb state.mapQueuedChanges)))).sum) ∧
        next.nFees = (if isCoinStake tx then state.nFees else state.nFees - minted) ∧
        next.nStakeReward = if isCoinStake tx then minted else state.nStakeReward := by
  simp only [connectSpending, bind_eq_ok] at h
  obtain ⟨mapInputs, hfetch, nP2SHSigOps, -, _, -, nTxValueIn, hin, nTxValueOut, hout, _, -, _, -,
    mapQueuedChanges, hinputs, h⟩ := h
  cases h
  have hfetched := fetchInputs_fetched htx hfetch
  obtain ⟨htakes, hpositions⟩ := spendInputs_takes hnull
    (fun _ _ _ hhash => (hfetched _ _ _ hhash).1) (spendInputs_of_connectInputs htx hinputs)
  have hspent : spentBy tx = tx.vin.map (·.prevout) := if_neg (by simp [htx])
  have hmint : nTxValueOut - nTxValueIn = mint (tx, ((spentBy tx).map
      (coinValue env txdb (positions (currentIndex txdb state.mapQueuedChanges)))).sum) := by
    rw [mint, valueOut, hspent, ← (getValueOut_eq_ok (ofCall_eq_ok.mp hout)).1,
      ← getValueIn_eq_ok htx hfetched (ofCall_eq_ok.mp hin)]
  refine ⟨rfl, hpositions, hspent ▸ htakes, _, hmint, ?_, rfl⟩
  dsimp only
  split
  · rfl
  · omega

theorem connectTransaction_step (hpos : state.nTxPos < 2 ^ 32 - 1)
    (h : connectTransaction env txdb block pindex ancestors fJustCheck tx state = .ok next) :
    Step env txdb pindex fJustCheck tx state next
      (tx, ((spentBy tx).map
        (coinValue env txdb (positions (currentIndex txdb state.mapQueuedChanges)))).sum) := by
  simp only [connectTransaction, bind_eq_ok] at h
  obtain ⟨_, hbip30, _, -, ⟨connected, inputsWithBFXT⟩, hconnect, h⟩ := h
  cases h
  rw [ensure_eq_ok] at hbip30
  have hnull : CDiskTxPos.isNull ⟨pindex.blockKeyInDB, state.nTxPos⟩ = false :=
    beq_eq_false_iff_ne.mpr (Nat.ne_of_lt hpos)
  obtain ⟨htx, rfl, nValueOut, rfl⟩ | ⟨htx, hconnect⟩ := connectByKind_cases hconnect
  · have hstake := isCoinStake_of_isCoinBase htx
    refine ⟨hbip30, rfl, ?_, ?_, ?_, ?_⟩
    · rw [currentIndex_update, positions_update]
      rfl
    · rw [spentBy, if_pos htx, currentIndex_update]
      exact ⟨_, .nil, unspentCoins_update_subset _ _ _⟩
    · rw [htx, Bool.true_or, if_pos rfl, Int.add_zero]
    · rw [hstake, if_neg (by decide)]
  obtain ⟨hTxPos, hpositions, htakes, minted, hmint, hfees, hstake⟩ :=
    connectSpending_eq_ok htx hnull hconnect
  rw [hmint] at hfees hstake
  refine ⟨hbip30, hTxPos, ?_, ?_, ?_, hstake⟩
  · rw [currentIndex_update, positions_update, hpositions]
    rfl
  · rw [currentIndex_update]
    exact ⟨_, htakes, unspentCoins_update_subset _ _ _⟩
  rw [hfees, htx, Bool.false_or]
  split
  · rw [Int.add_zero]
  · exact Int.sub_eq_add_neg

def lastStake (nStakeReward : Int) (accounts : List (CTransaction × Int)) : Int :=
  accounts.foldl (fun reward account => if isCoinStake account.1 then mint account else reward)
    nStakeReward

/-- What the loop does. -/
structure Run (env : ChainEnv) (txdb : CTxDB) (vtx : List CTransaction) (state final : BlockState)
    (accounts : List (CTransaction × Int)) : Prop where
  bip30 : ∀ tx ∈ vtx, checkBIP30Attack txdb (env.getHash tx) = true
  rounds : Rounds (unspentCoins (currentIndex txdb state.mapQueuedChanges))
    (vtx.map fun tx => (spentBy tx, ownCoins env tx))
    (unspentCoins (currentIndex txdb final.mapQueuedChanges))
  fees_eq : final.nFees = state.nFees + fees accounts
  stake_eq : final.nStakeReward = lastStake state.nStakeReward accounts

theorem connectTransactions_run
    (hpos : state.nTxPos + (vtx.map env.getSerializeSize).sum < 2 ^ 32 - 1)
    (h : connectTransactions env txdb block pindex ancestors fJustCheck vtx state = .ok final) :
    Run env txdb vtx state final (accounts env txdb pindex fJustCheck
      (positions (currentIndex txdb state.mapQueuedChanges)) state.nTxPos vtx) := by
  induction vtx generalizing state with
  | nil =>
    cases h
    exact ⟨nofun, .nil, (Int.add_zero _).symm, rfl⟩
  | cons tx vtx ih =>
    rw [map_cons, sum_cons] at hpos
    obtain ⟨next, hnext, h⟩ := bind_eq_ok.mp h
    have hstep := connectTransaction_step (show state.nTxPos < 2 ^ 32 - 1 by omega) hnext
    have hnextPos : next.nTxPos ≤ state.nTxPos + env.getSerializeSize tx := by
      rw [hstep.txPos_eq, nextTxPos]
      split
      · omega
      · omega
    have hrun := ih (by omega) h
    rw [hstep.positions_eq, hstep.txPos_eq] at hrun
    obtain ⟨left, htakes, hleft⟩ := hstep.takes
    refine ⟨forall_mem_cons.mpr ⟨hstep.bip30, hrun.bip30⟩, .cons htakes hleft hrun.rounds, ?_, ?_⟩
    · rw [hrun.fees_eq, hstep.fees_eq, accounts, fees, fees, map_cons, sum_cons, Int.add_assoc]
    · rw [hrun.stake_eq, hstep.stake_eq, accounts, lastStake, lastStake, foldl_cons]

theorem lastStake_of_none {accounts : List (CTransaction × Int)}
    (h : ∀ account ∈ accounts, isCoinStake account.1 = false) (nStakeReward : Int) :
    lastStake nStakeReward accounts = nStakeReward := by
  induction accounts with
  | nil => rfl
  | cons account accounts ih =>
    obtain ⟨haccount, haccounts⟩ := forall_mem_cons.mp h
    rw [lastStake, foldl_cons, haccount, if_neg (by decide), ← lastStake, ih haccounts]

theorem stakeMint_of_none {accounts : List (CTransaction × Int)}
    (h : ∀ account ∈ accounts, isCoinStake account.1 = false) : stakeMint accounts = 0 := by
  refine sum_eq_zero fun x hx => ?_
  obtain ⟨account, haccount, rfl⟩ := mem_map.mp hx
  rw [h account haccount, if_neg (by decide)]

section Accounts

variable (env : ChainEnv) (txdb : CTxDB) (pindex : CBlockIndex) (fJustCheck : Bool)
  (position : UInt256 → Option CDiskTxPos) (nTxPos : Nat)

theorem map_fst_accounts (vtx : List CTransaction) :
    (accounts env txdb pindex fJustCheck position nTxPos vtx).map Prod.fst = vtx := by
  induction vtx generalizing position nTxPos with
  | nil => rfl
  | cons tx vtx ih => rw [accounts, map_cons, ih]

theorem forall_accounts {p : CTransaction → Prop} (h : ∀ tx ∈ vtx, p tx) :
    ∀ account ∈ accounts env txdb pindex fJustCheck position nTxPos vtx, p account.1 := by
  intro account haccount
  refine h account.1 ?_
  rw [← map_fst_accounts env txdb pindex fJustCheck position nTxPos vtx]
  exact mem_map_of_mem haccount

end Accounts

section Blocks

/-- What `CheckBlock` makes sure of. -/
structure Checked (env : ChainEnv) (block : CBlock) (coinbase : CTransaction)
    (others : List CTransaction) : Prop where
  vtx_eq : block.vtx = coinbase :: others
  size_le : getBlockSerializeSize env block ≤ maxBlockSize env
  isCoinBase_eq : isCoinBase coinbase = true
  others_eq : ∀ tx ∈ others, isCoinBase tx = false
  hashes_nodup : (block.vtx.map env.getHash).Nodup
  stake_rules : isProofOfStake block = true → valueOut coinbase = 0 ∧
    ∃ coinstake rest, others = coinstake :: rest ∧ isCoinStake coinstake = true ∧
      ∀ tx ∈ rest, isCoinStake tx = false

theorem valueOut_of_empty (h : tx.vout.all (·.isEmpty) = true) :
    valueOut tx = 0 := by
  refine sum_eq_zero fun x hx => ?_
  obtain ⟨txout, htxout, rfl⟩ := mem_map.mp hx
  have hempty := all_eq_true.mp h txout htxout
  simp only [CTxOut.isEmpty, Bool.and_eq_true, beq_iff_eq] at hempty
  exact hempty.1

variable {block : CBlock}

theorem checkBlock_eq_ok (h : checkBlock env fCheckPOW fCheckMerkleRoot fCheckSig block = .ok ()) :
    ∃ coinbase others, Checked env block coinbase others := by
  rw [checkBlock] at h
  split at h
  · cases h
  rename_i coinbase others hvtx
  simp only [bind_eq_ok] at h
  obtain ⟨_, hsize, _, -, _, -, _, hcoinbase, _, hothers, _, -, _, hrules, _, -, _, hnodup, -⟩ :=
    h
  rw [ensure_eq_ok] at hsize hcoinbase hothers hnodup
  refine ⟨coinbase, others, hvtx, hsize.2, hcoinbase, hothers, hnodup, fun hstake => ?_⟩
  rcases others with _ | ⟨coinstake, rest⟩
  · simp [isProofOfStake, hvtx] at hstake
  rw [checkStakeRules, if_neg (by simp [isProofOfWork, hstake])] at hrules
  simp only [bind_eq_ok] at hrules
  obtain ⟨_, hempty, _, hcoinstake, _, hrest, -⟩ := hrules
  rw [ensure_eq_ok] at hempty hcoinstake hrest
  exact ⟨valueOut_of_empty hempty.2, coinstake, rest, rfl, hcoinstake, hrest⟩

theorem connectBlock_eq_ok
    (h : connectBlock env txdb pindex ancestors fJustCheck block = .ok connected) :
    checkBlock env (!fJustCheck) (!fJustCheck) false block = .ok () ∧
      ∃ state, connectTransactions env txdb block pindex ancestors fJustCheck block.vtx
          (initialState fJustCheck block) = .ok state ∧
        checkReward env txdb block state = .ok () := by
  simp only [connectBlock, bind_eq_ok] at h
  obtain ⟨_, hcheck, state, hstate, _, hreward, -⟩ := h
  exact ⟨hcheck, state, hstate, hreward⟩

def consumedCoins (block : CBlock) : List COutPoint := block.vtx.flatMap spentBy

theorem Checked.firstTxPos_lt (h : Checked env block coinbase others) (fJustCheck : Bool) :
    firstTxPos fJustCheck block + (block.vtx.map env.getSerializeSize).sum < 2 ^ 32 - 1 := by
  have hsize := h.size_le
  rw [getBlockSerializeSize, headerSize] at hsize
  have hmax : maxBlockSize env ≤ 1000000 := by
    rw [maxBlockSize]
    split
    · exact Nat.le_refl _
    · exact Nat.le_refl _
  rw [firstTxPos, headerSize]
  split
  · omega
  · omega

theorem Run.consumedCoins_nodup {accounts : List (CTransaction × Int)}
    (h : Run env txdb block.vtx state final accounts)
    (hstate : currentIndex txdb state.mapQueuedChanges = txdb.readTxIndex)
    (hnodup : (block.vtx.map env.getHash).Nodup) : (consumedCoins block).Nodup := by
  have hrounds := h.rounds
  rw [hstate] at hrounds
  have htaken := hrounds.nodup (fun round hround => ?_) ?_
  · rwa [flatMap_map] at htaken
  · obtain ⟨tx, htx, rfl⟩ := mem_map.mp hround
    intro coin hcoin (hhash : coin.hash = env.getHash tx)
    obtain ⟨txindex, spent, hview, hspent, hnull⟩ := mem_unspentCoins.mp hcoin
    have hbip30 := h.bip30 tx htx
    rw [hhash] at hview
    simp only [checkBIP30Attack, hview] at hbip30
    have hmem := all_eq_true.mp hbip30 spent (mem_of_getElem? hspent)
    rw [hnull] at hmem
    cases hmem
  · refine pairwise_map.mpr ((pairwise_map.mp hnodup).imp fun hne => ?_)
    exact fun coin hcoin hcoin' => hne (hcoin.symm.trans hcoin')

end Blocks

section Bound

variable (env : ChainEnv) (txdb : CTxDB) (pindex : CBlockIndex) (fJustCheck : Bool)
  (block : CBlock)

def createdValue : Int := (block.vtx.map valueOut).sum

def consumedValue : Int := ((blockAccounts env txdb pindex fJustCheck block).map Prod.snd).sum

def coinbaseValue : Int := (block.vtx.head?.map valueOut).getD 0

/-- A block mints at most its subsidy. The consumed outputs are counted once each. -/
structure WithinSubsidy : Prop where
  consumed_once : (consumedCoins block).Nodup
  work : isProofOfWork block = true →
    createdValue block - consumedValue env txdb pindex fJustCheck block ≤ getProofOfWorkReward env 0
  stake : isProofOfStake block = true → ∃ coinstake nCoinAge,
    block.vtx[1]? = some coinstake ∧ getCoinAge env txdb coinstake = some nCoinAge ∧
      createdValue block - consumedValue env txdb pindex fJustCheck block ≤
        getProofOfStakeReward nCoinAge 0

/-- No coinstake stands behind the second transaction, or those that do mint no
more than the coinbase leaves of its reward. -/
def StraysCovered : Prop :=
  (∀ tx ∈ block.vtx.drop 2, isCoinStake tx = false) ∨
    stakeMint (blockAccounts env txdb pindex fJustCheck block) ≤
      getProofOfWorkReward env (fees (blockAccounts env txdb pindex fJustCheck block)) -
        coinbaseValue block

theorem netMint_blockAccounts :
    netMint (blockAccounts env txdb pindex fJustCheck block) =
      createdValue block - consumedValue env txdb pindex fJustCheck block := by
  have hsum : ∀ accounts : List (CTransaction × Int),
      netMint accounts = ((accounts.map Prod.fst).map valueOut).sum - (accounts.map Prod.snd).sum := by
    intro accounts
    induction accounts with
    | nil => rfl
    | cons account accounts ih =>
      rw [netMint] at ih ⊢
      simp only [map_cons, sum_cons, ih, mint]
      ring
  rw [hsum, createdValue, consumedValue, blockAccounts, map_fst_accounts]

variable {env txdb pindex fJustCheck block}

theorem Checked.netMint_eq (h : Checked env block coinbase others) :
    createdValue block - consumedValue env txdb pindex fJustCheck block =
      coinbaseValue block + stakeMint (blockAccounts env txdb pindex fJustCheck block) -
        fees (blockAccounts env txdb pindex fJustCheck block) := by
  have hstake := isCoinStake_of_isCoinBase h.isCoinBase_eq
  rw [← netMint_blockAccounts, blockAccounts, coinbaseValue, h.vtx_eq, accounts, spentBy,
    if_pos h.isCoinBase_eq]
  have hmint := fun position nTxPos => netMint_of_no_coinBase
    (forall_accounts env txdb pindex fJustCheck position nTxPos h.others_eq)
  simp only [netMint, stakeMint, fees] at hmint ⊢
  simp only [map_cons, sum_cons, h.isCoinBase_eq, hstake, hmint, mint, map_nil,
    sum_nil, List.head?_cons, Option.map_some, Option.getD_some, Bool.true_or, if_true]
  simp only [Bool.false_eq_true, if_false]
  ring

theorem getProofOfWorkReward_eq (env : ChainEnv) (nFees : Int) :
    getProofOfWorkReward env nFees = getProofOfWorkReward env 0 + nFees := by
  simp [getProofOfWorkReward]

/-- The one coinstake of a proof-of-stake block mints the reward that is compared. -/
theorem Checked.lastStake_eq (h : Checked env block coinbase others)
    (hstake : isProofOfStake block = true) :
    lastStake 0 (blockAccounts env txdb pindex fJustCheck block) =
      stakeMint (blockAccounts env txdb pindex fJustCheck block) := by
  obtain ⟨-, coinstake, rest, rfl, hcoinstake, hrest⟩ := h.stake_rules hstake
  have hcoinbase := isCoinStake_of_isCoinBase h.isCoinBase_eq
  rw [blockAccounts, h.vtx_eq, accounts, accounts]
  rw [lastStake, foldl_cons, foldl_cons, hcoinstake, if_pos rfl, ← lastStake,
    lastStake_of_none (forall_accounts _ _ _ _ _ _ hrest)]
  rw [stakeMint, map_cons, map_cons, sum_cons, sum_cons, ← stakeMint,
    stakeMint_of_none (forall_accounts _ _ _ _ _ _ hrest), hcoinbase, hcoinstake,
    if_neg (by decide), if_pos rfl, Int.zero_add, Int.add_zero]

theorem checkReward_of_stake (hstake : isProofOfStake block = true)
    (h : checkReward env txdb block state = .ok ()) :
    ∃ coinstake nCoinAge, block.vtx[1]? = some coinstake ∧
      getCoinAge env txdb coinstake = some nCoinAge ∧
      state.nStakeReward ≤ getProofOfStakeReward nCoinAge state.nFees := by
  rw [isProofOfStake] at hstake
  split at hstake
  · rename_i coinbase coinstake rest hvtx
    simp only [checkReward, hvtx, hstake, if_true] at h
    rw [checkStakeReward] at h
    split at h
    · cases h
    · rename_i nCoinAge hage
      exact ⟨coinstake, nCoinAge, by rw [hvtx]; rfl, hage, ensure_eq_ok.mp h⟩
  · cases hstake

theorem checkReward_of_work (hwork : isProofOfStake block = false)
    (h : checkReward env txdb block state = .ok ()) :
    coinbaseValue block ≤ getProofOfWorkReward env state.nFees := by
  have hcheck : ∀ coinbase : CTransaction, checkWorkReward env coinbase state.nFees = .ok () →
      valueOut coinbase ≤ getProofOfWorkReward env state.nFees := by
    intro coinbase hcheck
    obtain ⟨nValueOut, hvalue, hcheck⟩ := bind_eq_ok.mp hcheck
    rw [valueOut, ← (getValueOut_eq_ok (ofCall_eq_ok.mp hvalue)).1]
    exact ensure_eq_ok.mp hcheck
  rw [checkReward] at h
  split at h
  · cases h
  · rename_i coinbase hvtx
    rw [coinbaseValue, hvtx]
    exact hcheck coinbase h
  rename_i coinbase second rest hvtx
  rw [isProofOfStake, hvtx] at hwork
  dsimp only at hwork
  rw [hwork, if_neg (by decide)] at h
  rw [coinbaseValue, hvtx]
  exact hcheck coinbase h

theorem Checked.no_coinStake (h : Checked env block coinbase others)
    (hwork : isProofOfStake block = false)
    (hnone : ∀ tx ∈ block.vtx.drop 2, isCoinStake tx = false) :
    ∀ tx ∈ block.vtx, isCoinStake tx = false := by
  have hcoinbase := isCoinStake_of_isCoinBase h.isCoinBase_eq
  rw [isProofOfStake, h.vtx_eq] at hwork
  rw [h.vtx_eq] at hnone ⊢
  rcases others with _ | ⟨second, rest⟩
  · exact forall_mem_cons.mpr ⟨hcoinbase, nofun⟩
  · exact forall_mem_cons.mpr ⟨hcoinbase, forall_mem_cons.mpr ⟨hwork, hnone⟩⟩

def workEnv : ChainEnv :=
  { timeEnv with
    nBestHeight := 500
    fTestNet := false
    getAdjustedTime := 20
    getTotalBlocksEstimate := 0
    hashPair := fun left _ => left
    getBlockHash := fun block => BitVec.ofNat 256 block.nTime
    getSerializeSize := fun _ => 100
    txToString := fun _ => ""
    checkProofOfWork := fun _ => true
    checkBlockSignature := fun _ => true
    verifySignature := fun _ _ _ _ => true
    mempoolLookup := fun _ => none
    getAllBFXTInputsOfTx := fun _ _ _ => .ok []
    assertIssuanceUniquenessInBlock := fun symbols _ _ _ => .ok symbols
    writeBFXTBlockTransactionsToDisk := fun _ => .ok () }

def storedTx : CTransaction := ⟨1, [⟨⟨7, 0⟩, []⟩], [⟨COIN, [0x51]⟩, ⟨COIN, [0x51]⟩], 0⟩

def storedPos : CDiskTxPos := ⟨100, 81⟩

def workDb : CTxDB where
  readTxIndex hash := if hash = 1 then some (CTxIndex.new storedPos 2) else none
  readTx pos := if pos = storedPos then some storedTx else none
  readBlockTime _ := some 1
  writeBlockIndex _ := true
  updateTxIndex _ := true

/-- A coinbase with the full subsidy and a payment that leaves the least fee. -/
def workBlock (strays : List CTransaction) : CBlock :=
  ⟨6, 0, 10, 20, 0, 0, ⟨10, [⟨⟨0, 2 ^ 32 - 1⟩, [1, 1]⟩], [⟨2000 * COIN, [0x51]⟩], 0⟩ ::
      ⟨11, [⟨⟨1, 0⟩, []⟩], [⟨COIN - MIN_TX_FEE, [0x51]⟩], 0⟩ :: strays, []⟩

def workIndex : CBlockIndex := ⟨200, 501, 0, 0⟩

/-- A coinstake that makes a million coins out of one. -/
def strayTx : CTransaction :=
  ⟨12, [⟨⟨1, 1⟩, []⟩], [⟨0, []⟩, ⟨1000000 * COIN, [0x51]⟩], 0⟩

end Bound

end Bfx.MintingBound
