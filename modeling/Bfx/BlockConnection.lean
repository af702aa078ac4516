import Bfx.InputConnection
import Bfx.TokenReading

/-!
Blocks: `CheckBlock`, the rewards, and `ConnectBlock`, which connects the
transactions of a block one after the other and then compares what the miner
takes with the reward. Amounts are integers without overflow.
-/

namespace Bfx.BlockConnection

open CallOutcome ChainIndex HexText InputConnection TokenReading TokenTransaction
  TransferInterpreter Transaction

/-- One level of the tree above another; an odd last hash is paired with itself. -/
def merkleLevel (env : ChainEnv) : List UInt256 → List UInt256
  | [] => []
  | [hash] => [env.hashPair hash hash]
  | left :: right :: rest => env.hashPair left right :: merkleLevel env rest

/-- The last hash of the last level; the number of hashes is fuel enough. -/
def merkleRoot (env : ChainEnv) : Nat → List UInt256 → UInt256
  | _, [] => 0
  | _, [hash] => hash
  | 0, _ => 0
  | fuel + 1, level => merkleRoot env fuel (merkleLevel env level)

def buildMerkleTree (env : ChainEnv) (block : CBlock) : UInt256 :=
  merkleRoot env block.vtx.length (block.vtx.map env.getHash)

def isProofOfStake (block : CBlock) : Bool :=
  match block.vtx with
  | _ :: tx :: _ => isCoinStake tx
  | _ => false

def isProofOfWork (block : CBlock) : Bool := !isProofOfStake block

def getSizeOfCompactSize (nSize : Nat) : Nat :=
  if nSize < 253 then 1 else if nSize < 2 ^ 16 then 3 else if nSize < 2 ^ 32 then 5 else 9

def headerSize : Nat := 80

def getBlockSerializeSize (env : ChainEnv) (block : CBlock) : Nat :=
  headerSize + getSizeOfCompactSize block.vtx.length + (block.vtx.map env.getSerializeSize).sum +
    (getSizeOfCompactSize block.vchBlockSig.length + block.vchBlockSig.length)

def checkCoinStakeTimestamp (nTimeBlock nTimeTx : Int) : Bool := nTimeBlock == nTimeTx

def checkStakeRules (env : ChainEnv) (fCheckSig : Bool) (block : CBlock) (coinbase : CTransaction) :
    List CTransaction → Verdict Unit
  | [] => .ok ()
  | coinstake :: others =>
    if isProofOfWork block then .ok ()
    else do
      ensure (coinbase.vout.length = 1 ∧ coinbase.vout.all (·.isEmpty))
        (.dos 100 "CheckBlock() : coinbase output not empty for proof-of-stake block")
      ensure (isCoinStake coinstake) (.dos 100 "CheckBlock() : second tx is not coinstake")
      ensure (∀ tx ∈ others, isCoinStake tx = false)
        (.dos 100 "CheckBlock() : more than one coinstake")
      ensure (checkCoinStakeTimestamp block.nTime coinstake.nTime)
        (.dos 50 ("CheckBlock() : coinstake timestamp violation nTimeBlock=" ++
          toString block.nTime ++ " nTimeTx=" ++ toString coinstake.nTime))
      ensure (¬ (fCheckSig = true ∧ env.checkBlockSignature block = false))
        (.dos 100 "CheckBlock() : bad proof-of-stake block signature")

/-- The penalty of a transaction is the penalty of its block. -/
def checkInBlock (env : ChainEnv) (tx : CTransaction) : Verdict Unit :=
  match checkTransaction env tx with
  | .error (.returned nDoS _) => .error (.dos nDoS "CheckBlock() : CheckTransaction failed")
  | verdict => verdict

def checkTransactions (env : ChainEnv) (block : CBlock) : List CTransaction → Verdict Unit
  | [] => .ok ()
  | tx :: vtx => do
    checkInBlock env tx
    ensure (tx.nTime ≤ block.nTime)
      (.dos 50 "CheckBlock() : block timestamp earlier than transaction timestamp")
    checkTransactions env block vtx

def checkBlock (env : ChainEnv) (fCheckPOW fCheckMerkleRoot fCheckSig : Bool) (block : CBlock) :
    Verdict Unit :=
  match block.vtx with
  | [] => .error (.dos 100 "CheckBlock() : size limits failed")
  | coinbase :: others => do
    ensure (block.vtx.length ≤ maxBlockSize env ∧
        getBlockSerializeSize env block ≤ maxBlockSize env)
      (.dos 100 "CheckBlock() : size limits failed")
    ensure (¬ (fCheckPOW = true ∧ isProofOfWork block = true ∧ env.checkProofOfWork block = false))
      (.dos 50 "CheckBlock() : proof of work failed")
    ensure ((block.nTime : Int) ≤ futureDrift env.getAdjustedTime)
      (.logged "CheckBlock() : block timestamp too far in the future")
    ensure (isCoinBase coinbase) (.dos 100 "CheckBlock() : first tx is not coinbase")
    ensure (∀ tx ∈ others, isCoinBase tx = false)
      (.dos 100 "CheckBlock() : more than one coinbase")
    ensure ((block.nTime : Int) ≤ futureDrift coinbase.nTime)
      (.dos 50 "CheckBlock() : coinbase timestamp is too early")
    checkStakeRules env fCheckSig block coinbase others
    checkTransactions env block block.vtx
    ensure (block.vtx.map env.getHash).Nodup (.dos 100 "CheckBlock() : duplicate transaction")
    ensure ((block.vtx.map getLegacySigOpCount).sum ≤ MAX_BLOCK_SIGOPS)
      (.dos 100 "CheckBlock() : out-of-bounds SigOpCount")
    ensure (¬ (fCheckMerkleRoot = true ∧ block.hashMerkleRoot ≠ buildMerkleTree env block))
      (.dos 100 "CheckBlock() : hashMerkleRoot mismatch")

def COIN_YEAR_REWARD : Int := 12 * CENT

def getProofOfWorkReward (env : ChainEnv) (nFees : Int) : Int :=
  let nSubsidy := 2000 * COIN
  let nSubsidy := if env.nBestHeight = 0 then 150000000 * COIN else nSubsidy
  let nSubsidy := if env.nBestHeight > 1000 then 0 else nSubsidy
  nSubsidy + nFees

def getProofOfStakeReward (nCoinAge nFees : Int) : Int :=
  (nCoinAge * COIN_YEAR_REWARD * 33).tdiv (365 * 33 + 8) + nFees

/-- `CTransaction::ReadFromDisk`: the index entry, the transaction and the output. -/
def readOutputFromDisk (txdb : CTxDB) (prevout : COutPoint) :
    Option (CTxIndex × CTransaction × CTxOut) := do
  let txindex ← txdb.readTxIndex prevout.hash
  let txPrev ← txdb.readTx txindex.pos
  let txout ← txPrev.vout[prevout.n]?
  some (txindex, txPrev, txout)

def centSeconds (env : ChainEnv) (txdb : CTxDB) (tx : CTransaction) : Int → List CTxIn → Option Int
  | bnCentSecond, [] => some bnCentSecond
  | bnCentSecond, txin :: vin =>
    match readOutputFromDisk txdb txin.prevout with
    | none => centSeconds env txdb tx bnCentSecond vin
    | some (txindex, txPrev, txout) =>
      if tx.nTime < txPrev.nTime then none
      else
        match txdb.readBlockTime txindex.pos.nBlockPos with
        | none => none
        | some nBlockTime =>
          if nBlockTime + stakeMinAge env > tx.nTime then
            centSeconds env txdb tx bnCentSecond vin
          else
            centSeconds env txdb tx (bnCentSecond +
              (txout.nValue * ((tx.nTime : Int) - txPrev.nTime)).tdiv CENT) vin

/-- The coin age in coin-days, nothing if it cannot be found. -/
def getCoinAge (env : ChainEnv) (txdb : CTxDB) (tx : CTransaction) : Option Int :=
  if isCoinBase tx then some 0
  else
    (centSeconds env txdb tx 0 tx.vin).map fun bnCentSecond =>
      ((bnCentSecond * CENT).tdiv COIN).tdiv (24 * 60 * 60)

structure BlockState where
  nTxPos : Nat
  mapQueuedChanges : UInt256 → Option CTxIndex
  nFees : Int
  nValueIn : Int
  nValueOut : Int
  nStakeReward : Int
  mapQueuedBFXTInputs : UInt256 → Option (List InputPair)
  nSigOps : Nat
  issuedTokensSymbolsInThisBlock : Bytes → Option UInt256

/-- What a connected block leaves: its index entry and the queued changes. -/
structure Connected where
  pindex : CBlockIndex
  mapQueuedChanges : UInt256 → Option CTxIndex

def checkBIP30Attack (txdb : CTxDB) (hashTx : UInt256) : Bool :=
  match txdb.readTxIndex hashTx with
  | none => true
  | some txindexOld => txindexOld.vSpent.all fun pos => !pos.isNull

/-- The token inputs of a transaction, after its token data has been read. -/
def verifyTokens (env : ChainEnv) (state : BlockState) (tx : CTransaction) :
    Verdict (List InputPair) :=
  if env.isForkActivated .tachyon && (isTxBFXT env.toNodeEnv tx).isSome then
    catchCall "Error while verifying BFXTTransaction validity in ConnectBlock(): " do
      let inputsWithBFXT ← env.getAllBFXTInputsOfTx tx state.mapQueuedBFXTInputs
        state.mapQueuedChanges
      let _ ← readBFXTDataFromTx env.toNodeEnv emptyBFXTTransaction tx inputsWithBFXT
      .ok inputsWithBFXT
  else .ok []

def verifySymbols (env : ChainEnv) (state : BlockState) (tx : CTransaction) :
    Verdict (Bytes → Option UInt256) :=
  if env.isForkActivated .tachyon then
    catchCall ("Error while verifying the uniqueness of issued token symbol in " ++
        "ConnectBlock(): ")
      (env.assertIssuanceUniquenessInBlock state.issuedTokensSymbolsInThisBlock tx
        state.mapQueuedBFXTInputs state.mapQueuedChanges)
  else .ok state.issuedTokensSymbolsInThisBlock

/-- The branch of the loop for a transaction that is not the coinbase. The token
inputs are returned. -/
def connectSpending (env : ChainEnv) (txdb : CTxDB) (pindex : CBlockIndex)
    (ancestors : List CBlockIndex) (posThisTx : CDiskTxPos) (tx : CTransaction)
    (state : BlockState) : Verdict (BlockState × List InputPair) := do
  let mapInputs ← fetchInputs env txdb state.mapQueuedChanges true false tx fun _ => none
  let nP2SHSigOps ← ofCall (getP2SHSigOpCount tx mapInputs)
  let nSigOps := state.nSigOps + nP2SHSigOps
  ensure (nSigOps ≤ MAX_BLOCK_SIGOPS) (.dos 100 "ConnectBlock() : too many sigops")
  let nTxValueIn ← ofCall (getValueIn tx mapInputs)
  let nTxValueOut ← ofCall (getValueOut tx)
  let inputsWithBFXT ← verifyTokens env state tx
  let issuedTokensSymbols ← verifySymbols env state tx
  let mapQueuedChanges ← connectInputs env mapInputs state.mapQueuedChanges posThisTx pindex
    ancestors true false tx
  .ok ({ state with
    mapQueuedChanges := mapQueuedChanges
    nFees := if isCoinStake tx then state.nFees else state.nFees + (nTxValueIn - nTxValueOut)
    nValueIn := state.nValueIn + nTxValueIn
    nValueOut := state.nValueOut + nTxValueOut
    nStakeReward := if isCoinStake tx then nTxValueOut - nTxValueIn else state.nStakeReward
    nSigOps := nSigOps
    issuedTokensSymbolsInThisBlock := issuedTokensSymbols }, inputsWithBFXT)

def connectCoinBase (tx : CTransaction) (state : BlockState) :
    Verdict (BlockState × List InputPair) := do
  let nTxValueOut ← ofCall (getValueOut tx)
  .ok ({ state with nValueOut := state.nValueOut + nTxValueOut }, [])

def connectByKind (env : ChainEnv) (txdb : CTxDB) (pindex : CBlockIndex)
    (ancestors : List CBlockIndex) (posThisTx : CDiskTxPos) (tx : CTransaction)
    (state : BlockState) : Verdict (BlockState × List InputPair) :=
  if isCoinBase tx then connectCoinBase tx state
  else connectSpending env txdb pindex ancestors posThisTx tx state

theorem connectByKind_cases
    (h : connectByKind env txdb pindex ancestors posThisTx tx state = .ok (connected, inputs)) :
    (isCoinBase tx = true ∧ inputs = [] ∧ ∃ nValueOut, connected = { state with
        nValueOut := nValueOut }) ∨
      (isCoinBase tx = false ∧
        connectSpending env txdb pindex ancestors posThisTx tx state = .ok (connected, inputs)) := by
  rw [connectByKind] at h
  split at h
  · rename_i htx
    obtain ⟨nTxValueOut, -, h⟩ := bind_eq_ok.mp h
    cases h
    exact .inl ⟨htx, rfl, _, rfl⟩
  · rename_i htx
    exact .inr ⟨Bool.eq_false_iff.mpr htx, h⟩

def nextTxPos (env : ChainEnv) (fJustCheck : Bool) (tx : CTransaction) (nTxPos : Nat) : Nat :=
  if fJustCheck then nTxPos else nTxPos + env.getSerializeSize tx

def connectTransaction (env : ChainEnv) (txdb : CTxDB) (block : CBlock) (pindex : CBlockIndex)
    (ancestors : List CBlockIndex) (fJustCheck : Bool) (tx : CTransaction) (state : BlockState) :
    Verdict BlockState := do
  let hashTx := env.getHash tx
  ensure (checkBIP30Attack txdb hashTx)
    (.logged ("Block " ++ (env.getBlockHash block).toHex ++
      " was rejected as it seems that an attempt of BIP30 attack was attempted\n"))
  let nSigOps := state.nSigOps + getLegacySigOpCount tx
  ensure (nSigOps ≤ MAX_BLOCK_SIGOPS) (.dos 100 "ConnectBlock() : too many sigops")
  let posThisTx : CDiskTxPos := ⟨pindex.blockKeyInDB, state.nTxPos⟩
  let state := { state with
    nSigOps := nSigOps
    nTxPos := nextTxPos env fJustCheck tx state.nTxPos }
  let (state, inputsWithBFXT) ← connectByKind env txdb pindex ancestors posThisTx tx state
  .ok { state with
    mapQueuedChanges := Function.update state.mapQueuedChanges hashTx
      (some (CTxIndex.new posThisTx tx.vout.length))
    mapQueuedBFXTInputs :=
      Function.update state.mapQueuedBFXTInputs hashTx (some inputsWithBFXT) }

def connectTransactions (env : ChainEnv) (txdb : CTxDB) (block : CBlock) (pindex : CBlockIndex)
    (ancestors : List CBlockIndex) (fJustCheck : Bool) :
    List CTransaction → BlockState → Verdict BlockState
  | [], state => .ok state
  | tx :: vtx, state => do
    let state ← connectTransaction env txdb block pindex ancestors fJustCheck tx state
    connectTransactions env txdb block pindex ancestors fJustCheck vtx state

def firstTxPos (fJustCheck : Bool) (block : CBlock) : Nat :=
  if fJustCheck then 1 else headerSize + getSizeOfCompactSize block.vtx.length

def initialState (fJustCheck : Bool) (block : CBlock) : BlockState where
  nTxPos := firstTxPos fJustCheck block
  mapQueuedChanges := fun _ => none
  nFees := 0
  nValueIn := 0
  nValueOut := 0
  nStakeReward := 0
  mapQueuedBFXTInputs := fun _ => none
  nSigOps := 0
  issuedTokensSymbolsInThisBlock := fun _ => none

def checkWorkReward (env : ChainEnv) (coinbase : CTransaction) (nFees : Int) : Verdict Unit := do
  let nReward := getProofOfWorkReward env nFees
  let nValueOut ← ofCall (getValueOut coinbase)
  ensure (nValueOut ≤ nReward)
    (.dos 50 ("ConnectBlock() : coinbase reward exceeded (actual=" ++ toString nValueOut ++
      " vs calculated=" ++ toString nReward ++ ")"))

def checkStakeReward (env : ChainEnv) (txdb : CTxDB) (coinstake : CTransaction)
    (nStakeReward nFees : Int) : Verdict Unit :=
  match getCoinAge env txdb coinstake with
  | none =>
    .error (.logged ("ConnectBlock() : " ++ (env.getHash coinstake).toHex ++
      " unable to get coin age for coinstake"))
  | some nCoinAge =>
    ensure (nStakeReward ≤ getProofOfStakeReward nCoinAge nFees)
      (.dos 100 ("ConnectBlock() : coinstake pays too much(actual=" ++ toString nStakeReward ++
        " vs calculated=" ++ toString (getProofOfStakeReward nCoinAge nFees) ++ ")"))

/-- The comparison with the reward; `CheckBlock` makes sure of the shape. -/
def checkReward (env : ChainEnv) (txdb : CTxDB) (block : CBlock) (state : BlockState) :
    Verdict Unit :=
  match block.vtx with
  | [] => .error .assertFailed
  | [coinbase] => checkWorkReward env coinbase state.nFees
  | coinbase :: second :: _ =>
    if isCoinStake second then checkStakeReward env txdb second state.nStakeReward state.nFees
    else checkWorkReward env coinbase state.nFees

/-- Token data of the block is written; before the fork a failure is ignored. -/
def writeTokens (env : ChainEnv) (block : CBlock) : Verdict Unit :=
  if env.isForkActivated .tachyon then
    catchCall "Unable to get BFXT transaction written in ConnectBlock(). Error: "
      (env.writeBFXTBlockTransactionsToDisk block.vtx)
  else .ok ()

def connectBlock (env : ChainEnv) (txdb : CTxDB) (pindex : CBlockIndex)
    (ancestors : List CBlockIndex) (fJustCheck : Bool) (block : CBlock) : Verdict Connected := do
  checkBlock env (!fJustCheck) (!fJustCheck) false block
  let state ← connectTransactions env txdb block pindex ancestors fJustCheck block.vtx
    (initialState fJustCheck block)
  checkReward env txdb block state
  let pindex := { pindex with
    nMint := state.nValueOut - state.nValueIn + state.nFees
    nMoneySupply := (ancestors.head?.map (·.nMoneySupply)).getD 0 + state.nValueOut - state.nValueIn }
  ensure (txdb.writeBlockIndex pindex) (.logged "Connect() : WriteBlockIndex for pindex failed")
  if fJustCheck then .ok ⟨pindex, fun _ => none⟩
  else do
    ensure (txdb.updateTxIndex state.mapQueuedChanges)
      (.logged "ConnectBlock() : UpdateTxIndex failed")
    writeTokens env block
    ensure (∀ pprev ∈ ancestors.head?, txdb.writeBlockIndex pprev = true)
      (.logged "ConnectBlock() : WriteBlockIndex failed")
    .ok ⟨pindex, state.mapQueuedChanges⟩

end Bfx.BlockConnection
