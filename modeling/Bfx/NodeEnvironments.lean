import Bfx.TokenInputs

/-!
What the calls on inputs and the loop over the transactions of a block use of the
node: none of them uses all of it.
-/

namespace Bfx.NodeEnvironments

open BlockConnection CallOutcome ChainIndex InputConnection TokenInputs TokenTransaction Transaction

section Environments

variable {env env' : ChainEnv} {txdb txdb' : CTxDB}

/-- The parts of the node that the calls on inputs use. -/
structure SameNode (env env' : ChainEnv) : Prop where
  toNodeEnv_eq : env'.toNodeEnv = env.toNodeEnv
  fTestNet_eq : env'.fTestNet = env.fTestNet
  estimate_eq : env'.getTotalBlocksEstimate = env.getTotalBlocksEstimate
  text_eq : env'.txToString = env.txToString
  signature_eq : env'.verifySignature = env.verifySignature
  pool_eq : env'.mempoolLookup = env.mempoolLookup

theorem readers_eq (hindex : txdb'.readTxIndex = txdb.readTxIndex)
    (hread : txdb'.readTx = txdb.readTx) :
    txdb' = { txdb' with readTxIndex := txdb.readTxIndex, readTx := txdb.readTx } := by
  rw [← hindex, ← hread]

variable (henv : SameNode env env')
include henv

theorem SameNode.eq : env' = { env with
    getAdjustedTime := env'.getAdjustedTime
    hashPair := env'.hashPair
    getBlockHash := env'.getBlockHash
    getSerializeSize := env'.getSerializeSize
    checkProofOfWork := env'.checkProofOfWork
    checkBlockSignature := env'.checkBlockSignature
    getAllBFXTInputsOfTx := env'.getAllBFXTInputsOfTx
    assertIssuanceUniquenessInBlock := env'.assertIssuanceUniquenessInBlock
    writeBFXTBlockTransactionsToDisk := env'.writeBFXTBlockTransactionsToDisk } := by
  rw [← henv.toNodeEnv_eq, ← henv.fTestNet_eq, ← henv.estimate_eq, ← henv.text_eq,
    ← henv.signature_eq, ← henv.pool_eq]

-- The calls below use no other part, so both sides unfold to the same term.

theorem fetchInputs_congr (hindex : txdb'.readTxIndex = txdb.readTxIndex)
    (hread : txdb'.readTx = txdb.readTx) : fetchInputs env' txdb' = fetchInputs env txdb := by
  rw [henv.eq, readers_eq hindex hread]
  delta fetchInputs fetchEach ensureFetched
  rfl

theorem connectInputs_congr : connectInputs env' = connectInputs env := by
  rw [henv.eq]
  delta connectInputs checkInputs spendInputs
  rfl

omit henv

/-- What the token layer writes at the end does not show in the loop. -/
theorem connectTransactions_writer (writer : List CTransaction → Outcome Unit)
    (vtx : List CTransaction) (state : BlockState) :
    connectTransactions { env with writeBFXTBlockTransactionsToDisk := writer } txdb block pindex
        ancestors fJustCheck vtx state =
      connectTransactions env txdb block pindex ancestors fJustCheck vtx state := by
  have hsame : SameNode env { env with writeBFXTBlockTransactionsToDisk := writer } :=
    ⟨rfl, rfl, rfl, rfl, rfl, rfl⟩
  induction vtx generalizing state with
  | nil => rfl
  | cons tx vtx ih =>
    rw [connectTransactions, connectTransactions]
    simp only [connectTransaction, connectByKind, connectSpending, fetchInputs_congr hsame rfl rfl,
      connectInputs_congr hsame, ih]
    rfl

end Environments

section Tokens

variable {env env' : ChainEnv} {txdb txdb' : CTxDB} {bfxtTxs : UInt256 → Option BFXTTransaction}
  {mapQueuedBFXTInputs : UInt256 → Option (List InputPair)}
  {queuedAcceptedTxs : UInt256 → Option CTxIndex}

theorem getAllBFXTInputsOfTx_congr (henv : SameNode env env')
    (htime : env'.getAdjustedTime = env.getAdjustedTime)
    (hindex : txdb'.readTxIndex = txdb.readTxIndex) (hread : txdb'.readTx = txdb.readTx)
    (tx : CTransaction) :
    getAllBFXTInputsOfTx env' txdb' bfxtTxs mapQueuedBFXTInputs queuedAcceptedTxs tx =
      getAllBFXTInputsOfTx env txdb bfxtTxs mapQueuedBFXTInputs queuedAcceptedTxs tx := by
  have hfetch : fetchInputsForTokens env' txdb' queuedAcceptedTxs =
      fetchInputsForTokens env txdb queuedAcceptedTxs := by
    rw [henv.eq, htime, readers_eq hindex hread]
    delta fetchInputsForTokens fetchEach ensureFetched fetchedUntilFailure
    rfl
  have hpair : inputPair env' = inputPair env := by
    funext tx mapInputs txin
    simp only [inputPair, henv.toNodeEnv_eq]
  have hdata : tokenData env' bfxtTxs queuedAcceptedTxs = tokenData env bfxtTxs queuedAcceptedTxs := by
    funext inputsOf inTx
    simp only [tokenData, fetchBFXTTxFromDisk, setNull, henv.toNodeEnv_eq, htime]
  have hstd : ∀ left tx mapInputs,
      stdFetchedInputTxsToBFXT env' txdb' bfxtTxs mapQueuedBFXTInputs queuedAcceptedTxs left tx
          mapInputs =
        stdFetchedInputTxsToBFXT env txdb bfxtTxs mapQueuedBFXTInputs queuedAcceptedTxs left tx
          mapInputs := by
    intro left
    induction left with
    | zero => exact fun _ _ => rfl
    | succ left ih =>
      intro tx mapInputs
      simp only [stdFetchedInputTxsToBFXT, hpair, hdata, hfetch, ih, henv.toNodeEnv_eq]
  simp only [getAllBFXTInputsOfTx, hfetch, hstd]

end Tokens

end Bfx.NodeEnvironments
