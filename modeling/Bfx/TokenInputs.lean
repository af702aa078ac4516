import Bfx.InterpreterSafety
import Bfx.MintingBound
import Bfx.ParserSafety

/-!
The token data of the inputs of a transaction, `StdFetchedInputTxsToBFXT`, and
the accesses to it when the transaction is read.
-/

namespace Bfx.TokenInputs

open CallOutcome ChainIndex HexText InputConnection InterpreterSafety MintingBound ParserSafety
  TokenReading TokenScript TokenTransaction TransferConservation TransferInterpreter
  TransferSemantics Transaction List

variable {self : BFXTTransaction} {vin : List CTxIn}

section Model

variable (env : ChainEnv)

/-- The hash and the type of the transaction are not cleared. -/
def setNull (self : BFXTTransaction) : BFXTTransaction :=
  { self with
    vin := []
    vout := []
    nLockTime := 0
    nTime := (env.getAdjustedTime * 1000).toNat }

def nullTransaction : CTransaction := ⟨env.getAdjustedTime.toNat, [], [], 0⟩

variable (txdb : CTxDB) (bfxtTxs : UInt256 → Option BFXTTransaction)
  (mapQueuedBFXTInputs : UInt256 → Option (List InputPair))
  (queuedAcceptedTxs : UInt256 → Option CTxIndex)

/-- What the loop of `FetchInputs` leaves in the map, also when it is left early:
the element of the input it fails at has been made by `operator[]`. -/
def fetchedUntilFailure (tx : CTransaction) : List CTxIn → MapPrevTx → MapPrevTx
  | [], inputsRet => inputsRet
  | txin :: vin, inputsRet =>
    match fetchInput env txdb queuedAcceptedTxs true false tx inputsRet txin.prevout with
    | .ok inputsRet => fetchedUntilFailure tx vin inputsRet
    | .error _ =>
      Function.update inputsRet txin.prevout.hash
        (some ((currentIndex txdb queuedAcceptedTxs txin.prevout.hash).getD ⟨.null, []⟩,
          nullTransaction env))

/-- Only an input out of range is an error, not one that is not found. -/
def fetchInputsForTokens (tx : CTransaction) : Outcome MapPrevTx :=
  if isCoinBase tx then .ok fun _ => none
  else
    match fetchEach env txdb queuedAcceptedTxs true false tx tx.vin fun _ => none with
    | .error _ => .ok (fetchedUntilFailure env txdb queuedAcceptedTxs tx tx.vin fun _ => none)
    | .ok inputsRet =>
      match ensureFetched env tx inputsRet tx.vin with
      | .error _ =>
        raise ("Error: For BFXT, FetchInputs found invalid tx " ++ (env.getHash tx).toHex)
      | .ok () => .ok inputsRet

/-- A record that cannot be read is cleared. -/
def fetchBFXTTxFromDisk (txPair : InputPair) : InputPair :=
  match bfxtTxs (env.getHash txPair.1) with
  | some bfxttx => (txPair.1, bfxttx)
  | none => (txPair.1, setNull env txPair.2)

/-- An input as it is before its token data is looked up. -/
def inputPair (tx : CTransaction) (mapInputs : MapPrevTx) (txin : CTxIn) : Outcome InputPair :=
  match mapInputs txin.prevout.hash with
  | none =>
    raise ("Could not find input after having fetched it (for BFXT database storage); for tx: " ++
      (env.getHash tx).toHex)
  | some (_, txPrev) =>
    .ok (txPrev, readBFXTDataFromTxMinimal env.toNodeEnv emptyBFXTTransaction txPrev)

/-- The token data of one input. `inputsOf` finds the inputs of a queued
transaction. -/
def tokenData (inputsOf : CTransaction → Outcome (List InputPair)) (inTx : InputPair) :
    Outcome InputPair :=
  if (isTxBFXT env.toNodeEnv inTx.1).isSome then
    if (bfxtTxs (env.getHash inTx.1)).isSome then .ok (fetchBFXTTxFromDisk env bfxtTxs inTx)
    else if (queuedAcceptedTxs (env.getHash inTx.1)).isSome then do
      let inputsOfInput ← inputsOf inTx.1
      let bfxttx ← readBFXTDataFromTx env.toNodeEnv inTx.2 inTx.1 inputsOfInput
      .ok (inTx.1, bfxttx)
    else .ok (fetchBFXTTxFromDisk env bfxtTxs inTx)
  else .ok inTx

/-- The first argument is the number of calls that are left: the recursion is
stopped at the count 32. -/
def stdFetchedInputTxsToBFXT : Nat → CTransaction → MapPrevTx → Outcome (List InputPair)
  | 0, _, _ => raise "Reached maximum recursion in StdFetchedInputTxsToBFXT"
  | left + 1, tx, mapInputs => do
    let inputsWithBFXT ← tx.vin.mapM (inputPair env tx mapInputs)
    match mapQueuedBFXTInputs (env.getHash tx) with
    | some queued => .ok queued
    | none =>
      inputsWithBFXT.mapM (tokenData env bfxtTxs queuedAcceptedTxs fun parent =>
        fetchInputsForTokens env txdb queuedAcceptedTxs parent >>= fun mapInputs =>
          stdFetchedInputTxsToBFXT left parent mapInputs)

def maxRecursion : Nat := 32

def getAllBFXTInputsOfTx (tx : CTransaction) : Outcome (List InputPair) :=
  fetchInputsForTokens env txdb queuedAcceptedTxs tx >>= fun mapInputs =>
    stdFetchedInputTxsToBFXT env txdb bfxtTxs mapQueuedBFXTInputs queuedAcceptedTxs maxRecursion
      tx mapInputs

end Model

section Outputs

/-- The outputs as they are before tokens are put on them. -/
def withoutTokens (vout : List BFXTTxOut) : List BFXTTxOut :=
  vout.map fun txout => { txout with tokens := [] }

theorem length_withoutTokens (vout : List BFXTTxOut) :
    (withoutTokens vout).length = vout.length :=
  length_map _

theorem withoutTokens_modify (vout : List BFXTTxOut) (i : Nat) (tokens : List BFXTTokenTxData) :
    withoutTokens (vout.modify i fun txout => { txout with tokens := txout.tokens ++ tokens }) =
      withoutTokens vout := by
  apply ext_getElem?
  intro k
  rw [withoutTokens, withoutTokens, List.getElem?_map, List.getElem?_map, List.getElem?_modify]
  cases vout[k]? with
  | none => rfl
  | some txout =>
    show some _ = some _
    split
    · rfl
    · rfl

variable {env : NodeEnv} {result : BFXTTransaction} {tx : CTransaction} {inputsTxs : List InputPair}
  {opReturnArg : String}

theorem withoutTokens_of_pushToken (hpush : pushToken vout outputIndex token = .ok vout') :
    withoutTokens vout' = withoutTokens vout := by
  obtain ⟨-, rfl⟩ := pushToken_eq_ok hpush
  exact withoutTokens_modify ..

theorem withoutTokens_pushBackTokens (tokens : List BFXTTokenTxData) (vout : List BFXTTxOut) :
    withoutTokens (pushBackTokens tokens vout) = withoutTokens vout :=
  withoutTokens_modify ..

theorem withoutTokens_of_runInstructions (hrun : runInstructions ctx i tis state = .ok final) :
    withoutTokens final.vout = withoutTokens state.vout := by
  induction tis generalizing i state with
  | nil => rw [Except.ok.inj hrun]
  | cons ti tis ih =>
    obtain ⟨_ | next, hstep, hrun⟩ := bind_eq_ok.mp hrun
    · rw [Except.ok.inj hrun]
    · refine (ih hrun).trans ?_
      obtain ⟨acting, first, hexecutes⟩ := executeInstruction_eq_some hstep
      have hcredited := hexecutes.credited
      rw [creditOutput] at hcredited
      split at hcredited
      · rw [Except.ok.inj hcredited]
      · exact withoutTokens_of_pushToken hcredited

theorem transferTokens_keeps
    (htransfer : transferTokens env self script tx inputsTxs burnOutput31 = .ok result) :
    result = { self with vout := result.vout } ∧
      withoutTokens result.vout = withoutTokens self.vout := by
  simp only [transferTokens, bind_eq_ok] at htransfer
  obtain ⟨_, -, _, -, slots, -, state, hrun, vout, hchange, htransfer⟩ := htransfer
  cases htransfer
  refine ⟨rfl, ?_⟩
  rw [creditChange] at hchange
  split at hchange
  · cases hchange
  cases hchange
  calc
    _ = withoutTokens (pushBackTokens _ state.vout) := map_map
    _ = withoutTokens state.vout := withoutTokens_pushBackTokens _ _
    _ = withoutTokens self.vout := withoutTokens_of_runInstructions hrun

theorem withoutTokens_of_issueInstructions
    (hissue : issueInstructions ctx instructions amount vout = .ok (left, vout')) :
    withoutTokens vout' = withoutTokens vout := by
  induction instructions generalizing amount vout with
  | nil => rw [(Prod.mk.inj (Except.ok.inj hissue)).2]
  | cons instruction instructions ih =>
    obtain ⟨-, -, token, pushed, -, hpush, hissue⟩ := issueInstructions_cons_eq_ok hissue
    exact (ih hissue).trans (withoutTokens_of_pushToken hpush)

theorem executeScript_keeps (hexecute : executeScript env self script tx inputsTxs opReturnArg
      totalInput totalOutput = .ok result) :
    result = { self with
        vout := result.vout, bfxtTransactionType := result.bfxtTransactionType } ∧
      withoutTokens result.vout = withoutTokens self.vout ∧
      result.bfxtTransactionType ∈ [.issuance, .transfer, .burn] ∧
      (script.txType = .issuance → result.bfxtTransactionType = .issuance) := by
  rcases executeScript_cases hexecute with ⟨_, _, _, -, -, hexecute⟩ | ⟨burn, htype, -, hexecute⟩
  · obtain ⟨-, _, _, issued, -, hissued, hpass, hresult⟩ := executeIssuance_eq_ok hexecute
    rw [hresult]
    refine ⟨rfl, ?_, by simp, fun _ => rfl⟩
    obtain ⟨⟨left, vout⟩, hinstructions, hremainder⟩ := bind_eq_ok.mp hissued
    obtain ⟨tokens, -, rfl, -⟩ := issueRemainder_eq_ok hremainder
    rw [(passInputTokens_eq_ok hpass).1, withoutTokens_pushBackTokens,
      withoutTokens_pushBackTokens, ← withoutTokens_of_issueInstructions hinstructions]
  · obtain ⟨hresult, hvout⟩ := transferTokens_keeps hexecute
    rw [hresult, htype]
    cases burn <;> exact ⟨rfl, hvout, by simp, nofun⟩

theorem readInputs_eq_ok (hread : readInputs env tx inputsTxs vin totalInput = .ok (txins, total)) :
    txins.map (·.prevout) = vin.map (·.prevout) ∧ ∀ txin ∈ vin, ∀ input,
      getPrevInputIt env tx txin.prevout.hash inputsTxs = .ok input →
        txin.prevout.n < input.1.vout.length := by
  induction vin generalizing totalInput total txins with
  | nil =>
    rw [← (Prod.mk.inj (Except.ok.inj hread)).1]
    exact ⟨rfl, nofun⟩
  | cons txin vin ih =>
    obtain ⟨⟨first, totalInput'⟩, hfirst, hread⟩ := bind_eq_ok.mp hread
    obtain ⟨⟨rest, total'⟩, hrest, hread⟩ := bind_eq_ok.mp hread
    cases hread
    obtain ⟨hprevouts, hchecked⟩ := ih hrest
    obtain ⟨input, prevOut, hinput, hprevOut, hprevout, -⟩ := readInput_eq_ok hfirst
    refine ⟨?_, forall_mem_cons.mpr ⟨fun other hother => ?_, hchecked⟩⟩
    · rw [map_cons, map_cons, hprevouts, hprevout]
    · obtain rfl := Except.ok.inj (hinput.symm.trans hother)
      exact (List.getElem?_eq_some_iff.mp hprevOut).1

/-- Token data that has been read from a transaction with a script. -/
structure ReadFrom (txHash : UInt256) (tx : CTransaction) (opReturnArg : String)
    (bfxttx : BFXTTransaction) : Prop where
  txHash_eq : bfxttx.txHash = txHash
  prevouts_eq : bfxttx.vin.map (·.prevout) = tx.vin.map (·.prevout)
  vout_eq : withoutTokens bfxttx.vout = tx.vout.map readTxOut
  type_ne : bfxttx.bfxtTransactionType ≠ .unknown
  parsed : ∃ script, parseScript opReturnArg = .ok script ∧
    (script.txType = .issuance → bfxttx.bfxtTransactionType = .issuance)

variable (htoken : isTxBFXT env tx = some opReturnArg)
include htoken

variable (hread : readBFXTDataFromTx env self tx inputsTxs = .ok result)
include hread

theorem readFrom_of_readBFXTDataFromTx :
    ReadFrom (env.getHash tx) tx opReturnArg result := by
  rw [readBFXTDataFromTx_of_token self inputsTxs htoken] at hread
  obtain ⟨totalOutput, vin, totalInput, script, -, hinputs, hscript, hread⟩ :=
    readTokenScript_eq_ok hread
  obtain ⟨hresult, hvout, htype, hissuance⟩ := executeScript_keeps hread
  refine ⟨?_, ?_, ?_, fun h => ?_, script, hscript, hissuance⟩
  · rw [hresult]
    rfl
  · rw [hresult]
    exact (readInputs_eq_ok hinputs).1
  · exact hvout.trans map_map
  · simp [h] at htype

omit hread

omit htoken

end Outputs

section Bounds

variable {env : NodeEnv} {tx : CTransaction} {inputsTxs : List InputPair}

/-- Every input is found with the output it spends. -/
def SpendsOutputs (env : NodeEnv) (tx : CTransaction) (inputsTxs : List InputPair)
    (vin : List CTxIn) : Prop :=
  ∀ txin ∈ vin, ∀ input, getPrevInputIt env tx txin.prevout.hash inputsTxs = .ok input →
    txin.prevout.n < input.2.vout.length

theorem inBoundsAt_loadInputs (hspends : SpendsOutputs env tx inputsTxs vin) :
    InBoundsAt .prevVout (loadInputs env tx inputsTxs vin) := by
  induction vin with
  | nil => exact inBoundsAt_ok _ _
  | cons txin vin ih =>
    obtain ⟨hfirst, hrest⟩ := forall_mem_cons.mp hspends
    refine inBoundsAt_bind.mpr ⟨inBoundsAt_bind.mpr ⟨inBoundsAt_getPrevInputIt _ env tx _ _, ?_⟩, ?_⟩
    · intro input hinput
      rw [index_of_lt (hfirst input hinput)]
      exact inBoundsAt_ok _ _
    · intro slots _
      exact inBoundsAt_bind.mpr ⟨ih hrest, fun _ _ => inBoundsAt_ok _ _⟩

theorem inBoundsAt_passInputTokens (vout : List BFXTTxOut)
    (hspends : SpendsOutputs env tx inputsTxs vin) :
    InBoundsAt .prevVout (passInputTokens env tx inputsTxs vin vout) := by
  induction vin generalizing vout with
  | nil => exact inBoundsAt_ok _ _
  | cons txin vin ih =>
    obtain ⟨hfirst, hrest⟩ := forall_mem_cons.mp hspends
    refine inBoundsAt_bind.mpr ⟨inBoundsAt_getPrevInputIt _ env tx _ _, ?_⟩
    intro input hinput
    rw [index_of_lt (hfirst input hinput), ok_bind]
    exact inBoundsAt_ite (inBoundsAt_raise _ _) (ih _ hrest)

theorem inBoundsAt_issuedToken (ctx : IssuanceContext) (amount : Nat) :
    InBoundsAt .prevVout (issuedToken ctx amount) := by
  have hunhex : ∀ text, InBoundsAt .prevVout (unhex text) :=
    fun text => inBounds_unhexChars text.toList .prevVout
  refine inBoundsAt_bind.mpr ⟨?_, fun _ _ => inBoundsAt_ok _ _⟩
  refine inBoundsAt_ite (inBoundsAt_raise _ _) ?_
  refine inBoundsAt_bind.mpr ⟨hunhex _, ?_⟩
  intro divisibilityBin _
  refine inBoundsAt_bind.mpr ⟨inBoundsAt_bind.mpr ⟨?_, fun _ _ => hunhex _⟩,
    fun _ _ => inBoundsAt_ok _ _⟩
  unfold getAggregAndLockStatusTokenIDHexValue
  split
  all_goals simp

theorem inBoundsAt_issueOutputs (ctx : IssuanceContext) (instructions : List TransferInstruction)
    (amount : Nat) (vout : List BFXTTxOut) :
    InBoundsAt .prevVout (issueOutputs ctx instructions amount vout) := by
  have hpush : ∀ vout outputIndex token, InBoundsAt .prevVout (pushToken vout outputIndex token) :=
    fun _ _ _ => inBoundsAt_ite (inBoundsAt_ok _ _) (by simp [InBoundsAt])
  have hinstructions :
      InBoundsAt .prevVout (issueInstructions ctx instructions amount vout) := by
    induction instructions generalizing amount vout with
    | nil => exact inBoundsAt_ok _ _
    | cons instruction instructions ih =>
      refine inBoundsAt_ite (inBoundsAt_raise _ _) (inBoundsAt_ite (inBoundsAt_raise _ _) ?_)
      refine inBoundsAt_bind.mpr ⟨inBoundsAt_issuedToken ctx _, ?_⟩
      intro token _
      exact inBoundsAt_bind.mpr ⟨hpush _ _ _, fun _ _ => ih _ _⟩
  refine inBoundsAt_bind.mpr ⟨hinstructions, ?_⟩
  rintro ⟨left, vout⟩ _
  refine inBoundsAt_ite (inBoundsAt_ite ?_ (inBoundsAt_raise _ _)) (inBoundsAt_ok _ _)
  exact inBoundsAt_bind.mpr ⟨inBoundsAt_issuedToken ctx _, fun _ _ => inBoundsAt_ok _ _⟩

theorem inBoundsAt_executeScript (hvin : self.vin.length = tx.vin.length)
    (hspends : SpendsOutputs env tx inputsTxs tx.vin) (script : BFXTScript) (opReturnArg : String)
    (totalInput totalOutput : Int) :
    InBoundsAt .prevVout
      (executeScript env self script tx inputsTxs opReturnArg totalInput totalOutput) := by
  unfold executeScript
  split
  · refine inBoundsAt_ite (inBoundsAt_raise _ _) ?_
    split
    · exact inBoundsAt_raise _ _
    refine inBoundsAt_bind.mpr ⟨inBoundsAt_issueOutputs _ _ _ _, ?_⟩
    intro vout _
    exact inBoundsAt_bind.mpr
      ⟨inBoundsAt_passInputTokens vout hspends, fun _ _ => inBoundsAt_ok _ _⟩
  · exact inBoundsAt_transferTokens Storage.noConfusion (by exact hvin)
      (inBoundsAt_loadInputs hspends) _ _
  · exact inBoundsAt_transferTokens Storage.noConfusion (by exact hvin)
      (inBoundsAt_loadInputs hspends) _ _
  · exact inBoundsAt_raise _ _
  · exact inBoundsAt_raise _ _
  · exact inBoundsAt_raise _ _

theorem inBoundsAt_readInputs (vin : List CTxIn) (totalInput : Int) :
    InBoundsAt .prevVout (readInputs env tx inputsTxs vin totalInput) := by
  induction vin generalizing totalInput with
  | nil => exact inBoundsAt_ok _ _
  | cons txin vin ih =>
    refine inBoundsAt_bind.mpr ⟨?_, ?_⟩
    · refine inBoundsAt_bind.mpr ⟨inBoundsAt_getPrevInputIt _ env tx _ _, ?_⟩
      intro input _
      refine inBoundsAt_bind.mpr ⟨inBoundsAt_checkedAt _ _ _, ?_⟩
      intro prevOut _
      dsimp only
      split
      · exact inBoundsAt_ok _ _
      · refine inBoundsAt_ite ?_ (inBoundsAt_ok _ _)
        exact inBoundsAt_bind.mpr ⟨inBoundsAt_checkedAt _ _ _, fun _ _ => inBoundsAt_ok _ _⟩
    · rintro ⟨input, totalInput⟩ _
      exact inBoundsAt_bind.mpr ⟨ih _, fun _ _ => inBoundsAt_ok _ _⟩

theorem inBoundsAt_getValueOut (tx : CTransaction) : InBoundsAt .prevVout (getValueOut tx) := by
  unfold getValueOut
  generalize (0 : Int) = nValueOut
  induction tx.vout generalizing nValueOut with
  | nil => exact inBoundsAt_ok _ _
  | cons txout vout ih => exact inBoundsAt_ite (inBoundsAt_raise _ _) (ih _)

/-- Inputs whose token data has as many outputs as the transaction are never
left. -/
theorem inBoundsAt_readBFXTDataFromTx
    (hpairs : ∀ input ∈ inputsTxs, input.2.vout.length = input.1.vout.length)
    (self : BFXTTransaction) :
    InBoundsAt .prevVout (readBFXTDataFromTx env self tx inputsTxs) := by
  refine inBoundsAt_ite (inBoundsAt_ok _ _) ?_
  split
  · exact inBoundsAt_ok _ _
  rename_i opReturnArg htoken
  refine inBoundsAt_ite (inBoundsAt_raise _ _) ?_
  refine inBoundsAt_bind.mpr ⟨inBoundsAt_getValueOut tx, ?_⟩
  intro totalOutput _
  refine inBoundsAt_bind.mpr ⟨inBoundsAt_readInputs _ _, ?_⟩
  rintro ⟨vin, totalInput⟩ hread
  obtain ⟨hprevouts, hchecked⟩ := readInputs_eq_ok hread
  have hspends : SpendsOutputs env tx inputsTxs tx.vin := by
    intro txin htxin input hinput
    rw [hpairs input (mem_of_getPrevInputIt hinput).1]
    exact hchecked txin htxin input hinput
  refine inBoundsAt_bind.mpr ⟨inBoundsAt_ite (inBoundsAt_ok _ _) (inBoundsAt_raise _ _), ?_⟩
  intro _ _
  refine inBoundsAt_bind.mpr ⟨inBoundsAt_ite (inBoundsAt_ok _ _) (inBoundsAt_raise _ _), ?_⟩
  intro _ _
  refine inBoundsAt_ite (inBoundsAt_raise _ _) ?_
  refine inBoundsAt_bind.mpr ⟨inBoundsAt_parseScript (by simp) _, ?_⟩
  intro script _
  exact inBoundsAt_executeScript (by simpa using congrArg length hprevouts) hspends script _ _ _

end Bounds

section Presence

variable (env : ChainEnv) (txdb : CTxDB) (bfxtTxs : UInt256 → Option BFXTTransaction)
  (mapQueuedBFXTInputs : UInt256 → Option (List InputPair))
  (queuedAcceptedTxs : UInt256 → Option CTxIndex)

/-- An input is paired with the transaction that was fetched for it and with
token data that has its outputs. -/
def Paired (mapInputs : MapPrevTx) (txin : CTxIn) (input : InputPair) : Prop :=
  (∃ txindex, mapInputs txin.prevout.hash = some (txindex, input.1)) ∧
    input.2.vout.length = input.1.vout.length ∧ txin.prevout.n < input.2.vout.length

/-- The token data of all inputs is there when the transaction is read. -/
structure TokensPresent (tx : CTransaction) (mapInputs : MapPrevTx)
    (inputsTxs : List InputPair) : Prop where
  paired : List.Forall₂ (Paired mapInputs) tx.vin inputsTxs
  in_bounds : InBoundsAt .prevVout
    (readBFXTDataFromTx env.toNodeEnv emptyBFXTTransaction tx inputsTxs)

/-- A token transaction has a record with its outputs, or it is queued and has
no record. -/
def Recorded (txPrev : CTransaction) : Prop :=
  (∃ bfxttx ∈ bfxtTxs (env.getHash txPrev), bfxttx.vout.length = txPrev.vout.length) ∨
    (bfxtTxs (env.getHash txPrev) = none ∧ (queuedAcceptedTxs (env.getHash txPrev)).isSome)

/-- What the database and the queues must hold before the call. -/
def TokensRecorded (tx : CTransaction) (mapInputs : MapPrevTx) : Prop :=
  match mapQueuedBFXTInputs (env.getHash tx) with
  | some queued => List.Forall₂ (Paired mapInputs) tx.vin queued
  | none =>
    ∀ txin ∈ tx.vin, ∀ txindex txPrev, mapInputs txin.prevout.hash = some (txindex, txPrev) →
      (isTxBFXT env.toNodeEnv txPrev).isSome → Recorded env bfxtTxs queuedAcceptedTxs txPrev

variable {env txdb bfxtTxs mapQueuedBFXTInputs queuedAcceptedTxs}

variable {tx : CTransaction} {mapInputs : MapPrevTx}

/-- The token data of one input has its outputs exactly if it is recorded. -/
theorem tokenData_eq_ok (hminimal : inTx.2.vout.length = inTx.1.vout.length)
    (hdata : tokenData env bfxtTxs queuedAcceptedTxs inputsOf inTx = .ok input) :
    input.1 = inTx.1 ∧ (input.2.vout.length = input.1.vout.length ↔
      ((isTxBFXT env.toNodeEnv inTx.1).isSome →
        Recorded env bfxtTxs queuedAcceptedTxs inTx.1)) := by
  rw [tokenData] at hdata
  split at hdata
  · rename_i htoken
    rw [Recorded, forall_prop_of_true htoken]
    cases hrecord : bfxtTxs (env.getHash inTx.1) with
    | some bfxttx =>
      rw [hrecord, Option.isSome_some, if_pos rfl, fetchBFXTTxFromDisk, hrecord] at hdata
      cases hdata
      simp
    | none =>
      rw [hrecord, Option.isSome_none, if_neg Bool.false_ne_true] at hdata
      split at hdata
      · rename_i hqueued
        obtain ⟨inputsOfInput, -, hdata⟩ := bind_eq_ok.mp hdata
        obtain ⟨bfxttx, hread, hdata⟩ := bind_eq_ok.mp hdata
        cases hdata
        obtain ⟨opReturnArg, hscript⟩ := Option.isSome_iff_exists.mp htoken
        refine ⟨rfl, iff_of_true ?_ (.inr ⟨rfl, hqueued⟩)⟩
        rw [← length_withoutTokens, (readFrom_of_readBFXTDataFromTx hscript hread).vout_eq,
          length_map]
      rename_i hqueued
      rw [fetchBFXTTxFromDisk, hrecord] at hdata
      cases hdata
      -- the record has been cleared, but the transaction has an output
      refine ⟨rfl, iff_of_false ?_ ?_⟩
      · intro hlength
        exact vout_ne_nil_of_isTxBFXT htoken (eq_nil_of_length_eq_zero hlength.symm)
      rintro (⟨bfxttx, hmem, -⟩ | ⟨-, hsome⟩)
      · cases hmem
      · exact hqueued hsome
  rename_i htoken
  cases hdata
  exact ⟨rfl, iff_of_true hminimal fun h => absurd h htoken⟩

theorem prevout_lt_of_ensureFetched (hensure : ensureFetched env tx mapInputs vin = .ok ()) :
    ∀ txin ∈ vin, ∀ txindex txPrev, mapInputs txin.prevout.hash = some (txindex, txPrev) →
      txin.prevout.n < txPrev.vout.length := by
  induction vin with
  | nil => exact nofun
  | cons txin vin ih =>
    rw [ensureFetched] at hensure
    split at hensure
    · cases hensure
    rename_i txindex txPrev hprev
    obtain ⟨_, hrange, hensure⟩ := bind_eq_ok.mp hensure
    refine forall_mem_cons.mpr ⟨?_, ih hensure⟩
    intro txindex' txPrev' hprev'
    obtain ⟨-, rfl⟩ := Prod.mk.inj (Option.mem_unique hprev hprev')
    exact (ensure_eq_ok.mp hrange).1

/-- When a block is connected the inputs are fetched again, from the same maps. -/
theorem getAllBFXTInputsOfTx_of_fetchInputs
    (hfetch : fetchInputs env txdb queuedAcceptedTxs true false tx (fun _ => none) =
      .ok mapInputs) :
    getAllBFXTInputsOfTx env txdb bfxtTxs mapQueuedBFXTInputs queuedAcceptedTxs tx =
      stdFetchedInputTxsToBFXT env txdb bfxtTxs mapQueuedBFXTInputs queuedAcceptedTxs maxRecursion
        tx mapInputs := by
  have hsame : fetchInputsForTokens env txdb queuedAcceptedTxs tx = .ok mapInputs := by
    rw [fetchInputs] at hfetch
    rw [fetchInputsForTokens]
    split at hfetch
    · rename_i hcoinbase
      rw [if_pos hcoinbase, Except.ok.inj hfetch]
    rename_i hspending
    obtain ⟨inputsRet, heach, hfetch⟩ := bind_eq_ok.mp hfetch
    obtain ⟨_, hensure, hfetch⟩ := bind_eq_ok.mp hfetch
    rw [if_neg hspending, heach]
    dsimp only
    rw [hensure, Except.ok.inj hfetch]
  rw [getAllBFXTInputsOfTx, hsame, ok_bind]

theorem forall₂_iff_of_steps {P : α → Prop} (hR : List.Forall₂ R l l') (hS : List.Forall₂ S l' l'')
    (hstep : ∀ a ∈ l, ∀ b c, R a b → S b c → (T a c ↔ P a)) :
    List.Forall₂ T l l'' ↔ ∀ a ∈ l, P a := by
  induction hR generalizing l'' with
  | nil =>
    cases hS
    exact iff_of_true .nil nofun
  | @cons a b l l' hab _ ih =>
    obtain ⟨c, l'', hbc, htail, rfl⟩ := forall₂_cons_left_iff.mp hS
    obtain ⟨hfirst, hrest⟩ := forall_mem_cons.mp hstep
    rw [forall₂_cons, forall_mem_cons, hfirst b c hab hbc, ih htail hrest]

theorem TokensPresent.of_paired (hpaired : List.Forall₂ (Paired mapInputs) tx.vin inputsTxs) :
    TokensPresent env tx mapInputs inputsTxs := by
  refine ⟨hpaired, inBoundsAt_readBFXTDataFromTx (fun input hinput => ?_) _⟩
  obtain ⟨txin, -, hpair⟩ := exists_of_forall₂ hpaired.flip hinput
  exact hpair.2.1

/-- The token data of every spent input is there exactly if it is recorded. -/
theorem stdFetchedInputTxsToBFXT_tokensPresent_iff (env : ChainEnv) (txdb : CTxDB)
    (bfxtTxs : UInt256 → Option BFXTTransaction)
    (mapQueuedBFXTInputs : UInt256 → Option (List InputPair))
    (mapTestPool queuedAcceptedTxs : UInt256 → Option CTxIndex) (fBlock fMiner : Bool) (left : Nat)
    (tx : CTransaction) (mapInputs : MapPrevTx) (inputsTxs : List InputPair)
    (hfetch : fetchInputs env txdb mapTestPool fBlock fMiner tx (fun _ => none) = .ok mapInputs)
    (hinputs : stdFetchedInputTxsToBFXT env txdb bfxtTxs mapQueuedBFXTInputs queuedAcceptedTxs left
      tx mapInputs = .ok inputsTxs) :
    TokensPresent env tx mapInputs inputsTxs ↔
      TokensRecorded env bfxtTxs mapQueuedBFXTInputs queuedAcceptedTxs tx mapInputs := by
  suffices hpaired : List.Forall₂ (Paired mapInputs) tx.vin inputsTxs ↔
      TokensRecorded env bfxtTxs mapQueuedBFXTInputs queuedAcceptedTxs tx mapInputs from
    ⟨fun hpresent => hpaired.mp hpresent.paired,
      fun hrecorded => TokensPresent.of_paired (hpaired.mpr hrecorded)⟩
  rcases left with _ | left
  · cases hinputs
  rw [stdFetchedInputTxsToBFXT] at hinputs
  obtain ⟨pairs, hpairs, hinputs⟩ := bind_eq_ok.mp hinputs
  rw [TokensRecorded]
  split at hinputs
  · rw [Except.ok.inj hinputs]
  refine forall₂_iff_of_steps (mapM_eq_ok.mp hpairs) (mapM_eq_ok.mp hinputs) ?_
  intro txin htxin pair input hpair hdata
  rw [inputPair] at hpair
  split at hpair
  · cases hpair
  rename_i txindex txPrev hprev
  cases hpair
  obtain ⟨hfirst, hlength⟩ := tokenData_eq_ok (length_map _) hdata
  have hlt : txin.prevout.n < txPrev.vout.length := by
    rw [fetchInputs] at hfetch
    split at hfetch
    · cases hfetch
      cases hprev
    obtain ⟨inputsRet, -, hfetch⟩ := bind_eq_ok.mp hfetch
    obtain ⟨_, hensure, hfetch⟩ := bind_eq_ok.mp hfetch
    cases hfetch
    exact prevout_lt_of_ensureFetched hensure txin htxin txindex txPrev hprev
  constructor
  · rintro ⟨-, hsame, -⟩ txindex' txPrev' hprev'
    obtain ⟨-, rfl⟩ := Prod.mk.inj (Option.mem_unique hprev hprev')
    exact hlength.mp hsame
  intro hrecorded
  have hsame := hlength.mpr (hrecorded txindex txPrev hprev)
  refine ⟨⟨txindex, ?_⟩, hsame, ?_⟩
  · rw [hfirst, hprev]
  · rw [hsame, hfirst]
    exact hlt

/-! An unconfirmed issuance and a transfer that spends one of its outputs, with
the empty maps that the memory pool passes. -/

def parentTx : CTransaction :=
  ⟨3, [⟨⟨1, 0⟩, []⟩],
    [⟨0, [0x6a, 0x0e, 0x4e, 0x54, 0x03, 0x01, 0x41, 0x42, 0x43, 0x44, 0x45, 0x05, 0x01, 0x00, 3,
      0]⟩, ⟨COIN, [0x51]⟩], 0⟩

def childTx : CTransaction :=
  ⟨4, [⟨⟨3, 1⟩, []⟩],
    [⟨COIN - MIN_TX_FEE, [0x51]⟩, ⟨0, [0x6a, 0x07, 0x4e, 0x54, 0x03, 0x10, 0x01, 0x00, 0x01]⟩], 0⟩

def poolEnv : ChainEnv :=
  { workEnv with
    nBestHeight := 200000
    mempoolLookup := fun hash => if hash = 3 then some parentTx else none }

def parentRecord : BFXTTransaction :=
  ⟨3, [⟨⟨1, 0⟩, "", []⟩], [⟨0, "", "", []⟩, ⟨COIN, "", "", [fiveTokens]⟩], 0, 0, .issuance⟩

def parentRecords : UInt256 → Option BFXTTransaction :=
  fun hash => if hash = 3 then some parentRecord else none

theorem stdFetchedInputTxsToBFXT_recorded_parent :
    ∃ mapInputs inputsTxs,
      fetchInputs poolEnv workDb (fun _ => none) false false childTx (fun _ => none) =
        .ok mapInputs ∧
      stdFetchedInputTxsToBFXT poolEnv workDb parentRecords (fun _ => none) (fun _ => none)
        maxRecursion childTx mapInputs = .ok inputsTxs ∧
      TokensPresent poolEnv childTx mapInputs inputsTxs := by
  refine ⟨_, _, rfl, rfl, ?_⟩
  refine (stdFetchedInputTxsToBFXT_tokensPresent_iff poolEnv workDb parentRecords (fun _ => none)
    (fun _ => none) (fun _ => none) false false maxRecursion childTx _ _ rfl rfl).mpr ?_
  intro txin htxin txindex txPrev hprev _
  obtain rfl := mem_singleton.mp htxin
  cases hprev
  exact .inl ⟨parentRecord, rfl, rfl⟩

/-- The parent has no record: its outputs are gone and the transfer indexes them
out of range. -/
theorem stdFetchedInputTxsToBFXT_unconfirmed_parent :
    ∃ mapInputs inputsTxs,
      fetchInputs poolEnv workDb (fun _ => none) false false childTx (fun _ => none) =
        .ok mapInputs ∧
      stdFetchedInputTxsToBFXT poolEnv workDb (fun _ => none) (fun _ => none) (fun _ => none)
        maxRecursion childTx mapInputs = .ok inputsTxs ∧
      inputsTxs.map (fun input => (input.1.vout.length, input.2.vout.length)) = [(2, 0)] ∧
      readBFXTDataFromTx poolEnv.toNodeEnv emptyBFXTTransaction childTx inputsTxs =
        .error (.outOfBounds .prevVout) := by
  refine ⟨_, _, rfl, rfl, ?_, ?_⟩
  · decide +kernel
  · decide +kernel

end Presence

end Bfx.TokenInputs
