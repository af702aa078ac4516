import Bfx.TransferInterpreter

/-!
The selection of token inputs for a transaction, `selectBFXTTokens`, and the
transfer instructions it makes. Orders that the code leaves to containers, to
the random shuffle and to the sort are parameters.
-/

namespace Bfx.TokenSelector

open CallOutcome HexText TokenScript TokenTransaction TransferInterpreter Transaction

structure BFXTSendTokensOneRecipientData where
  tokenId : String
  destination : String
  amount : Int
  deriving DecidableEq, Repr

structure IssueTokenData where
  amount : Nat
  symbol : Bytes
  metadata : Bytes

structure IntermediaryTI where
  TIs : List TransferInstruction
  input : COutPoint
  isBFXTTokenIssuance : Bool
  deriving DecidableEq, Repr

/-- The output index that stands for change. -/
def changeOutputFakeIndex : Nat := 10000000

def neblTokenId : String := "BFX"

def toIssueTokenId : String := "NEW"

structure BFXTWallet where
  walletOutputsWithTokens : List (COutPoint × BFXTTransaction)
  balances : String → Option Int
  getTokenName : String → String

/-- The orders that the code does not fix, with what is known of them. -/
structure SelectionOrder where
  uniqueInputs : List COutPoint → List COutPoint
  shuffle : List COutPoint → List COutPoint
  sort : (COutPoint → Nat) → List COutPoint → List COutPoint
  uniqueInputs_nodup : ∀ inputs, (uniqueInputs inputs).Nodup
  mem_uniqueInputs : ∀ inputs input, input ∈ uniqueInputs inputs ↔ input ∈ inputs
  shuffle_perm : ∀ inputs, (shuffle inputs).Perm inputs
  sort_perm : ∀ count inputs, (sort count inputs).Perm inputs
  sort_sorted : ∀ count inputs, (sort count inputs).Pairwise fun o1 o2 => count o2 ≤ count o1

structure BFXTSendTxData where
  tokenSourceInputs : List COutPoint
  intermediaryTIs : List IntermediaryTI
  /-- The map without its zero entries, as a function. -/
  totalChangeTokens : String → Nat
  totalTokenAmountsInSelectedInputs : String → Nat
  recipientsList : List BFXTSendTokensOneRecipientData

def addRequired (tokenId : String) (amount : Int) : List (String × Int) → List (String × Int)
  | [] => [(tokenId, amount)]
  | (other, required) :: rest =>
    if tokenId = other then (other, required + amount) :: rest
    else if tokenId < other then (tokenId, amount) :: (other, required) :: rest
    else (other, required) :: addRequired tokenId amount rest

/-- A map from token ids to amounts, in the order of its keys. -/
def calculateRequiredTokenAmounts (recipients : List BFXTSendTokensOneRecipientData) :
    List (String × Int) :=
  recipients.foldl (fun requiredAmounts r =>
    if r.tokenId = toIssueTokenId then requiredAmounts
    else addRequired r.tokenId r.amount requiredAmounts) []

def verifyBFXTIssuanceRecipientsValidity (tokenToIssueData : Option IssueTokenData)
    (recipients : List BFXTSendTokensOneRecipientData) : Outcome Unit :=
  let issuanceCount := recipients.countP fun r => r.tokenId = toIssueTokenId
  if issuanceCount > 1 then
    raise "Only one recipient of an issuance transaction can be present."
  else if issuanceCount > 0 ∧ tokenToIssueData.isNone then
    raise ("While a recipient was spicified to receive newly minted tokens, no " ++
      "issuance data was speicified.")
  else if issuanceCount = 0 ∧ tokenToIssueData.isSome then
    raise ("While issuance data was provided, no recipient for issued/minted " ++
      "tokens was specified in the list of recipients.")
  else .ok ()

/-- `getIndex() + 1 > getTxOutCount()`, in which the sum is an `unsigned int`. -/
def indexOutOfRange (input : COutPoint) (tx : BFXTTransaction) : Bool :=
  (input.n + 1) % 2 ^ 32 > tx.vout.length

def findOutput (wallet : BFXTWallet) (output : COutPoint) : Option BFXTTransaction :=
  wallet.walletOutputsWithTokens.lookup output

def addAmounts (tokens : List BFXTTokenTxData) (balances : String → Option Int) :
    String → Option Int :=
  tokens.foldl (fun balances token tokenId =>
    if tokenId = token.tokenId then some ((balances tokenId).getD 0 + token.amount)
    else balances tokenId) balances

def balancesOfInputs (wallet : BFXTWallet) :
    List COutPoint → (String → Option Int) → Outcome (String → Option Int)
  | [], balancesMap => .ok balancesMap
  | input :: inputs, balancesMap =>
    match findOutput wallet input with
    | none => balancesOfInputs wallet inputs balancesMap
    | some tx =>
      if indexOutOfRange input tx then
        raise ("An output you have of transaction " ++ tx.txHash.toHex ++
          " claims that you have an invalid output number: " ++ toString input.n)
      else
        index .prevVout tx.vout input.n >>= fun txout =>
          balancesOfInputs wallet inputs (addAmounts txout.tokens balancesMap)

def getAvailableTokenBalances (wallet : BFXTWallet) (inputs : List COutPoint)
    (useBalancesFromWallet : Bool) : Outcome (String → Option Int) :=
  if useBalancesFromWallet then .ok wallet.balances
  else balancesOfInputs wallet inputs fun _ => none

def ensureCovered (wallet : BFXTWallet) (balancesMap : String → Option Int) :
    List (String × Int) → Outcome Unit
  | [] => .ok ()
  | (tokenId, required) :: targetAmounts =>
    if tokenId = neblTokenId ∨ tokenId = toIssueTokenId then
      ensureCovered wallet balancesMap targetAmounts
    else
      match balancesMap tokenId with
      | some available =>
        if required > available then
          raise ("Your balance/selected inputs is not sufficient to cover for " ++
            wallet.getTokenName tokenId)
        else ensureCovered wallet balancesMap targetAmounts
      | none =>
        raise ("You're trying to spend tokens that you don't own or are not " ++
          "included in the inputs you selected; namely: " ++ wallet.getTokenName tokenId)

/-- The running values of the loop that chooses inputs. -/
structure Selection where
  availableOutputs : List COutPoint
  tokenSourceInputs : List COutPoint
  totals : String → Nat

def addTotals (tokens : List BFXTTokenTxData) (totals : String → Nat) : String → Nat :=
  tokens.foldl (fun totals token tokenId =>
    if tokenId = token.tokenId then totals tokenId + token.amount else totals tokenId) totals

/-- The loop over the available outputs for one token id; the outputs that are
not taken stay available. -/
def takeOutputs (wallet : BFXTWallet) (addMoreInputsIfRequired : Bool) (tokenId : String)
    (required : Int) : List COutPoint → Selection → Outcome Selection
  | [], selection => .ok selection
  | output :: outputs, selection =>
    match findOutput wallet output with
    | none =>
      takeOutputs wallet addMoreInputsIfRequired tokenId required outputs
        { selection with availableOutputs := selection.availableOutputs ++ [output] }
    | some tx =>
      index .prevVout tx.vout output.n >>= fun txout =>
        if addMoreInputsIfRequired = false ∨
            (txout.tokens.any fun token => token.tokenId = tokenId) ∧
              required - selection.totals tokenId > 0 then
          takeOutputs wallet addMoreInputsIfRequired tokenId required outputs
            { selection with
              tokenSourceInputs := selection.tokenSourceInputs ++ [output]
              totals := addTotals txout.tokens selection.totals }
        else
          takeOutputs wallet addMoreInputsIfRequired tokenId required outputs
            { selection with availableOutputs := selection.availableOutputs ++ [output] }

def fillInputs (wallet : BFXTWallet) (addMoreInputsIfRequired : Bool) :
    List (String × Int) → Selection → Outcome Selection
  | [], selection => .ok selection
  | (tokenId, required) :: targetAmounts, selection =>
    takeOutputs wallet addMoreInputsIfRequired tokenId required selection.availableOutputs
        { selection with availableOutputs := [] } >>=
      fillInputs wallet addMoreInputsIfRequired targetAmounts

/-- The tokens that the wallet knows on an output. -/
def walletTokens (wallet : BFXTWallet) (output : COutPoint) : List BFXTTokenTxData :=
  match findOutput wallet output with
  | none => []
  | some tx =>
    match tx.vout[output.n]? with
    | none => []
    | some txout => txout.tokens

/-- Both the comparison of the sort and the loop that fills `decreditMap` throw
on an index out of range. -/
def ensureIndices (wallet : BFXTWallet) (what : String) : List COutPoint → Outcome Unit
  | [] => .ok ()
  | input :: inputs =>
    match findOutput wallet input with
    | none => ensureIndices wallet what inputs
    | some tx =>
      if indexOutOfRange input tx then
        raise (what ++ input.hash.toHex ++ ":" ++ toString input.n)
      else index .prevVout tx.vout input.n >>= fun _ => ensureIndices wallet what inputs

def sortInputs (wallet : BFXTWallet) (order : SelectionOrder) (inputs : List COutPoint) :
    Outcome (List COutPoint) :=
  let sorted := order.sort (fun input => (walletTokens wallet input).length) inputs
  if inputs.length < 2 then .ok sorted
  else
    ensureIndices wallet
        "While sorting inputs in BFXT selector, output index is out of range for: " inputs >>=
      fun _ => .ok sorted

/-- The slots of `decreditMap`, one list for each input: the inputs have no
duplicates. -/
def decreditSlots (wallet : BFXTWallet) (inputs : List COutPoint) : List (List Slot) :=
  inputs.map fun input => (walletTokens wallet input).map fun token => ⟨token, token.amount⟩

/-- The loop over `k` in one input: the amount taken, the slots, and whether the
search ends here. -/
def takeFromInput (tokenId : String) : Nat → List Slot → Nat × List Slot × Bool
  | _, [] => (0, [], false)
  | needed, slot :: rest =>
    if Slot.tokenId slot ≠ tokenId then (0, slot :: rest, true)
    else if needed ≥ slot.left then
      let (amount, rest, stop) := takeFromInput tokenId (needed - slot.left) rest
      (slot.left + amount, ⟨slot.item, 0⟩ :: rest, stop)
    else (needed, ⟨slot.item, slot.left - needed⟩ :: rest, true)

/-- The loop over `v`, from the current slot on. -/
def takeFromInputs (tokenId : String) : Nat → List (List Slot) → Nat × List (List Slot)
  | _, [] => (0, [])
  | needed, input :: inputs =>
    let (amount, input, stop) := takeFromInput tokenId needed input
    if stop then (amount, input :: inputs)
    else
      let (more, inputs) := takeFromInputs tokenId (needed - amount) inputs
      (amount + more, input :: inputs)

/-- The loops that take all that is left of one token for change. -/
def sweepInput (tokenId : String) : List Slot → Nat × List Slot × Bool
  | [] => (0, [], false)
  | slot :: rest =>
    if Slot.tokenId slot ≠ tokenId then (0, slot :: rest, true)
    else
      let (amount, rest, stop) := sweepInput tokenId rest
      (slot.left + amount, ⟨slot.item, 0⟩ :: rest, stop)

def sweepInputs (tokenId : String) : List (List Slot) → Nat × List (List Slot)
  | [] => (0, [])
  | input :: inputs =>
    let (amount, input, stop) := sweepInput tokenId input
    if stop then (amount, input :: inputs)
    else
      let (more, inputs) := sweepInputs tokenId inputs
      (amount + more, input :: inputs)

def newTI (outputIndex amount : Nat) : TransferInstruction := ⟨1, false, outputIndex, [], amount⟩

/-- The running values of the loops that credit the recipients. The queue holds
the slots of `decreditMap` from the current one on. -/
structure Crediting where
  queue : List (List Slot)
  recps : List BFXTSendTokensOneRecipientData
  totalChangeTokens : String → Nat
  TIs : List TransferInstruction

/-- The loop over the recipients, from number `j` on. -/
def creditRecipients (tokenId : String) :
    Nat → List BFXTSendTokensOneRecipientData → List (List Slot) →
      Outcome (List BFXTSendTokensOneRecipientData × List (List Slot) × List TransferInstruction)
  | _, [], queue => .ok ([], queue, [])
  | j, r :: recps, queue =>
    if tokenId = r.tokenId ∧ r.amount > 0 then
      if r.tokenId = toIssueTokenId then
        raise ("An issuance transaction cannot have transfer elements " ++
          "in it except for the issued transaction. Everything " ++
          "else should go into change.")
      else
        let (amount, queue) := takeFromInputs tokenId r.amount.toNat queue
        creditRecipients tokenId (j + 1) recps queue >>= fun (recps, queue, TIs) =>
          .ok ({ r with amount := r.amount - amount } :: recps, queue,
            (if amount > 0 then [newTI j amount] else []) ++ TIs)
    else
      creditRecipients tokenId (j + 1) recps queue >>= fun (recps, queue, TIs) =>
        .ok (r :: recps, queue, TIs)

def frontLeft : List (List Slot) → Nat
  | (slot :: _) :: _ => slot.left
  | _ => 0

def dropFront : List (List Slot) → List (List Slot)
  | (_ :: input) :: inputs => input :: inputs
  | queue => queue

def addChange (tokenId : String) (amount : Nat) (totalChangeTokens : String → Nat) :
    String → Nat :=
  fun other => if other = tokenId then totalChangeTokens other + amount else totalChangeTokens other

/-- One slot: recipients first, then change. -/
def creditToken (tokenId : String) (state : Crediting) : Outcome Crediting :=
  creditRecipients tokenId 0 state.recps state.queue >>= fun (recps, queue, TIs) =>
    if frontLeft queue > 0 then
      let (amount, queue) := sweepInputs tokenId queue
      .ok ⟨queue, recps, addChange tokenId amount state.totalChangeTokens,
        state.TIs ++ TIs ++ [newTI changeOutputFakeIndex amount]⟩
    else .ok ⟨queue, recps, state.totalChangeTokens, state.TIs ++ TIs⟩

/-- The loop over the slots of the first input of the queue. -/
def creditInput : Nat → Crediting → Outcome Crediting
  | 0, state => .ok state
  | slots + 1, state =>
    match state.queue with
    | (slot :: _) :: _ =>
      creditToken (Slot.tokenId slot) state >>= fun state =>
        creditInput slots { state with queue := dropFront state.queue }
    | _ => .ok state

def creditInputs : List COutPoint → Crediting → Outcome (List IntermediaryTI × Crediting)
  | [], state => .ok ([], state)
  | input :: inputs, state =>
    creditInput (state.queue.headD []).length { state with TIs := [] } >>= fun credited =>
      creditInputs inputs { credited with queue := credited.queue.tail } >>= fun (itis, final) =>
        .ok (⟨credited.TIs, input, false⟩ :: itis, final)

def ensureFulfilled : List BFXTSendTokensOneRecipientData → Outcome Unit
  | [] => .ok ()
  | r :: recps =>
    if r.tokenId = neblTokenId ∨ r.tokenId = toIssueTokenId ∨ r.amount = 0 then
      ensureFulfilled recps
    else
      raise ("The recipient " ++ r.destination ++ "; of token: " ++ r.tokenId ++
        "; still has an unfulfilled amount: " ++ toString r.amount ++
        ". This should've been spotted earlier.")

/-- The instruction for the issued token; its entry has no input. -/
def issuanceTIs : Option IssueTokenData → List IntermediaryTI
  | none => []
  | some data => [⟨[newTI 0 data.amount], ⟨0, 2 ^ 32 - 1⟩, true⟩]

def selectBFXTTokens (order : SelectionOrder) (wallet : BFXTWallet)
    (tokenToIssueData : Option IssueTokenData) (inputs : List COutPoint)
    (recipients : List BFXTSendTokensOneRecipientData) (addMoreInputsIfRequired : Bool) :
    Outcome BFXTSendTxData := do
  let recipients := recipients.filter fun r => r.tokenId ≠ neblTokenId
  verifyBFXTIssuanceRecipientsValidity tokenToIssueData recipients
  let inputs := order.uniqueInputs inputs
  let targetAmounts := calculateRequiredTokenAmounts recipients
  let balancesMap ← getAvailableTokenBalances wallet inputs addMoreInputsIfRequired
  ensureCovered wallet balancesMap targetAmounts
  let availableOutputs :=
    if addMoreInputsIfRequired then wallet.walletOutputsWithTokens.map Prod.fst else inputs
  let selection ← fillInputs wallet addMoreInputsIfRequired targetAmounts
    ⟨order.shuffle availableOutputs, order.uniqueInputs inputs, fun _ => 0⟩
  let tokenSourceInputs ← sortInputs wallet order (order.uniqueInputs selection.tokenSourceInputs)
  ensureIndices wallet
    "While attempting to credit recipients, input index is out of range for: " tokenSourceInputs
  let (itis, credited) ← creditInputs tokenSourceInputs
    ⟨decreditSlots wallet tokenSourceInputs, recipients, fun _ => 0, []⟩
  ensureFulfilled credited.recps
  .ok ⟨tokenSourceInputs, issuanceTIs tokenToIssueData ++ itis, credited.totalChangeTokens,
    selection.totals, recipients⟩

end Bfx.TokenSelector
