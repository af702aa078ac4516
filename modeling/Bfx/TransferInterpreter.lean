import Bfx.LotQueue
import Bfx.TokenTransaction

/-!
The interpreter of transfer and burn scripts, `__TransferTokens`. The arrays
`totalTokensLeftInInputs` and `tokensKindsInInputs` have one shape and are kept
together: an input is a list of slots, a slot is a token with the amount left.
-/

namespace Bfx.TransferInterpreter

open CallOutcome HexText LotQueue TokenScript TokenTransaction Transaction

abbrev Slot := Lot BFXTTokenTxData

def Slot.tokenId (slot : Slot) : String := slot.item.tokenId

/-- What the instruction loop only reads. `vinSize` is the size of the member
`vin`, which the cursor is compared with. -/
structure TransferContext where
  env : NodeEnv
  tx : CTransaction
  vinSize : Nat
  parsedScriptHex : String
  burnOutput31 : Bool

structure TransferState where
  currentInputIndex : Nat
  slots : List (List Slot)
  vout : List BFXTTxOut

section Messages

variable (ctx : TransferContext)

def txText : String := (ctx.env.getHash ctx.tx).toHex

def inputOutOfRange : String :=
  "An input of transfer instruction is outside the available " ++
    "range of inputs in BFXT OP_RETURN argument: " ++ ctx.parsedScriptHex ++
    ", where the number of available inputs is " ++ toString ctx.tx.vin.length ++
    " in transaction " ++ txText ctx

def outputOutOfRange : String :=
  "An output of transfer instruction is outside the available " ++
    "range of outputs in BFXT OP_RETURN argument: " ++ ctx.parsedScriptHex ++
    ", where the number of available outputs is " ++ toString ctx.tx.vout.length ++
    " in transaction " ++ txText ctx

def blacklistedToken (tokenId : String) : String :=
  "The BFXT token " ++ tokenId ++ " is blacklisted and cannot be transferred or burned."

def insufficientTokens (i currentInputIndex currentOutputAmount available : Nat) : String :=
  "Insufficient tokens for transaction from inputs for transaction: " ++ txText ctx ++
    " from input: " ++ toString currentInputIndex ++ ". Required output amount: " ++
    toString currentOutputAmount ++
    "; and the total available amount in all (possibly adjacent) inputs: " ++
    toString available ++ "; in transfer instruction number: " ++ toString i ++
    ". Inputs in order are: " ++
    ctx.tx.vin.foldl (fun text txin => text ++ " - " ++ txin.prevout.hash.toHex ++ ":" ++
      toString txin.prevout.n) "" ++
    "; and OP_RETURN script: " ++ ctx.parsedScriptHex

end Messages

/-- The running values of the search for adjacent tokens of one kind. -/
structure Adjacent where
  totalAdjacentTokensOfOneKind : Nat
  currentTokenId : String
  startTokenIndex : Nat

/-- The loop over `l` in one input. The flag says that a token of another kind
ended the search. The token id is looked up in the current input, whichever
input is searched. -/
def adjacentInInput (currentInput : List Slot) :
    Nat → List Slot → Adjacent → Outcome (Adjacent × Bool)
  | _, [], found => .ok (found, false)
  | l, slot :: rest, found =>
    if Slot.tokenId slot ≠ found.currentTokenId ∧ found.totalAdjacentTokensOfOneKind > 0 then
      .ok (found, true)
    else if found.totalAdjacentTokensOfOneKind = 0 then
      index .tokenSlots currentInput l >>= fun current =>
        adjacentInInput currentInput (l + 1) rest ⟨slot.left, Slot.tokenId current, l⟩
    else
      adjacentInInput currentInput (l + 1) rest
        { found with
          totalAdjacentTokensOfOneKind := found.totalAdjacentTokensOfOneKind + slot.left }

/-- The loop over the inputs behind the current one. -/
def adjacentInRest (currentInput : List Slot) : List (List Slot) → Adjacent → Outcome Adjacent
  | [], found => .ok found
  | input :: inputs, found =>
    adjacentInInput currentInput 0 input found >>= fun (found, inputDone) =>
      if inputDone then .ok found else adjacentInRest currentInput inputs found

/-- The loop over `k`, started at slot `j` of the current input. -/
def adjacentTokens (currentInput : List Slot) (j : Nat) (rest : List (List Slot)) :
    Outcome Adjacent :=
  adjacentInInput currentInput j (currentInput.drop j) ⟨0, "", 0⟩ >>= fun (found, inputDone) =>
    if inputDone then .ok found else adjacentInRest currentInput rest found

def unableToDecredit : String := "Unable to decredit the available balances from inputs"

/-- The loop over `l` that subtracts from one input; what is left to subtract
is returned. -/
def decreditInput (currentTokenId : String) : Nat → List Slot → Outcome (List Slot × Nat)
  | amountLeftToSubtract, [] => .ok ([], amountLeftToSubtract)
  | amountLeftToSubtract, slot :: rest =>
    if Slot.tokenId slot = currentTokenId then
      if amountLeftToSubtract ≤ slot.left then
        .ok (⟨slot.item, slot.left - amountLeftToSubtract⟩ :: rest, 0)
      else
        decreditInput currentTokenId (amountLeftToSubtract - slot.left) rest >>=
          fun (rest, amountLeftToSubtract) => .ok (⟨slot.item, 0⟩ :: rest, amountLeftToSubtract)
    else if amountLeftToSubtract = 0 then .ok (slot :: rest, 0)
    else raise unableToDecredit

def decreditInputs (currentTokenId : String) :
    Nat → List (List Slot) → Outcome (List (List Slot) × Nat)
  | amountLeftToSubtract, [] => .ok ([], amountLeftToSubtract)
  | amountLeftToSubtract, input :: inputs =>
    decreditInput currentTokenId amountLeftToSubtract input >>=
      fun (input, amountLeftToSubtract) =>
        if amountLeftToSubtract = 0 then .ok (input :: inputs, 0)
        else
          decreditInputs currentTokenId amountLeftToSubtract inputs >>=
            fun (inputs, amountLeftToSubtract) => .ok (input :: inputs, amountLeftToSubtract)

/-- Subtract an amount, from slot `startTokenIndex` of input
`currentInputIndex` on. -/
def decredit (slots : List (List Slot)) (currentInputIndex startTokenIndex : Nat)
    (currentTokenId : String) (amount : Nat) : Outcome (List (List Slot)) := do
  let currentInput ← index .tokenSlots slots currentInputIndex
  let (inputs, amountLeftToSubtract) ← decreditInputs currentTokenId amount
    (currentInput.drop startTokenIndex :: slots.drop (currentInputIndex + 1))
  if amountLeftToSubtract > 0 then raise unableToDecredit
  else
    .ok (slots.take currentInputIndex ++
      (currentInput.take startTokenIndex ++ inputs.headD []) :: inputs.tail)

/-- `vout[outputIndex].tokens.push_back(token)`. -/
def pushToken (vout : List BFXTTxOut) (outputIndex : Nat) (token : BFXTTokenTxData) :
    Outcome (List BFXTTxOut) :=
  if outputIndex < vout.length then
    .ok (vout.modify outputIndex fun txout => { txout with tokens := txout.tokens ++ [token] })
  else .error (.outOfBounds .vout)

theorem pushToken_eq_ok (h : pushToken vout outputIndex token = .ok vout') :
    outputIndex < vout.length ∧
      vout' = vout.modify outputIndex fun txout => { txout with tokens := txout.tokens ++ [token] } := by
  rw [pushToken] at h
  split at h
  · exact ⟨‹_›, (Except.ok.inj h).symm⟩
  · cases h

def ensureNotBlacklisted (ctx : TransferContext) (tokenId : String) : Outcome Unit :=
  match isBFXTTokenBlacklisted tokenId with
  | some blacklistHeight =>
    if ctx.env.nBestHeight ≥ blacklistHeight then raise (blacklistedToken tokenId) else .ok ()
  | none => .ok ()

/-- The loop over `j` of one instruction. Every turn moves `j` or the cursor
forward, so fuel above the number of slots and inputs is enough. -/
def distributeTokens (ctx : TransferContext) (i : Nat) (ti : TransferInstruction)
    (burnThisOutput : Bool) : Nat → Nat → Nat → TransferState → Outcome TransferState
  | 0, _, _, state => .ok state
  | fuel + 1, j, currentOutputAmount, state => do
    let currentInput ← index .tokenSlots state.slots state.currentInputIndex
    if currentInput.length ≤ j then .ok state
    else
      let found ← adjacentTokens currentInput j (state.slots.drop (state.currentInputIndex + 1))
      ensureNotBlacklisted ctx found.currentTokenId
      if found.totalAdjacentTokensOfOneKind = 0 then
        if j + 1 ≥ currentInput.length then
          distributeTokens ctx i ti burnThisOutput fuel 0 currentOutputAmount
            { state with currentInputIndex := state.currentInputIndex + 1 }
        else distributeTokens ctx i ti burnThisOutput fuel (j + 1) currentOutputAmount state
      else if currentOutputAmount > found.totalAdjacentTokensOfOneKind then
        raise (insufficientTokens ctx i state.currentInputIndex currentOutputAmount
          found.totalAdjacentTokensOfOneKind)
      else
        let currentToken ← index .tokenSlots currentInput found.startTokenIndex
        let amountToCredit := min found.totalAdjacentTokensOfOneKind currentOutputAmount
        let vout ←
          (if burnThisOutput then .ok state.vout
          else pushToken state.vout ti.outputIndex
            { currentToken.item with amount := amountToCredit } : Outcome (List BFXTTxOut))
        let slots ← decredit state.slots state.currentInputIndex found.startTokenIndex
          found.currentTokenId amountToCredit
        -- a skip instruction moves on before the balance of the input is read
        let next := if ti.skipInput then state.currentInputIndex + 1 else state.currentInputIndex
        let input ← index .tokenSlots slots next
        let next := if total input = 0 ∧ !ti.skipInput then next + 1 else next
        if currentOutputAmount - amountToCredit = 0 then .ok ⟨next, slots, vout⟩
        else
          distributeTokens ctx i ti burnThisOutput fuel (j + 1)
            (currentOutputAmount - amountToCredit) ⟨next, slots, vout⟩

/-- The loop that moves the cursor over empty inputs; the fuel is the number of
inputs from the cursor on. Nothing is returned when it leaves the last one. -/
def skipEmptyInputs (slots : List (List Slot)) : Nat → Nat → Outcome (Option Nat)
  | 0, _ => .ok none
  | fuel + 1, currentInputIndex => do
    let input ← index .tokenSlots slots currentInputIndex
    if input.length = 0 ∨ total input = 0 then skipEmptyInputs slots fuel (currentInputIndex + 1)
    else .ok (some currentInputIndex)

def slotCount (slots : List (List Slot)) : Nat := slots.flatten.length

def burnThisOutput (ctx : TransferContext) (ti : TransferInstruction) : Bool :=
  ctx.burnOutput31 && ti.outputIndex == burnOutputIndex

/-- One turn of the instruction loop. Nothing is returned when the loop is left
because no tokens are left. -/
def executeInstruction (ctx : TransferContext) (i : Nat) (ti : TransferInstruction)
    (state : TransferState) : Outcome (Option TransferState) := do
  if state.currentInputIndex ≥ ctx.vinSize then raise (inputOutOfRange ctx)
  else if ti.outputIndex ≥ state.vout.length ∧ !burnThisOutput ctx ti then
    raise (outputOutOfRange ctx)
  else
    match ← skipEmptyInputs state.slots (ctx.vinSize - state.currentInputIndex)
        state.currentInputIndex with
    | none => .ok none
    | some currentInputIndex =>
      let next ← distributeTokens ctx i ti (burnThisOutput ctx ti)
        (slotCount state.slots + state.slots.length + 1) 0 ti.amount
        { state with currentInputIndex := currentInputIndex }
      .ok (some next)

def runInstructions (ctx : TransferContext) :
    Nat → List TransferInstruction → TransferState → Outcome TransferState
  | _, [], state => .ok state
  | i, ti :: tis, state =>
    executeInstruction ctx i ti state >>= fun
      | none => .ok state
      | some next => runInstructions ctx (i + 1) tis next

def aggregatableStr : String := "aggregatable"

def nonAggregatableStr : String := "nonaggregatable"

/-- The loops over `k` and `l` that move the following slots of one token id
into one token; slots behind a token of another kind are left. -/
def aggregate (tokenId : String) : List Slot → Nat × List Slot
  | [] => (0, [])
  | slot :: rest =>
    if Slot.tokenId slot ≠ tokenId then (0, slot :: rest)
    else
      let (amount, rest) := aggregate tokenId rest
      (slot.left + amount, ⟨slot.item, 0⟩ :: rest)

/-- The tokens that the change pass makes of the slots, taken in order over all
inputs. The fuel is the number of slots. -/
def changeTokens : Nat → List Slot → List BFXTTokenTxData
  | 0, _ => []
  | _, [] => []
  | fuel + 1, slot :: rest =>
    if slot.left = 0 then changeTokens fuel rest
    else if slot.item.aggregationPolicy = aggregatableStr then
      let (amount, rest) := aggregate (Slot.tokenId slot) rest
      { slot.item with amount := slot.left + amount } :: changeTokens fuel rest
    else { slot.item with amount := slot.left } :: changeTokens fuel rest

def pushBackTokens (tokens : List BFXTTokenTxData) (vout : List BFXTTxOut) : List BFXTTxOut :=
  vout.modify (vout.length - 1) fun txout => { txout with tokens := txout.tokens ++ tokens }

def creditChange (ctx : TransferContext) (slots : List (List Slot)) (vout : List BFXTTxOut) :
    Outcome (List BFXTTxOut) :=
  let tokens := changeTokens (slotCount slots) slots.flatten
  if tokens ≠ [] ∧ vout.length = 0 then
    raise ("No outputs in transaction: " ++ txText ctx)
  else .ok (pushBackTokens tokens vout)

def deleteEmptyTokens (vout : List BFXTTxOut) : List BFXTTxOut :=
  vout.map fun txout => { txout with tokens := txout.tokens.filter (·.amount != 0) }

/-- The slots of one input: the tokens on the output it spends. -/
def loadInput (env : NodeEnv) (tx : CTransaction) (inputsTxs : List InputPair) (txin : CTxIn) :
    Outcome (List Slot) := do
  let input ← getPrevInputIt env tx txin.prevout.hash inputsTxs
  let prevOut ← index .prevVout input.2.vout txin.prevout.n
  .ok (prevOut.tokens.map fun token => ⟨token, token.amount⟩)

def loadInputs (env : NodeEnv) (tx : CTransaction) (inputsTxs : List InputPair) :
    List CTxIn → Outcome (List (List Slot))
  | [] => .ok []
  | txin :: vin => do
    let input ← loadInput env tx inputsTxs txin
    let inputs ← loadInputs env tx inputsTxs vin
    .ok (input :: inputs)

/-- No instruction is executed unless the first input holds tokens. -/
def isInvalid (slots : List (List Slot)) : Bool :=
  match slots with
  | [] => true
  | input :: _ => total input == 0

def transferTokens (env : NodeEnv) (self : BFXTTransaction) (script : BFXTScript)
    (tx : CTransaction) (inputsTxs : List InputPair) (burnOutput31 : Bool) :
    Outcome BFXTTransaction := do
  let ctx : TransferContext := ⟨env, tx, self.vin.length, script.parsedScriptHex, burnOutput31⟩
  ensureInputsHashesMatch env inputsTxs
  ensureInputTokensRelateToTx env tx inputsTxs
  let slots ← loadInputs env tx inputsTxs tx.vin
  let state ← runInstructions ctx 0 (if isInvalid slots then [] else script.transferInstructions)
    ⟨0, slots, self.vout⟩
  let vout ← creditChange ctx state.slots state.vout
  .ok { self with vout := deleteEmptyTokens vout }

/-! A transaction that spends one output with five tokens. Its hashes tell
transactions apart by their time. -/

def timeEnv : NodeEnv where
  getHash tx := BitVec.ofNat 256 tx.nTime
  sha256 bytes := bytes
  ripemd160 bytes := bytes
  encodeBase58Check := hex
  nBestHeight := 0

def fiveTokens : BFXTTokenTxData := ⟨"t", 5, 0, 0, false, aggregatableStr, []⟩

def prevTx : InputPair :=
  (⟨1, [], [⟨1, []⟩], 0⟩, ⟨1, [], [⟨1, "", "", [fiveTokens]⟩], 0, 0, .issuance⟩)

def spendingTx : CTransaction := ⟨2, [⟨⟨1, 0⟩, []⟩], [⟨1, []⟩], 0⟩

def emptyBFXTTransaction : BFXTTransaction := ⟨0, [], [], 0, 0, .unknown⟩

def spendingBFXTTx : BFXTTransaction :=
  readBFXTDataFromTxMinimal timeEnv emptyBFXTTransaction spendingTx

end Bfx.TransferInterpreter
