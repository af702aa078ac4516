import Bfx.TransferConservation

/-!
Reading the token data of a transaction, `readBFXTDataFromTx`: issuance scripts
are executed here, transfer and burn scripts by the interpreter.
-/

namespace Bfx.TokenReading

open CallOutcome HexText TokenScript TokenTransaction TransferConservation TransferInterpreter
  Transaction List

variable {amount : Nat} {vout : List BFXTTxOut} {env : NodeEnv} {tx : CTransaction}
  {inputsTxs : List InputPair}

def textBytes (text : String) : Bytes := text.toList.map fun c => UInt8.ofNat c.toNat

def toHexString (n : Nat) : String := String.ofList (upperChars (Nat.toDigits 16 n))

/-- The second comparison repeats the first, so the last two branches differ
only in what can reach them. -/
def getAggregationPolicyStr (issuanceFlags : IssuanceFlags) : String :=
  if issuanceFlags.aggregationPolicy = .aggregatable then aggregatableStr
  else if issuanceFlags.aggregationPolicy = .aggregatable then nonAggregatableStr
  else aggregatableStr

def getAggregAndLockStatusTokenIDHexValue (tokenSymbol : Bytes) (issuanceFlags : IssuanceFlags) :
    Outcome String :=
  match issuanceFlags.locked, issuanceFlags.aggregationPolicy with
  | true, .aggregatable => .ok "20ce"
  | true, .nonAggregatable => .ok "20e4"
  | false, .aggregatable => .ok "2e37"
  | false, .nonAggregatable => .ok "2e4e"
  | _, .unknown => raise ("Unknown aggregation policity for token: " ++ rawText tokenSymbol)

def getTokenID (env : NodeEnv) (tokenSymbol : Bytes) (issuanceFlags : IssuanceFlags)
    (input0txid : String) (input0index : Nat) : Outcome String := do
  let tohash := String.ofList (lowerChars input0txid.toList) ++ ":" ++ toString input0index
  let rip160Result := env.ripemd160 (env.sha256 (textBytes tohash))
  let divisibilityHex := toHexString issuanceFlags.divisibility
  if divisibilityHex.length > 4 then
    raise ("Divisibility hex value has more than 4 digits for token " ++ rawText tokenSymbol)
  else
    let divisibilityBin ← unhex
      (String.ofList (List.replicate (4 - divisibilityHex.length) '0') ++ divisibilityHex)
    let aggregatableBin ←
      getAggregAndLockStatusTokenIDHexValue tokenSymbol issuanceFlags >>= unhex
    .ok (env.encodeBase58Check (aggregatableBin ++ rip160Result ++ divisibilityBin))

/-- What the execution of an issuance script only reads. -/
structure IssuanceContext where
  env : NodeEnv
  tx : CTransaction
  opReturnArg : String
  firstInput : COutPoint
  tokenSymbol : Bytes
  issuanceFlags : IssuanceFlags

def newTokenId (ctx : IssuanceContext) : Outcome String :=
  getTokenID ctx.env ctx.tokenSymbol ctx.issuanceFlags ctx.firstInput.hash.toHex ctx.firstInput.n

def issuedToken (ctx : IssuanceContext) (amount : Nat) : Outcome BFXTTokenTxData :=
  newTokenId ctx >>= fun tokenId =>
    .ok
      { tokenId := tokenId
        amount := amount
        issueTxId := ctx.env.getHash ctx.tx
        divisibility := ctx.issuanceFlags.divisibility
        lockStatus := ctx.issuanceFlags.locked
        aggregationPolicy := getAggregationPolicyStr ctx.issuanceFlags
        tokenSymbol := ctx.tokenSymbol }

/-- The loop over the instructions; the amount not yet sent is returned. -/
def issueInstructions (ctx : IssuanceContext) :
    List TransferInstruction → Nat → List BFXTTxOut → Outcome (Nat × List BFXTTxOut)
  | [], totalAmountLeft, vout => .ok (totalAmountLeft, vout)
  | instruction :: instructions, totalAmountLeft, vout =>
    if instruction.outputIndex ≥ ctx.tx.vout.length then
      raise ("An output of issuance is outside the available range of " ++
        "outputs in BFXT OP_RETURN argument: " ++ ctx.opReturnArg ++
        ", where the number of available outputs is " ++ toString ctx.tx.vout.length ++
        " in transaction " ++ (ctx.env.getHash ctx.tx).toHex)
    else if totalAmountLeft < instruction.amount then
      raise ("The amount targeted to outputs in bigger than the amount " ++
        "issued in BFXT OP_RETURN argument: " ++ ctx.opReturnArg)
    else do
      let token ← issuedToken ctx instruction.amount
      let vout ← pushToken vout instruction.outputIndex token
      issueInstructions ctx instructions (totalAmountLeft - instruction.amount) vout

def noOutputForChange : String :=
  "Unable to send token change to the last output; the number of outputs is zero."

def issueRemainder (ctx : IssuanceContext) (totalAmountLeft : Nat) (vout : List BFXTTxOut) :
    Outcome (List BFXTTxOut) :=
  if totalAmountLeft > 0 then
    if vout.length > 0 then
      issuedToken ctx totalAmountLeft >>= fun token => .ok (pushBackTokens [token] vout)
    else raise noOutputForChange
  else .ok vout

/-- The outputs with the new tokens only. -/
def issueOutputs (ctx : IssuanceContext) (instructions : List TransferInstruction) (amount : Nat)
    (vout : List BFXTTxOut) : Outcome (List BFXTTxOut) :=
  issueInstructions ctx instructions amount vout >>= fun (totalAmountLeft, vout) =>
    issueRemainder ctx totalAmountLeft vout

/-- The tokens of all inputs are passed on to the last output. -/
def passInputTokens (env : NodeEnv) (tx : CTransaction) (inputsTxs : List InputPair) :
    List CTxIn → List BFXTTxOut → Outcome (List BFXTTxOut)
  | [], vout => .ok vout
  | txin :: vin, vout => do
    let input ← getPrevInputIt env tx txin.prevout.hash inputsTxs
    let prevOut ← index .prevVout input.2.vout txin.prevout.n
    if prevOut.tokens ≠ [] ∧ vout.length = 0 then raise noOutputForChange
    else passInputTokens env tx inputsTxs vin (pushBackTokens prevOut.tokens vout)

def issuanceFee : Int := 1000000000

/-- One turn of the loop over the inputs. The value of the inputs is a
`uint64_t`. -/
def readInput (env : NodeEnv) (tx : CTransaction) (inputsTxs : List InputPair) (txin : CTxIn)
    (totalInput : Int) : Outcome (BFXTTxIn × Int) := do
  let input ← getPrevInputIt env tx txin.prevout.hash inputsTxs
  let prevOut ← checkedAt input.1.vout txin.prevout.n
  let totalInput := (totalInput + prevOut.nValue) % 2 ^ 64
  match isTxBFXT env input.1 with
  | none => .ok (readTxIn txin, totalInput)
  | some _ =>
    if input.2.vout.length > 0 then
      checkedAt input.2.vout txin.prevout.n >>= fun txout =>
        .ok ({ readTxIn txin with tokens := txout.tokens }, totalInput)
    else .ok (readTxIn txin, totalInput)

def readInputs (env : NodeEnv) (tx : CTransaction) (inputsTxs : List InputPair) :
    List CTxIn → Int → Outcome (List BFXTTxIn × Int)
  | [], totalInput => .ok ([], totalInput)
  | txin :: txins, totalInput => do
    let (input, totalInput) ← readInput env tx inputsTxs txin totalInput
    let (vin, totalInput) ← readInputs env tx inputsTxs txins totalInput
    .ok (input :: vin, totalInput)

def toInt64 (value : Int) : Int := Int.bmod value (2 ^ 64)

def executeIssuance (env : NodeEnv) (self : BFXTTransaction) (tokenSymbol : Bytes) (amount : Nat)
    (issuanceFlags : IssuanceFlags) (instructions : List TransferInstruction) (tx : CTransaction)
    (inputsTxs : List InputPair) (opReturnArg : String) (totalInput totalOutput : Int) :
    Outcome BFXTTransaction :=
  let feeProvided := toInt64 totalInput - toInt64 totalOutput
  if feeProvided < issuanceFee then
    raise ("Issuance fee is less than 10 nebls. You provided only: " ++ formatMoney feeProvided)
  else
    match tx.vin with
    | [] => raise ("Number of inputs is zero for transaction: " ++ (env.getHash tx).toHex)
    | txin :: _ => do
      let vout ← issueOutputs ⟨env, tx, opReturnArg, txin.prevout, tokenSymbol, issuanceFlags⟩
        instructions amount self.vout
      let vout ← passInputTokens env tx inputsTxs tx.vin vout
      .ok { self with vout := vout, bfxtTransactionType := .issuance }

/-- The branch on the type of the script. The casts fail when the script object
is of another class than its type says. -/
def executeScript (env : NodeEnv) (self : BFXTTransaction) (script : BFXTScript) (tx : CTransaction)
    (inputsTxs : List InputPair) (opReturnArg : String) (totalInput totalOutput : Int) :
    Outcome BFXTTransaction :=
  match script.txType, script.kind with
  | .issuance, .issuance tokenSymbol amount issuanceFlags =>
    executeIssuance env self tokenSymbol amount issuanceFlags script.transferInstructions tx
      inputsTxs opReturnArg totalInput totalOutput
  | .transfer, .transfer =>
    transferTokens env { self with bfxtTransactionType := .transfer } script tx inputsTxs false
  | .burn, .burn =>
    transferTokens env { self with bfxtTransactionType := .burn } script tx inputsTxs true
  | .burn, _ =>
    raise ("While parsing BFXTTransaction, casting script pointer to burn type failed: " ++
      opReturnArg)
  | .none, _ => raise "Unknown BFXT transaction type"
  | _, _ =>
    raise ("While parsing BFXTTransaction, casting script pointer to transfer type failed: " ++
      opReturnArg)

def readTokenScript (env : NodeEnv) (self : BFXTTransaction) (tx : CTransaction)
    (inputsTxs : List InputPair) (opReturnArg : String) : Outcome BFXTTransaction := do
  if tx.vin.length ≠ inputsTxs.length then
    raise ("The number of input transactions must match the number of inputs in " ++
      "the provided transaction. Error in tx: " ++ (env.getHash tx).toHex)
  else
    let totalOutput ← getValueOut tx
    let (vin, totalInput) ← readInputs env tx inputsTxs tx.vin 0
    ensureInputsHashesMatch env inputsTxs
    ensureInputTokensRelateToTx env tx inputsTxs
    if totalInput = 0 then
      raise ("Total input is zero; that's invalid; in transaction: " ++ (env.getHash tx).toHex)
    else
      let script ← parseScript opReturnArg
      executeScript env { self with vin := vin, nTime := tx.nTime, nLockTime := tx.nLockTime }
        script tx inputsTxs opReturnArg totalInput (totalOutput % 2 ^ 64)

def readBFXTDataFromTx (env : NodeEnv) (self : BFXTTransaction) (tx : CTransaction)
    (inputsTxs : List InputPair) : Outcome BFXTTransaction :=
  if isBFXTTxExcluded (env.getHash tx) then .ok self
  else
    match isTxBFXT env tx with
    | none => .ok (readBFXTDataFromTxMinimal env self tx)
    | some opReturnArg =>
      readTokenScript env (readBFXTDataFromTxMinimal env self tx) tx inputsTxs opReturnArg

theorem vout_ne_nil_of_isTxBFXT (htoken : (isTxBFXT env tx).isSome) : tx.vout ≠ [] := by
  intro hnil
  rw [isTxBFXT, hnil] at htoken
  split at htoken <;> cases htoken

theorem readInput_eq_ok (hread : readInput env tx inputsTxs txin totalInput = .ok (input, total)) :
    ∃ prev prevOut, getPrevInputIt env tx txin.prevout.hash inputsTxs = .ok prev ∧
      prev.1.vout[txin.prevout.n]? = some prevOut ∧ input.prevout = txin.prevout ∧
      total = (totalInput + prevOut.nValue) % 2 ^ 64 := by
  obtain ⟨prev, hprev, hread⟩ := bind_eq_ok.mp hread
  obtain ⟨prevOut, hprevOut, hread⟩ := bind_eq_ok.mp hread
  refine ⟨prev, prevOut, hprev, checkedAt_eq_ok.mp hprevOut, ?_⟩
  dsimp only at hread
  split at hread
  · cases hread
    exact ⟨rfl, rfl⟩
  split at hread
  · obtain ⟨txout, -, hread⟩ := bind_eq_ok.mp hread
    cases hread
    exact ⟨rfl, rfl⟩
  · cases hread
    exact ⟨rfl, rfl⟩

section IssuedTokens

variable {ctx : IssuanceContext} {tokens : List BFXTTokenTxData}
  {instructions : List TransferInstruction}

theorem issuedToken_eq_ok (hissued : issuedToken ctx amount = .ok token) :
    newTokenId ctx = .ok token.tokenId ∧ token.amount = amount ∧
      token.divisibility = ctx.issuanceFlags.divisibility ∧
      token.lockStatus = ctx.issuanceFlags.locked ∧
      token.aggregationPolicy = getAggregationPolicyStr ctx.issuanceFlags := by
  obtain ⟨tokenId, hid, hissued⟩ := bind_eq_ok.mp hissued
  cases hissued
  exact ⟨hid, rfl, rfl, rfl, rfl⟩

/-- The tokens made for a list of amounts. -/
def Issued (ctx : IssuanceContext) (amounts : List Nat) (tokens : List BFXTTokenTxData) : Prop :=
  List.Forall₂ (fun amount token => issuedToken ctx amount = .ok token) amounts tokens

theorem Issued.exists_amount (hissued : Issued ctx amounts tokens) :
    ∀ token ∈ tokens, issuedToken ctx token.amount = .ok token := by
  induction hissued with
  | nil => exact nofun
  | cons hfirst hrest ih =>
    intro token htoken
    rcases mem_cons.mp htoken with rfl | htoken
    · rwa [(issuedToken_eq_ok hfirst).2.1]
    · exact ih token htoken

theorem Issued.map_amount (hissued : Issued ctx amounts tokens) :
    tokens.map (·.amount) = amounts := by
  induction hissued with
  | nil => rfl
  | cons hfirst hrest ih => rw [map_cons, (issuedToken_eq_ok hfirst).2.1, ih]

theorem issueInstructions_cons_eq_ok
    (h : issueInstructions ctx (ti :: tis) amount vout = .ok (left, vout')) :
    ti.outputIndex < ctx.tx.vout.length ∧ ti.amount ≤ amount ∧ ∃ token pushed,
      issuedToken ctx ti.amount = .ok token ∧ pushToken vout ti.outputIndex token = .ok pushed ∧
        issueInstructions ctx tis (amount - ti.amount) pushed = .ok (left, vout') := by
  rw [issueInstructions] at h
  split at h
  · cases h
  rename_i hrange
  split at h
  · cases h
  rename_i henough
  obtain ⟨token, htoken, h⟩ := bind_eq_ok.mp h
  obtain ⟨pushed, hpush, h⟩ := bind_eq_ok.mp h
  exact ⟨Nat.not_le.mp hrange, Nat.not_lt.mp henough, token, pushed, htoken, hpush, h⟩

theorem issueInstructions_eq_ok
    (hissue : issueInstructions ctx instructions amount vout = .ok (left, vout')) :
    (∀ ti ∈ instructions, ti.outputIndex < ctx.tx.vout.length) ∧
      (instructions.map (·.amount)).sum + left = amount ∧
      ∃ tokens, Issued ctx (instructions.map (·.amount)) tokens ∧
        (allTokens vout').Perm (tokens ++ allTokens vout) := by
  induction instructions generalizing amount vout with
  | nil =>
    cases hissue
    exact ⟨nofun, Nat.zero_add _, [], .nil, List.Perm.refl _⟩
  | cons instruction instructions ih =>
    obtain ⟨hindex, henough, token, pushed, htoken, hpush, hissue⟩ := issueInstructions_cons_eq_ok hissue
    obtain ⟨hlt, rfl⟩ := pushToken_eq_ok hpush
    obtain ⟨hindices, hsum, tokens, htokens, hperm⟩ := ih hissue
    refine ⟨forall_mem_cons.mpr ⟨hindex, hindices⟩, ?_, token :: tokens, .cons htoken htokens, ?_⟩
    · rw [map_cons, sum_cons]
      omega
    refine hperm.trans (((allTokens_push hlt [token]).append_left tokens).trans ?_)
    rw [← append_assoc]
    exact List.Perm.append_right _ (perm_append_comm : (tokens ++ [token]).Perm _)

theorem issueRemainder_eq_ok (hissue : issueRemainder ctx left vout = .ok vout') :
    ∃ tokens, Issued ctx (if 0 < left then [left] else []) tokens ∧
      vout' = pushBackTokens tokens vout ∧ ¬ (tokens ≠ [] ∧ vout.length = 0) := by
  rw [issueRemainder] at hissue
  split at hissue
  · rename_i hpos
    split at hissue
    · rename_i hout
      obtain ⟨token, htoken, hissue⟩ := bind_eq_ok.mp hissue
      rw [if_pos hpos]
      exact ⟨[token], .cons htoken .nil, (Except.ok.inj hissue).symm, fun h => hout.ne' h.2⟩
    · cases hissue
  rename_i hzero
  rw [if_neg hzero]
  exact ⟨[], .nil, by rw [pushBackTokens_nil, Except.ok.inj hissue], fun h => h.1 rfl⟩

/-- The amounts of the tokens that an issuance writes: one for each instruction
and one for a remainder. -/
def writtenAmounts (instructions : List TransferInstruction) (amount : Nat) : List Nat :=
  let left := amount - (instructions.map (·.amount)).sum
  instructions.map (·.amount) ++ if 0 < left then [left] else []

theorem issueOutputs_eq_ok (hissue : issueOutputs ctx instructions amount vout = .ok vout') :
    (writtenAmounts instructions amount).sum = amount ∧
      ∃ tokens, Issued ctx (writtenAmounts instructions amount) tokens ∧
        (allTokens vout').Perm (tokens ++ allTokens vout) := by
  obtain ⟨⟨left, vout₁⟩, hinstructions, hremainder⟩ := bind_eq_ok.mp hissue
  obtain ⟨-, hsum, tokens, htokens, hperm⟩ := issueInstructions_eq_ok hinstructions
  obtain ⟨rest, hrest, rfl, hout⟩ := issueRemainder_eq_ok hremainder
  have hleft : amount - (instructions.map (·.amount)).sum = left := by omega
  rw [writtenAmounts, hleft]
  refine ⟨?_, tokens ++ rest, rel_append htokens hrest, ?_⟩
  · rw [sum_append]
    split
    · rw [sum_singleton, hsum]
    · rw [sum_nil]
      omega
  refine (allTokens_pushBackTokens hout).trans ((hperm.append_left rest).trans ?_)
  rw [← append_assoc]
  exact List.Perm.append_right _ (perm_append_comm : (rest ++ tokens).Perm _)

theorem passInputTokens_eq_ok (hpass : passInputTokens env tx inputsTxs vin vout = .ok vout') :
    vout' = pushBackTokens (vin.flatMap (prevTokens env inputsTxs)) vout ∧
      ¬ (vin.flatMap (prevTokens env inputsTxs) ≠ [] ∧ vout.length = 0) ∧
      ∀ txin ∈ vin, ∃ input, getPrevInputIt env tx txin.prevout.hash inputsTxs = .ok input ∧
        txin.prevout.n < input.2.vout.length := by
  induction vin generalizing vout with
  | nil =>
    cases hpass
    exact ⟨(pushBackTokens_nil _).symm, fun h => h.1 rfl, nofun⟩
  | cons txin vin ih =>
    rw [passInputTokens] at hpass
    obtain ⟨prev, hprev, hpass⟩ := bind_eq_ok.mp hpass
    obtain ⟨prevOut, hprevOut, hpass⟩ := bind_eq_ok.mp hpass
    split at hpass
    · cases hpass
    rename_i hout
    obtain ⟨rfl, hrest, hfound⟩ := ih hpass
    rw [pushBackTokens, length_modify] at hrest
    rw [flatMap_cons, prevTokens_eq hprev hprevOut]
    refine ⟨by simp [pushBackTokens, modify_modify_eq, Function.comp_def], ?_, forall_mem_cons.mpr
      ⟨⟨prev, hprev, (List.getElem?_eq_some_iff.mp (index_eq_ok.mp hprevOut)).1⟩, hfound⟩⟩
    rintro ⟨hne, hzero⟩
    by_cases hnil : prevOut.tokens = []
    · rw [hnil, nil_append] at hne
      exact hrest ⟨hne, hzero⟩
    · exact hout ⟨hnil, hzero⟩

end IssuedTokens

section Results

structure CarriesScript (env : NodeEnv) (tx : CTransaction) (opReturnArg : String)
    (script : BFXTScript) : Prop where
  arg_eq : isTxBFXT env tx = some opReturnArg
  parsed : parseScript opReturnArg = .ok script

/-- The script that a transaction carries is an issuance, which was executed. -/
structure IssuesTokens (ctx : IssuanceContext) (script : BFXTScript) (amount : Nat)
    (inputsTxs : List InputPair) (issued vout : List BFXTTxOut) : Prop where
  carries : CarriesScript ctx.env ctx.tx ctx.opReturnArg script
  type_eq : script.txType = .issuance
  kind_eq : script.kind = .issuance ctx.tokenSymbol amount ctx.issuanceFlags
  first_input : ∃ txin rest, ctx.tx.vin = txin :: rest ∧ txin.prevout = ctx.firstInput
  issued_eq : issueOutputs ctx script.transferInstructions amount (ctx.tx.vout.map readTxOut) =
    .ok issued
  passed : passInputTokens ctx.env ctx.tx inputsTxs ctx.tx.vin issued = .ok vout

/-- The script that a transaction carries is a transfer or a burn, which was
executed. -/
structure TransfersTokens (env : NodeEnv) (tx : CTransaction) (script : BFXTScript)
    (inputsTxs : List InputPair) (burnOutput31 : Bool) (start result : BFXTTransaction) :
    Prop where
  carries : ∃ opReturnArg, CarriesScript env tx opReturnArg script
  type_eq : script.txType = if burnOutput31 then .burn else .transfer
  kind_eq : script.kind = if burnOutput31 then .burn else .transfer
  vout_eq : start.vout = tx.vout.map readTxOut
  transferred : transferTokens env start script tx inputsTxs burnOutput31 = .ok result

/-- All that a successful read can have done. -/
inductive Reads (env : NodeEnv) (tx : CTransaction) (inputsTxs : List InputPair)
    (result : BFXTTransaction) : Prop
  | plain (hnone : isTxBFXT env tx = none) (htokens : allTokens result.vout = [])
  | issuance {ctx : IssuanceContext} {script : BFXTScript} {amount : Nat} {issued : List BFXTTxOut}
      (henv : ctx.env = env) (htx : ctx.tx = tx)
      (hissues : IssuesTokens ctx script amount inputsTxs issued result.vout)
  | transfer {script : BFXTScript} {burnOutput31 : Bool} {start : BFXTTransaction}
      (htransfers : TransfersTokens env tx script inputsTxs burnOutput31 start result)

theorem allTokens_readTxOut (vout : List CTxOut) : allTokens (vout.map readTxOut) = [] := by
  refine allTokens_of_empty fun txout htxout => ?_
  obtain ⟨source, -, rfl⟩ := mem_map.mp htxout
  rfl

variable {self result : BFXTTransaction} {opReturnArg : String} {script : BFXTScript}

theorem executeIssuance_eq_ok (hexecute : executeIssuance env self tokenSymbol amount issuanceFlags
      instructions tx inputsTxs opReturnArg totalInput totalOutput = .ok result) :
    issuanceFee ≤ toInt64 totalInput - toInt64 totalOutput ∧
    ∃ txin rest issued, tx.vin = txin :: rest ∧
      issueOutputs ⟨env, tx, opReturnArg, txin.prevout, tokenSymbol, issuanceFlags⟩ instructions
        amount self.vout = .ok issued ∧
      passInputTokens env tx inputsTxs tx.vin issued = .ok result.vout ∧
      result = { self with vout := result.vout, bfxtTransactionType := .issuance } := by
  rw [executeIssuance] at hexecute
  split at hexecute
  · cases hexecute
  rename_i hfee
  split at hexecute
  · cases hexecute
  rename_i txin rest hvin
  obtain ⟨issued, hissued, hexecute⟩ := bind_eq_ok.mp hexecute
  obtain ⟨vout, hpassed, hexecute⟩ := bind_eq_ok.mp hexecute
  cases hexecute
  exact ⟨Int.not_lt.mp hfee, txin, rest, issued, hvin, hissued, hpassed, rfl⟩

theorem executeScript_cases (hexecute : executeScript env self script tx inputsTxs opReturnArg
      totalInput totalOutput = .ok result) :
    (∃ tokenSymbol amount issuanceFlags, script.txType = .issuance ∧
      script.kind = .issuance tokenSymbol amount issuanceFlags ∧
      executeIssuance env self tokenSymbol amount issuanceFlags script.transferInstructions tx
        inputsTxs opReturnArg totalInput totalOutput = .ok result) ∨
    ∃ burn : Bool, script.txType = (if burn then .burn else .transfer) ∧
      script.kind = (if burn then .burn else .transfer) ∧
      transferTokens env { self with bfxtTransactionType := if burn then .burn else .transfer }
        script tx inputsTxs burn = .ok result := by
  rw [executeScript] at hexecute
  split at hexecute
  · exact .inl ⟨_, _, _, ‹_›, ‹_›, hexecute⟩
  · exact .inr ⟨false, ‹_›, ‹_›, hexecute⟩
  · exact .inr ⟨true, ‹_›, ‹_›, hexecute⟩
  · cases hexecute
  · cases hexecute
  · cases hexecute

theorem executeScript_eq_ok (hcarries : CarriesScript env tx opReturnArg script)
    (hvout : self.vout = tx.vout.map readTxOut) (hexecute : executeScript env self script tx
      inputsTxs opReturnArg totalInput totalOutput = .ok result) :
    Reads env tx inputsTxs result := by
  rcases executeScript_cases hexecute with
    ⟨tokenSymbol, amount, issuanceFlags, htype, hkind, hexecute⟩ | ⟨burn, htype, hkind, hexecute⟩
  · obtain ⟨-, txin, rest, issued, hvin, hissued, hpassed, -⟩ := executeIssuance_eq_ok hexecute
    rw [hvout] at hissued
    exact .issuance rfl rfl ⟨hcarries, htype, hkind, ⟨txin, rest, hvin, rfl⟩, hissued, hpassed⟩
  · exact .transfer ⟨⟨opReturnArg, hcarries⟩, htype, hkind, by exact hvout, hexecute⟩

theorem readTokenScript_eq_ok
    (hread : readTokenScript env self tx inputsTxs opReturnArg = .ok result) :
    ∃ totalOutput vin totalInput script, getValueOut tx = .ok totalOutput ∧
      readInputs env tx inputsTxs tx.vin 0 = .ok (vin, totalInput) ∧
      parseScript opReturnArg = .ok script ∧
      executeScript env { self with vin := vin, nTime := tx.nTime, nLockTime := tx.nLockTime }
        script tx inputsTxs opReturnArg totalInput (totalOutput % 2 ^ 64) = .ok result := by
  rw [readTokenScript] at hread
  split at hread
  · cases hread
  simp only [bind_eq_ok] at hread
  obtain ⟨totalOutput, hvalueOut, ⟨vin, totalInput⟩, hinputs, _, -, _, -, hread⟩ := hread
  split at hread
  · cases hread
  obtain ⟨script, hparse, hread⟩ := bind_eq_ok.mp hread
  exact ⟨totalOutput, vin, totalInput, script, hvalueOut, hinputs, hparse, hread⟩

theorem readBFXTDataFromTx_eq_ok (hself : self.isNull = true)
    (hread : readBFXTDataFromTx env self tx inputsTxs = .ok result) :
    Reads env tx inputsTxs result := by
  rw [readBFXTDataFromTx] at hread
  split at hread
  · rename_i hexcluded
    cases hread
    refine .plain (if_pos hexcluded) ?_
    rw [BFXTTransaction.isNull, Bool.and_eq_true] at hself
    rw [List.isEmpty_iff.mp hself.2]
    rfl
  split at hread
  · rename_i hnone
    cases hread
    exact .plain hnone (allTokens_readTxOut tx.vout)
  rename_i opReturnArg harg
  obtain ⟨totalOutput, vin, totalInput, script, -, -, hparse, hread⟩ :=
    readTokenScript_eq_ok hread
  exact executeScript_eq_ok ⟨harg, hparse⟩ rfl hread

theorem readBFXTDataFromTx_of_token (self : BFXTTransaction) (inputsTxs : List InputPair)
    (htoken : isTxBFXT env tx = some opReturnArg) :
    readBFXTDataFromTx env self tx inputsTxs =
      readTokenScript env (readBFXTDataFromTxMinimal env self tx) tx inputsTxs opReturnArg := by
  have hincluded : ¬isBFXTTxExcluded (env.getHash tx) := by
    intro hexcluded
    rw [isTxBFXT, if_pos hexcluded] at htoken
    cases htoken
  rw [readBFXTDataFromTx, if_neg hincluded, htoken]

/-- The tokens on the outputs of an issuance: those it writes and those of its
inputs. -/
theorem IssuesTokens.tokens_perm (hissues : IssuesTokens ctx script amount inputsTxs issued vout) :
    ∃ written, Issued ctx (writtenAmounts script.transferInstructions amount) written ∧
      (allTokens issued).Perm written ∧
      (allTokens vout).Perm (ctx.tx.vin.flatMap (prevTokens ctx.env inputsTxs) ++ written) := by
  obtain ⟨-, written, hwritten, hperm⟩ := issueOutputs_eq_ok hissues.issued_eq
  rw [allTokens_readTxOut, append_nil] at hperm
  obtain ⟨rfl, hout, -⟩ := passInputTokens_eq_ok hissues.passed
  exact ⟨written, hwritten, hperm, (allTokens_pushBackTokens hout).trans (hperm.append_left _)⟩

theorem transferTokens_pos
    (htransfer : transferTokens env self script tx inputsTxs burnOutput31 = .ok result) :
    ∀ token ∈ allTokens result.vout, 0 < token.amount := by
  simp only [transferTokens, bind_eq_ok] at htransfer
  obtain ⟨_, -, _, -, slots, -, final, -, vout, -, htransfer⟩ := htransfer
  cases htransfer
  intro token htoken
  rw [allTokens_deleteEmptyTokens] at htoken
  have hamount := (mem_filter.mp htoken).2
  exact Nat.pos_of_ne_zero (by simpa using hamount)

/-- The transaction carries an issuance script with an instruction for no tokens. -/
def IssuesZeroAmount (env : NodeEnv) (tx : CTransaction) : Prop :=
  ∃ opReturnArg script, CarriesScript env tx opReturnArg script ∧ script.txType = .issuance ∧
    ∃ instruction ∈ script.transferInstructions, instruction.amount = 0

theorem CarriesScript.unique (hcarries : CarriesScript env tx opReturnArg script)
    (hcarries' : CarriesScript env tx opReturnArg' script') : script = script' := by
  obtain rfl := Option.mem_unique hcarries.arg_eq hcarries'.arg_eq
  exact Except.ok.inj (hcarries.parsed.symm.trans hcarries'.parsed)

theorem reads_issuance (hcarries : CarriesScript ctx.env ctx.tx ctx.opReturnArg script)
    (hkind : script.kind = .issuance ctx.tokenSymbol amount ctx.issuanceFlags)
    (hfirst : ctx.tx.vin.head?.map (·.prevout) = some ctx.firstInput)
    (hreads : Reads ctx.env ctx.tx inputsTxs result) :
    ∃ issued, IssuesTokens ctx script amount inputsTxs issued result.vout := by
  rcases hreads with ⟨hnone, -⟩ | ⟨henv, htx, hissues⟩ | htransfers
  · rw [hcarries.arg_eq] at hnone
    cases hnone
  · rename_i ctx' script' amount' issued
    obtain ⟨env, tx, opReturnArg, firstInput, tokenSymbol, issuanceFlags⟩ := ctx
    obtain ⟨env', tx', opReturnArg', firstInput', tokenSymbol', issuanceFlags'⟩ := ctx'
    obtain rfl : env' = env := henv
    obtain rfl : tx' = tx := htx
    obtain rfl := hcarries.unique hissues.carries
    obtain rfl : opReturnArg' = opReturnArg :=
      Option.mem_unique hissues.carries.arg_eq hcarries.arg_eq
    obtain ⟨rfl, rfl, rfl⟩ := ScriptKind.issuance.inj (hissues.kind_eq.symm.trans hkind)
    obtain ⟨txin, rest, hvin, hprevout⟩ := hissues.first_input
    obtain rfl : firstInput' = firstInput := by
      dsimp only at hvin hprevout hfirst
      rw [hvin] at hfirst
      exact hprevout.symm.trans (Option.some.inj hfirst)
    exact ⟨issued, hissues⟩
  obtain ⟨opReturnArg, hcarries'⟩ := htransfers.carries
  have hkind' := htransfers.kind_eq
  rw [← hcarries.unique hcarries', hkind] at hkind'
  split at hkind'
  · cases hkind'
  · cases hkind'

theorem writtenAmounts_pos_iff (instructions : List TransferInstruction) (amount : Nat) :
    (∀ written ∈ writtenAmounts instructions amount, 0 < written) ↔
      ∀ instruction ∈ instructions, instruction.amount ≠ 0 := by
  rw [writtenAmounts, forall_mem_append, forall_mem_map]
  constructor
  · rintro ⟨hinstructions, -⟩ instruction hmem
    exact Nat.pos_iff_ne_zero.mp (hinstructions instruction hmem)
  intro hinstructions
  refine ⟨fun instruction hmem => Nat.pos_iff_ne_zero.mpr (hinstructions instruction hmem), ?_⟩
  split
  · rename_i hleft
    exact fun written hmem => by rwa [mem_singleton.mp hmem]
  · exact nofun

/-- Only an issuance can write an empty slot. -/
theorem readBFXTDataFromTx_positive_iff
    (env : NodeEnv) (self result : BFXTTransaction) (tx : CTransaction)
    (inputsTxs : List InputPair) (hself : self.isNull = true)
    (hinputs : ∀ txin ∈ tx.vin, ∀ token ∈ prevTokens env inputsTxs txin, 0 < token.amount)
    (hread : readBFXTDataFromTx env self tx inputsTxs = .ok result) :
    (∀ txout ∈ result.vout, ∀ token ∈ txout.tokens, 0 < token.amount) ↔
      ¬ IssuesZeroAmount env tx := by
  have hall : (∀ txout ∈ result.vout, ∀ token ∈ txout.tokens, 0 < token.amount) ↔
      ∀ token ∈ allTokens result.vout, 0 < token.amount := by
    rw [allTokens, forall_mem_flatMap]
  rw [hall]
  rcases readBFXTDataFromTx_eq_ok hself hread with
    ⟨hnone, htokens⟩ | ⟨rfl, rfl, hissues⟩ | htransfers
  · refine iff_of_true ?_ ?_
    · rw [htokens]
      exact forall_mem_nil _
    rintro ⟨opReturnArg, script, hcarries, -⟩
    rw [hcarries.arg_eq] at hnone
    cases hnone
  · rename_i ctx script amount issued
    obtain ⟨written, hwritten, -, hperm⟩ := hissues.tokens_perm
    have hpassed : ∀ token ∈ ctx.tx.vin.flatMap (prevTokens ctx.env inputsTxs), 0 < token.amount :=
      forall_mem_flatMap.mpr hinputs
    have hamounts : (∀ token ∈ written, 0 < token.amount) ↔
        ∀ instruction ∈ script.transferInstructions, instruction.amount ≠ 0 := by
      rw [← writtenAmounts_pos_iff script.transferInstructions amount, ← hwritten.map_amount,
        forall_mem_map]
    calc
      (∀ token ∈ allTokens result.vout, 0 < token.amount)
          ↔ ∀ token ∈ ctx.tx.vin.flatMap (prevTokens ctx.env inputsTxs) ++ written,
              0 < token.amount := forall_congr' fun token => by rw [hperm.mem_iff]
      _ ↔ ∀ token ∈ written, 0 < token.amount := by
        rw [forall_mem_append]
        exact and_iff_right hpassed
      _ ↔ ∀ instruction ∈ script.transferInstructions, instruction.amount ≠ 0 := hamounts
      _ ↔ ¬ IssuesZeroAmount ctx.env ctx.tx := by
        constructor
        · rintro hnonzero ⟨opReturnArg, script', hcarries, -, instruction, hmem, hzero⟩
          rw [← hissues.carries.unique hcarries] at hmem
          exact hnonzero instruction hmem hzero
        · intro hnot instruction hmem hzero
          exact hnot ⟨_, script, hissues.carries, hissues.type_eq, instruction, hmem, hzero⟩
  refine iff_of_true (transferTokens_pos htransfers.transferred) ?_
  rintro ⟨opReturnArg, script, hcarries, htype, -⟩
  obtain ⟨opReturnArg', hcarries'⟩ := htransfers.carries
  rw [hcarries.unique hcarries', htransfers.type_eq] at htype
  split at htype
  · cases htype
  · cases htype

section IssuingTx

def fundingTx : InputPair :=
  (⟨1, [], [⟨2000000000, []⟩], 0⟩, ⟨1, [], [⟨2000000000, "", "", []⟩], 0, 0, .notBFXT⟩)

/-- An issuance of five tokens: one instruction for the first output, and the
remainder to the second. -/
def issuingTx (amount flags : UInt8) : CTransaction :=
  ⟨3, [⟨⟨1, 0⟩, []⟩],
    [⟨0, [0x6a, 0x0e, 0x4e, 0x54, 0x03, 0x01, 0x41, 0x42, 0x43, 0x44, 0x45, 0x05, 0x01, 0x00,
      amount, flags]⟩, ⟨1, []⟩], 0⟩

theorem readBFXTDataFromTx_issuingTx_positive :
    ∃ result, readBFXTDataFromTx timeEnv emptyBFXTTransaction (issuingTx 3 0) [fundingTx] =
        .ok result ∧
      ((∀ txout ∈ result.vout, ∀ token ∈ txout.tokens, 0 < token.amount) ↔
        ¬ IssuesZeroAmount timeEnv (issuingTx 3 0)) := by
  obtain ⟨result, hresult⟩ : ∃ result,
      readBFXTDataFromTx timeEnv emptyBFXTTransaction (issuingTx 3 0) [fundingTx] = .ok result :=
    ⟨_, rfl⟩
  exact ⟨result, hresult, readBFXTDataFromTx_positive_iff _ _ _ _ _ (by decide) (by decide) hresult⟩

theorem readBFXTDataFromTx_issues_zero_amount :
    (∀ txin ∈ (issuingTx 0 0).vin, ∀ token ∈ prevTokens timeEnv [fundingTx] txin,
      0 < token.amount) ∧
    (readBFXTDataFromTx timeEnv emptyBFXTTransaction (issuingTx 0 0) [fundingTx]).toOption.map
      (fun result => result.vout.map fun txout => txout.tokens.map (·.amount)) =
        some [[0], [5]] := by
  decide +kernel

end IssuingTx

end Results

end Bfx.TokenReading
