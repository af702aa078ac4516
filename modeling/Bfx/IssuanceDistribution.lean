import Bfx.AcceptedScripts
import Bfx.TokenReading

/-!
What an issuance leaves on the outputs: the new tokens as the instructions say,
the remainder and the tokens of the inputs on the last output.
-/

namespace Bfx.IssuanceDistribution

open AcceptedScripts CallOutcome HexText List TokenReading TokenScript TokenTransaction Transaction
  TransferConservation TransferInterpreter

variable {vout : List BFXTTxOut}

def tokensAt (vout : List BFXTTxOut) (i : Nat) : List BFXTTokenTxData :=
  (vout[i]?.map (·.tokens)).getD []

theorem tokensAt_push (hlt : outputIndex < vout.length) (tokens : List BFXTTokenTxData) (i : Nat) :
    tokensAt (vout.modify outputIndex fun txout =>
        { txout with tokens := txout.tokens ++ tokens }) i =
      tokensAt vout i ++ if i = outputIndex then tokens else [] := by
  unfold tokensAt
  rw [List.getElem?_modify]
  split
  · rename_i hindex
    subst hindex
    rw [List.getElem?_eq_getElem hlt]
    simp
  · rename_i hindex
    simp [Ne.symm hindex]

theorem length_pushBackTokens (tokens : List BFXTTokenTxData) (vout : List BFXTTxOut) :
    (pushBackTokens tokens vout).length = vout.length :=
  length_modify _ _ _

theorem tokensAt_pushBackTokens (tokens : List BFXTTokenTxData) (vout : List BFXTTxOut) (i : Nat) :
    tokensAt (pushBackTokens tokens vout) i =
      tokensAt vout i ++ if i + 1 = vout.length then tokens else [] := by
  rcases Nat.eq_zero_or_pos vout.length with hzero | hpos
  · obtain rfl := eq_nil_of_length_eq_zero hzero
    rfl
  rw [pushBackTokens, tokensAt_push (by omega)]
  congr 1
  exact if_congr (by omega) rfl rfl

theorem tokensAt_readTxOut (vout : List CTxOut) (i : Nat) :
    tokensAt (vout.map readTxOut) i = [] := by
  unfold tokensAt
  rw [List.getElem?_map]
  cases vout[i]? <;> rfl

section Issuance

def createdToken (ctx : IssuanceContext) (tokenId : String) (amount : Nat) : BFXTTokenTxData :=
  { tokenId := tokenId
    amount := amount
    issueTxId := ctx.env.getHash ctx.tx
    divisibility := ctx.issuanceFlags.divisibility
    lockStatus := ctx.issuanceFlags.locked
    aggregationPolicy := getAggregationPolicyStr ctx.issuanceFlags
    tokenSymbol := ctx.tokenSymbol }

variable {ctx : IssuanceContext} {tokenId : String}

theorem issuedToken_eq (hid : newTokenId ctx = .ok tokenId) (amount : Nat) :
    issuedToken ctx amount = .ok (createdToken ctx tokenId amount) := by
  rw [issuedToken, hid, ok_bind]
  rfl

def instructedTokens (ctx : IssuanceContext) (tokenId : String)
    (instructions : List TransferInstruction) (i : Nat) : List BFXTTokenTxData :=
  (instructions.filter (·.outputIndex = i)).map fun ti => createdToken ctx tokenId ti.amount

theorem issueInstructions_tokensAt (hid : newTokenId ctx = .ok tokenId)
    (hissue : issueInstructions ctx instructions amount vout = .ok (left, vout')) :
    vout'.length = vout.length ∧
      ∀ i, tokensAt vout' i = tokensAt vout i ++ instructedTokens ctx tokenId instructions i := by
  induction instructions generalizing amount vout with
  | nil =>
    cases hissue
    exact ⟨rfl, fun i => (append_nil _).symm⟩
  | cons instruction instructions ih =>
    obtain ⟨-, -, token, pushed, htoken, hpush, hissue⟩ := issueInstructions_cons_eq_ok hissue
    rw [issuedToken_eq hid] at htoken
    obtain rfl := Except.ok.inj htoken
    obtain ⟨hlt, rfl⟩ := pushToken_eq_ok hpush
    obtain ⟨hlength, htokens⟩ := ih hissue
    refine ⟨hlength.trans (length_modify _ _ _), fun i => ?_⟩
    rw [htokens i, tokensAt_push hlt, append_assoc, instructedTokens, instructedTokens, filter_cons]
    congr 1
    by_cases hindex : i = instruction.outputIndex
    · rw [if_pos hindex, if_pos (decide_eq_true hindex.symm), map_cons, singleton_append]
    · rw [if_neg hindex, if_neg (by simpa using Ne.symm hindex), nil_append]

def remainderTokens (ctx : IssuanceContext) (tokenId : String) (left : Nat) :
    List BFXTTokenTxData :=
  if 0 < left then [createdToken ctx tokenId left] else []

theorem eq_remainderTokens (hid : newTokenId ctx = .ok tokenId)
    (hissued : Issued ctx (if 0 < left then [left] else []) tokens) :
    tokens = remainderTokens ctx tokenId left := by
  rw [remainderTokens]
  split at hissued
  · rename_i hpos
    obtain ⟨token, _, htoken, hnil, rfl⟩ := forall₂_cons_left_iff.mp hissued
    rw [issuedToken_eq hid] at htoken
    rw [forall₂_nil_left_iff.mp hnil, if_pos hpos, Except.ok.inj htoken]
  · rename_i hzero
    rw [if_neg hzero, forall₂_nil_left_iff.mp hissued]

end Issuance

private theorem divisibilityHex_table :
    ∀ divisibility : Fin 8, (toHexString divisibility.val).length = 1 ∧
      unhex (String.ofList (List.replicate (4 - 1) '0') ++ toHexString divisibility.val) =
        .ok [0, UInt8.ofNat divisibility.val] := by
  decide

theorem exists_newTokenId {ctx : IssuanceContext}
    (hdivisibility : ctx.issuanceFlags.divisibility ≤ 7)
    (hpolicy : ctx.issuanceFlags.aggregationPolicy ≠ .unknown) :
    ∃ tokenId, newTokenId ctx = .ok tokenId := by
  obtain ⟨hlength, hunhex⟩ := divisibilityHex_table ⟨ctx.issuanceFlags.divisibility, by omega⟩
  obtain ⟨aggregatableBin, haggregatable⟩ : ∃ aggregatableBin,
      (getAggregAndLockStatusTokenIDHexValue ctx.tokenSymbol ctx.issuanceFlags >>= unhex) =
        .ok aggregatableBin := by
    generalize ctx.issuanceFlags = flags at hpolicy
    obtain ⟨divisibility, locked, policy⟩ := flags
    cases policy with
    | unknown => exact absurd rfl hpolicy
    | _ => cases locked <;> exact ⟨_, rfl⟩
  rw [newTokenId, getTokenID, hlength, if_neg (by omega), hunhex, ok_bind, haggregatable, ok_bind]
  exact ⟨_, rfl⟩

def prevValue (env : NodeEnv) (inputsTxs : List InputPair) (txin : CTxIn) : Int :=
  match inputsTxs.find? fun input => env.getHash input.1 == txin.prevout.hash with
  | none => 0
  | some input =>
    match input.1.vout[txin.prevout.n]? with
    | none => 0
    | some txout => txout.nValue

theorem readInputs_total (hread : readInputs env tx inputsTxs txins totalInput = .ok (vin, total))
    (hrange : totalInput = totalInput % 2 ^ 64) :
    total = (totalInput + (txins.map (prevValue env inputsTxs)).sum) % 2 ^ 64 := by
  induction txins generalizing totalInput vin with
  | nil =>
    cases hread
    simpa using hrange
  | cons txin txins ih =>
    obtain ⟨⟨input, subtotal⟩, hinput, hread⟩ := bind_eq_ok.mp hread
    obtain ⟨⟨inputs, total'⟩, hinputs, hread⟩ := bind_eq_ok.mp hread
    cases hread
    obtain ⟨prev, prevOut, hprev, hprevOut, -, hsubtotal⟩ := readInput_eq_ok hinput
    have hvalue : prevOut.nValue = prevValue env inputsTxs txin := by
      simp [prevValue, getPrevInputIt_eq_ok.mp hprev, hprevOut]
    rw [hvalue] at hsubtotal
    rw [ih hinputs (by rw [hsubtotal, Int.emod_emod_of_dvd _ (dvd_refl _)]), hsubtotal,
      map_cons, sum_cons, Int.emod_add_emod]
    congr 1
    ring

/-- Reduction to `uint64_t` and `int64_t` does not raise a total that is not
negative. -/
theorem toInt64_emod_le (htotal : 0 ≤ total) : toInt64 (total % 2 ^ 64) ≤ total := by
  have hmod : total % 2 ^ 64 ≤ total := by omega
  have hnonneg : 0 ≤ total % 2 ^ 64 := Int.emod_nonneg _ (by decide)
  have hlt : total % 2 ^ 64 < 2 ^ 64 := Int.emod_lt_of_pos _ (by decide)
  unfold toInt64
  have hbmod := Int.bmod_def (total % 2 ^ 64) (2 ^ 64)
  split_ifs at hbmod <;> omega

theorem toInt64_of_moneyRange (hvalue : moneyRange value = true) :
    toInt64 (value % 2 ^ 64) = value := by
  simp only [moneyRange, Bool.and_eq_true, decide_eq_true_eq] at hvalue
  obtain ⟨hnonneg, hle⟩ := hvalue
  have hmax : MAX_MONEY = 9223372036854775807 := rfl
  rw [Int.emod_eq_of_lt hnonneg (by omega)]
  unfold toInt64
  apply Int.bmod_eq_of_le <;> omega

/-- The outputs of an accepted issuance. -/
structure Distributes (ctx : IssuanceContext) (tokenId : String)
    (instructions : List TransferInstruction) (amount : Nat) (inputsTxs : List InputPair)
    (vout : List BFXTTxOut) : Prop where
  length_eq : vout.length = ctx.tx.vout.length
  nonempty : 0 < vout.length
  in_range : ∀ ti ∈ instructions, ti.outputIndex < vout.length
  sum_le : (instructions.map (·.amount)).sum ≤ amount
  tokens_eq : ∀ i, tokensAt vout i = instructedTokens ctx tokenId instructions i ++
    if i + 1 = vout.length then
      remainderTokens ctx tokenId (amount - (instructions.map (·.amount)).sum) ++
        ctx.tx.vin.flatMap (prevTokens ctx.env inputsTxs)
    else []
  total_eq : voutAmount tokenId vout =
    amount + prevAmount ctx.env inputsTxs tokenId ctx.tx.vin

theorem distributes_of_issuesTokens (hissues : IssuesTokens ctx script amount inputsTxs issued vout)
    (hid : newTokenId ctx = .ok tokenId) :
    Distributes ctx tokenId script.transferInstructions amount inputsTxs vout := by
  obtain ⟨⟨left, vout₁⟩, hinstructions, hremainder⟩ := bind_eq_ok.mp hissues.issued_eq
  obtain ⟨hindices, hsum, -⟩ := issueInstructions_eq_ok hinstructions
  obtain ⟨hlength₁, htokens₁⟩ := issueInstructions_tokensAt hid hinstructions
  obtain ⟨tokens, htokens, rfl, -⟩ := issueRemainder_eq_ok hremainder
  obtain ⟨hvout, -⟩ := passInputTokens_eq_ok hissues.passed
  rw [length_map] at hlength₁
  have hlength : vout.length = ctx.tx.vout.length := by
    rw [hvout, length_pushBackTokens, length_pushBackTokens, hlength₁]
  have hpos := length_pos_of_ne_nil (vout_ne_nil_of_isTxBFXT
    (Option.isSome_iff_exists.mpr ⟨_, hissues.carries.arg_eq⟩))
  have hleft : amount - (script.transferInstructions.map (·.amount)).sum = left := by omega
  refine ⟨hlength, by omega, ?_, by omega, ?_, ?_⟩
  · rw [hlength]
    exact hindices
  · intro i
    rw [hlength, hvout, tokensAt_pushBackTokens, tokensAt_pushBackTokens, length_pushBackTokens,
      hlength₁, htokens₁ i, tokensAt_readTxOut, nil_append, hleft,
      eq_remainderTokens hid htokens, append_assoc]
    congr 1
    split <;> rfl
  obtain ⟨written, hwritten, -, hperm⟩ := hissues.tokens_perm
  obtain ⟨hamounts, -⟩ := issueOutputs_eq_ok hissues.issued_eq
  have hids : ∀ token ∈ written, token.tokenId = tokenId := fun token htoken =>
    Except.ok.inj ((issuedToken_eq_ok (hwritten.exists_amount token htoken)).1.symm.trans hid)
  rw [voutAmount, tokenAmount_perm tokenId hperm, tokenAmount_append, tokenAmount_flatMap,
    ← prevAmount, tokenAmount_of_id hids, if_pos rfl, hwritten.map_amount, hamounts,
    Nat.add_comm]

/-- An accepted issuance distributes exactly what its script issues, passes the
tokens of its inputs on to the last output, and pays the fee if no output that
it spends has a negative value. -/
theorem readBFXTDataFromTx_distributes
    {env : NodeEnv} {self result : BFXTTransaction} {tx : CTransaction}
    {inputsTxs : List InputPair} {opReturnArg : String} {script : BFXTScript}
    (hcarries : CarriesScript env tx opReturnArg script) (htype : script.txType = .issuance)
    (hread : readBFXTDataFromTx env self tx inputsTxs = .ok result) :
    (∃ firstInput tokenSymbol amount issuanceFlags tokenId,
      tx.vin.head?.map (·.prevout) = some firstInput ∧
      script.kind = .issuance tokenSymbol amount issuanceFlags ∧
      getTokenID env tokenSymbol issuanceFlags firstInput.hash.toHex firstInput.n = .ok tokenId ∧
      Distributes ⟨env, tx, opReturnArg, firstInput, tokenSymbol, issuanceFlags⟩ tokenId
        script.transferInstructions amount inputsTxs result.vout) ∧
    ((∀ txin ∈ tx.vin, 0 ≤ prevValue env inputsTxs txin) →
      issuanceFee ≤ (tx.vin.map (prevValue env inputsTxs)).sum - (tx.vout.map (·.nValue)).sum) := by
  rw [readBFXTDataFromTx_of_token self inputsTxs hcarries.arg_eq] at hread
  obtain ⟨totalOutput, vin, totalInput, script', hvalueOut, hinputs, hparse, hread⟩ :=
    readTokenScript_eq_ok hread
  obtain rfl : script = script' := Except.ok.inj (hcarries.parsed.symm.trans hparse)
  obtain ⟨version, op, haccepted⟩ := accepted_of_parseScript hparse
  have hbody := haccepted.body.kind
  rw [htype] at hbody
  rcases hbody with ⟨hkind, hissuance⟩
  rename_i tokenSymbol amount issuanceFlags
  simp only [executeScript, htype, hkind] at hread
  obtain ⟨hfee, txin, rest, issued, hvin, hissued, hpassed, -⟩ := executeIssuance_eq_ok hread
  constructor
  · obtain ⟨tokenId, hid⟩ : ∃ tokenId, newTokenId
        ⟨env, tx, opReturnArg, txin.prevout, tokenSymbol, issuanceFlags⟩ = .ok tokenId :=
      exists_newTokenId hissuance.divisibility_le hissuance.policy_known
    have hissues : IssuesTokens ⟨env, tx, opReturnArg, txin.prevout, tokenSymbol, issuanceFlags⟩
        script amount inputsTxs issued result.vout :=
      ⟨hcarries, htype, hkind, ⟨txin, rest, hvin, rfl⟩, hissued, hpassed⟩
    exact ⟨txin.prevout, tokenSymbol, amount, issuanceFlags, tokenId, by rw [hvin]; rfl, hkind,
      hid, distributes_of_issuesTokens hissues hid⟩
  intro hvalues
  have hsum : 0 ≤ (tx.vin.map (prevValue env inputsTxs)).sum :=
    sum_nonneg (forall_mem_map.mpr hvalues)
  have htotal := readInputs_total hinputs rfl
  rw [Int.zero_add] at htotal
  obtain ⟨hout, hrange⟩ := getValueOut_eq_ok hvalueOut
  rw [htotal, toInt64_of_moneyRange hrange, hout] at hfee
  exact hfee.trans (Int.sub_le_sub_right (toInt64_emod_le hsum) _)

def shortIdEnv : NodeEnv := { timeEnv with sha256 := fun _ => [] }

def issuingScript : BFXTScript :=
  ⟨⟨[], [⟨0, false, 0, [0x03], 3⟩],
      .issuance [0x41, 0x42, 0x43, 0x44, 0x45] 5 ⟨0, false, .aggregatable⟩⟩,
    "4e54030141424344450501000300", [0x4e, 0x54, 0x03], 3, [0x01], .issuance, true⟩

theorem issuingTx_distributes_five :
    ∃ result, readBFXTDataFromTx shortIdEnv emptyBFXTTransaction (issuingTx 3 0) [fundingTx] =
        .ok result ∧
      (∃ tokenId, voutAmount tokenId result.vout = 5) ∧ issuanceFee ≤ 2000000000 - 1 := by
  obtain ⟨result, hresult⟩ : ∃ result,
      readBFXTDataFromTx shortIdEnv emptyBFXTTransaction (issuingTx 3 0) [fundingTx] =
        .ok result := ⟨_, rfl⟩
  obtain ⟨⟨firstInput, tokenSymbol, amount, issuanceFlags, tokenId, -, hkind, -, hdistributes⟩,
    hfee⟩ := @readBFXTDataFromTx_distributes _ _ _ _ _ "4e54030141424344450501000300"
      issuingScript ⟨by decide +kernel, by decide +kernel⟩ rfl hresult
  obtain ⟨-, rfl, -⟩ := ScriptKind.issuance.inj hkind
  exact ⟨result, hresult, ⟨tokenId, hdistributes.total_eq⟩, hfee (by decide)⟩

/-- The funding transaction with seven tokens of the id that the issuance
creates. -/
def heldIdTx : InputPair :=
  (⟨1, [], [⟨2000000000, []⟩], 0⟩,
    ⟨1, [], [⟨2000000000, "", "", [⟨"2E370000", 7, 0, 0, false, aggregatableStr, []⟩]⟩], 0, 0,
      .notBFXT⟩)

/-- Two outputs of negative value, twenty coins above `-2 ^ 64` together. -/
def overdrawnTx : InputPair :=
  (⟨1, [], [⟨-2 ^ 63, []⟩, ⟨-2 ^ 63 + 2000000000, []⟩], 0⟩,
    ⟨1, [], [⟨-2 ^ 63, "", "", []⟩, ⟨-2 ^ 63 + 2000000000, "", "", []⟩], 0, 0, .notBFXT⟩)

def overdrawingTx : CTransaction :=
  { issuingTx 3 0 with vin := [⟨⟨1, 0⟩, []⟩, ⟨⟨1, 1⟩, []⟩] }

/-- Neither the token ids nor the native values of the spent outputs are checked
here. -/
theorem issuance_of_held_id_or_overdrawn :
    (readBFXTDataFromTx shortIdEnv emptyBFXTTransaction (issuingTx 3 0) [heldIdTx]).toOption.map
        (fun result => voutAmount "2E370000" result.vout) = some (5 + 7) ∧
    (readBFXTDataFromTx shortIdEnv emptyBFXTTransaction overdrawingTx
        [overdrawnTx, overdrawnTx]).isOk = true ∧
    (overdrawingTx.vin.map (prevValue shortIdEnv [overdrawnTx, overdrawnTx])).sum -
      (overdrawingTx.vout.map (·.nValue)).sum < issuanceFee := by
  decide +kernel

end Bfx.IssuanceDistribution
