import Bfx.ScriptCreation
import Bfx.ScriptTemplates
import Bfx.TransferConservation

/-!
Amending a standard transaction that spends tokens, `AmendStdTxWithBFXT`: each
token is sent back to the address that holds it, paid for by the change output.
-/

namespace Bfx.TransactionAmending

open CallOutcome HexText ScriptCreation ScriptTemplates ScriptText TokenScript TokenTransaction
  TransferConservation TransferInterpreter Transaction List

variable {vin : List CTxIn} {vout : List CTxOut}

section Inputs

variable (env : NodeEnv) (tx : CTransaction) (inputsTxs : List InputPair)

def txContainsOpReturn : Bool :=
  tx.vout.any fun txout => matchesOpReturn (scriptToString txout.scriptPubKey)

/-- The output that an input spends, without the check that it exists. -/
def getTxOutTokens (txin : CTxIn) : Outcome (List BFXTTokenTxData) := do
  let input ← getPrevInputIt env tx txin.prevout.hash inputsTxs
  let txout ← index .prevVout input.2.vout txin.prevout.n
  .ok txout.tokens

/-- The sum is an `unsigned`, and so is the index that is compared. -/
def countTokenKindsFrom (result : Nat) : List CTxIn → Outcome Nat
  | [] => .ok result
  | txin :: vin => do
    let input ← getPrevInputIt env tx txin.prevout.hash inputsTxs
    if (txin.prevout.n + 1) % 2 ^ 32 > input.2.vout.length then
      raise ("Failed at retrieving the number of tokens from transaction " ++
        (env.getHash tx).toHex ++ " at input " ++ (env.getHash input.1).toHex ++ "; input: " ++
        toString txin.prevout.n ++ " is out of range.")
    else
      let tokens ← getTxOutTokens env tx inputsTxs txin
      countTokenKindsFrom ((result + tokens.length) % 2 ^ 32) vin

def countTokenKindsInInputs : Outcome Nat := countTokenKindsFrom env tx inputsTxs 0 tx.vin

/-- The loop over `j`: the first input behind that holds tokens changes places
with `txin`. -/
def swapWithTokenInput (txin : CTxIn) : List CTxIn → Outcome (CTxIn × List CTxIn)
  | [] => .ok (txin, [])
  | other :: vin => do
    if (← getTxOutTokens env tx inputsTxs other).length ≠ 0 then .ok (other, txin :: vin)
    else
      let (first, vin) ← swapWithTokenInput txin vin
      .ok (first, other :: vin)

/-- The loop over `i`; the fuel is the number of inputs. -/
def reorderInputs : Nat → List CTxIn → Outcome (List CTxIn)
  | 0, vin => .ok vin
  | _, [] => .ok []
  | fuel + 1, txin :: vin => do
    let (first, vin) ←
      (if (← getTxOutTokens env tx inputsTxs txin).length = 0 then
        swapWithTokenInput env tx inputsTxs txin vin
      else .ok (txin, vin) : Outcome (CTxIn × List CTxIn))
    let vin ← reorderInputs fuel vin
    .ok (first :: vin)

def reorderTokenInputsToGoFirst : Outcome CTransaction := do
  ensureInputTokensRelateToTx env tx inputsTxs
  ensureInputsHashesMatch env inputsTxs
  if (← countTokenKindsInInputs env tx inputsTxs) = 0 then .ok tx
  else
    let vin ← reorderInputs env tx inputsTxs tx.vin.length tx.vin
    .ok { tx with vin := vin }

end Inputs

def MIN_TX_FEE : Int := 10000

/-- What the amending only reads. -/
structure AmendContext where
  env : NodeEnv
  dataSize : UInt32
  tx : CTransaction
  inputsTxs : List InputPair
  changeIndex : Int

/-- The outputs and the instructions made so far. -/
structure AmendState where
  vout : List CTxOut
  tis : List TransferInstruction

def hash160 (env : NodeEnv) (vch : Bytes) : Bytes := env.ripemd160 (env.sha256 vch)

/-- The three checks on the change output, made before each output that it pays. -/
def ensureChangeFunds (changeIndex : Int) (vout : List CTxOut) : Outcome Unit := do
  if changeIndex + 1 > vout.length then
    raise "Invalid change index provided to fund moving BFXT tokens"
  else if changeIndex < 0 then
    raise "Could not find a change output from which BFXT token moving can be funded"
  else
    let change ← checkedAt vout changeIndex.toNat
    if change.nValue < MIN_TX_FEE then
      raise "Insufficient balance in change to create fund moving an BFXT token"
    else .ok ()

/-- `vout[changeIndex].nValue -= MIN_TX_FEE`. -/
def payFromChange (changeIndex : Int) (vout : List CTxOut) : List CTxOut :=
  vout.modify changeIndex.toNat fun txout => { txout with nValue := txout.nValue - MIN_TX_FEE }

/-- The loop over the tokens of input `i`. -/
def moveTokens (ctx : AmendContext) (i : Nat) (prevTx : CTransaction) (prevout : COutPoint) :
    List BFXTTokenTxData → AmendState → Outcome AmendState
  | [], state => .ok state
  | token :: tokens, state => do
    if token.amount = 0 then
      if i = 0 then
        raise ("While amending a native bfx transactions, the first input is empty. This " ++
          "basically cannot be amended. Inputs must be reordered to have tokens in " ++
          "first inputs, and it seems that reordering failed")
      else moveTokens ctx i prevTx prevout tokens state
    else
      let prevOut ← checkedAt prevTx.vout prevout.n
      match extractDestination (hash160 ctx.env) ctx.dataSize.toNat prevOut.scriptPubKey with
      | none =>
        raise ("Unable to extract address from previous output; tx: " ++
          (ctx.env.getHash ctx.tx).toHex ++ " and prevout: " ++ prevout.hash.toHex ++ ":" ++
          toString prevout.n)
      | some currentTokenAddress => do
        ensureChangeFunds ctx.changeIndex state.vout
        let vout := payFromChange ctx.changeIndex state.vout ++
          [⟨MIN_TX_FEE, setDestination currentTokenAddress⟩]
        moveTokens ctx i prevTx prevout tokens
          ⟨vout, state.tis ++ [⟨0, false, vout.length - 1, [], token.amount⟩]⟩

/-- The loop over the inputs. -/
def moveInputs (ctx : AmendContext) (i : Nat) : List CTxIn → AmendState → Outcome AmendState
  | [], state => .ok state
  | txin :: vin, state => do
    let input ← getPrevInputIt ctx.env ctx.tx txin.prevout.hash ctx.inputsTxs
    let txout ← checkedAt input.2.vout txin.prevout.n
    let state ← moveTokens ctx i input.1 txin.prevout txout.tokens state
    moveInputs ctx (i + 1) vin state

/-- `CScript() << OP_RETURN << ParseHex(scriptHex)`, where the text is what
`boost::algorithm::hex` makes of the script. -/
def opReturnScript (scriptBin : Bytes) : Bytes := OP_RETURN :: pushData scriptBin

/-- The `OP_RETURN` output takes the place kept for it, or that of the change
when nothing but its own fee is left there. -/
def placeOpReturn (changeIndex : Int) (opRetIdx : Nat) (scriptPubKey : Bytes)
    (vout : List CTxOut) : Outcome (List CTxOut) := do
  let change ← checkedAt vout changeIndex.toNat
  if change.nValue = MIN_TX_FEE then
    .ok ((vout.set changeIndex.toNat ⟨MIN_TX_FEE, scriptPubKey⟩).eraseIdx opRetIdx)
  else .ok (payFromChange changeIndex (vout.set opRetIdx ⟨MIN_TX_FEE, scriptPubKey⟩))

/-- The local copy of the transaction when the call returns. -/
def amendedCopy (zlibCompress : Bytes → Bytes) (env : NodeEnv) (dataSize : UInt32)
    (tx : CTransaction) (inputsTxs : List InputPair) (changeIndex : Int) :
    Outcome CTransaction := do
  ensureInputsHashesMatch env inputsTxs
  ensureInputTokensRelateToTx env tx inputsTxs
  let inputTokenKinds ← countTokenKindsInInputs env tx inputsTxs
  if inputTokenKinds = 0 then .ok tx
  else if txContainsOpReturn tx then
    raise ("Cannot BFXT-amend transaction " ++ (env.getHash tx).toHex ++
      " because it already has an OP_RETURN output")
  else
    let tx ← reorderTokenInputsToGoFirst env tx inputsTxs
    let opRetIdx := tx.vout.length
    let state ← moveInputs ⟨env, dataSize, tx, inputsTxs, changeIndex⟩ 0 tx.vin
      ⟨tx.vout ++ [⟨0, []⟩], []⟩
    ensureChangeFunds changeIndex state.vout
    let script ← createTransferScript zlibCompress state.tis []
    let scriptBin ← calculateScriptBin dataSize.toNat script
    let vout ← placeOpReturn changeIndex opRetIdx (opReturnScript scriptBin) state.vout
    .ok { tx with vout := vout }

/-- The call and what it leaves in the transaction of the caller, which is
assigned only at the end. -/
def amendStdTxWithBFXT (zlibCompress : Bytes → Bytes) (env : NodeEnv) (dataSize : UInt32)
    (tx : CTransaction) (inputsTxs : List InputPair) (changeIndex : Int) :
    Outcome Unit × CTransaction :=
  match amendedCopy zlibCompress env dataSize tx inputsTxs changeIndex with
  | .ok amended => (.ok (), amended)
  | .error fault => (.error fault, tx)

theorem getTxOutTokens_eq_ok (htokens : getTxOutTokens env tx inputsTxs txin = .ok tokens) :
    prevTokens env inputsTxs txin = tokens := by
  obtain ⟨prev, hprev, htokens⟩ := bind_eq_ok.mp htokens
  obtain ⟨prevOut, hprevOut, htokens⟩ := bind_eq_ok.mp htokens
  rw [prevTokens_eq hprev hprevOut, Except.ok.inj htokens]

theorem countTokenKindsFrom_eq_ok {result count : Nat} (hresult : result < 2 ^ 32)
    (hcount : countTokenKindsFrom env tx inputsTxs result vin = .ok count) :
    count = (result + (vin.flatMap (prevTokens env inputsTxs)).length) % 2 ^ 32 := by
  induction vin generalizing result with
  | nil =>
    cases hcount
    exact (Nat.mod_eq_of_lt hresult).symm
  | cons txin vin ih =>
    obtain ⟨prev, hprev, hcount⟩ := bind_eq_ok.mp hcount
    split at hcount
    · cases hcount
    obtain ⟨tokens, htokens, hcount⟩ := bind_eq_ok.mp hcount
    rw [ih (Nat.mod_lt _ (by decide)) hcount, flatMap_cons, length_append,
      getTxOutTokens_eq_ok htokens, ← Nat.add_assoc]
    omega

/-- Whether the output that an input spends has token slots. -/
def holdsTokens (env : NodeEnv) (inputsTxs : List InputPair) (txin : CTxIn) : Bool :=
  !(prevTokens env inputsTxs txin).isEmpty

theorem holdsTokens_iff (htokens : getTxOutTokens env tx inputsTxs txin = .ok tokens) :
    holdsTokens env inputsTxs txin = true ↔ tokens.length ≠ 0 := by
  rw [holdsTokens, getTxOutTokens_eq_ok htokens]
  simp

/-- The input in front holds tokens if one of them does, and those that do keep their order. -/
theorem swapWithTokenInput_eq_ok (htxin : holdsTokens env inputsTxs txin = false)
    (hswap : swapWithTokenInput env tx inputsTxs txin vin = .ok (first, vin')) :
    (first :: vin').Perm (txin :: vin) ∧
      (first :: vin').filter (holdsTokens env inputsTxs) = vin.filter (holdsTokens env inputsTxs) ∧
      (holdsTokens env inputsTxs first = false → vin.filter (holdsTokens env inputsTxs) = []) := by
  induction vin generalizing vin' with
  | nil =>
    cases hswap
    simp [htxin]
  | cons other vin ih =>
    obtain ⟨tokens, htokens, hswap⟩ := bind_eq_ok.mp hswap
    split at hswap
    · rename_i hne
      cases hswap
      have hfirst := (holdsTokens_iff htokens).mpr hne
      simp [List.Perm.swap, htxin, hfirst]
    rename_i hzero
    have hother := Bool.eq_false_iff.mpr fun h => hzero ((holdsTokens_iff htokens).mp h)
    obtain ⟨⟨found, rest⟩, hfound, hswap⟩ := bind_eq_ok.mp hswap
    cases hswap
    obtain ⟨hperm, hfilter, hnone⟩ := ih hfound
    refine ⟨(List.Perm.swap _ _ _).trans ((hperm.cons other).trans (List.Perm.swap _ _ _)), ?_, ?_⟩
    · rw [filter_cons] at hfilter
      simpa [filter_cons, hother] using hfilter
    · simpa [hother] using hnone

/-- A stable partition: the inputs with tokens in their order, then the others. -/
theorem reorderInputs_eq_ok (hfuel : vin.length ≤ fuel)
    (hreorder : reorderInputs env tx inputsTxs fuel vin = .ok vin') :
    vin'.Perm vin ∧ ∃ others, vin' = vin.filter (holdsTokens env inputsTxs) ++ others ∧
      ∀ txin ∈ others, holdsTokens env inputsTxs txin = false := by
  induction fuel generalizing vin vin' with
  | zero =>
    obtain rfl := length_eq_zero_iff.mp (Nat.le_zero.mp hfuel)
    cases hreorder
    exact ⟨.nil, [], rfl, forall_mem_nil _⟩
  | succ fuel ih =>
    rcases vin with _ | ⟨txin, vin⟩
    · cases hreorder
      exact ⟨.nil, [], rfl, forall_mem_nil _⟩
    simp only [reorderInputs, bind_eq_ok] at hreorder
    obtain ⟨tokens, htokens, ⟨first, rest⟩, hswap, rest', hrest, hreorder⟩ := hreorder
    cases hreorder
    obtain ⟨hperm, hfilter, hnone⟩ : (first :: rest).Perm (txin :: vin) ∧
        (first :: rest).filter (holdsTokens env inputsTxs) =
          (txin :: vin).filter (holdsTokens env inputsTxs) ∧
        (holdsTokens env inputsTxs first = false →
          (txin :: vin).filter (holdsTokens env inputsTxs) = []) := by
      split at hswap
      · rename_i hzero
        have htxin := Bool.eq_false_iff.mpr fun h => (holdsTokens_iff htokens).mp h hzero
        rw [filter_cons_of_neg (a := txin) (by simp [htxin])]
        exact swapWithTokenInput_eq_ok htxin hswap
      rename_i hne
      cases hswap
      simp [(holdsTokens_iff htokens).mpr hne]
    have hlength := hperm.length_eq
    simp only [length_cons] at hlength hfuel hrest
    obtain ⟨hperm', others, rfl, hothers⟩ := ih (by omega) hrest
    refine ⟨(hperm'.cons first).trans hperm, ?_⟩
    rw [← hfilter] at hnone ⊢
    cases hfirst : holdsTokens env inputsTxs first with
    | true => exact ⟨others, by rw [filter_cons_of_pos hfirst, cons_append], hothers⟩
    | false =>
      have hempty := hnone hfirst
      rw [hempty]
      rw [filter_cons_of_neg (by simp [hfirst])] at hempty
      rw [hempty]
      exact ⟨first :: others, rfl, forall_mem_cons.mpr ⟨hfirst, hothers⟩⟩

/-- The count of token slots is an `unsigned`; where it wraps to zero the inputs stay. -/
theorem token_inputs_go_first (env : NodeEnv) (tx tx' : CTransaction) (inputsTxs : List InputPair)
    (hreorder : reorderTokenInputsToGoFirst env tx inputsTxs = .ok tx') :
    tx'.vin.Perm tx.vin ∧ tx'.vin.filter (holdsTokens env inputsTxs) =
        tx.vin.filter (holdsTokens env inputsTxs) ∧
      (¬ (0 < (tx.vin.flatMap (prevTokens env inputsTxs)).length ∧
          2 ^ 32 ∣ (tx.vin.flatMap (prevTokens env inputsTxs)).length) →
        tx'.vin.Pairwise fun txin later => holdsTokens env inputsTxs later = true →
          holdsTokens env inputsTxs txin = true) := by
  simp only [reorderTokenInputsToGoFirst, bind_eq_ok] at hreorder
  obtain ⟨_, -, _, -, count, hcount, hreorder⟩ := hreorder
  have hslots := countTokenKindsFrom_eq_ok (by decide) hcount
  rw [Nat.zero_add] at hslots
  split at hreorder
  · rename_i hzero
    cases hreorder
    refine ⟨.refl _, rfl, fun hwraps => ?_⟩
    have hnone : ∀ txin ∈ tx.vin, prevTokens env inputsTxs txin = [] := by
      rw [← flatMap_eq_nil_iff, ← length_eq_zero_iff]
      omega
    refine pairwise_of_forall_mem_list fun txin _ later hlater hholds => ?_
    rw [holdsTokens, hnone later hlater] at hholds
    cases hholds
  obtain ⟨vin, hvin, hreorder⟩ := bind_eq_ok.mp hreorder
  cases hreorder
  obtain ⟨hperm, others, rfl, hothers⟩ := reorderInputs_eq_ok (le_refl _) hvin
  have hnone : others.filter (holdsTokens env inputsTxs) = [] := by
    simpa [filter_eq_nil_iff] using hothers
  refine ⟨hperm, by simp [hnone], fun _ => pairwise_append.mpr ⟨?_, ?_, ?_⟩⟩
  · exact pairwise_of_forall_mem_list fun txin htxin _ _ _ => (mem_filter.mp htxin).2
  · refine pairwise_of_forall_mem_list fun _ _ later hlater hholds => ?_
    rw [hothers later hlater] at hholds
    cases hholds
  · exact fun txin htxin _ _ _ => (mem_filter.mp htxin).2

def slotsTx (tokens : List BFXTTokenTxData) : InputPair :=
  (⟨1, [], [], 0⟩, ⟨1, [], [⟨1, "", "", []⟩, ⟨1, "", "", tokens⟩], 0, 0, .issuance⟩)

def slotsSpender (first second : Nat) : CTransaction :=
  ⟨2, [⟨⟨1, first⟩, []⟩, ⟨⟨1, second⟩, []⟩], [], 0⟩

theorem token_input_goes_first :
    reorderTokenInputsToGoFirst timeEnv (slotsSpender 0 1) [slotsTx [fiveTokens]] =
        .ok (slotsSpender 1 0) ∧
      (slotsSpender 1 0).vin.Pairwise fun txin later =>
        holdsTokens timeEnv [slotsTx [fiveTokens]] later = true →
          holdsTokens timeEnv [slotsTx [fiveTokens]] txin = true := by
  have hreorder : reorderTokenInputsToGoFirst timeEnv (slotsSpender 0 1) [slotsTx [fiveTokens]] =
      .ok (slotsSpender 1 0) := by decide +kernel
  exact ⟨hreorder, (token_inputs_go_first _ _ _ _ hreorder).2.2 (by decide +kernel)⟩

/-- With `2 ^ 32` slots the input that has them stays behind the other one. -/
theorem wrapped_count_keeps_order : ∃ tokens : List BFXTTokenTxData, tokens.length = 2 ^ 32 ∧
    reorderTokenInputsToGoFirst timeEnv (slotsSpender 0 1) [slotsTx tokens] =
        .ok (slotsSpender 0 1) ∧
      ¬ (slotsSpender 0 1).vin.Pairwise fun txin later =>
        holdsTokens timeEnv [slotsTx tokens] later = true →
          holdsTokens timeEnv [slotsTx tokens] txin = true := by
  obtain ⟨tokens, hlength⟩ : ∃ tokens : List BFXTTokenTxData, tokens.length = 2 ^ 32 :=
    ⟨List.replicate _ fiveTokens, length_replicate⟩
  refine ⟨tokens, hlength, ?_, fun h => ?_⟩
  · have hcount : countTokenKindsInInputs timeEnv (slotsSpender 0 1) [slotsTx tokens] =
        .ok (((0 + ([] : List BFXTTokenTxData).length) % 2 ^ 32 + tokens.length) % 2 ^ 32) := rfl
    rw [length_nil, hlength, show ((0 + 0) % 2 ^ 32 + 2 ^ 32) % 2 ^ 32 = 0 by norm_num] at hcount
    rw [reorderTokenInputsToGoFirst, hcount]
    rfl
  rcases tokens with _ | ⟨token, tokens⟩
  · cases hlength
  · cases (pairwise_cons.mp h).1 _ mem_cons_self rfl

section Moves

/-- A token and the address that it is sent back to. -/
abbrev OwnedToken := CTxDestination × BFXTTokenTxData

def sendBack (changeIndex : Int) (state : AmendState) (owned : OwnedToken) : AmendState :=
  ⟨payFromChange changeIndex state.vout ++ [⟨MIN_TX_FEE, setDestination owned.1⟩],
    state.tis ++ [⟨0, false, state.vout.length, [], owned.2.amount⟩]⟩

/-- Tokens are sent back one after the other, each paid for by the change. -/
inductive Moves (changeIndex : Int) : AmendState → List OwnedToken → AmendState → Prop
  | nil {state : AmendState} : Moves changeIndex state [] state
  | cons {state final : AmendState} {owned : OwnedToken} {moved : List OwnedToken}
      (hfunds : ensureChangeFunds changeIndex state.vout = .ok ())
      (hrest : Moves changeIndex (sendBack changeIndex state owned) moved final) :
      Moves changeIndex state (owned :: moved) final

theorem Moves.append (h : Moves changeIndex state moved middle)
    (h' : Moves changeIndex middle moved' final) :
    Moves changeIndex state (moved ++ moved') final := by
  induction h with
  | nil => exact h'
  | cons hfunds _ ih => exact .cons hfunds (ih h')

variable {ctx : AmendContext}

/-- The tokens of one input, with the address that holds them. -/
structure OwnedBy (ctx : AmendContext) (prevTx : CTransaction) (n : Nat)
    (tokens : List BFXTTokenTxData) (moved : List OwnedToken) : Prop where
  tokens_eq : moved.map Prod.snd = tokens.filter (·.amount ≠ 0)
  owners : ∀ owned ∈ moved, ∃ prevOut, prevTx.vout[n]? = some prevOut ∧
    extractDestination (hash160 ctx.env) ctx.dataSize.toNat prevOut.scriptPubKey = some owned.1

theorem moveTokens_eq_ok {prevTx : CTransaction}
    (hmove : moveTokens ctx i prevTx prevout tokens state = .ok final) :
    ∃ moved, Moves ctx.changeIndex state moved final ∧
      OwnedBy ctx prevTx prevout.n tokens moved := by
  induction tokens generalizing state with
  | nil =>
    cases hmove
    exact ⟨[], .nil, rfl, nofun⟩
  | cons token tokens ih =>
    rw [moveTokens] at hmove
    split at hmove
    · rename_i hzero
      split at hmove
      · cases hmove
      obtain ⟨moved, hmoves, howned⟩ := ih hmove
      refine ⟨moved, hmoves, ?_, howned.owners⟩
      rw [howned.tokens_eq, filter_cons_of_neg (by simp [hzero])]
    rename_i hpos
    obtain ⟨prevOut, hprevOut, hmove⟩ := bind_eq_ok.mp hmove
    split at hmove
    · cases hmove
    rename_i dest hdest
    obtain ⟨_, hfunds, hmove⟩ := bind_eq_ok.mp hmove
    obtain ⟨moved, hmoves, howned⟩ := ih hmove
    have hlength : (payFromChange ctx.changeIndex state.vout ++
        [(⟨MIN_TX_FEE, setDestination dest⟩ : CTxOut)]).length - 1 = state.vout.length := by
      simp [payFromChange]
    rw [hlength] at hmoves
    refine ⟨(dest, token) :: moved, .cons hfunds hmoves, ?_, ?_⟩
    · rw [map_cons, howned.tokens_eq, filter_cons_of_pos (by simp [hpos])]
    intro owned hmem
    rcases mem_cons.mp hmem with rfl | hmem
    · exact ⟨prevOut, checkedAt_eq_ok.mp hprevOut, hdest⟩
    · exact howned.owners owned hmem

def OwnedByInputs (ctx : AmendContext) (vin : List CTxIn) (moved : List OwnedToken) : Prop :=
  ∃ parts : List (List OwnedToken), moved = parts.flatten ∧
    List.Forall₂ (fun txin part => ∃ prev prevOut,
      getPrevInputIt ctx.env ctx.tx txin.prevout.hash ctx.inputsTxs = .ok prev ∧
      prev.2.vout[txin.prevout.n]? = some prevOut ∧
      OwnedBy ctx prev.1 txin.prevout.n prevOut.tokens part) vin parts

theorem moveInputs_eq_ok (hmove : moveInputs ctx i vin state = .ok final) :
    ∃ moved, Moves ctx.changeIndex state moved final ∧ OwnedByInputs ctx vin moved := by
  induction vin generalizing i state with
  | nil =>
    cases hmove
    exact ⟨[], .nil, [], rfl, .nil⟩
  | cons txin vin ih =>
    simp only [moveInputs, bind_eq_ok] at hmove
    obtain ⟨prev, hprev, prevOut, hprevOut, middle, hmiddle, hmove⟩ := hmove
    obtain ⟨part, hpart, howned⟩ := moveTokens_eq_ok hmiddle
    obtain ⟨_, hrest, parts, rfl, hparts⟩ := ih hmove
    refine ⟨_, hpart.append hrest, part :: parts, rfl, .cons ?_ hparts⟩
    exact ⟨prev, prevOut, hprev, checkedAt_eq_ok.mp hprevOut, howned⟩

end Moves

/-- Several fees are paid by the change. -/
def chargeChange (changeIndex : Int) (fees : Nat) (vout : List CTxOut) : List CTxOut :=
  vout.modify changeIndex.toNat fun txout =>
    { txout with nValue := txout.nValue - fees * MIN_TX_FEE }

def tokenOutputs (moved : List OwnedToken) : List CTxOut :=
  moved.map fun owned => ⟨MIN_TX_FEE, setDestination owned.1⟩

def tokenInstructions (start : Nat) (moved : List OwnedToken) : List TransferInstruction :=
  (moved.zipIdx start).map fun (owned, outputIndex) => ⟨0, false, outputIndex, [], owned.2.amount⟩

theorem payFromChange_eq (changeIndex : Int) (vout : List CTxOut) :
    payFromChange changeIndex vout = chargeChange changeIndex 1 vout := by
  simp [payFromChange, chargeChange]

theorem chargeChange_zero (changeIndex : Int) (vout : List CTxOut) :
    chargeChange changeIndex 0 vout = vout := by
  have hid : (fun txout : CTxOut =>
      { txout with nValue := txout.nValue - (0 : Nat) * MIN_TX_FEE }) = id := by
    funext txout
    simp
  rw [chargeChange, hid, modify_id]

theorem chargeChange_add (changeIndex : Int) (fees fees' : Nat) (vout : List CTxOut) :
    chargeChange changeIndex fees' (chargeChange changeIndex fees vout) =
      chargeChange changeIndex (fees + fees') vout := by
  rw [chargeChange, chargeChange, modify_modify_eq, chargeChange]
  congr 1
  funext txout
  simp only [Function.comp_apply, Nat.cast_add]
  congr 1
  ring

theorem chargeChange_append (fees : Nat) (hindex : changeIndex.toNat < vout.length)
    (added : List CTxOut) :
    chargeChange changeIndex fees (vout ++ added) =
      chargeChange changeIndex fees vout ++ added := by
  rw [chargeChange, chargeChange]
  generalize changeIndex.toNat = i at hindex
  induction vout generalizing i with
  | nil => simp at hindex
  | cons txout vout ih =>
    cases i with
    | zero => rfl
    | succ i => simp [ih i (by simpa using hindex)]

theorem sum_chargeChange (fees : Nat) (hindex : changeIndex.toNat < vout.length) :
    ((chargeChange changeIndex fees vout).map (·.nValue)).sum =
      (vout.map (·.nValue)).sum - fees * MIN_TX_FEE := by
  rw [chargeChange]
  generalize changeIndex.toNat = i at hindex
  induction vout generalizing i with
  | nil => simp at hindex
  | cons txout vout ih =>
    cases i with
    | zero =>
      simp only [modify_zero_cons, map_cons, sum_cons]
      ring
    | succ i =>
      simp only [modify_succ_cons, map_cons, sum_cons, ih i (by simpa using hindex)]
      ring

@[simp] theorem length_chargeChange (changeIndex : Int) (fees : Nat) (vout : List CTxOut) :
    (chargeChange changeIndex fees vout).length = vout.length := by
  simp [chargeChange]

theorem ensureChangeFunds_eq_ok :
    ensureChangeFunds changeIndex vout = .ok () ↔
      0 ≤ changeIndex ∧ ∃ change, vout[changeIndex.toNat]? = some change ∧
        MIN_TX_FEE ≤ change.nValue := by
  rw [ensureChangeFunds]
  constructor
  · intro hfunds
    split_ifs at hfunds with hlarge hnegative
    · cases hfunds
    · cases hfunds
    obtain ⟨change, hchange, hfunds⟩ := bind_eq_ok.mp hfunds
    split at hfunds
    · cases hfunds
    rename_i henough
    exact ⟨Int.not_lt.mp hnegative, change, checkedAt_eq_ok.mp hchange, Int.not_lt.mp henough⟩
  rintro ⟨hnonneg, change, hchange, henough⟩
  obtain ⟨hlt, -⟩ := List.getElem?_eq_some_iff.mp hchange
  rw [if_neg (by omega), if_neg (by omega), checkedAt_eq_ok.mpr hchange, ok_bind,
    if_neg (Int.not_lt.mpr henough)]

theorem Moves.final_eq (hmoves : Moves changeIndex state moved final)
    (hindex : changeIndex.toNat < state.vout.length) :
    final.vout = chargeChange changeIndex moved.length state.vout ++ tokenOutputs moved ∧
      final.tis = state.tis ++ tokenInstructions state.vout.length moved := by
  induction hmoves with
  | nil => simp [chargeChange_zero, tokenOutputs, tokenInstructions]
  | @cons state final owned moved hfunds hrest ih =>
    have hlength : (sendBack changeIndex state owned).vout.length = state.vout.length + 1 := by
      simp [sendBack, payFromChange]
    obtain ⟨hvout, htis⟩ := ih (by omega)
    refine ⟨?_, ?_⟩
    · have hpaid : changeIndex.toNat < (chargeChange changeIndex 1 state.vout).length := by
        rwa [length_chargeChange]
      rw [hvout, sendBack, payFromChange_eq, chargeChange_append _ hpaid, chargeChange_add,
        length_cons, Nat.add_comm 1, append_assoc]
      rfl
    · rw [htis, hlength, sendBack, append_assoc]
      rfl

section Amending

variable {zlibCompress : Bytes → Bytes} {env : NodeEnv} {dataSize : UInt32} {tx tx' : CTransaction}
  {inputsTxs : List InputPair} {changeIndex : Int}

/-- The run of a call that sends tokens back. -/
structure Amends (zlibCompress : Bytes → Bytes) (ctx : AmendContext) (moved : List OwnedToken)
    (scriptBin : Bytes) (vout : List CTxOut) : Prop where
  owned : OwnedByInputs ctx ctx.tx.vin moved
  index_nonneg : 0 ≤ ctx.changeIndex
  index_lt : ctx.changeIndex.toNat < ctx.tx.vout.length
  script_eq : (createTransferScript zlibCompress
    (tokenInstructions (ctx.tx.vout.length + 1) moved) [] >>= calculateScriptBin
      ctx.dataSize.toNat) = .ok scriptBin
  outputs : ∃ change, ctx.tx.vout[ctx.changeIndex.toNat]? = some change ∧
    ((change.nValue = (moved.length + 1 : Nat) * MIN_TX_FEE ∧
        vout = ctx.tx.vout.set ctx.changeIndex.toNat ⟨MIN_TX_FEE, opReturnScript scriptBin⟩ ++
          tokenOutputs moved) ∨
      ((moved.length + 1 : Nat) * MIN_TX_FEE < change.nValue ∧
        vout = chargeChange ctx.changeIndex (moved.length + 1) ctx.tx.vout ++
          ⟨MIN_TX_FEE, opReturnScript scriptBin⟩ :: tokenOutputs moved))

/-- The place kept for the `OP_RETURN` output cannot pay for anything. -/
theorem changeIndex_lt_of_funds
    (hfunds : ensureChangeFunds changeIndex (vout ++ [⟨0, []⟩]) = .ok ()) :
    0 ≤ changeIndex ∧ changeIndex.toNat < vout.length := by
  obtain ⟨hnonneg, change, hchange, henough⟩ := ensureChangeFunds_eq_ok.mp hfunds
  refine ⟨hnonneg, Nat.lt_of_not_le fun hle => ?_⟩
  obtain ⟨hlt, heq⟩ := List.getElem?_eq_some_iff.mp hchange
  rw [List.getElem?_append_right hle] at hchange
  rw [length_append, length_singleton] at hlt
  rw [show changeIndex.toNat - vout.length = 0 by omega] at hchange
  cases hchange
  exact absurd henough (by decide)

theorem Moves.index_lt (hmoves : Moves changeIndex ⟨vout ++ [⟨0, []⟩], []⟩ moved final)
    (hfunds : ensureChangeFunds changeIndex final.vout = .ok ()) :
    0 ≤ changeIndex ∧ changeIndex.toNat < vout.length := by
  cases hmoves with
  | nil => exact changeIndex_lt_of_funds hfunds
  | cons hfirst _ => exact changeIndex_lt_of_funds hfirst

theorem getElem?_chargeChange (fees : Nat) (hchange : vout[changeIndex.toNat]? = some change) :
    (chargeChange changeIndex fees vout)[changeIndex.toNat]? =
      some { change with nValue := change.nValue - fees * MIN_TX_FEE } := by
  rw [chargeChange, List.getElem?_modify_eq, hchange]
  rfl

theorem placeOpReturn_eq (hchange : vout[changeIndex.toNat]? = some change) (hplace : placeOpReturn
      changeIndex vout.length scriptPubKey (chargeChange changeIndex fees vout ++ ⟨0, []⟩ :: added)
      = .ok vout') :
    (change.nValue = (fees + 1 : Nat) * MIN_TX_FEE ∧
        vout' = vout.set changeIndex.toNat ⟨MIN_TX_FEE, scriptPubKey⟩ ++ added) ∨
      (change.nValue ≠ (fees + 1 : Nat) * MIN_TX_FEE ∧
        vout' = chargeChange changeIndex (fees + 1) vout ++ ⟨MIN_TX_FEE, scriptPubKey⟩ :: added) := by
  obtain ⟨hlt, -⟩ := List.getElem?_eq_some_iff.mp hchange
  have hlt' : changeIndex.toNat < (chargeChange changeIndex fees vout).length := by
    rwa [length_chargeChange]
  have hlast : vout.length = (chargeChange changeIndex fees vout).length :=
    (length_chargeChange _ _ _).symm
  obtain ⟨left, hleft, hplace⟩ := bind_eq_ok.mp hplace
  rw [checkedAt_eq_ok, List.getElem?_append_left hlt', getElem?_chargeChange fees hchange] at hleft
  cases hleft
  rw [Nat.cast_add, Nat.cast_one, add_mul, one_mul]
  dsimp only at hplace
  split at hplace
  · rename_i hexact
    refine Or.inl ⟨by omega, ?_⟩
    rw [← Except.ok.inj hplace, set_append_left _ _ hlt', eraseIdx_append_of_length_le]
    · rw [length_set, ← hlast, Nat.sub_self, eraseIdx_cons_zero]
      congr 1
      refine ext_getElem? fun k => ?_
      rw [List.getElem?_set, List.getElem?_set, ← hlast, chargeChange, List.getElem?_modify]
      split
      · rfl
      · simp
    · rw [length_set, ← hlast]
  rename_i hmore
  refine Or.inr ⟨by omega, ?_⟩
  rw [← Except.ok.inj hplace, set_append_right _ _ (le_of_eq hlast.symm), ← hlast,
    Nat.sub_self, set_cons_zero, payFromChange_eq, chargeChange_append _ hlt',
    chargeChange_add]

/-- A call that returns found all inputs; it has sent tokens back unless there
are none. -/
structure AmendsOrLeaves (zlibCompress : Bytes → Bytes) (env : NodeEnv) (dataSize : UInt32)
    (tx : CTransaction) (inputsTxs : List InputPair) (changeIndex : Int) (count : Nat)
    (tx' : CTransaction) : Prop where
  hashes_match : ensureInputsHashesMatch env inputsTxs = .ok ()
  relates : ensureInputTokensRelateToTx env tx inputsTxs = .ok ()
  counted : countTokenKindsInInputs env tx inputsTxs = .ok count
  leaves : count = 0 → tx' = tx
  amends : count ≠ 0 → ∃ vin moved scriptBin vout,
    reorderInputs env tx inputsTxs tx.vin.length tx.vin = .ok vin ∧
      Amends zlibCompress ⟨env, dataSize, { tx with vin := vin }, inputsTxs, changeIndex⟩ moved
        scriptBin vout ∧ tx' = { tx with vin := vin, vout := vout }

theorem amendedCopy_eq_ok
    (hamend : amendedCopy zlibCompress env dataSize tx inputsTxs changeIndex = .ok tx') :
    ∃ count, AmendsOrLeaves zlibCompress env dataSize tx inputsTxs changeIndex count tx' := by
  simp only [amendedCopy, bind_eq_ok] at hamend
  obtain ⟨_, hhashes, _, hrelates, count, hcount, hamend⟩ := hamend
  refine ⟨count, hhashes, hrelates, hcount, fun hzero => ?_, fun hne => ?_⟩
  · rw [if_pos hzero] at hamend
    exact (Except.ok.inj hamend).symm
  rw [if_neg hne] at hamend
  split at hamend
  · cases hamend
  obtain ⟨reordered, hreorder, hamend⟩ := bind_eq_ok.mp hamend
  obtain ⟨_, -, hreorder⟩ := bind_eq_ok.mp hreorder
  obtain ⟨_, -, hreorder⟩ := bind_eq_ok.mp hreorder
  rw [hcount, ok_bind, if_neg hne] at hreorder
  obtain ⟨vin, hvin, hreorder⟩ := bind_eq_ok.mp hreorder
  cases hreorder
  simp only [bind_eq_ok] at hamend
  obtain ⟨final, hmove, _, hfunds, script, hscript, scriptBin, hbin, vout, hplace, hamend⟩ := hamend
  cases hamend
  obtain ⟨moved, hmoves, howned⟩ := moveInputs_eq_ok hmove
  obtain ⟨hnonneg, hindex⟩ := hmoves.index_lt hfunds
  dsimp only at hindex hmoves hplace
  obtain ⟨hvout, htis⟩ := hmoves.final_eq (Nat.lt_of_lt_of_le hindex (by simp))
  obtain ⟨change, hchange⟩ : ∃ change, tx.vout[changeIndex.toNat]? = some change :=
    ⟨_, List.getElem?_eq_getElem hindex⟩
  have hindex' : changeIndex.toNat < (chargeChange changeIndex moved.length tx.vout).length := by
    rwa [length_chargeChange]
  rw [chargeChange_append _ hindex, append_assoc] at hvout
  -- the last check leaves room for the fee of the `OP_RETURN` output
  have henough : (moved.length + 1 : Nat) * MIN_TX_FEE ≤ change.nValue := by
    obtain ⟨-, left, hleft, hfee⟩ := ensureChangeFunds_eq_ok.mp hfunds
    rw [hvout, List.getElem?_append_left hindex', getElem?_chargeChange _ hchange] at hleft
    cases hleft
    rw [Nat.cast_add, Nat.cast_one, add_mul, one_mul]
    dsimp only at hfee
    omega
  refine ⟨vin, moved, scriptBin, vout, hvin,
    ⟨howned, hnonneg, hindex, ?_, change, hchange, ?_⟩, rfl⟩
  · refine bind_eq_ok.mpr ⟨script, ?_, hbin⟩
    rw [← hscript, htis]
    simp
  rw [hvout] at hplace
  rcases placeOpReturn_eq hchange hplace with ⟨hexact, hplaced⟩ | ⟨hmore, hplaced⟩
  · exact Or.inl ⟨hexact, hplaced⟩
  · exact Or.inr ⟨by omega, hplaced⟩

theorem sum_tokenOutputs (moved : List OwnedToken) :
    ((tokenOutputs moved).map (·.nValue)).sum = moved.length * MIN_TX_FEE := by
  induction moved with
  | nil => simp [tokenOutputs]
  | cons owned moved ih =>
    rw [tokenOutputs, map_cons, map_cons, sum_cons, ← tokenOutputs, ih,
      length_cons, Nat.cast_add, Nat.cast_one]
    ring

theorem mem_tokenOutputs (hmem : txout ∈ tokenOutputs moved) : txout.nValue = MIN_TX_FEE := by
  obtain ⟨owned, -, rfl⟩ := mem_map.mp hmem
  rfl

theorem sum_set (txout : CTxOut) (hchange : vout[i]? = some change) :
    ((vout.set i txout).map (·.nValue)).sum =
      (vout.map (·.nValue)).sum - change.nValue + txout.nValue := by
  induction vout generalizing i with
  | nil => simp at hchange
  | cons first vout ih =>
    cases i with
    | zero =>
      obtain rfl : first = change := by simpa using hchange
      simp only [set_cons_zero, map_cons, sum_cons]
      ring
    | succ i =>
      simp only [set_cons_succ, map_cons, sum_cons, ih (by simpa using hchange)]
      ring

/-- What a transaction keeps when it is amended. -/
structure KeepsValue (changeIndex : Int) (tx tx' : CTransaction) : Prop where
  prevouts_perm : (tx'.vin.map (·.prevout)).Perm (tx.vin.map (·.prevout))
  sum_eq : (tx'.vout.map (·.nValue)).sum = (tx.vout.map (·.nValue)).sum
  kept : ∀ k : Nat, k < tx.vout.length → (k : Int) ≠ changeIndex → tx'.vout[k]? = tx.vout[k]?
  added : ∀ k : Nat, tx.vout.length ≤ k → ∀ txout, tx'.vout[k]? = some txout →
    txout.nValue = MIN_TX_FEE
  negative : ∀ (k : Nat) (txout : CTxOut), tx'.vout[k]? = some txout → txout.nValue < 0 →
    tx.vout[k]? = some txout

theorem keepsValue_of_parts (hperm : vin.Perm tx.vin) (hnonneg : 0 ≤ changeIndex)
    (hlength : front.length = tx.vout.length)
    (hkept : ∀ k ≠ changeIndex.toNat, front[k]? = tx.vout[k]?)
    (hchange : ∀ txout, front[changeIndex.toNat]? = some txout → 0 ≤ txout.nValue)
    (hadded : ∀ txout ∈ added, txout.nValue = MIN_TX_FEE) (hsum : (front.map (·.nValue)).sum +
      (added.map (·.nValue)).sum = (tx.vout.map (·.nValue)).sum) :
    KeepsValue changeIndex tx { tx with vin := vin, vout := front ++ added } where
  prevouts_perm := hperm.map _
  sum_eq := by rw [map_append, sum_append, hsum]
  kept k hk hne := by
    rw [List.getElem?_append_left (by omega)]
    exact hkept k (by omega)
  added k hk txout htxout := by
    rw [List.getElem?_append_right (by omega)] at htxout
    exact hadded txout (mem_of_getElem? htxout)
  negative k txout htxout hneg := by
    dsimp only at htxout
    rcases Nat.lt_or_ge k front.length with hk | hk
    · rw [List.getElem?_append_left hk] at htxout
      rcases eq_or_ne k changeIndex.toNat with rfl | hne
      · have := hchange txout htxout
        omega
      · rwa [← hkept k hne]
    rw [List.getElem?_append_right hk] at htxout
    rw [hadded txout (mem_of_getElem? htxout)] at hneg
    exact absurd hneg (by decide)

theorem Amends.keepsValue (hperm : vin.Perm tx.vin) (hamends : Amends zlibCompress ⟨env, dataSize, {
      tx with vin := vin }, inputsTxs, changeIndex⟩ moved scriptBin vout) :
    KeepsValue changeIndex tx { tx with vin := vin, vout := vout } := by
  obtain ⟨change, hchange, ⟨hexact, rfl⟩ | ⟨hmore, rfl⟩⟩ := hamends.outputs
  · dsimp only at hchange ⊢
    obtain ⟨hlt, -⟩ := List.getElem?_eq_some_iff.mp hchange
    apply keepsValue_of_parts hperm hamends.index_nonneg
    · rw [length_set]
    · intro k hk
      rw [List.getElem?_set_ne (Ne.symm hk)]
    · intro txout htxout
      rw [List.getElem?_set_self hlt] at htxout
      cases htxout
      show (0 : Int) ≤ MIN_TX_FEE
      decide
    · exact fun txout htxout => mem_tokenOutputs htxout
    · rw [sum_set _ hchange, sum_tokenOutputs, hexact, Nat.cast_add, Nat.cast_one]
      ring
  dsimp only at hchange ⊢
  have hindex := hamends.index_lt
  apply keepsValue_of_parts hperm hamends.index_nonneg
  · rw [length_chargeChange]
  · intro k hk
    rw [chargeChange, List.getElem?_modify_ne _ _ (Ne.symm hk)]
  · intro txout htxout
    rw [getElem?_chargeChange _ hchange] at htxout
    cases htxout
    dsimp only
    omega
  · intro txout htxout
    rcases mem_cons.mp htxout with rfl | htxout
    · rfl
    · exact mem_tokenOutputs htxout
  rw [sum_chargeChange _ hindex, map_cons, sum_cons, sum_tokenOutputs, Nat.cast_add,
    Nat.cast_one]
  ring

/-- A call that throws leaves the transaction alone; one that returns keeps its
inputs, its value and its other outputs. -/
theorem amendStdTxWithBFXT_keeps_value (zlibCompress : Bytes → Bytes) (env : NodeEnv)
    (dataSize : UInt32) (tx : CTransaction) (inputsTxs : List InputPair) (changeIndex : Int) :
    (∃ fault, amendStdTxWithBFXT zlibCompress env dataSize tx inputsTxs changeIndex =
        (.error fault, tx)) ∨
      ∃ tx', amendStdTxWithBFXT zlibCompress env dataSize tx inputsTxs changeIndex =
        (.ok (), tx') ∧ KeepsValue changeIndex tx tx' := by
  rw [amendStdTxWithBFXT]
  rcases hamend : amendedCopy zlibCompress env dataSize tx inputsTxs changeIndex with fault | tx'
  · exact Or.inl ⟨fault, rfl⟩
  refine Or.inr ⟨tx', rfl, ?_⟩
  obtain ⟨count, hcall⟩ := amendedCopy_eq_ok hamend
  rcases eq_or_ne count 0 with hzero | hne
  · rw [hcall.leaves hzero]
    refine ⟨.refl _, rfl, fun _ _ _ => rfl, fun k hk txout htxout => ?_, fun _ _ htxout _ => htxout⟩
    rw [List.getElem?_eq_none hk] at htxout
    cases htxout
  · obtain ⟨vin, moved, scriptBin, vout, hvin, hamends, rfl⟩ := hcall.amends hne
    exact hamends.keepsValue (reorderInputs_eq_ok (le_refl _) hvin).1

/-- Without tokens a transaction is not looked at any further. -/
theorem amendStdTxWithBFXT_leaves_negative_value :
    amendStdTxWithBFXT id timeEnv 4096 ⟨2, [], [⟨-1, []⟩], 0⟩ [] 0 =
      (.ok (), ⟨2, [], [⟨-1, []⟩], 0⟩) := by
  decide +kernel

end Amending

end Bfx.TransactionAmending
