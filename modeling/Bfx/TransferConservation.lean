import Bfx.TransferSemantics

/-!
The interpreter neither makes nor loses tokens: for every token id, what the
outputs hold, what is burned and what is left in the inputs add up to one
amount, before and after every instruction.
-/

namespace Bfx.TransferConservation

open CallOutcome LotQueue TokenScript TokenTransaction TransferInterpreter TransferSemantics
  Transaction List

variable {vout : List BFXTTxOut} {slots : List (List Slot)} {ctx : TransferContext}

def allTokens (vout : List BFXTTxOut) : List BFXTTokenTxData := vout.flatMap (·.tokens)

theorem mem_allTokens : token ∈ allTokens vout ↔ ∃ txout ∈ vout, token ∈ txout.tokens :=
  mem_flatMap

theorem allTokens_of_empty (hempty : ∀ txout ∈ vout, txout.tokens = []) :
    allTokens vout = [] :=
  flatMap_eq_nil_iff.mpr hempty

theorem allTokens_push (hlt : outputIndex < vout.length) (tokens : List BFXTTokenTxData) :
    (allTokens (vout.modify outputIndex fun txout =>
      { txout with tokens := txout.tokens ++ tokens })).Perm (tokens ++ allTokens vout) := by
  induction vout generalizing outputIndex with
  | nil => simp at hlt
  | cons txout vout ih =>
    cases outputIndex with
    | zero =>
      rw [modify_zero_cons, allTokens, allTokens, flatMap_cons, flatMap_cons, ← append_assoc]
      exact perm_append_comm.append_right _
    | succ outputIndex =>
      have hrest := (ih (Nat.lt_of_succ_lt_succ hlt)).append_left txout.tokens
      rw [modify_succ_cons, allTokens, allTokens, flatMap_cons, flatMap_cons]
      refine hrest.trans ?_
      rw [← append_assoc, ← append_assoc]
      exact perm_append_comm.append_right _

section Amounts

variable (t : String)

def tokenAmount (tokens : List BFXTTokenTxData) : Nat :=
  (tokens.map fun token => if token.tokenId = t then token.amount else 0).sum

@[simp] theorem tokenAmount_nil : tokenAmount t [] = 0 := rfl

@[simp] theorem tokenAmount_cons (token : BFXTTokenTxData) (tokens : List BFXTTokenTxData) :
    tokenAmount t (token :: tokens) =
      (if token.tokenId = t then token.amount else 0) + tokenAmount t tokens := by
  simp [tokenAmount]

@[simp] theorem tokenAmount_append (tokens tokens' : List BFXTTokenTxData) :
    tokenAmount t (tokens ++ tokens') = tokenAmount t tokens + tokenAmount t tokens' := by
  simp [tokenAmount]

theorem tokenAmount_singleton (token : BFXTTokenTxData) :
    tokenAmount t [token] = if t = token.tokenId then token.amount else 0 := by
  exact if_congr eq_comm rfl rfl

theorem tokenAmount_flatMap (l : List α) (f : α → List BFXTTokenTxData) :
    tokenAmount t (l.flatMap f) = (l.map fun a => tokenAmount t (f a)).sum := by
  induction l with
  | nil => rfl
  | cons a l ih => rw [flatMap_cons, tokenAmount_append, ih, map_cons, sum_cons]

theorem tokenAmount_perm (hperm : tokens.Perm tokens') :
    tokenAmount t tokens = tokenAmount t tokens' :=
  (hperm.map _).sum_eq

theorem tokenAmount_of_id (hid : ∀ token ∈ tokens, token.tokenId = tokenId) (t : String) :
    tokenAmount t tokens = if tokenId = t then (tokens.map (·.amount)).sum else 0 := by
  induction tokens with
  | nil => rw [tokenAmount_nil, map_nil, sum_nil, ite_self]
  | cons token tokens ih =>
    rw [forall_mem_cons] at hid
    rw [tokenAmount_cons, ih hid.2, hid.1, map_cons, sum_cons]
    split
    · rfl
    · rfl

def voutAmount (vout : List BFXTTxOut) : Nat := tokenAmount t (allTokens vout)

def slotsAmount (slots : List (List Slot)) : Nat := held tokenKey t slots.flatten

theorem slotsAmount_eq (slots : List (List Slot)) (inputIndex : Nat) :
    slotsAmount t slots =
      held tokenKey t (slots.take inputIndex).flatten +
        held tokenKey t (queueFrom slots inputIndex) := by
  rw [slotsAmount, flatten_eq_queueFrom slots inputIndex, held_append]

end Amounts

/-- The amount of a token id that an instruction takes out of the slots. -/
def movedOut (t : String) (state next : TransferState) : Nat :=
  slotsAmount t state.slots - slotsAmount t next.slots

theorem executes_balance {state next : TransferState}
    (hexecutes : Executes ctx ti state next acting first) (t : String) :
    voutAmount t next.vout + slotsAmount t next.slots +
        (if burnThisOutput ctx ti then movedOut t state next else 0) =
      voutAmount t state.vout + slotsAmount t state.slots := by
  obtain ⟨input, rest, hacts, hskip⟩ := hexecutes.acts
  have hslots : slotsAmount t next.slots + (if t = Slot.tokenId first then ti.amount else 0) =
      slotsAmount t state.slots := by
    rw [slotsAmount_eq t state.slots acting, slotsAmount_eq t next.slots acting,
      hexecutes.drained.take_eq, hexecutes.drained.queue_eq, Nat.add_assoc]
    exact congrArg _ (held_drainFront tokenKey
      (skipEmpty_queueFrom_cons hacts.input_eq hskip hexecutes.first_pos) hexecutes.amount_le t)
  have hcredited := hexecutes.credited
  have htoken : tokenAmount t [{ first.item with amount := ti.amount }] =
      if t = Slot.tokenId first then ti.amount else 0 := tokenAmount_singleton t _
  rw [movedOut]
  cases hburn : burnThisOutput ctx ti with
  | true =>
    rw [hburn] at hcredited
    rw [if_pos rfl, ← Except.ok.inj hcredited]
    omega
  | false =>
    rw [hburn] at hcredited
    change pushToken state.vout _ _ = .ok next.vout at hcredited
    obtain ⟨hlt, hvout⟩ := pushToken_eq_ok hcredited
    rw [if_neg Bool.false_ne_true, hvout, voutAmount, tokenAmount_perm t (allTokens_push hlt [_]),
      tokenAmount_append, htoken, voutAmount]
    omega

/-- The amount of a token id that the executed instructions burn. -/
def burnedAmount (ctx : TransferContext) (t : String) :
    Nat → List TransferInstruction → TransferState → Nat
  | _, [], _ => 0
  | i, ti :: tis, state =>
    match executeInstruction ctx i ti state with
    | .ok (some next) =>
      (if burnThisOutput ctx ti then movedOut t state next else 0) +
        burnedAmount ctx t (i + 1) tis next
    | _ => 0

theorem runInstructions_balance (hrun : runInstructions ctx i tis state = .ok final) (t : String) :
    voutAmount t final.vout + slotsAmount t final.slots + burnedAmount ctx t i tis state =
      voutAmount t state.vout + slotsAmount t state.slots := by
  induction tis generalizing i state with
  | nil =>
    obtain rfl : state = final := Except.ok.inj hrun
    rfl
  | cons ti tis ih =>
    obtain ⟨step, hstep, hrun⟩ := bind_eq_ok.mp hrun
    cases step with
    | none =>
      obtain rfl : state = final := Except.ok.inj hrun
      simp [burnedAmount, hstep]
    | some next =>
      obtain ⟨acting, first, hexecutes⟩ := executeInstruction_eq_some hstep
      have hfirst := executes_balance hexecutes t
      have hrest := ih hrun
      simp only [burnedAmount, hstep]
      omega

theorem burnedAmount_of_transfer (hburn : ctx.burnOutput31 = false) (t : String) (i : Nat)
    (tis : List TransferInstruction) (state : TransferState) :
    burnedAmount ctx t i tis state = 0 := by
  induction tis generalizing i state with
  | nil => rfl
  | cons ti tis ih =>
    have hnot : burnThisOutput ctx ti = false := by simp [burnThisOutput, hburn]
    rw [burnedAmount]
    split
    · rw [hnot, ih]
      rfl
    · rfl

theorem aggregate_cons_of_eq (hid : Slot.tokenId slot = tokenId) (rest : List Slot) :
    aggregate tokenId (slot :: rest) =
      (slot.left + (aggregate tokenId rest).1, ⟨slot.item, 0⟩ :: (aggregate tokenId rest).2) := by
  rw [aggregate, if_neg (not_not.mpr hid)]

theorem aggregate_cons_of_ne (hid : Slot.tokenId slot ≠ tokenId) (rest : List Slot) :
    aggregate tokenId (slot :: rest) = (0, slot :: rest) := by
  rw [aggregate, if_pos hid]

theorem length_aggregate (tokenId : String) (lots : List Slot) :
    (aggregate tokenId lots).2.length = lots.length := by
  induction lots with
  | nil => rfl
  | cons slot rest ih =>
    by_cases hid : Slot.tokenId slot = tokenId
    · rw [aggregate_cons_of_eq hid, length_cons, length_cons, ih]
    · rw [aggregate_cons_of_ne hid]

theorem held_aggregate (tokenId : String) (lots : List Slot) (t : String) :
    held tokenKey t (aggregate tokenId lots).2 +
        (if tokenId = t then (aggregate tokenId lots).1 else 0) = held tokenKey t lots := by
  induction lots with
  | nil => simp [aggregate]
  | cons slot rest ih =>
    by_cases hid : Slot.tokenId slot = tokenId
    · have hkey : tokenKey slot.item = tokenId := hid
      rw [aggregate_cons_of_eq hid, held_cons, held_cons, hkey, ite_self, ← ih]
      dsimp only
      split
      · omega
      · omega
    · rw [aggregate_cons_of_ne hid, ite_self, Nat.add_zero]

theorem tokenAmount_changeTokens (hfuel : lots.length ≤ fuel) (t : String) :
    tokenAmount t (changeTokens fuel lots) = held tokenKey t lots := by
  induction fuel generalizing lots with
  | zero =>
    obtain rfl := eq_nil_of_length_eq_zero (Nat.le_zero.mp hfuel)
    rfl
  | succ fuel ih =>
    rcases lots with _ | ⟨slot, rest⟩
    · rfl
    have hrest : rest.length ≤ fuel := Nat.le_of_succ_le_succ hfuel
    rw [changeTokens, held_cons]
    split
    · rename_i hzero
      rw [ih hrest, hzero, ite_self, Nat.zero_add]
    split
    · have haggregate := held_aggregate (Slot.tokenId slot) rest t
      have hlength := length_aggregate (Slot.tokenId slot) rest
      rw [tokenAmount_cons, ih (by omega), ← haggregate]
      change (if tokenKey slot.item = t then _ else _) + _ =
        _ + (_ + if tokenKey slot.item = t then _ else _)
      split
      · dsimp only
        omega
      · omega
    · rw [tokenAmount_cons, ih hrest]

theorem pushBackTokens_nil (vout : List BFXTTxOut) : pushBackTokens [] vout = vout := by
  simp only [pushBackTokens, append_nil]
  exact modify_id _ _

theorem allTokens_pushBackTokens (hout : ¬ (tokens ≠ [] ∧ vout.length = 0)) :
    (allTokens (pushBackTokens tokens vout)).Perm (tokens ++ allTokens vout) := by
  rcases Nat.eq_zero_or_pos vout.length with hzero | hpos
  · obtain rfl := eq_nil_of_length_eq_zero hzero
    obtain rfl : tokens = [] := Decidable.by_contra fun h => hout ⟨h, rfl⟩
    exact List.Perm.refl _
  · exact allTokens_push (by omega) tokens

theorem voutAmount_creditChange (hchange : creditChange ctx slots vout = .ok vout') (t : String) :
    voutAmount t vout' = voutAmount t vout + slotsAmount t slots := by
  have hall := tokenAmount_changeTokens (le_refl slots.flatten.length) t
  rw [creditChange] at hchange
  split at hchange
  · cases hchange
  rename_i hout
  cases hchange
  rw [voutAmount, tokenAmount_perm t (allTokens_pushBackTokens hout), tokenAmount_append,
    Nat.add_comm, slotsAmount, ← hall]
  rfl

theorem allTokens_deleteEmptyTokens (vout : List BFXTTxOut) :
    allTokens (deleteEmptyTokens vout) = (allTokens vout).filter (·.amount != 0) := by
  rw [allTokens, allTokens, deleteEmptyTokens, flatMap_map, filter_flatMap]

theorem tokenAmount_filter_ne_zero (t : String) (tokens : List BFXTTokenTxData) :
    tokenAmount t (tokens.filter (·.amount != 0)) = tokenAmount t tokens := by
  induction tokens with
  | nil => rfl
  | cons token tokens ih =>
    rw [filter_cons]
    split
    · rw [tokenAmount_cons, tokenAmount_cons, ih]
    rename_i hzero
    have hzero : token.amount = 0 := by simpa using hzero
    rw [ih, tokenAmount_cons, hzero, ite_self, Nat.zero_add]

section Transfer

/-- The tokens on the output that an input spends. -/
def prevTokens (env : NodeEnv) (inputsTxs : List InputPair) (txin : CTxIn) :
    List BFXTTokenTxData :=
  match inputsTxs.find? fun input => env.getHash input.1 == txin.prevout.hash with
  | none => []
  | some input =>
    match input.2.vout[txin.prevout.n]? with
    | none => []
    | some txout => txout.tokens

def prevAmount (env : NodeEnv) (inputsTxs : List InputPair) (t : String) (vin : List CTxIn) : Nat :=
  (vin.map fun txin => tokenAmount t (prevTokens env inputsTxs txin)).sum

variable {env : NodeEnv} {tx : CTransaction} {inputsTxs : List InputPair}

variable {prev : InputPair}

theorem getPrevInputIt_eq_ok : getPrevInputIt env tx inputTxHash inputsTxs = .ok prev ↔
    inputsTxs.find? (fun input => env.getHash input.1 == inputTxHash) = some prev := by
  rw [getPrevInputIt]
  split
  · rename_i hfound
    simp [hfound]
  · rename_i hnone
    simp [hnone]

theorem mem_of_getPrevInputIt
    (hprev : getPrevInputIt env tx inputTxHash inputsTxs = .ok prev) :
    prev ∈ inputsTxs ∧ env.getHash prev.1 = inputTxHash := by
  rw [getPrevInputIt_eq_ok] at hprev
  exact ⟨mem_of_find?_eq_some hprev, by simpa using List.find?_some hprev⟩

theorem prevTokens_eq
    (hprev : getPrevInputIt env tx txin.prevout.hash inputsTxs = .ok prev)
    (hprevOut : index .prevVout prev.2.vout txin.prevout.n = .ok prevOut) :
    prevTokens env inputsTxs txin = prevOut.tokens := by
  rw [getPrevInputIt_eq_ok] at hprev
  rw [index_eq_ok] at hprevOut
  simp [prevTokens, hprev, hprevOut]

theorem loadInputs_eq_ok (hload : loadInputs env tx inputsTxs vin = .ok slots) :
    (slots = vin.map fun txin =>
      (prevTokens env inputsTxs txin).map fun token => ⟨token, token.amount⟩) ∧
      ∀ txin ∈ vin, ∃ input, getPrevInputIt env tx txin.prevout.hash inputsTxs = .ok input ∧
        txin.prevout.n < input.2.vout.length := by
  induction vin generalizing slots with
  | nil =>
    obtain rfl : [] = slots := Except.ok.inj hload
    exact ⟨rfl, nofun⟩
  | cons txin vin ih =>
    obtain ⟨input, hinput, hload⟩ := bind_eq_ok.mp hload
    obtain ⟨inputs, hinputs, hload⟩ := bind_eq_ok.mp hload
    obtain rfl : input :: inputs = slots := Except.ok.inj hload
    obtain ⟨rfl, hfound⟩ := ih hinputs
    obtain ⟨prev, hprev, hinput⟩ := bind_eq_ok.mp hinput
    obtain ⟨prevOut, hprevOut, hinput⟩ := bind_eq_ok.mp hinput
    cases hinput
    rw [map_cons, prevTokens_eq hprev hprevOut]
    exact ⟨rfl, forall_mem_cons.mpr
      ⟨⟨prev, hprev, (List.getElem?_eq_some_iff.mp (index_eq_ok.mp hprevOut)).1⟩, hfound⟩⟩

theorem slotsAmount_loadInputs (hload : loadInputs env tx inputsTxs vin = .ok slots) (t : String) :
    slotsAmount t slots = prevAmount env inputsTxs t vin := by
  have hinput : ∀ tokens : List BFXTTokenTxData,
      held tokenKey t (tokens.map fun token => ⟨token, token.amount⟩) = tokenAmount t tokens := by
    intro tokens
    rw [held, tokenAmount, map_map]
    rfl
  rw [(loadInputs_eq_ok hload).1]
  clear hload
  induction vin with
  | nil => rfl
  | cons txin vin ih =>
    rw [slotsAmount] at ih ⊢
    rw [map_cons, flatten_cons, held_append, ih, hinput, prevAmount, prevAmount, map_cons, sum_cons]

/-- The amount of a token id that a transfer burns. -/
def burnedTokens (env : NodeEnv) (self : BFXTTransaction) (script : BFXTScript) (tx : CTransaction)
    (inputsTxs : List InputPair) (burnOutput31 : Bool) (t : String) : Nat :=
  match loadInputs env tx inputsTxs tx.vin with
  | .ok slots =>
    burnedAmount ⟨env, tx, self.vin.length, script.parsedScriptHex, burnOutput31⟩ t 0
      (if isInvalid slots then [] else script.transferInstructions) ⟨0, slots, self.vout⟩
  | .error _ => 0

theorem transferTokens_balance
    (htransfer : transferTokens env self script tx inputsTxs burnOutput31 = .ok result) (t : String)
    :
    voutAmount t result.vout + burnedTokens env self script tx inputsTxs burnOutput31 t =
      voutAmount t self.vout + prevAmount env inputsTxs t tx.vin := by
  simp only [transferTokens, bind_eq_ok] at htransfer
  obtain ⟨_, -, _, -, slots, hload, final, hrun, vout, hchange, htransfer⟩ := htransfer
  cases htransfer
  have hinstructions := runInstructions_balance hrun t
  have hloaded := slotsAmount_loadInputs hload t
  rw [voutAmount, allTokens_deleteEmptyTokens, tokenAmount_filter_ne_zero, ← voutAmount,
    voutAmount_creditChange hchange, ← hloaded]
  simp only [burnedTokens, hload]
  exact hinstructions

theorem transferTokens_conserves
    (env : NodeEnv) (self result : BFXTTransaction) (script : BFXTScript) (tx : CTransaction)
    (inputsTxs : List InputPair) (burnOutput31 : Bool)
    (hempty : ∀ txout ∈ self.vout, txout.tokens = [])
    (htransfer : transferTokens env self script tx inputsTxs burnOutput31 = .ok result)
    (t : String) :
    voutAmount t result.vout + burnedTokens env self script tx inputsTxs burnOutput31 t =
        prevAmount env inputsTxs t tx.vin ∧
      (burnOutput31 = false → burnedTokens env self script tx inputsTxs burnOutput31 t = 0) := by
  refine ⟨?_, ?_⟩
  · rw [transferTokens_balance htransfer t, voutAmount, allTokens_of_empty hempty, tokenAmount_nil,
      Nat.zero_add]
  · rintro rfl
    rw [burnedTokens]
    split
    · exact burnedAmount_of_transfer rfl t _ _ _
    · rfl

/-- Two of five tokens burned, one sent to the output and two left as change. -/
def burnTwo : BFXTScript :=
  ⟨⟨[], [⟨31, false, 31, [2], 2⟩, ⟨0, false, 0, [1], 1⟩], .burn⟩, "", [], 3, [], .burn, false⟩

theorem transferTokens_burnTwo_conserves :
    ∃ result, transferTokens timeEnv spendingBFXTTx burnTwo spendingTx [prevTx] true = .ok result ∧
      voutAmount "t" result.vout = 3 ∧
      burnedTokens timeEnv spendingBFXTTx burnTwo spendingTx [prevTx] true "t" = 2 ∧
      prevAmount timeEnv [prevTx] "t" spendingTx.vin = 5 := by
  have hempty : ∀ txout ∈ spendingBFXTTx.vout, txout.tokens = [] := by decide
  obtain ⟨result, hresult⟩ : ∃ result,
      transferTokens timeEnv spendingBFXTTx burnTwo spendingTx [prevTx] true = .ok result :=
    ⟨_, rfl⟩
  have hbalance := (transferTokens_conserves _ _ _ _ _ _ _ hempty hresult "t").1
  have hburned : burnedTokens timeEnv spendingBFXTTx burnTwo spendingTx [prevTx] true "t" = 2 := by
    decide
  have hprev : prevAmount timeEnv [prevTx] "t" spendingTx.vin = 5 := by decide
  refine ⟨result, hresult, ?_, hburned, hprev⟩
  omega

end Transfer

end Bfx.TransferConservation
