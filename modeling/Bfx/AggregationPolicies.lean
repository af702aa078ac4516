import Bfx.TokenReading

/-!
The aggregation policy of a token, from the flag byte of its issuance to the
change pass of the transfers that spend it.
-/

namespace Bfx.AggregationPolicies

open CallOutcome LotQueue TokenReading TokenScript TokenTransaction TransferConservation
  TransferInterpreter TransferSemantics Transaction List

variable {policy : String}

section ChangePass

theorem map_item_aggregate (tokenId : String) (lots : List Slot) :
    (aggregate tokenId lots).2.map Lot.item = lots.map Lot.item := by
  induction lots with
  | nil => rfl
  | cons slot rest ih =>
    by_cases hid : Slot.tokenId slot = tokenId
    · rw [aggregate_cons_of_eq hid, map_cons, map_cons, ih]
    · rw [aggregate_cons_of_ne hid]

variable {t : String} {lots : List Slot}

theorem runAmounts_aggregate (hcurrent : current ≠ 0) (lots : List Slot) :
    runAmounts tokenKey t current lots =
      (current + (aggregate t lots).1) :: runAmounts tokenKey t 0 (aggregate t lots).2 := by
  induction lots generalizing current with
  | nil => simp [runAmounts, aggregate, hcurrent]
  | cons slot rest ih =>
    by_cases hid : Slot.tokenId slot = t
    · rw [runAmounts_cons_of_eq tokenKey hid, ih (by omega), aggregate_cons_of_eq hid,
        runAmounts_zero_cons_of_zero tokenKey t rfl, Nat.add_assoc]
    rw [runAmounts_cons_of_ne tokenKey hid, if_neg hcurrent, aggregate_cons_of_ne hid,
      runAmounts_cons_of_ne tokenKey hid, if_pos rfl]
    rfl

def amountsOf (t : String) (tokens : List BFXTTokenTxData) : List Nat :=
  (tokens.filter fun token => token.tokenId = t).map (·.amount)

theorem amountsOf_cons (t : String) (token : BFXTTokenTxData) (tokens : List BFXTTokenTxData) :
    amountsOf t (token :: tokens) =
      (if token.tokenId = t then [token.amount] else []) ++ amountsOf t tokens := by
  rw [amountsOf, filter_cons]
  by_cases hid : token.tokenId = t
  · rw [if_pos (decide_eq_true hid), if_pos hid]
    rfl
  · rw [if_neg (by simpa using hid), if_neg hid]
    rfl

def changeAmounts (t : String) (fuel : Nat) (lots : List Slot) : List Nat :=
  amountsOf t (changeTokens fuel lots)

/-- Every slot of one token id has one policy. -/
def HasPolicy (t policy : String) (lots : List Slot) : Prop :=
  ∀ slot ∈ lots, Slot.tokenId slot = t → slot.item.aggregationPolicy = policy

theorem hasPolicy_congr (hitems : lots'.map Lot.item = lots.map Lot.item)
    (hpolicy : HasPolicy t policy lots) : HasPolicy t policy lots' := by
  intro slot hslot hid
  have hmem : slot.item ∈ lots.map Lot.item := by
    rw [← hitems]
    exact mem_map_of_mem hslot
  obtain ⟨source, hsource, hitem⟩ := mem_map.mp hmem
  rw [← hitem]
  exact hpolicy source hsource (by rw [← hid, Slot.tokenId, Slot.tokenId, hitem])

theorem HasPolicy.tail (hpolicy : HasPolicy t policy (slot :: rest)) : HasPolicy t policy rest :=
  fun other hother => hpolicy other (mem_cons_of_mem _ hother)

section Slots

variable (t : String) (fuel : Nat) (rest : List Slot)

theorem changeAmounts_cons_merged (hpos : slot.left ≠ 0)
    (hpolicy : slot.item.aggregationPolicy = aggregatableStr) :
    changeAmounts t (fuel + 1) (slot :: rest) =
      (if Slot.tokenId slot = t then [slot.left + (aggregate (Slot.tokenId slot) rest).1] else []) ++
        changeAmounts t fuel (aggregate (Slot.tokenId slot) rest).2 := by
  rw [changeAmounts, changeTokens, if_neg hpos, if_pos hpolicy]
  exact amountsOf_cons t _ _

theorem changeAmounts_cons_separate (hpos : slot.left ≠ 0)
    (hpolicy : slot.item.aggregationPolicy ≠ aggregatableStr) :
    changeAmounts t (fuel + 1) (slot :: rest) =
      (if Slot.tokenId slot = t then [slot.left] else []) ++ changeAmounts t fuel rest := by
  rw [changeAmounts, changeTokens, if_neg hpos, if_neg hpolicy]
  exact amountsOf_cons t _ _

end Slots

section Amounts

variable {amounts : List Slot → List Nat}
  (hzero : ∀ slot rest, slot.left = 0 → amounts (slot :: rest) = amounts rest)
  (hother : ∀ slot rest, Slot.tokenId slot ≠ t → amounts (slot :: rest) = amounts rest)

include hzero hother

theorem amounts_aggregate (hne : tokenId ≠ t) (lots : List Slot) :
    amounts (aggregate tokenId lots).2 = amounts lots := by
  induction lots with
  | nil => rfl
  | cons slot rest ih =>
    by_cases hid : Slot.tokenId slot = tokenId
    · rw [aggregate_cons_of_eq hid, hzero _ _ rfl, ih, hother _ _ (hid ▸ hne)]
    · rw [aggregate_cons_of_ne hid]

/-- Amounts that count neither empty slots nor other tokens are those of the change, where they
count a slot of the token as its policy has it. -/
theorem changeAmounts_eq (hnil : amounts [] = [])
    (hown : ∀ slot rest, slot.left ≠ 0 → Slot.tokenId slot = t → amounts (slot :: rest) =
      if policy = aggregatableStr then
        (slot.left + (aggregate t rest).1) :: amounts (aggregate t rest).2
      else slot.left :: amounts rest)
    (hfuel : lots.length ≤ fuel) (hpolicy : HasPolicy t policy lots) :
    changeAmounts t fuel lots = amounts lots := by
  induction fuel generalizing lots with
  | zero =>
    obtain rfl := eq_nil_of_length_eq_zero (Nat.le_zero.mp hfuel)
    exact hnil.symm
  | succ fuel ih =>
    rcases lots with _ | ⟨slot, rest⟩
    · exact hnil.symm
    have hrest := ih (Nat.le_of_succ_le_succ hfuel) hpolicy.tail
    have hmerged := ih
      (by rw [length_aggregate (Slot.tokenId slot)]; exact Nat.le_of_succ_le_succ hfuel)
      (hasPolicy_congr (map_item_aggregate (Slot.tokenId slot) rest) hpolicy.tail)
    rcases eq_or_ne slot.left 0 with hleft | hpos
    · rw [changeAmounts, changeTokens, if_pos hleft, ← changeAmounts, hzero _ _ hleft, hrest]
    by_cases hid : Slot.tokenId slot = t
    · have hslot := hpolicy slot mem_cons_self hid
      rw [hown _ _ hpos hid, ← hslot]
      split
      · rename_i hstr
        rw [changeAmounts_cons_merged t fuel rest hpos hstr, if_pos hid, hmerged, hid]
        rfl
      · rename_i hstr
        rw [changeAmounts_cons_separate t fuel rest hpos hstr, if_pos hid, hrest]
        rfl
    rw [hother _ _ hid]
    by_cases hstr : slot.item.aggregationPolicy = aggregatableStr
    · rw [changeAmounts_cons_merged t fuel rest hpos hstr, if_neg hid, hmerged,
        amounts_aggregate hzero hother hid, nil_append]
    · rw [changeAmounts_cons_separate t fuel rest hpos hstr, if_neg hid, nil_append, hrest]

end Amounts

theorem changeAmounts_aggregatable (hfuel : lots.length ≤ fuel)
    (hpolicy : HasPolicy t aggregatableStr lots) :
    changeAmounts t fuel lots = runAmounts tokenKey t 0 lots := by
  refine changeAmounts_eq (fun _ _ hleft => runAmounts_zero_cons_of_zero tokenKey t hleft _)
    (fun slot rest hid => ?_) rfl (fun slot rest hpos hid => ?_) hfuel hpolicy
  · rw [runAmounts_cons_of_ne tokenKey hid, if_pos rfl, nil_append]
  · rw [if_pos rfl, runAmounts_cons_of_eq tokenKey hid, Nat.zero_add, runAmounts_aggregate hpos]

end ChangePass

section Provenance

/-- A property of a token that does not look at its amount. -/
def AmountBlind (Q : BFXTTokenTxData → Prop) : Prop :=
  ∀ token amount, Q token → Q { token with amount := amount }

variable {Q : BFXTTokenTxData → Prop} (hblind : AmountBlind Q)

def AllTokens (Q : BFXTTokenTxData → Prop) (state : TransferState) : Prop :=
  (∀ item ∈ state.slots.flatten.map Lot.item, Q item) ∧ ∀ token ∈ allTokens state.vout, Q token

include hblind

theorem executes_allTokens
    (hexecutes : Executes ctx ti state state' acting first) (hall : AllTokens Q state) :
    AllTokens Q state' := by
  refine ⟨?_, ?_⟩
  · rw [hexecutes.drained.items_eq]
    exact hall.1
  have hfirst : Q { first.item with amount := ti.amount } :=
    hblind _ _ (hall.1 _ (mem_map_of_mem hexecutes.first_mem))
  have hcredited := hexecutes.credited
  rw [creditOutput] at hcredited
  split at hcredited
  · rw [← Except.ok.inj hcredited]
    exact hall.2
  obtain ⟨hlt, hvout⟩ := pushToken_eq_ok hcredited
  rw [hvout]
  intro token htoken
  rw [(allTokens_push hlt _).mem_iff, singleton_append, mem_cons] at htoken
  rcases htoken with rfl | htoken
  · exact hfirst
  · exact hall.2 token htoken

theorem runInstructions_allTokens (hrun : runInstructions ctx i tis state = .ok final)
    (hall : AllTokens Q state) : AllTokens Q final := by
  induction tis generalizing i state with
  | nil => rwa [← Except.ok.inj hrun]
  | cons ti tis ih =>
    rw [runInstructions] at hrun
    obtain ⟨step, hstep, hrun⟩ := bind_eq_ok.mp hrun
    cases step with
    | none => rwa [← Except.ok.inj hrun]
    | some next =>
      obtain ⟨acting, first, hexecutes⟩ := executeInstruction_eq_some hstep
      exact ih hrun (executes_allTokens hblind hexecutes hall)

theorem changeTokens_forall (hlots : ∀ item ∈ lots.map Lot.item, Q item) :
    ∀ token ∈ changeTokens fuel lots, Q token := by
  induction fuel generalizing lots with
  | zero => exact nofun
  | succ fuel ih =>
    rcases lots with _ | ⟨slot, rest⟩
    · exact nofun
    rw [map_cons, forall_mem_cons] at hlots
    obtain ⟨hslot, hrest⟩ := hlots
    rw [changeTokens]
    split
    · exact ih hrest
    split
    · refine forall_mem_cons.mpr ⟨hblind _ _ hslot, ih ?_⟩
      rw [map_item_aggregate]
      exact hrest
    · exact forall_mem_cons.mpr ⟨hblind _ _ hslot, ih hrest⟩

theorem runInstructions_loaded_allTokens (hload : loadInputs env tx inputsTxs tx.vin = .ok slots)
    (hrun : runInstructions ctx 0 tis ⟨0, slots, vout⟩ = .ok final)
    (hvout : ∀ token ∈ allTokens vout, Q token)
    (hprev : ∀ txin ∈ tx.vin, ∀ token ∈ prevTokens env inputsTxs txin, Q token) :
    AllTokens Q final := by
  refine runInstructions_allTokens hblind hrun ⟨?_, hvout⟩
  rw [(loadInputs_eq_ok hload).1, ← flatMap_def, map_flatMap]
  simp only [map_map, Function.comp_def, map_id']
  exact forall_mem_flatMap.mpr hprev

/-- What holds of the spent tokens, whatever their amounts, holds of the tokens
on the outputs. -/
theorem transferTokens_forall
    (htransfer : transferTokens env self script tx inputsTxs burnOutput31 = .ok result)
    (hself : ∀ token ∈ allTokens self.vout, Q token)
    (hprev : ∀ txin ∈ tx.vin, ∀ token ∈ prevTokens env inputsTxs txin, Q token) :
    ∀ token ∈ allTokens result.vout, Q token := by
  simp only [transferTokens, bind_eq_ok] at htransfer
  obtain ⟨_, -, _, -, slots, hload, final, hrun, vout, hchange, htransfer⟩ := htransfer
  cases htransfer
  obtain ⟨hslots, hfinal⟩ := runInstructions_loaded_allTokens hblind hload hrun hself hprev
  intro token htoken
  rw [allTokens_deleteEmptyTokens] at htoken
  have hmem := (mem_filter.mp htoken).1
  rw [creditChange] at hchange
  split at hchange
  · cases hchange
  rename_i hout
  rw [← Except.ok.inj hchange, (allTokens_pushBackTokens hout).mem_iff, mem_append] at hmem
  rcases hmem with hmem | hmem
  · exact changeTokens_forall hblind hslots token hmem
  · exact hfinal token hmem

end Provenance

def policyStr : AggregationPolicy → String
  | .nonAggregatable => nonAggregatableStr
  | _ => aggregatableStr

structure CarriesFlags (issuanceFlags : IssuanceFlags) (token : BFXTTokenTxData) : Prop where
  divisibility_eq : token.divisibility = issuanceFlags.divisibility
  lockStatus_eq : token.lockStatus = issuanceFlags.locked
  policy_eq : token.aggregationPolicy = policyStr issuanceFlags.aggregationPolicy

/-- The tokens of one id that a transaction can spend are on transactions of the
ledger. -/
def SpendsFrom (t : String) (ledger inputsTxs : List InputPair) : Prop :=
  ∀ input ∈ inputsTxs, input ∈ ledger ∨ ∀ token ∈ allTokens input.2.vout, token.tokenId ≠ t

/-- Transactions without an issuance that follow one transaction, the latest
first, each read against those before it. -/
inductive TransferChain (env : NodeEnv) (t : String) (origin : InputPair) : List InputPair → Prop
  | origin : TransferChain env t origin [origin]
  | read {ledger inputsTxs : List InputPair} {tx : CTransaction} {self result : BFXTTransaction}
      (hchain : TransferChain env t origin ledger) (hspends : SpendsFrom t ledger inputsTxs)
      (hself : self.isNull = true)
      (hread : readBFXTDataFromTx env self tx inputsTxs = .ok result)
      (htransfer : ∀ opReturnArg script, CarriesScript env tx opReturnArg script →
        script.txType ≠ .issuance) :
      TransferChain env t origin ((tx, result) :: ledger)

/-- The slots that the instructions of a transfer leave to the change pass. -/
def LeavesSlots (env : NodeEnv) (tx : CTransaction) (inputsTxs : List InputPair)
    (slots : List (List Slot)) : Prop :=
  ∃ (ctx : TransferContext) (tis : List TransferInstruction) (loaded : List (List Slot))
    (final : TransferState), ctx.env = env ∧ ctx.tx = tx ∧
      loadInputs env tx inputsTxs tx.vin = .ok loaded ∧
      runInstructions ctx 0 tis ⟨0, loaded, tx.vout.map readTxOut⟩ = .ok final ∧
      slots = final.slots

/-- The change pass merges the runs of adjacent slots of a token, or keeps its
slots apart. -/
def ChangeFollowsPolicy (policy : AggregationPolicy) (t : String) (slots : List (List Slot)) :
    Prop :=
  changeAmounts t (slotCount slots) slots.flatten =
    match policy with
    | .nonAggregatable => lotAmounts tokenKey t slots.flatten
    | _ => runAmounts tokenKey t 0 slots.flatten

/-- All tokens of one id have one policy. -/
def PolicyIs (t policy : String) (token : BFXTTokenTxData) : Prop :=
  token.tokenId = t → token.aggregationPolicy = policy

theorem amountBlind_policyIs (t policy : String) : AmountBlind (PolicyIs t policy) :=
  fun _ _ htoken => htoken

theorem SpendsFrom.policyIs (hspends : SpendsFrom t ledger inputsTxs)
    (hledger : ∀ entry ∈ ledger, ∀ token ∈ allTokens entry.2.vout, PolicyIs t policy token)
    (env : NodeEnv) (txin : CTxIn) :
    ∀ token ∈ prevTokens env inputsTxs txin, PolicyIs t policy token := by
  intro token htoken
  rw [prevTokens] at htoken
  split at htoken
  · cases htoken
  rename_i input hinput
  split at htoken
  · cases htoken
  rename_i txout htxout
  have hmem := mem_allTokens.mpr ⟨txout, mem_of_getElem? htxout, htoken⟩
  rcases hspends input (mem_of_find?_eq_some hinput) with hentry | hother
  · exact hledger input hentry token hmem
  · exact fun hid => absurd hid (hother token hmem)

theorem TransferChain.policyIs {origin : InputPair} (hchain : TransferChain env t origin ledger)
    (horigin : ∀ token ∈ allTokens origin.2.vout, PolicyIs t policy token) :
    ∀ entry ∈ ledger, ∀ token ∈ allTokens entry.2.vout, PolicyIs t policy token := by
  induction hchain with
  | origin =>
    intro entry hentry
    rw [mem_singleton.mp hentry]
    exact horigin
  | read _ hspends hself hread htransfer ih =>
    refine forall_mem_cons.mpr ⟨?_, ih⟩
    rcases readBFXTDataFromTx_eq_ok hself hread with
      ⟨-, htokens⟩ | ⟨rfl, rfl, hissues⟩ | htransfers
    · rw [htokens]
      exact nofun
    · exact absurd hissues.type_eq (htransfer _ _ hissues.carries)
    refine transferTokens_forall (amountBlind_policyIs t policy) htransfers.transferred ?_
      fun txin _ => hspends.policyIs ih _ txin
    rw [htransfers.vout_eq, allTokens_readTxOut]
    exact nofun

theorem TransferChain.changeFollowsPolicy {policy : AggregationPolicy} {origin : InputPair}
    (hchain : TransferChain env t origin ledger)
    (horigin : ∀ token ∈ allTokens origin.2.vout, PolicyIs t (policyStr policy) token)
    (hspends : SpendsFrom t ledger inputsTxs) (hleaves : LeavesSlots env tx inputsTxs slots) :
    ChangeFollowsPolicy policy t slots := by
  obtain ⟨ctx, tis, loaded, final, rfl, rfl, hload, hrun, rfl⟩ := hleaves
  have hledger := hchain.policyIs horigin
  have hslots := (runInstructions_loaded_allTokens (amountBlind_policyIs t (policyStr policy)) hload
    hrun (by rw [allTokens_readTxOut]; exact nofun) fun txin _ => hspends.policyIs hledger _ txin).1
  have hpolicy : HasPolicy t (policyStr policy) final.slots.flatten :=
    fun slot hslot => hslots slot.item (mem_map_of_mem hslot)
  cases policy with
  | aggregatable => exact changeAmounts_aggregatable (le_refl _) hpolicy
  | unknown => exact changeAmounts_aggregatable (le_refl _) hpolicy
  | nonAggregatable =>
    change changeAmounts t _ _ = lotAmounts tokenKey t _
    refine changeAmounts_eq (fun _ _ hleft => ?_) (fun _ _ hid => ?_) ?_ (fun _ _ hpos hid => ?_)
      (le_refl _) hpolicy
    · simp [lotAmounts, hleft]
    · rw [Slot.tokenId] at hid
      simp [lotAmounts, hid]
    · rfl
    · rw [Slot.tokenId] at hid
      rw [if_neg (by decide)]
      simp [lotAmounts, hid, hpos]

theorem getAggregationPolicyStr_eq (issuanceFlags : IssuanceFlags) :
    getAggregationPolicyStr issuanceFlags = aggregatableStr := by
  rw [getAggregationPolicyStr]
  split
  · rfl
  · rfl

theorem writtenAmounts_eq_nil_iff (instructions : List TransferInstruction) (amount : Nat) :
    writtenAmounts instructions amount = [] ↔ instructions = [] ∧ amount = 0 := by
  rw [writtenAmounts, append_eq_nil_iff, map_eq_nil_iff]
  constructor
  · rintro ⟨rfl, hleft⟩
    refine ⟨rfl, Nat.eq_zero_of_not_pos fun hpos => ?_⟩
    rw [if_pos (by simpa using hpos)] at hleft
    cases hleft
  · rintro ⟨rfl, rfl⟩
    exact ⟨rfl, rfl⟩

/-- Tokens keep the flags of their issuance script, and the change pass of every
transfer that follows goes by them. -/
def PolicyCarried (ctx : IssuanceContext) (script : BFXTScript) (amount : Nat)
    (inputsTxs : List InputPair) (result : BFXTTransaction) : Prop :=
  (∀ issued, issueOutputs ctx script.transferInstructions amount (ctx.tx.vout.map readTxOut) =
      .ok issued →
    ∀ txout ∈ issued, ∀ token ∈ txout.tokens, CarriesFlags ctx.issuanceFlags token) ∧
  ∀ t, newTokenId ctx = .ok t →
    (∀ txin ∈ ctx.tx.vin, ∀ token ∈ prevTokens ctx.env inputsTxs txin, token.tokenId ≠ t) →
    ∀ ledger, TransferChain ctx.env t (ctx.tx, result) ledger →
      ∀ tx inputs slots, SpendsFrom t ledger inputs → LeavesSlots ctx.env tx inputs slots →
        ChangeFollowsPolicy ctx.issuanceFlags.aggregationPolicy t slots

theorem issuance_policy_carried_iff
    (ctx : IssuanceContext) (script : BFXTScript) (amount : Nat) (inputsTxs : List InputPair)
    (self result : BFXTTransaction) (hself : self.isNull = true)
    (hcarries : CarriesScript ctx.env ctx.tx ctx.opReturnArg script)
    (hkind : script.kind = .issuance ctx.tokenSymbol amount ctx.issuanceFlags)
    (hfirst : ctx.tx.vin.head?.map (·.prevout) = some ctx.firstInput)
    (hread : readBFXTDataFromTx ctx.env self ctx.tx inputsTxs = .ok result) :
    PolicyCarried ctx script amount inputsTxs result ↔
      ctx.issuanceFlags.aggregationPolicy ≠ .nonAggregatable ∨
        script.transferInstructions = [] ∧ amount = 0 := by
  obtain ⟨issued, hissues⟩ :=
    reads_issuance hcarries hkind hfirst (readBFXTDataFromTx_eq_ok hself hread)
  obtain ⟨written, hwritten, hissued, hperm⟩ := hissues.tokens_perm
  rw [← writtenAmounts_eq_nil_iff]
  constructor
  · rintro ⟨hflags, -⟩
    rcases written with _ | ⟨token, written⟩
    · exact Or.inr hwritten.map_amount.symm
    have htoken := (issuedToken_eq_ok (hwritten.exists_amount token mem_cons_self)).2.2.2.2
    obtain ⟨txout, htxout, hmem⟩ :=
      mem_allTokens.mp (hissued.mem_iff.mpr (mem_cons_self (a := token)))
    have hpolicy := (hflags issued hissues.issued_eq txout htxout token hmem).policy_eq
    rw [htoken, getAggregationPolicyStr_eq] at hpolicy
    refine Or.inl fun hnon => ?_
    rw [hnon] at hpolicy
    exact absurd hpolicy (by decide)
  intro hcondition
  have hflags : ∀ token ∈ written, CarriesFlags ctx.issuanceFlags token := by
    intro token htoken
    obtain ⟨-, -, hdivisibility, hlock, hpolicy⟩ :=
      issuedToken_eq_ok (hwritten.exists_amount token htoken)
    refine ⟨hdivisibility, hlock, ?_⟩
    rcases hcondition with hnot | hnil
    · rw [hpolicy, getAggregationPolicyStr_eq]
      cases hcase : ctx.issuanceFlags.aggregationPolicy with
      | aggregatable => rfl
      | unknown => rfl
      | nonAggregatable => exact absurd hcase hnot
    have hempty := hwritten.map_amount
    rw [hnil, map_eq_nil_iff] at hempty
    rw [hempty] at htoken
    cases htoken
  refine ⟨?_, ?_⟩
  · intro issued' hissued' txout htxout token htoken
    obtain rfl : issued = issued' := Except.ok.inj (hissues.issued_eq.symm.trans hissued')
    exact hflags token (hissued.mem_iff.mp (mem_allTokens.mpr ⟨txout, htxout, htoken⟩))
  intro t ht hnew ledger hchain tx inputs slots hspends hleaves
  refine hchain.changeFollowsPolicy ?_ hspends hleaves
  intro token htoken hid
  rcases mem_append.mp (hperm.mem_iff.mp htoken) with hpassed | hwrote
  · obtain ⟨txin, htxin, hmem⟩ := mem_flatMap.mp hpassed
    exact absurd hid (hnew txin htxin token hmem)
  · exact (hflags token hwrote).policy_eq

def issuingCtx (flags : UInt8) (issuanceFlags : IssuanceFlags) : IssuanceContext :=
  ⟨timeEnv, issuingTx 3 flags, (isTxBFXT timeEnv (issuingTx 3 flags)).getD "", ⟨1, 0⟩,
    [0x41, 0x42, 0x43, 0x44, 0x45], issuanceFlags⟩

theorem issuance_aggregatable_policy_carried :
    ∃ script result, CarriesScript timeEnv (issuingTx 3 0)
        (issuingCtx 0 ⟨0, false, .aggregatable⟩).opReturnArg script ∧
      readBFXTDataFromTx timeEnv emptyBFXTTransaction (issuingTx 3 0) [fundingTx] = .ok result ∧
      PolicyCarried (issuingCtx 0 ⟨0, false, .aggregatable⟩) script 5 [fundingTx] result := by
  obtain ⟨script, hscript⟩ : ∃ script,
      parseScript (issuingCtx 0 ⟨0, false, .aggregatable⟩).opReturnArg = .ok script := ⟨_, rfl⟩
  obtain ⟨result, hresult⟩ : ∃ result,
      readBFXTDataFromTx timeEnv emptyBFXTTransaction (issuingTx 3 0) [fundingTx] = .ok result :=
    ⟨_, rfl⟩
  have hcarries : CarriesScript timeEnv (issuingTx 3 0)
      (issuingCtx 0 ⟨0, false, .aggregatable⟩).opReturnArg script := ⟨rfl, hscript⟩
  have hkind : script.kind =
      .issuance [0x41, 0x42, 0x43, 0x44, 0x45] 5 ⟨0, false, .aggregatable⟩ := by
    rw [← Except.ok.inj hscript]
    rfl
  exact ⟨script, result, hcarries, hresult,
    (issuance_policy_carried_iff (issuingCtx 0 ⟨0, false, .aggregatable⟩) script 5 [fundingTx]
      emptyBFXTTransaction result rfl hcarries hkind rfl hresult).mpr (Or.inl (by decide))⟩

/-- Policy bits 10 in the flag byte, and the text of the other policy on the
tokens. -/
theorem issuance_nonAggregatable_policy_lost :
    (parseScript (issuingCtx 8 ⟨0, false, .nonAggregatable⟩).opReturnArg).toOption.map (·.kind) =
        some (.issuance [0x41, 0x42, 0x43, 0x44, 0x45] 5 ⟨0, false, .nonAggregatable⟩) ∧
      (readBFXTDataFromTx timeEnv emptyBFXTTransaction (issuingTx 3 8) [fundingTx]).toOption.map
        (fun result => (allTokens result.vout).map (·.aggregationPolicy)) =
          some ["aggregatable", "aggregatable"] := by
  decide +kernel

end Bfx.AggregationPolicies
