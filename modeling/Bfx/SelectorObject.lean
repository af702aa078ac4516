import Bfx.SelectionTotals

/-!
`BFXTSendTxData` as an object: any sequence of its calls, and what a call that throws leaves
behind. The flag `ready` is set by the first selection that returns and never taken back.
-/

namespace Bfx.SelectorObject

open CallOutcome SelectionTotals SelectorAgreement SelectorBalance TokenSelector
  TransferConservation TransferInterpreter Transaction List

structure SendTxObject extends BFXTSendTxData where
  usedWallet : Option BFXTWallet
  ready : Bool
  tokenToIssueData : Option IssueTokenData

def noData : BFXTSendTxData := ⟨[], [], fun _ => 0, fun _ => 0, []⟩

def newObject : SendTxObject := ⟨noData, none, false, none⟩

/-- The slots of an input are credited until a call throws. Change is only added by slots that
are credited completely. -/
def creditInputUntil : Nat → Crediting → Crediting
  | 0, state => state
  | slots + 1, state =>
    match state.queue with
    | (slot :: _) :: _ =>
      match creditToken (Slot.tokenId slot) state with
      | .ok state => creditInputUntil slots { state with queue := dropFront state.queue }
      | .error _ => state
    | _ => state

/-- What crediting has written to `intermediaryTIs` and `totalChangeTokens` when it ends, in
whichever way. -/
def creditInputsUntil : List COutPoint → Crediting → List IntermediaryTI × (String → Nat)
  | [], state => ([], state.totalChangeTokens)
  | input :: inputs, state =>
    match creditInput (state.queue.headD []).length { state with TIs := [] } with
    | .ok credited =>
      let (itis, change) :=
        creditInputsUntil inputs { credited with queue := credited.queue.tail }
      (⟨credited.TIs, input, false⟩ :: itis, change)
    | .error _ =>
      ([], (creditInputUntil (state.queue.headD []).length
        { state with TIs := [] }).totalChangeTokens)

/-- A step that throws leaves the object as it is. -/
def attempt {α : Type} (self : SendTxObject) (step : Outcome α)
    (next : α → Outcome Unit × SendTxObject) : Outcome Unit × SendTxObject :=
  match step with
  | .ok a => next a
  | .error fault => (.error fault, self)

/-- `selectBFXTTokens` with its writes to the object. A sort that throws leaves the inputs in an
order that is not specified, here `torn`. -/
def SendTxObject.selectBFXTTokens (order : SelectionOrder) (torn : List COutPoint → List COutPoint)
    (wallet : BFXTWallet) (inputs : List COutPoint)
    (recipients : List BFXTSendTokensOneRecipientData) (addMoreInputsIfRequired : Bool)
    (self : SendTxObject) : Outcome Unit × SendTxObject :=
  let self := { self with toBFXTSendTxData := noData, usedWallet := none }
  let recipients := recipients.filter fun r => r.tokenId ≠ neblTokenId
  attempt self (verifyBFXTIssuanceRecipientsValidity self.tokenToIssueData recipients) fun _ =>
  let inputs := order.uniqueInputs inputs
  let targetAmounts := calculateRequiredTokenAmounts recipients
  attempt self (getAvailableTokenBalances wallet inputs addMoreInputsIfRequired) fun balancesMap =>
  attempt self (ensureCovered wallet balancesMap targetAmounts) fun _ =>
  let availableOutputs :=
    if addMoreInputsIfRequired then wallet.walletOutputsWithTokens.map Prod.fst else inputs
  let self := { self with tokenSourceInputs := order.uniqueInputs inputs }
  -- the only fault in here is an access out of bounds
  attempt self (fillInputs wallet addMoreInputsIfRequired targetAmounts
    ⟨order.shuffle availableOutputs, order.uniqueInputs inputs, fun _ => 0⟩) fun selection =>
  let self := { self with
    tokenSourceInputs := order.uniqueInputs selection.tokenSourceInputs
    totalTokenAmountsInSelectedInputs := selection.totals
    recipientsList := recipients }
  attempt { self with tokenSourceInputs := torn self.tokenSourceInputs }
    (sortInputs wallet order self.tokenSourceInputs) fun sorted =>
  let self := { self with tokenSourceInputs := sorted }
  attempt self (ensureIndices wallet
    "While attempting to credit recipients, input index is out of range for: " sorted) fun _ =>
  let crediting : Crediting := ⟨decreditSlots wallet sorted, recipients, fun _ => 0, []⟩
  let (itis, change) := creditInputsUntil sorted crediting
  let self := { self with
    intermediaryTIs := issuanceTIs self.tokenToIssueData ++ itis
    totalChangeTokens := change }
  attempt self (creditInputs sorted crediting) fun credited =>
  attempt self (ensureFulfilled credited.2.recps) fun _ =>
  (.ok (), { self with usedWallet := some wallet, ready := true })

def SendTxObject.issueBFXTToken (data : IssueTokenData) (self : SendTxObject) :
    Outcome Unit × SendTxObject :=
  if self.ready then
    (raise ("You should register issuing a token before processing BFXT tokens, in " ++
      "order for the new tokens to be taken into account"), self)
  else (.ok (), { self with tokenToIssueData := some data })

inductive MemberCall where
  | issueBFXTToken (data : IssueTokenData)
  | selectBFXTTokens (order : SelectionOrder) (torn : List COutPoint → List COutPoint)
      (wallet : BFXTWallet) (inputs : List COutPoint)
      (recipients : List BFXTSendTokensOneRecipientData) (addMoreInputsIfRequired : Bool)

def MemberCall.run : MemberCall → SendTxObject → Outcome Unit × SendTxObject
  | .issueBFXTToken data, self => self.issueBFXTToken data
  | .selectBFXTTokens order torn wallet inputs recipients addMoreInputsIfRequired, self =>
    self.selectBFXTTokens order torn wallet inputs recipients addMoreInputsIfRequired

section Selection

theorem creditInputsUntil_eq (h : creditInputs inputs state = .ok (itis, final)) :
    creditInputsUntil inputs state = (itis, final.totalChangeTokens) := by
  induction inputs generalizing state itis with
  | nil =>
    obtain ⟨rfl, rfl⟩ : [] = itis ∧ state = final := by simpa [creditInputs] using h
    rfl
  | cons input inputs ih =>
    rw [creditInputs] at h
    obtain ⟨credited, hcredit, h⟩ := bind_eq_ok.mp h
    obtain ⟨⟨rest, final'⟩, hrest, h⟩ := bind_eq_ok.mp h
    obtain ⟨rfl, rfl⟩ := by simpa using h
    simp only [creditInputsUntil, hcredit, ih hrest]

variable {order : SelectionOrder} {torn : List COutPoint → List COutPoint} {wallet : BFXTWallet}
  {inputs : List COutPoint} {recipients : List BFXTSendTokensOneRecipientData} {addMore : Bool}
  {self : SendTxObject}

/-- The call on the object does what the selection returns: its results are written and the object
is ready, or it throws and leaves the flag and the issuance data as they were. -/
def Mirrors (before : SendTxObject) (wallet : BFXTWallet) (selection : Outcome BFXTSendTxData)
    (result : Outcome Unit × SendTxObject) : Prop :=
  match selection with
  | .ok data => result = (.ok (), ⟨data, some wallet, true, before.tokenToIssueData⟩)
  | .error fault => result.1 = .error fault ∧ result.2.ready = before.ready ∧
      result.2.tokenToIssueData = before.tokenToIssueData

theorem Mirrors.attempt {next : α → Outcome Unit × SendTxObject}
    (hready : self.ready = before.ready)
    (hissuance : self.tokenToIssueData = before.tokenToIssueData)
    (h : ∀ a, step = .ok a → Mirrors before wallet (rest a) (next a)) :
    Mirrors before wallet (step >>= rest) (attempt self step next) := by
  cases step with
  | ok a => exact h a rfl
  | error fault => exact ⟨rfl, hready, hissuance⟩

theorem mirrors_selectBFXTTokens :
    Mirrors self wallet
      (selectBFXTTokens order wallet self.tokenToIssueData inputs recipients addMore)
      (self.selectBFXTTokens order torn wallet inputs recipients addMore) := by
  refine Mirrors.attempt rfl rfl fun _ _ => ?_
  refine Mirrors.attempt rfl rfl fun balancesMap _ => ?_
  refine Mirrors.attempt rfl rfl fun _ _ => ?_
  refine Mirrors.attempt rfl rfl fun selection _ => ?_
  refine Mirrors.attempt rfl rfl fun sorted _ => ?_
  refine Mirrors.attempt rfl rfl fun _ _ => ?_
  refine Mirrors.attempt rfl rfl fun credited hcredited => ?_
  refine Mirrors.attempt rfl rfl fun _ _ => ?_
  have huntil := creditInputsUntil_eq hcredited
  show (_, _) = _
  rw [huntil]

end Selection

section Affordable

variable {wallet : BFXTWallet} {tokenToIssueData : Option IssueTokenData} {inputs : List COutPoint}
  {recipients : List BFXTSendTokensOneRecipientData} {addMore : Bool}

/-- The outputs that a call can come to use. -/
def reachableOutputs (wallet : BFXTWallet) (inputs : List COutPoint) (addMore : Bool) :
    List COutPoint :=
  if addMore then inputs ++ walletOutputs wallet else inputs

/-- A request that the selector can always serve. -/
structure Affordable (wallet : BFXTWallet) (tokenToIssueData : Option IssueTokenData)
    (inputs : List COutPoint) (recipients : List BFXTSendTokensOneRecipientData)
    (addMore : Bool) : Prop where
  keys : (walletOutputs wallet).Nodup
  issuance : (recipients.countP fun r => r.tokenId = toIssueTokenId) =
    if tokenToIssueData.isSome then 1 else 0
  nonneg : ∀ r ∈ recipients, ¬Placeholder r.tokenId → 0 ≤ r.amount
  readable : ∀ output ∈ reachableOutputs wallet inputs addMore, Readable wallet output
  noConflict : ∀ output ∈ reachableOutputs wallet inputs addMore,
    ∀ kind ∈ tokenIds wallet output, ¬Conflict kind recipients
  balance : ∀ r ∈ recipients, ¬Placeholder r.tokenId →
    if addMore then
      (∃ available, wallet.balances r.tokenId = some available ∧
        requested recipients r.tokenId ≤ available) ∧
      requested recipients r.tokenId ≤ amountOn wallet r.tokenId (walletOutputs wallet)
    else
      (∃ input ∈ inputs, r.tokenId ∈ tokenIds wallet input) ∧
      requested recipients r.tokenId ≤ amountOn wallet r.tokenId inputs.dedup

theorem Affordable.verified (h : Affordable wallet tokenToIssueData inputs recipients addMore) :
    verifyBFXTIssuanceRecipientsValidity tokenToIssueData (tokenRecipients recipients) =
      .ok () := by
  have hcount := h.issuance
  rw [verifyBFXTIssuanceRecipientsValidity, tokenRecipients, countP_filter, countP_congr, hcount]
  swap
  · intro r _
    simp only [Bool.and_eq_true, decide_eq_true_iff, ne_eq]
    refine and_iff_left_of_imp fun h => ?_
    rw [h]
    decide
  cases tokenToIssueData with
  | none => rfl
  | some data => rfl

theorem ensureCovered_of_forall (h : ∀ target ∈ targets, ∃ available, balancesMap target.1 = some
      available ∧ target.2 ≤ available) : ensureCovered wallet balancesMap targets = .ok () := by
  induction targets with
  | nil => rfl
  | cons target targets ih =>
    obtain ⟨⟨available, hbalance, hle⟩, hrest⟩ := forall_mem_cons.mp h
    rw [ensureCovered, ih hrest]
    split
    · rfl
    · rw [hbalance]
      exact if_neg (not_lt.mpr hle)

theorem addAmounts_eq (ht : t ∈ tokens.map (·.tokenId) ∨ (balances t).isSome) :
    addAmounts tokens balances t = some ((balances t).getD 0 + tokenAmount t tokens) := by
  induction tokens generalizing balances with
  | nil =>
    obtain ⟨amount, hamount⟩ := Option.isSome_iff_exists.mp (ht.resolve_left not_mem_nil)
    simp [addAmounts, tokenAmount, hamount]
  | cons token tokens ih =>
    rw [addAmounts, foldl_cons, ← addAmounts, tokenAmount_cons]
    rcases eq_or_ne t token.tokenId with heq | hne
    · rw [ih (.inr (by rw [if_pos heq]; rfl)), if_pos heq, if_pos heq.symm]
      rw [Option.getD_some, Int.natCast_add, Int.add_assoc]
    rw [ih ?_, if_neg hne, if_neg (Ne.symm hne), Nat.zero_add]
    rw [if_neg hne]
    refine ht.imp_left fun hmem => ?_
    rw [map_cons] at hmem
    exact (mem_cons.mp hmem).resolve_left hne

theorem balancesOfInputs_eq (hreadable : ∀ input ∈ inputs, Readable wallet input) :
    balancesOfInputs wallet inputs balances =
      .ok (addAmounts (inputs.flatMap (walletTokens wallet)) balances) := by
  induction inputs generalizing balances with
  | nil => rfl
  | cons input inputs ih =>
    rw [forall_mem_cons] at hreadable
    rw [balancesOfInputs, flatMap_cons, addAmounts, foldl_append, ← addAmounts, ← addAmounts]
    split
    · rename_i hnone
      rw [walletTokens_of_none hnone]
      exact ih hreadable.2
    rename_i tx hsome
    have hlt := hreadable.1 tx hsome
    have hrange : indexOutOfRange input tx = false := by
      have := Nat.mod_le (input.n + 1) (2 ^ 32)
      rw [indexOutOfRange, decide_eq_false_iff_not]
      omega
    rw [hrange, if_neg Bool.false_ne_true, index_of_lt hlt, ok_bind,
      walletTokens_of_some hsome (List.getElem?_eq_getElem hlt)]
    exact ih hreadable.2

variable (h : Affordable wallet tokenToIssueData inputs recipients addMore)
include h

theorem Affordable.covered (order : SelectionOrder) :
    ∃ balancesMap,
      getAvailableTokenBalances wallet (order.uniqueInputs inputs) addMore = .ok balancesMap ∧
      ensureCovered wallet balancesMap
        (calculateRequiredTokenAmounts (tokenRecipients recipients)) = .ok () := by
  cases addMore with
  | true =>
    refine ⟨wallet.balances, rfl, ensureCovered_of_forall fun target htarget => ?_⟩
    obtain ⟨hplace, hvalue, r, hr, hid⟩ := target_spec htarget
    rw [hvalue, ← hid]
    exact (h.balance r hr (hid ▸ hplace)).1
  | false =>
    have hreadable : ∀ input ∈ order.uniqueInputs inputs, Readable wallet input :=
      fun input hinput => h.readable input ((order.mem_uniqueInputs _ _).mp hinput)
    refine ⟨_, balancesOfInputs_eq hreadable, ensureCovered_of_forall fun target htarget => ?_⟩
    obtain ⟨hplace, hvalue, r, hr, hid⟩ := target_spec htarget
    obtain ⟨⟨input, hinput, hmem⟩, hle⟩ := h.balance r hr (hid ▸ hplace)
    rw [hvalue, ← hid]
    obtain ⟨token, htoken, htokenId⟩ := mem_map.mp hmem
    refine ⟨_, addAmounts_eq (.inl ?_), ?_⟩
    · rw [← htokenId]
      exact mem_map_of_mem (mem_flatMap.mpr
        ⟨input, (order.mem_uniqueInputs _ _).mpr hinput, htoken⟩)
    have hperm : inputs.dedup.Perm (order.uniqueInputs inputs) :=
      (perm_ext_iff_of_nodup inputs.nodup_dedup (order.uniqueInputs_nodup _)).mpr
        fun _ => by rw [mem_dedup, order.mem_uniqueInputs]
    rw [amountOn_perm hperm] at hle
    rw [Option.getD_none, Int.zero_add]
    exact hle

/-- The search returns, and what the recipients ask for is on the inputs that it ends with. -/
theorem Affordable.exists_filled (order : SelectionOrder) :
    ∃ selection, fillInputs wallet addMore
        (calculateRequiredTokenAmounts (tokenRecipients recipients))
        ⟨order.shuffle (if addMore then walletOutputs wallet else order.uniqueInputs inputs),
          order.uniqueInputs (order.uniqueInputs inputs), fun _ => 0⟩ = .ok selection ∧
      (∀ output ∈ selection.tokenSourceInputs, output ∈ reachableOutputs wallet inputs addMore) ∧
      ∀ r ∈ recipients, ¬Placeholder r.tokenId → requested recipients r.tokenId ≤
        amountOn wallet r.tokenId (order.uniqueInputs selection.tokenSourceInputs) := by
  have hgiven : ∀ input, input ∈ order.uniqueInputs (order.uniqueInputs inputs) ↔ input ∈ inputs :=
    fun input => by rw [order.mem_uniqueInputs, order.mem_uniqueInputs]
  cases addMore with
  | true =>
    have hperm := order.shuffle_perm (walletOutputs wallet)
    obtain ⟨selection, taken, front', hselection, hinputs, htotals, htaken, henough⟩ :=
      @exists_fillInputs wallet (calculateRequiredTokenAmounts (tokenRecipients recipients))
        (order.shuffle (walletOutputs wallet)) []
        ⟨order.shuffle (walletOutputs wallet), order.uniqueInputs (order.uniqueInputs inputs),
          fun _ => 0⟩
        (append_nil _).symm
        (fun output houtput => h.readable output (by
          rw [append_nil] at houtput
          exact mem_append_right _ (hperm.subset houtput)))
        (fun target htarget => by
          obtain ⟨hplace, hvalue, r, hr, hid⟩ := target_spec htarget
          have hle := (h.balance r hr (hid ▸ hplace)).2
          rw [amountOn_perm hperm, hvalue, ← hid]
          omega)
    refine ⟨selection, hselection, fun output houtput => ?_, fun r hr hplace => ?_⟩
    · rw [hinputs, mem_append, hgiven] at houtput
      refine mem_append.mpr (houtput.imp_right fun hmem => hperm.subset ?_)
      exact htaken.subset (mem_append_left _ hmem)
    have hle := henough _ (exists_target hplace hr rfl)
    have hnodup : taken.Nodup :=
      (htaken.nodup_iff.mpr (hperm.nodup_iff.mpr h.keys)).of_append_left
    have hused := @amountOn_le_of_subset wallet r.tokenId taken
      (order.uniqueInputs selection.tokenSourceInputs) hnodup fun output houtput => by
        rw [order.mem_uniqueInputs, hinputs]
        exact mem_append_right _ houtput
    rw [htotals] at hle
    dsimp only at hle
    omega
  | false =>
    have hperm := order.shuffle_perm (order.uniqueInputs inputs)
    obtain ⟨selection, hselection, taken, hfills⟩ := (@fillInputs_fills wallet false
      (calculateRequiredTokenAmounts (tokenRecipients recipients))
      ⟨order.shuffle (order.uniqueInputs inputs), order.uniqueInputs (order.uniqueInputs inputs),
        fun _ => 0⟩).returns
      (fun output houtput => h.readable output
        ((order.mem_uniqueInputs _ _).mp (hperm.subset houtput)))
    refine ⟨selection, hselection, fun output houtput => ?_, fun r hr hplace => ?_⟩
    · rw [hfills.inputs_eq, mem_append, hgiven] at houtput
      refine houtput.elim id fun hmem => ?_
      rw [← order.mem_uniqueInputs]
      exact hperm.subset (hfills.perm.subset (mem_append_left _ hmem))
    refine (h.balance r hr hplace).2.trans (Int.ofNat_le.mpr ?_)
    refine amountOn_le_of_subset inputs.nodup_dedup fun output houtput => ?_
    rw [order.mem_uniqueInputs, hfills.inputs_eq]
    exact mem_append_left _ ((hgiven output).mpr (mem_dedup.mp houtput))

theorem Affordable.exists_data (order : SelectionOrder) :
    ∃ data, selectBFXTTokens order wallet tokenToIssueData inputs recipients addMore =
      .ok data := by
  obtain ⟨selection, hfilled, hreachable, hcovered⟩ := h.exists_filled order
  have hused : ∀ input ∈ order.uniqueInputs selection.tokenSourceInputs,
      input ∈ reachableOutputs wallet inputs addMore :=
    fun input hinput => hreachable input ((order.mem_uniqueInputs _ _).mp hinput)
  obtain ⟨data, final, hreturns⟩ := exists_returns h.verified (h.covered order) hfilled
    (fun input hinput => h.readable input (hused input hinput))
    (fun input hinput => h.noConflict input (hused input hinput))
    (fun t ht => by
      refine ⟨fun r hr hid => h.nonneg r hr (hid ▸ ht), ?_⟩
      by_cases hasked : ∃ r ∈ recipients, r.tokenId = t
      · obtain ⟨r, hr, rfl⟩ := hasked
        exact hcovered r hr ht
      have hzero : requested recipients t = 0 :=
        requested_eq_zero fun r hr hid => absurd ⟨r, hr, hid⟩ hasked
      rw [hzero]
      exact Int.natCast_nonneg _)
  exact ⟨data, selectBFXTTokens_eq_ok_iff.mpr ⟨selection, final, hreturns⟩⟩

end Affordable

/-- The result of the last selection that has returned, after one more call. -/
def MemberCall.lastData (call : MemberCall) (self : SendTxObject)
    (last : Option BFXTSendTxData) : Option BFXTSendTxData :=
  match call with
  | .issueBFXTToken _ => last
  | .selectBFXTTokens order _ wallet inputs recipients addMore =>
    match TokenSelector.selectBFXTTokens order wallet self.tokenToIssueData inputs recipients
        addMore with
    | .ok data => some data
    | .error _ => last

/-- The object after calls that are all allowed, and the result of the last selection among them
that has returned. -/
inductive Reached (Allowed : SendTxObject → MemberCall → Prop) :
    SendTxObject → Option BFXTSendTxData → Prop
  | new : Reached Allowed newObject none
  | call {self : SendTxObject} {last : Option BFXTSendTxData} (call : MemberCall)
      (hreached : Reached Allowed self last) (hallowed : Allowed self call) :
      Reached Allowed (call.run self).2 (call.lastData self last)

/-- Where the object is ready, only selections that can be served are asked for. -/
def Safe (self : SendTxObject) : MemberCall → Prop
  | .issueBFXTToken _ => True
  | .selectBFXTTokens _ _ wallet inputs recipients addMore =>
    self.ready = false ∨ Affordable wallet self.tokenToIssueData inputs recipients addMore

/-- The members of a ready object are what the last selection that has returned has computed. -/
def Consistent (self : SendTxObject) (last : Option BFXTSendTxData) : Prop :=
  self.ready = true → last = some self.toBFXTSendTxData

theorem Consistent.run (h : Consistent self last) (hsafe : Safe self call) :
    Consistent (call.run self).2 (call.lastData self last) := by
  cases call with
  | issueBFXTToken data =>
    show Consistent (self.issueBFXTToken data).2 last
    rw [SendTxObject.issueBFXTToken]
    split
    · exact h
    · rename_i hready
      exact fun hready' => absurd hready' hready
  | selectBFXTTokens order torn wallet inputs recipients addMore =>
    have hmirrors := @mirrors_selectBFXTTokens order torn wallet inputs recipients addMore self
    show Consistent (self.selectBFXTTokens order torn wallet inputs recipients addMore).2 _
    rw [MemberCall.lastData]
    cases hselect :
        selectBFXTTokens order wallet self.tokenToIssueData inputs recipients addMore with
    | ok data =>
      rw [hselect] at hmirrors
      have hresult : self.selectBFXTTokens order torn wallet inputs recipients addMore = _ :=
        hmirrors
      rw [hresult]
      exact fun _ => rfl
    | error fault =>
      rw [hselect] at hmirrors
      obtain ⟨-, hready, -⟩ := hmirrors
      rcases hsafe with hunready | haffordable
      · intro hready'
        rw [hready, hunready] at hready'
        cases hready'
      obtain ⟨data, hdata⟩ := haffordable.exists_data order
      rw [hselect] at hdata
      cases hdata

/-- In every run of safe calls, the members of a ready object are the complete result of the last
selection that has returned. -/
theorem ready_of_safe_calls {self : SendTxObject} {last : Option BFXTSendTxData}
    (h : Reached Safe self last) (hready : self.ready = true) :
    last = some self.toBFXTSendTxData := by
  have hconsistent : Consistent self last := by
    clear hready
    induction h with
    | new => exact fun hready => absurd hready Bool.false_ne_true
    | call call _ hsafe ih => exact ih.run hsafe
  exact hconsistent hready

def sendCall (amount : Int) : MemberCall :=
  .selectBFXTTokens plainOrder id fiveWallet [] [⟨"t", "a", amount⟩] true

/-- Three tokens are sent, then six are asked for where there are five: the second call throws, and
the object is ready without a recipient, an input or an instruction. -/
theorem ready_after_failed_selection :
    ∃ self data, Reached (fun _ _ => True) self (some data) ∧ self.ready = true ∧
      data.recipientsList = [⟨"t", "a", 3⟩] ∧ data.tokenSourceInputs = [⟨1, 0⟩] ∧
      self.recipientsList = [] ∧ self.tokenSourceInputs = [] ∧ self.intermediaryTIs = [] := by
  have hreached := @Reached.call (fun _ _ => True) _ _ (sendCall 6)
    (.call (sendCall 3) .new trivial) trivial
  have hlast : Option.any (fun data : BFXTSendTxData =>
      data.recipientsList = [⟨"t", "a", 3⟩] ∧ data.tokenSourceInputs = [⟨1, 0⟩])
      ((sendCall 6).lastData ((sendCall 3).run newObject).2
        ((sendCall 3).lastData newObject none)) = true := by decide +kernel
  obtain ⟨data, hdata, hmembers⟩ := (Option.any_eq_true _ _).mp hlast
  rw [hdata] at hreached
  obtain ⟨hrecipients, hinputs⟩ := of_decide_eq_true hmembers
  exact ⟨_, data, hreached, by decide +kernel, hrecipients, hinputs, by decide +kernel,
    by decide +kernel, by decide +kernel⟩

theorem affordable_fiveWallet (hnonneg : 0 ≤ amount) (hle : amount ≤ 5) :
    Affordable fiveWallet none [] [⟨"t", "a", amount⟩] true where
  keys := by decide
  issuance := rfl
  nonneg := by simpa using fun _ => hnonneg
  readable := ensureIndices_ok_iff.mp (by decide +kernel : ensureIndices fiveWallet "" _ = .ok ())
  noConflict output houtput kind hkind hconflict := by
    obtain ⟨r, hr, hissue, -⟩ := hconflict.2
    obtain rfl := mem_singleton.mp hr
    exact absurd hissue (by decide : "t" ≠ toIssueTokenId)
  balance r hr _ := by
    obtain rfl := mem_singleton.mp hr
    have hrequested : requested [⟨"t", "a", amount⟩] "t" = amount := by simp
    have hamount : amountOn fiveWallet "t" (walletOutputs fiveWallet) = 5 := by decide +kernel
    rw [if_pos rfl, hrequested, hamount]
    exact ⟨⟨5, rfl, hle⟩, hle⟩

theorem ready_after_two_selections :
    ∃ self data, Reached Safe self (some data) ∧ self.ready = true ∧
      self.recipientsList = [⟨"t", "a", 2⟩] ∧ data = self.toBFXTSendTxData := by
  have hreached := @Reached.call Safe _ _ (sendCall 2)
    (.call (sendCall 3) .new (.inr (affordable_fiveWallet (by decide) (by decide))))
    (.inr (affordable_fiveWallet (by decide) (by decide)))
  have hready : ((sendCall 2).run ((sendCall 3).run newObject).2).2.ready = true := by
    decide +kernel
  have hlast := ready_of_safe_calls hreached hready
  rw [hlast] at hreached
  exact ⟨_, _, hreached, hready, by decide +kernel, rfl⟩

end Bfx.SelectorObject
