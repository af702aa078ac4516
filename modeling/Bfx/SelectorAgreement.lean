import Bfx.SelectorExecution

/-!
Selector and interpreter agree: the instructions that the selector returns,
executed over the inputs that it returns, give every recipient what was asked
for and the change output what the selector counted as change.
-/

namespace Bfx.SelectorAgreement

open CallOutcome LotQueue QueueRefinement SelectorExecution TokenScript TokenSelector
  TokenTransaction TransferConservation TransferInterpreter TransferSemantics Transaction List

variable {recipients : List BFXTSendTokensOneRecipientData} {wallet : BFXTWallet}
  {data : BFXTSendTxData}

theorem ensureFulfilled_eq_ok (h : ensureFulfilled recps = .ok ()) :
    ∀ r ∈ recps, r.tokenId = neblTokenId ∨ r.tokenId = toIssueTokenId ∨ r.amount = 0 := by
  induction recps with
  | nil => simp
  | cons r recps ih =>
    rw [ensureFulfilled] at h
    split at h
    · rename_i hr
      exact forall_mem_cons.mpr ⟨hr, ih h⟩
    · cases h

/-- What the selection of a transfer returns. -/
structure Selects (wallet : BFXTWallet) (recipients : List BFXTSendTokensOneRecipientData)
    (data : BFXTSendTxData) (final : Crediting) : Prop where
  recipients_eq : data.recipientsList = recipients.filter fun r => r.tokenId ≠ neblTokenId
  not_issued : ∀ r ∈ data.recipientsList, r.tokenId ≠ toIssueTokenId
  sorted : data.tokenSourceInputs.Pairwise fun o1 o2 =>
    (walletTokens wallet o2).length ≤ (walletTokens wallet o1).length
  credits_eq : creditInputs data.tokenSourceInputs
    ⟨decreditSlots wallet data.tokenSourceInputs, data.recipientsList, fun _ => 0, []⟩ =
      .ok (data.intermediaryTIs, final)
  fulfilled : ensureFulfilled final.recps = .ok ()
  change_eq : data.totalChangeTokens = final.totalChangeTokens

theorem selectBFXTTokens_eq_ok
    (h : selectBFXTTokens order wallet none inputs recipients addMoreInputsIfRequired = .ok data) :
    ∃ final, Selects wallet recipients data final := by
  simp only [selectBFXTTokens, bind_eq_ok] at h
  obtain ⟨_, hverify, balancesMap, -, -, -, selection, -, tokenSourceInputs, hsort, -, -, ⟨itis,
    final⟩, hcredit, _, hfulfilled, h⟩ := h
  cases h
  refine ⟨final, rfl, ?_, ?_, hcredit, hfulfilled, rfl⟩
  · rw [verifyBFXTIssuanceRecipientsValidity] at hverify
    split at hverify
    · cases hverify
    split at hverify
    · cases hverify
    rename_i hcount
    simpa using hcount
  · have hsorted := order.sort_sorted fun input => (walletTokens wallet input).length
    rw [sortInputs] at hsort
    split at hsort
    · rw [← Except.ok.inj hsort]
      exact hsorted _
    · obtain ⟨-, -, hsort⟩ := bind_eq_ok.mp hsort
      rw [← Except.ok.inj hsort]
      exact hsorted _

section Outputs

/-- Every recipient has an output of its own, and change has one. -/
structure OutputMap (outputOf : Nat → Nat) (recipients outputs : Nat) : Prop where
  recipient_lt : ∀ j < recipients, outputOf j < outputs
  change_lt : outputOf changeOutputFakeIndex < outputs
  injective : ∀ j < recipients, ∀ k < recipients, outputOf j = outputOf k → j = k
  ne_change : ∀ j < recipients, outputOf j ≠ outputOf changeOutputFakeIndex

theorem OutputMap.recipients_le {recipients outputs : Nat}
    (h : OutputMap outputOf recipients outputs) : recipients ≤ changeOutputFakeIndex :=
  Nat.le_of_not_lt fun hlt => h.ne_change _ hlt rfl

def IsTarget (recipients k : Nat) : Prop := k < recipients ∨ k = changeOutputFakeIndex

theorem OutputMap.target_lt {recipients outputs k : Nat} (h : OutputMap outputOf recipients outputs)
    (hk : IsTarget recipients k) : outputOf k < outputs := by
  rcases hk with hk | rfl
  · exact h.recipient_lt k hk
  · exact h.change_lt

theorem isTarget_of_credits {before after : Crediting} (h : Credits before after credits) :
    ∀ credit ∈ credits, IsTarget before.recps.length credit.1 := by
  intro credit hcredit
  rcases h.targets credit hcredit with hchange | ⟨r, hr, -⟩
  · exact .inr hchange
  · exact .inl (List.getElem?_eq_some_iff.mp hr).1

/-- The transfer instructions of the selector with the outputs in place. -/
def scriptInstructions (outputOf : Nat → Nat) (itis : List IntermediaryTI) :
    List TransferInstruction :=
  (itis.flatMap (·.TIs)).map fun ti => { ti with outputIndex := outputOf ti.outputIndex }

def placedCredit (outputOf : Nat → Nat) (credit : Credit) : Nat × BFXTTokenTxData :=
  (outputOf credit.1, creditedToken credit)

variable {itis : List IntermediaryTI} {credits : List Credit}
  (hitis : itis.flatMap (·.TIs) = credits.map creditTI)

include hitis

theorem asks_scriptInstructions {recipients outputs : Nat}
    (houtputs : OutputMap outputOf recipients outputs)
    (htargets : ∀ credit ∈ credits, IsTarget recipients credit.1) :
    List.Forall₂ (Asks outputs) (scriptInstructions outputOf itis) (credits.map Prod.snd) := by
  rw [scriptInstructions, hitis, map_map, forall₂_map_left_iff, forall₂_map_right_iff, forall₂_same]
  intro credit hcredit
  exact ⟨rfl, houtputs.target_lt (htargets credit hcredit), rfl⟩

omit hitis

theorem tokens_of_target {recipients outputs k : Nat}
    (houtputs : OutputMap outputOf recipients outputs) (hlength : vout.length = outputs)
    (hempty : ∀ txout ∈ vout, txout.tokens = [])
    (htargets : ∀ credit ∈ credits, IsTarget recipients credit.1) (hk : IsTarget recipients k) :
    ∃ txout,
      (deleteEmptyTokens (creditAll vout (credits.map (placedCredit outputOf))))[outputOf k]? =
        some txout ∧ txout.tokens = (creditedTo k credits).filter (·.amount != 0) := by
  obtain ⟨txout, htxout⟩ : ∃ txout, vout[outputOf k]? = some txout :=
    ⟨_, List.getElem?_eq_getElem (by rw [hlength]; exact houtputs.target_lt hk)⟩
  have hcredited : ((credits.map (placedCredit outputOf)).filter
      fun credit => credit.1 = outputOf k).map Prod.snd = creditedTo k credits := by
    rw [creditedTo, filter_map, map_map]
    -- no other target has this output
    rw [filter_congr (q := fun credit => credit.1 = k) fun credit hcredit => ?_]
    · rfl
    · refine decide_eq_decide.mpr ⟨fun heq => ?_, fun heq => congrArg outputOf heq⟩
      have heq : outputOf credit.1 = outputOf k := heq
      rcases htargets credit hcredit with hj | hj
      · rcases hk with hk | hk
        · exact houtputs.injective _ hj k hk heq
        · exact absurd (hk ▸ heq) (houtputs.ne_change _ hj)
      rcases hk with hk | hk
      · exact absurd (hj ▸ heq.symm) (houtputs.ne_change k hk)
      · exact hj.trans hk.symm
  rw [deleteEmptyTokens, List.getElem?_map, getElem?_creditAll, htxout]
  refine ⟨_, rfl, ?_⟩
  dsimp only
  rw [hcredited, hempty txout (mem_of_getElem? htxout), nil_append]

end Outputs

/-- A transaction that spends the used inputs in their order, on outputs that
hold the tokens the wallet knows of. -/
structure SpendsUsedInputs (env : NodeEnv) (wallet : BFXTWallet) (data : BFXTSendTxData)
    (tx : CTransaction) (inputsTxs : List InputPair) : Prop where
  vin_eq : tx.vin.map (·.prevout) = data.tokenSourceInputs
  hashes_match : ensureInputsHashesMatch env inputsTxs = .ok ()
  inputs_relate : ensureInputTokensRelateToTx env tx inputsTxs = .ok ()
  agrees : ∀ txin ∈ tx.vin, ∃ prev prevOut,
    getPrevInputIt env tx txin.prevout.hash inputsTxs = .ok prev ∧
      prev.2.vout[txin.prevout.n]? = some prevOut ∧
      prevOut.tokens = walletTokens wallet txin.prevout

theorem SpendsUsedInputs.loadInputs (h : SpendsUsedInputs env wallet data tx inputsTxs) :
    loadInputs env tx inputsTxs tx.vin = .ok (decreditSlots wallet data.tokenSourceInputs) := by
  have hall : ∀ vin : List CTxIn, (∀ txin ∈ vin, txin ∈ tx.vin) →
      TransferInterpreter.loadInputs env tx inputsTxs vin =
        .ok (decreditSlots wallet (vin.map (·.prevout))) := by
    intro vin hvin
    induction vin with
    | nil => rfl
    | cons txin vin ih =>
      obtain ⟨htxin, hvin⟩ := forall_mem_cons.mp hvin
      obtain ⟨prev, prevOut, hprev, hprevOut, htokens⟩ := h.agrees txin htxin
      rw [TransferInterpreter.loadInputs, loadInput, hprev, ok_bind, index_eq_ok.mpr hprevOut,
        ok_bind, ok_bind, ih hvin, ok_bind, htokens]
      rfl
  rw [hall tx.vin (fun _ htxin => htxin), h.vin_eq]

/-- The wallet knows no empty slot and no blacklisted token. -/
structure CleanWallet (wallet : BFXTWallet) : Prop where
  positive : ∀ output, ∀ token ∈ walletTokens wallet output, 0 < token.amount
  allowed : ∀ output, ∀ token ∈ walletTokens wallet output,
    isBFXTTokenBlacklisted token.tokenId = none

theorem map_item_decreditSlots (wallet : BFXTWallet) (inputs : List COutPoint) :
    (decreditSlots wallet inputs).flatten.map Lot.item = inputs.flatMap (walletTokens wallet) := by
  induction inputs with
  | nil => rfl
  | cons input inputs ih =>
    rw [flatMap_cons, ← ih, decreditSlots, map_cons, flatten_cons, map_append,
      map_map, ← decreditSlots]
    congr 1
    exact map_id _

/-- Inputs with more tokens come first, so the first input holds tokens if any does. -/
theorem flatten_of_isInvalid (hwallet : CleanWallet wallet) (hsorted : inputs.Pairwise fun o1 o2 =>
      (walletTokens wallet o2).length ≤ (walletTokens wallet o1).length)
    (hinvalid : isInvalid (decreditSlots wallet inputs) = true) :
    (decreditSlots wallet inputs).flatten = [] := by
  rcases inputs with _ | ⟨first, inputs⟩
  · rfl
  have hzero : total ((walletTokens wallet first).map fun token => ⟨token, token.amount⟩) = 0 := by
    simpa [isInvalid, decreditSlots] using hinvalid
  have hfirst : walletTokens wallet first = [] := by
    refine eq_nil_iff_forall_not_mem.mpr fun token htoken => ?_
    have hpos := hwallet.positive first token htoken
    have := total_eq_zero_iff.mp hzero ⟨token, token.amount⟩ (mem_map_of_mem htoken)
    dsimp only at this
    omega
  refine flatten_eq_nil_iff.mpr fun slots hslots => ?_
  obtain ⟨input, hinput, rfl⟩ := mem_map.mp hslots
  have hnone : walletTokens wallet input = [] := by
    rcases mem_cons.mp hinput with rfl | hinput
    · exact hfirst
    have hle := rel_of_pairwise_cons hsorted hinput
    rw [hfirst] at hle
    exact length_eq_zero_iff.mp (Nat.le_zero.mp hle)
  rw [hnone, map_nil]

section Agreement

variable {r : BFXTSendTokensOneRecipientData}

theorem ids_of_recipient {before after : Crediting} (h : Credits before after credits)
    (hr : before.recps[j]? = some r) (hj : j ≠ changeOutputFakeIndex) :
    ∀ token ∈ creditedTo j credits, token.tokenId = r.tokenId := by
  intro token htoken
  obtain ⟨credit, hcredit, rfl⟩ := mem_map.mp htoken
  obtain ⟨hmem, htarget⟩ := mem_filter.mp hcredit
  obtain rfl : credit.1 = j := by simpa using htarget
  rcases h.targets credit hmem with hchange | ⟨r', hr', hid⟩
  · exact absurd hchange hj
  rw [hr] at hr'
  rw [Option.some.inj hr']
  exact hid.symm

theorem Selects.creditedAmount_eq (hselects : Selects wallet recipients data final)
    (hbefore : before.recps = data.recipientsList) (h : Credits before final credits)
    (hr : data.recipientsList[j]? = some r) : r.amount = creditedAmount j credits := by
  rw [← hbefore] at hr
  obtain ⟨hlt, -⟩ := List.getElem?_eq_some_iff.mp hr
  obtain ⟨r', hr'⟩ : ∃ r', final.recps[j]? = some r' :=
    ⟨_, List.getElem?_eq_getElem (by rw [h.length_recps]; exact hlt)⟩
  have hid : r'.tokenId = r.tokenId := by
    have hids := congrArg (fun ids => ids[j]?) h.ids_eq
    simpa [hr, hr'] using hids
  have hmem : r ∈ data.recipientsList := hbefore ▸ mem_of_getElem? hr
  have hnebl : r.tokenId ≠ neblTokenId := by
    have hfiltered := hmem
    rw [hselects.recipients_eq] at hfiltered
    simpa using (mem_filter.mp hfiltered).2
  have hzero : r'.amount = 0 := by
    rcases ensureFulfilled_eq_ok hselects.fulfilled r' (mem_of_getElem? hr') with
      hcase | hcase | hcase
    · exact absurd (hid.symm.trans hcase) hnebl
    · exact absurd (hid.symm.trans hcase) (hselects.not_issued r hmem)
    · exact hcase
  rw [h.amounts j r r' hr hr', hzero, Int.zero_add]

/-- The interpreter pays the credits of the selector, each to its output. -/
theorem transferTokens_credits (hwallet : CleanWallet wallet)
    (hselects : Selects wallet recipients data final)
    (hspends : SpendsUsedInputs env wallet data tx inputsTxs)
    (houtputs : OutputMap outputOf data.recipientsList.length tx.vout.length)
    (hscript : script.transferInstructions = scriptInstructions outputOf data.intermediaryTIs)
    (hitis : data.intermediaryTIs.flatMap (·.TIs) = credits.map creditTI) (hcredits : Credits
      ⟨decreditSlots wallet data.tokenSourceInputs, data.recipientsList, fun _ => 0, []⟩ final
      credits) (hfinal : final.queue = []) :
    ∃ result,
      transferTokens env (readBFXTDataFromTxMinimal env self tx) script tx inputsTxs false =
        .ok result ∧
      ∀ k, IsTarget data.recipientsList.length k → ∃ txout,
        result.vout[outputOf k]? = some txout ∧
          txout.tokens = (creditedTo k credits).filter (·.amount != 0) := by
  have htargets := isTarget_of_credits hcredits
  obtain ⟨empty, hempty, hpays⟩ := hcredits.pays
  rw [hfinal, flatten_nil, append_nil] at hpays
  have hsize : (readBFXTDataFromTxMinimal env self tx).vin.length =
      (decreditSlots wallet data.tokenSourceInputs).length := by
    simp [readBFXTDataFromTxMinimal, decreditSlots, ← hspends.vin_eq]
  have hlength : (readBFXTDataFromTxMinimal env self tx).vout.length = tx.vout.length :=
    length_map _
  have hvalid : isInvalid (decreditSlots wallet data.tokenSourceInputs) = true →
      script.transferInstructions = [] := by
    intro hinvalid
    rw [flatten_of_isInvalid hwallet hselects.sorted hinvalid] at hpays
    have hnone : credits = [] := map_eq_nil_iff.mp (hpays.eq_nil tokenKey)
    rw [hscript, scriptInstructions, hitis, hnone, map_nil, map_nil]
  have hallowed : ∀ item ∈ (decreditSlots wallet data.tokenSourceInputs).flatten.map Lot.item,
      blockedAt env.nBestHeight item.tokenId = false := by
    intro item hitem
    rw [map_item_decreditSlots] at hitem
    obtain ⟨output, -, htoken⟩ := mem_flatMap.mp hitem
    rw [blockedAt, hwallet.allowed output item htoken]
  have hasks := asks_scriptInstructions hitis houtputs htargets
  rw [← hscript, ← hlength] at hasks
  -- the interpreter pays the same credits out of the same queue
  obtain ⟨result, hresult, hvout⟩ := transferTokens_pays hspends.hashes_match
    hspends.inputs_relate hspends.loadInputs hsize hvalid hallowed hasks hpays hempty
  rw [hscript, scriptInstructions, hitis, map_map, zipWith_map, zipWith_self] at hvout
  refine ⟨result, hresult, fun k hk => ?_⟩
  rw [hvout]
  refine tokens_of_target houtputs hlength ?_ htargets hk
  intro txout htxout
  obtain ⟨_, -, rfl⟩ := mem_map.mp htxout
  rfl

theorem selectBFXTTokens_agrees_with_interpreter
    (order : SelectionOrder) (wallet : BFXTWallet) (inputs : List COutPoint)
    (recipients : List BFXTSendTokensOneRecipientData) (addMoreInputsIfRequired : Bool)
    (data : BFXTSendTxData) (env : NodeEnv) (self : BFXTTransaction) (script : BFXTScript)
    (tx : CTransaction) (inputsTxs : List InputPair) (outputOf : Nat → Nat)
    (hwallet : CleanWallet wallet)
    (hselect : selectBFXTTokens order wallet none inputs recipients addMoreInputsIfRequired =
      .ok data)
    (hspends : SpendsUsedInputs env wallet data tx inputsTxs)
    (houtputs : OutputMap outputOf data.recipientsList.length tx.vout.length)
    (hscript : script.transferInstructions = scriptInstructions outputOf data.intermediaryTIs) :
    data.recipientsList = (recipients.filter fun r => r.tokenId ≠ neblTokenId) ∧
      ∃ result,
        transferTokens env (readBFXTDataFromTxMinimal env self tx) script tx inputsTxs false =
          .ok result ∧
        (∀ j r, data.recipientsList[j]? = some r →
          ∃ txout, result.vout[outputOf j]? = some txout ∧
            (∀ token ∈ txout.tokens, token.tokenId = r.tokenId) ∧
            (tokenAmount r.tokenId txout.tokens : Int) = r.amount) ∧
        ∃ txout, result.vout[outputOf changeOutputFakeIndex]? = some txout ∧
          ∀ t, tokenAmount t txout.tokens = data.totalChangeTokens t := by
  obtain ⟨final, hselects⟩ := selectBFXTTokens_eq_ok hselect
  obtain ⟨hcredited, hfinal⟩ :=
    slotRule_credits.creditInputs _ (by simp [decreditSlots]) hselects.credits_eq
  obtain ⟨credits, hitis, hcredits⟩ := hcredited houtputs.recipients_le
  obtain ⟨result, hresult, houtput⟩ :=
    transferTokens_credits hwallet hselects hspends houtputs hscript hitis hcredits hfinal
  refine ⟨hselects.recipients_eq, result, hresult, ?_, ?_⟩
  · intro j r hr
    have hj := (List.getElem?_eq_some_iff.mp hr).1
    obtain ⟨txout, htxout, htokens⟩ := houtput j (.inl hj)
    have hids := ids_of_recipient hcredits hr
      (Nat.ne_of_lt (Nat.lt_of_lt_of_le hj houtputs.recipients_le))
    refine ⟨txout, htxout, ?_, ?_⟩
    · rw [htokens]
      exact fun token htoken => hids token (mem_filter.mp htoken).1
    rw [htokens, tokenAmount_filter_ne_zero, tokenAmount_of_id hids, if_pos rfl,
      hselects.creditedAmount_eq rfl hcredits hr]
    rfl
  obtain ⟨txout, htxout, htokens⟩ := houtput changeOutputFakeIndex (.inr rfl)
  refine ⟨txout, htxout, fun t => ?_⟩
  rw [htokens, tokenAmount_filter_ne_zero, hselects.change_eq, hcredits.change_eq t, Nat.zero_add]

def plainOrder : SelectionOrder where
  uniqueInputs := List.dedup
  shuffle inputs := inputs
  sort count inputs := inputs.insertionSort fun o1 o2 => count o2 ≤ count o1
  uniqueInputs_nodup := nodup_dedup
  mem_uniqueInputs _ _ := mem_dedup
  shuffle_perm := List.Perm.refl
  sort_perm _ _ := perm_insertionSort _ _
  sort_sorted count inputs := by
    have htotal : Std.Total fun o1 o2 : COutPoint => count o2 ≤ count o1 :=
      ⟨fun o1 o2 => Nat.le_total (count o2) (count o1)⟩
    have htrans : IsTrans COutPoint fun o1 o2 => count o2 ≤ count o1 :=
      ⟨fun _ _ _ h h' => Nat.le_trans h' h⟩
    exact pairwise_insertionSort _ _

def fiveWallet : BFXTWallet where
  walletOutputsWithTokens := [(⟨1, 0⟩, prevTx.2)]
  balances tokenId := if tokenId = "t" then some 5 else none
  getTokenName tokenId := tokenId

theorem fiveWallet_clean : CleanWallet fiveWallet := by
  have htokens : ∀ output, ∀ token ∈ walletTokens fiveWallet output, token = fiveTokens := by
    intro output token htoken
    rcases eq_or_ne output ⟨1, 0⟩ with rfl | hne
    · exact mem_singleton.mp htoken
    have hbeq : (output == (⟨1, 0⟩ : COutPoint)) = false := beq_eq_false_iff_ne.mpr hne
    have hnone : walletTokens fiveWallet output = [] := by
      simp only [walletTokens, findOutput, fiveWallet, lookup_cons, lookup_nil, hbeq]
    rw [hnone] at htoken
    cases htoken
  refine ⟨fun output token htoken => ?_, fun output token htoken => ?_⟩
  · rw [htokens output token htoken]
    decide
  · rw [htokens output token htoken]
    decide

def sendThreeTx : CTransaction := { spendingTx with vout := [⟨1, []⟩, ⟨1, []⟩] }

def sendThree : BFXTScript :=
  ⟨⟨[], [newTI 0 3, newTI 1 2], .transfer⟩, "", [], 3, [], .transfer, false⟩

theorem selectBFXTTokens_sendThree_agrees :
    ∃ data result,
      selectBFXTTokens plainOrder fiveWallet none [] [⟨"t", "a", 3⟩] true = .ok data ∧
      transferTokens timeEnv (readBFXTDataFromTxMinimal timeEnv emptyBFXTTransaction sendThreeTx)
        sendThree sendThreeTx [prevTx] false = .ok result ∧
      ∃ txout change, result.vout[0]? = some txout ∧ tokenAmount "t" txout.tokens = 3 ∧
        result.vout[1]? = some change ∧
        tokenAmount "t" change.tokens = data.totalChangeTokens "t" := by
  obtain ⟨data, hdata, hinputs, hrecipients, hitis⟩ := exists_of_toOption
    (x := selectBFXTTokens plainOrder fiveWallet none [] [⟨"t", "a", 3⟩] true)
    (p := fun data => data.tokenSourceInputs = [⟨1, 0⟩] ∧
      data.recipientsList = [⟨"t", "a", 3⟩] ∧
      data.intermediaryTIs = [⟨[newTI 0 3, newTI changeOutputFakeIndex 2], ⟨1, 0⟩, false⟩])
    (by decide +kernel)
  have hspends : SpendsUsedInputs timeEnv fiveWallet data sendThreeTx [prevTx] := by
    refine ⟨by rw [hinputs]; rfl, by decide, by decide, ?_⟩
    intro txin htxin
    obtain rfl := mem_singleton.mp htxin
    exact ⟨prevTx, ⟨1, "", "", [fiveTokens]⟩, by decide, by decide, by decide⟩
  have houtputs : OutputMap (fun k => if k = 0 then 0 else 1) data.recipientsList.length
      sendThreeTx.vout.length := by
    rw [hrecipients]
    refine ⟨by decide, by decide, by decide, by decide⟩
  have hscript : sendThree.transferInstructions =
      scriptInstructions (fun k => if k = 0 then 0 else 1) data.intermediaryTIs := by
    rw [hitis]
    decide
  obtain ⟨-, result, hresult, hcredited, change, hchange, hamounts⟩ :=
    selectBFXTTokens_agrees_with_interpreter plainOrder fiveWallet [] [⟨"t", "a", 3⟩] true data
      timeEnv emptyBFXTTransaction sendThree sendThreeTx [prevTx] (fun k => if k = 0 then 0 else 1)
      fiveWallet_clean hdata hspends houtputs hscript
  obtain ⟨txout, htxout, -, hthree⟩ := hcredited 0 ⟨"t", "a", 3⟩ (by rw [hrecipients]; rfl)
  exact ⟨data, result, hdata, hresult, txout, change, htxout, Int.ofNat.inj hthree, hchange,
    hamounts "t"⟩

end Agreement

end Bfx.SelectorAgreement
