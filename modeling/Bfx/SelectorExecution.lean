import Bfx.QueueRefinement
import Bfx.TokenSelector

/-!
The instructions that the selector makes do in the interpreter what the selector
has counted on: both pay out of the front of one queue of slots.
-/

namespace Bfx.SelectorExecution

open CallOutcome LotQueue QueueRefinement TokenScript TokenSelector TokenTransaction
  TransferConservation TransferInterpreter TransferSemantics List

variable {after state : Crediting}

section Taking

variable (tokenId : String)
include tokenId

/-- What the loop over one input leaves to the loop over the inputs behind it. -/
theorem takeFromInput_spec (needed : Nat) (input rest : List Slot) :
    (takeFromInput tokenId needed input).1 ≤ needed ∧
      (takeFromInput tokenId needed input).2.1.length = input.length ∧
      ((takeFromInput tokenId needed input).2.2 = true →
        (takeFromInput tokenId needed input).1 =
            min needed (total (run tokenKey tokenId (input ++ rest))) ∧
          drain tokenKey tokenId (takeFromInput tokenId needed input).1 (input ++ rest) =
            (takeFromInput tokenId needed input).2.1 ++ rest) ∧
      ((takeFromInput tokenId needed input).2.2 = false →
        total (run tokenKey tokenId (input ++ rest)) =
            (takeFromInput tokenId needed input).1 + total (run tokenKey tokenId rest) ∧
          ∀ more, drain tokenKey tokenId ((takeFromInput tokenId needed input).1 + more)
              (input ++ rest) =
            (takeFromInput tokenId needed input).2.1 ++ drain tokenKey tokenId more rest) := by
  induction input generalizing needed with
  | nil => simp [takeFromInput]
  | cons slot tail ih =>
    rw [takeFromInput]
    split
    · rename_i hid
      have hid : tokenKey slot.item ≠ tokenId := hid
      refine ⟨Nat.zero_le _, rfl, fun _ => ⟨?_, ?_⟩, fun h => by cases h⟩
      · rw [cons_append, run_cons_of_ne tokenKey hid, total_nil, Nat.min_zero]
      · exact drain_zero tokenKey tokenId _
    rename_i hid
    have hid : tokenKey slot.item = tokenId := not_not.mp hid
    split
    · rename_i hneeded
      obtain ⟨hle, hlength, hstop, hgo⟩ := ih (needed - slot.left)
      dsimp only
      refine ⟨by omega, by rw [length_cons, length_cons, hlength], ?_, ?_⟩
      · intro h
        obtain ⟨hamount, hdrain⟩ := hstop h
        rw [cons_append, run_cons_of_eq tokenKey hid, total_cons,
          drain_cons_add tokenKey hid, hdrain]
        exact ⟨by omega, rfl⟩
      intro h
      obtain ⟨hamount, hdrain⟩ := hgo h
      rw [cons_append, run_cons_of_eq tokenKey hid, total_cons, hamount]
      refine ⟨by omega, fun more => ?_⟩
      rw [Nat.add_assoc, drain_cons_add tokenKey hid, hdrain, cons_append]
    rename_i hneeded
    refine ⟨le_refl _, rfl, fun _ => ⟨?_, ?_⟩, fun h => by cases h⟩
    · rw [cons_append, run_cons_of_eq tokenKey hid, total_cons]
      dsimp only
      omega
    · exact drain_cons_of_le tokenKey hid (by omega) _

theorem takeFromInputs_spec (needed : Nat) (queue : List (List Slot)) :
    (takeFromInputs tokenId needed queue).1 =
        min needed (total (run tokenKey tokenId queue.flatten)) ∧
      (takeFromInputs tokenId needed queue).2.flatten =
        drain tokenKey tokenId (takeFromInputs tokenId needed queue).1 queue.flatten ∧
      (takeFromInputs tokenId needed queue).2.map List.length = queue.map List.length := by
  induction queue generalizing needed with
  | nil => simp [takeFromInputs, run, drain]
  | cons input inputs ih =>
    obtain ⟨hle, hlength, hstop, hgo⟩ := takeFromInput_spec tokenId needed input inputs.flatten
    rw [takeFromInputs]
    dsimp only
    split
    · rename_i h
      obtain ⟨hamount, hdrain⟩ := hstop h
      refine ⟨hamount, ?_, by rw [map_cons, map_cons, hlength]⟩
      rw [flatten_cons, flatten_cons, hdrain]
    rename_i h
    obtain ⟨hamount, hdrain⟩ := hgo (Bool.eq_false_iff.mpr h)
    obtain ⟨hmore, hflatten, hlengths⟩ :=
      ih (needed - (takeFromInput tokenId needed input).1)
    refine ⟨?_, ?_, by rw [map_cons, map_cons, hlength, hlengths]⟩
    · rw [flatten_cons, hamount]
      omega
    · rw [flatten_cons, flatten_cons, hdrain, hflatten]

theorem sweepInput_eq (hneeded : total input ≤ needed) :
    sweepInput tokenId input = takeFromInput tokenId needed input := by
  induction input generalizing needed with
  | nil => rfl
  | cons slot tail ih =>
    rw [total_cons] at hneeded
    rw [sweepInput, takeFromInput, ih (show total tail ≤ needed - slot.left by omega)]
    split
    · rfl
    · rw [if_pos (show needed ≥ slot.left by omega)]

theorem sweepInputs_eq (hneeded : total queue.flatten ≤ needed) :
    sweepInputs tokenId queue = takeFromInputs tokenId needed queue := by
  induction queue generalizing needed with
  | nil => rfl
  | cons input inputs ih =>
    rw [flatten_cons, total_append] at hneeded
    obtain ⟨-, -, -, hgo⟩ := takeFromInput_spec tokenId needed input []
    rw [sweepInputs, takeFromInputs, sweepInput_eq tokenId (show total input ≤ needed by omega)]
    dsimp only
    split
    · rfl
    rename_i h
    obtain ⟨hamount, -⟩ := hgo (Bool.eq_false_iff.mpr h)
    have hle := total_run_le tokenKey tokenId input
    rw [append_nil, show run tokenKey tokenId [] = [] from rfl, total_nil, Nat.add_zero] at hamount
    rw [ih (show total inputs.flatten ≤
      needed - (takeFromInput tokenId needed input).1 by omega)]

omit tokenId

end Taking

/-- An output index, the item that is paid from and the amount. -/
abbrev Credit := Nat × (BFXTTokenTxData × Nat)

def creditTI (credit : Credit) : TransferInstruction := newTI credit.1 credit.2.2

def creditedToken (credit : Credit) : BFXTTokenTxData := { credit.2.1 with amount := credit.2.2 }

def creditedTo (k : Nat) (credits : List Credit) : List BFXTTokenTxData :=
  (credits.filter fun credit => credit.1 = k).map creditedToken

theorem creditedTo_append (k : Nat) (credits credits' : List Credit) :
    creditedTo k (credits ++ credits') = creditedTo k credits ++ creditedTo k credits' := by
  rw [creditedTo, filter_append, map_append, ← creditedTo, ← creditedTo]

theorem creditedTo_eq_nil (h : ∀ credit ∈ credits, credit.1 ≠ k) : creditedTo k credits = [] := by
  rw [creditedTo, map_eq_nil_iff, filter_eq_nil_iff]
  intro credit hcredit
  simpa using h credit hcredit

def creditedAmount (k : Nat) (credits : List Credit) : Nat :=
  ((creditedTo k credits).map (·.amount)).sum

theorem creditedAmount_append (k : Nat) (credits credits' : List Credit) :
    creditedAmount k (credits ++ credits') =
      creditedAmount k credits + creditedAmount k credits' := by
  rw [creditedAmount, creditedTo_append, map_append, sum_append, ← creditedAmount, ← creditedAmount]

theorem creditedAmount_nil (k : Nat) : creditedAmount k [] = 0 := rfl

/-- What the loop over the recipients has done: instructions for recipients of
the token that are paid out of the queue. -/
structure CreditsRecipients (tokenId : String) (j : Nat)
    (recps recps' : List BFXTSendTokensOneRecipientData) (queue queue' : List (List Slot))
    (credits : List Credit) : Prop where
  pays : Pays tokenKey queue.flatten (credits.map Prod.snd) queue'.flatten
  lengths_eq : queue'.map List.length = queue.map List.length
  ids_eq : recps'.map (·.tokenId) = recps.map (·.tokenId)
  targets : ∀ credit ∈ credits, credit.2.1.tokenId = tokenId ∧
    ∃ k r, credit.1 = j + k ∧ recps[k]? = some r ∧ r.tokenId = tokenId
  amounts : ∀ (k : Nat) (r r' : BFXTSendTokensOneRecipientData), recps[k]? = some r →
    recps'[k]? = some r' → r.amount = r'.amount + creditedAmount (j + k) credits

theorem CreditsRecipients.cons {tokenId : String} {j : Nat}
    {recps recps' : List BFXTSendTokensOneRecipientData} {queue queue₁ queue' : List (List Slot)}
    {first credits : List Credit} {r r' : BFXTSendTokensOneRecipientData}
    (hpays : Pays tokenKey queue.flatten (first.map Prod.snd) queue₁.flatten)
    (hlengths : queue₁.map List.length = queue.map List.length)
    (hfirst : ∀ credit ∈ first, credit.1 = j ∧ credit.2.1.tokenId = tokenId ∧ r.tokenId = tokenId)
    (hid : r'.tokenId = r.tokenId) (hamount : r.amount = r'.amount + creditedAmount j first)
    (hrest : CreditsRecipients tokenId (j + 1) recps recps' queue₁ queue' credits) :
    CreditsRecipients tokenId j (r :: recps) (r' :: recps') queue queue' (first ++ credits) := by
  refine ⟨?_, hrest.lengths_eq.trans hlengths, ?_, ?_, ?_⟩
  · rw [map_append]
    exact hpays.append tokenKey hrest.pays
  · rw [map_cons, map_cons, hrest.ids_eq, hid]
  · intro credit hcredit
    rcases mem_append.mp hcredit with hcredit | hcredit
    · obtain ⟨hj, hitem, hr⟩ := hfirst credit hcredit
      exact ⟨hitem, 0, r, hj, rfl, hr⟩
    · obtain ⟨hitem, k, other, hk, hother, hotherId⟩ := hrest.targets credit hcredit
      exact ⟨hitem, k + 1, other, by omega, hother, hotherId⟩
  rintro (_ | k) before after hbefore hafter
  · obtain rfl : r = before := Option.some.inj hbefore
    obtain rfl : r' = after := Option.some.inj hafter
    -- the instructions for later recipients have larger indices
    have hnone : creditedTo j credits = [] := by
      refine creditedTo_eq_nil fun credit hcredit => ?_
      obtain ⟨-, k, _, hk, -⟩ := hrest.targets credit hcredit
      omega
    rw [hamount, Nat.add_zero, creditedAmount_append, creditedAmount, creditedAmount, hnone]
    simp
  have hnone : creditedTo (j + (k + 1)) first = [] := by
    refine creditedTo_eq_nil fun credit hcredit => ?_
    have := (hfirst credit hcredit).1
    omega
  have hindex : j + 1 + k = j + (k + 1) := by omega
  rw [hrest.amounts k before after hbefore hafter, hindex, creditedAmount_append,
    creditedAmount, creditedAmount, hnone]
  simp

theorem creditRecipients_spec
    (h : creditRecipients tokenId j recps queue = .ok (recps', queue', TIs)) :
    ∃ credits, TIs = credits.map creditTI ∧
      CreditsRecipients tokenId j recps recps' queue queue' credits := by
  induction recps generalizing j queue recps' queue' TIs with
  | nil =>
    obtain ⟨rfl, rfl, rfl⟩ : [] = recps' ∧ queue = queue' ∧ [] = TIs := by
      simpa [creditRecipients] using h
    exact ⟨[], rfl, .nil, rfl, rfl, by simp, by simp⟩
  | cons r recps ih =>
    rw [creditRecipients] at h
    split at h
    · rename_i hr
      split at h
      · cases h
      obtain ⟨htake, hdrain, hlengths⟩ := takeFromInputs_spec tokenId r.amount.toNat queue
      obtain ⟨⟨rest, queue₁, TIs₁⟩, hrec, hresult⟩ := bind_eq_ok.mp h
      obtain ⟨rfl, rfl, rfl⟩ := by simpa using hresult
      obtain ⟨credits, rfl, hcredits⟩ := ih hrec
      have hr' : r.tokenId = tokenId := hr.1.symm
      rcases Nat.eq_zero_or_pos (takeFromInputs tokenId r.amount.toNat queue).1 with
        hzero | hpos
      · rw [hzero, drain_zero] at hdrain
        refine ⟨[] ++ credits, by simp [hzero], ?_⟩
        refine CreditsRecipients.cons ?_ hlengths (by simp) rfl ?_ hcredits
        · rw [hdrain]
          exact .nil
        · simp [hzero, creditedAmount_nil]
      obtain ⟨item, hitem, hpays⟩ := Pays.of_run tokenKey hpos
        (show _ ≤ total (run tokenKey tokenId queue.flatten) by omega)
      rw [← hdrain] at hpays
      refine ⟨[(j, item, (takeFromInputs tokenId r.amount.toNat queue).1)] ++ credits, ?_, ?_⟩
      · rw [if_pos hpos]
        rfl
      refine CreditsRecipients.cons hpays hlengths ?_ rfl ?_ hcredits
      · intro credit hcredit
        obtain rfl := mem_singleton.mp hcredit
        exact ⟨rfl, hitem, hr'⟩
      · simp [creditedAmount, creditedTo, creditedToken]
    obtain ⟨⟨rest, queue₁, TIs₁⟩, hrec, hresult⟩ := bind_eq_ok.mp h
    obtain ⟨rfl, rfl, rfl⟩ := by simpa using hresult
    obtain ⟨credits, rfl, hcredits⟩ := ih hrec
    refine ⟨[] ++ credits, rfl, ?_⟩
    refine CreditsRecipients.cons .nil rfl (by simp) rfl ?_ hcredits
    simp [creditedAmount_nil]

/-- What a part of the selection has done: its instructions are paid out of the
queue, up to empty slots that it has passed. -/
structure Credits (before after : Crediting) (credits : List Credit) : Prop where
  pays : ∃ empty, total empty = 0 ∧ Pays tokenKey before.queue.flatten (credits.map Prod.snd)
    (empty ++ after.queue.flatten)
  ids_eq : after.recps.map (·.tokenId) = before.recps.map (·.tokenId)
  targets : ∀ credit ∈ credits, credit.1 = changeOutputFakeIndex ∨
    ∃ r, before.recps[credit.1]? = some r ∧ r.tokenId = credit.2.1.tokenId
  amounts : ∀ (k : Nat) (r r' : BFXTSendTokensOneRecipientData), before.recps[k]? = some r →
    after.recps[k]? = some r' → r.amount = r'.amount + creditedAmount k credits
  change_eq : ∀ tokenId, after.totalChangeTokens tokenId = before.totalChangeTokens tokenId +
    tokenAmount tokenId (creditedTo changeOutputFakeIndex credits)

theorem Credits.length_recps (h : Credits before after credits) :
    after.recps.length = before.recps.length := by
  simpa using congrArg List.length h.ids_eq

theorem Credits.pass (empty : List Slot) (hempty : total empty = 0)
    (hqueue : before.queue.flatten = empty ++ after.queue.flatten)
    (hrecps : after.recps = before.recps)
    (hchange : after.totalChangeTokens = before.totalChangeTokens) : Credits before after [] := by
  refine ⟨⟨empty, hempty, ?_⟩, by rw [hrecps], by simp, ?_, ?_⟩
  · rw [hqueue]
    exact .nil
  · intro k r r' hr hr'
    rw [hrecps, hr] at hr'
    rw [Option.some.inj hr']
    simp [creditedAmount_nil]
  intro tokenId
  rw [hchange]
  rfl

theorem Credits.trans (h : Credits first second credits) (h' : Credits second third credits') :
    Credits first third (credits ++ credits') := by
  obtain ⟨empty, hempty, hpays⟩ := h.pays
  obtain ⟨empty', hempty', hpays'⟩ := h'.pays
  refine ⟨⟨empty ++ empty', by rw [total_append, hempty, hempty'], ?_⟩, h'.ids_eq.trans h.ids_eq,
    ?_, ?_, ?_⟩
  · rw [map_append, append_assoc]
    exact hpays.append tokenKey (hpays'.append_zero tokenKey hempty)
  · intro credit hcredit
    rcases mem_append.mp hcredit with hcredit | hcredit
    · exact h.targets credit hcredit
    refine (h'.targets credit hcredit).imp_right fun ⟨r', hr', hid⟩ => ?_
    -- the recipient has the same token id before
    have hids := congrArg (fun ids => ids[credit.1]?) h.ids_eq
    simp only [List.getElem?_map, hr', Option.map_some] at hids
    obtain ⟨r, hr, hrid⟩ := Option.map_eq_some_iff.mp hids.symm
    exact ⟨r, hr, hrid.trans hid⟩
  · intro k r r'' hr hr''
    obtain ⟨r', hr'⟩ : ∃ r', second.recps[k]? = some r' := by
      have hlt := (List.getElem?_eq_some_iff.mp hr).1
      exact ⟨_, List.getElem?_eq_getElem (by rw [h.length_recps]; exact hlt)⟩
    rw [h.amounts k r r' hr hr', h'.amounts k r' r'' hr' hr'', creditedAmount_append]
    push_cast
    ring
  · intro tokenId
    rw [h'.change_eq, h.change_eq, creditedTo_append, tokenAmount_append, Nat.add_assoc]

theorem CreditsRecipients.credits {credits : List Credit}
    (h : CreditsRecipients tokenId 0 before.recps after.recps before.queue after.queue credits)
    (hchange : after.totalChangeTokens = before.totalChangeTokens)
    (hrecps : before.recps.length ≤ changeOutputFakeIndex) : Credits before after credits := by
  have htargets : ∀ credit ∈ credits,
      ∃ r, before.recps[credit.1]? = some r ∧ r.tokenId = credit.2.1.tokenId := by
    intro credit hcredit
    obtain ⟨hitem, k, r, hk, hr, hrid⟩ := h.targets credit hcredit
    rw [Nat.zero_add] at hk
    exact ⟨r, by rw [hk, hr], by rw [hrid, hitem]⟩
  refine ⟨⟨[], rfl, h.pays⟩, h.ids_eq, fun credit hcredit => .inr (htargets credit hcredit), ?_, ?_⟩
  · intro k r r' hr hr'
    rw [h.amounts k r r' hr hr', Nat.zero_add]
  intro t
  have hnone : creditedTo changeOutputFakeIndex credits = [] := by
    refine creditedTo_eq_nil fun credit hcredit => ?_
    obtain ⟨r, hr, -⟩ := htargets credit hcredit
    have hlt := (List.getElem?_eq_some_iff.mp hr).1
    omega
  rw [hchange, hnone, tokenAmount_nil, Nat.add_zero]

theorem Credits.sweep (hitem : item.tokenId = tokenId)
    (hpays : Pays tokenKey before.queue.flatten [(item, amount)] after.queue.flatten)
    (hafter : after.recps = before.recps)
    (hchange : after.totalChangeTokens = addChange tokenId amount before.totalChangeTokens)
    (hrecps : before.recps.length ≤ changeOutputFakeIndex) :
    Credits before after [(changeOutputFakeIndex, item, amount)] := by
  refine ⟨⟨[], rfl, hpays⟩, by rw [hafter], ?_, ?_, ?_⟩
  · intro credit hcredit
    obtain rfl := mem_singleton.mp hcredit
    exact .inl rfl
  · intro k r r' hr hr'
    have hlt := (List.getElem?_eq_some_iff.mp hr).1
    have hnone : creditedTo k [(changeOutputFakeIndex, item, amount)] = [] := by
      refine creditedTo_eq_nil fun credit hcredit => ?_
      obtain rfl := mem_singleton.mp hcredit
      dsimp only
      omega
    rw [hafter, hr] at hr'
    rw [Option.some.inj hr', creditedAmount, hnone]
    simp
  intro t
  have hone : creditedTo changeOutputFakeIndex [(changeOutputFakeIndex, item, amount)] =
      [{ item with amount := amount }] := by
    simp [creditedTo, creditedToken]
  rw [hchange, hone, tokenAmount_singleton, addChange, hitem]
  dsimp only
  rcases eq_or_ne t tokenId with heq | hne
  · rw [if_pos heq, if_pos heq]
  · rw [if_neg hne, if_neg hne, Nat.add_zero]

theorem exists_front
    (hlengths : queue.map List.length = ((slot :: input) :: inputs).map List.length) :
    ∃ slot' input' inputs', queue = (slot' :: input') :: inputs' ∧
      input'.length = input.length ∧ inputs'.length = inputs.length := by
  rcases queue with _ | ⟨_ | ⟨slot', input'⟩, inputs'⟩
  · simp at hlengths
  · simp at hlengths
  obtain ⟨hinput, hinputs⟩ : input'.length = input.length ∧
      inputs'.map List.length = inputs.map List.length := by simpa using hlengths
  exact ⟨slot', input', inputs', rfl, hinput, by simpa using congrArg List.length hinputs⟩

/-- What one slot comes to: the recipients take from it, and what they leave is swept up. -/
inductive CreditsToken (tokenId : String) (state after : Crediting) : Prop
  | served {TIs : List TransferInstruction}
      (hrecipients : creditRecipients tokenId 0 state.recps state.queue =
        .ok (after.recps, after.queue, TIs))
      (hfront : frontLeft after.queue = 0)
      (hchange : after.totalChangeTokens = state.totalChangeTokens)
      (hTIs : after.TIs = state.TIs ++ TIs)
  | swept {queue : List (List Slot)} {TIs : List TransferInstruction} {amount : Nat}
      (hrecipients : creditRecipients tokenId 0 state.recps state.queue =
        .ok (after.recps, queue, TIs))
      (hleft : 0 < frontLeft queue) (hpositive : 0 < amount)
      (hamount : amount = total (run tokenKey tokenId queue.flatten))
      (hdrain : after.queue.flatten = drain tokenKey tokenId amount queue.flatten)
      (hlengths : after.queue.map List.length = queue.map List.length)
      (hfront : frontLeft after.queue = 0)
      (hchange : after.totalChangeTokens = addChange tokenId amount state.totalChangeTokens)
      (hTIs : after.TIs = state.TIs ++ TIs ++ [newTI changeOutputFakeIndex amount])

theorem creditToken_eq_ok (hqueue : state.queue = (slot :: input) :: inputs)
    (h : creditToken (Slot.tokenId slot) state = .ok after) :
    CreditsToken (Slot.tokenId slot) state after := by
  rw [creditToken] at h
  obtain ⟨⟨recps, queue, TIs⟩, hcredit, h⟩ := bind_eq_ok.mp h
  dsimp only at h
  split at h
  · rename_i hpos
    -- the front slot has kept its kind, so the sweep takes a run that holds something
    obtain ⟨_, -, hcredits⟩ := creditRecipients_spec hcredit
    have hlengths := hcredits.lengths_eq
    have hitems := hcredits.pays.map_item tokenKey
    rw [hqueue] at hlengths hitems
    obtain ⟨slot', input', inputs', rfl, -⟩ := exists_front hlengths
    have hid : Slot.tokenId slot' = Slot.tokenId slot :=
      congrArg BFXTTokenTxData.tokenId (List.cons.inj hitems).1
    obtain ⟨hamount, hdrain, hsame⟩ := takeFromInputs_spec (Slot.tokenId slot)
      (total ((slot' :: input') :: inputs').flatten) ((slot' :: input') :: inputs')
    have hempty : frontLeft (sweepInputs (Slot.tokenId slot)
        ((slot' :: input') :: inputs')).2 = 0 := by
      rw [sweepInputs, sweepInput, if_neg (not_not.mpr hid)]
      dsimp only
      split
      · rfl
      · rfl
    rw [Nat.min_eq_right (total_run_le tokenKey _ _)] at hamount
    rw [← sweepInputs_eq _ (Nat.le_refl _)] at hamount hdrain hsame
    generalize sweepInputs (Slot.tokenId slot) ((slot' :: input') :: inputs') = swept
      at h hamount hdrain hsame hempty
    obtain ⟨amount, queue⟩ := swept
    cases h
    have hpositive : 0 < amount := by
      have hleft : 0 < slot'.left := hpos
      dsimp only at hamount
      rw [hamount, flatten_cons, cons_append, run_cons_of_eq tokenKey hid, total_cons]
      omega
    exact .swept hcredit hpos hpositive hamount hdrain hsame hempty rfl rfl
  rename_i hzero
  cases h
  exact .served hcredit (Nat.eq_zero_of_not_pos hzero) rfl rfl

theorem CreditsToken.front (h : CreditsToken tokenId state after) :
    frontLeft after.queue = 0 ∧ after.queue.map List.length = state.queue.map List.length := by
  cases h with
  | served hrecipients hfront =>
    obtain ⟨_, -, hcredits⟩ := creditRecipients_spec hrecipients
    exact ⟨hfront, hcredits.lengths_eq⟩
  | swept hrecipients _ _ _ _ hlengths hfront =>
    obtain ⟨_, -, hcredits⟩ := creditRecipients_spec hrecipients
    exact ⟨hfront, hlengths.trans hcredits.lengths_eq⟩

/-- One slot is emptied: into recipients, the rest into change. -/
theorem CreditsToken.credits (h : CreditsToken tokenId state after)
    (hrecps : state.recps.length ≤ changeOutputFakeIndex) :
    ∃ credits, after.TIs = state.TIs ++ credits.map creditTI ∧ Credits state after credits := by
  cases h with
  | served hrecipients _ hchange hTIs =>
    obtain ⟨credits, rfl, hcredits⟩ := creditRecipients_spec hrecipients
    exact ⟨credits, hTIs, hcredits.credits hchange hrecps⟩
  | @swept queue _ amount hrecipients _ hpositive hamount hdrain _ _ hchange hTIs =>
    obtain ⟨credits, rfl, hcredits⟩ := creditRecipients_spec hrecipients
    have hfirst : Credits state ⟨queue, after.recps, state.totalChangeTokens, []⟩ credits :=
      hcredits.credits rfl hrecps
    obtain ⟨item, hkey, hpays⟩ := Pays.of_run tokenKey hpositive hamount.le
    rw [← hdrain] at hpays
    refine ⟨credits ++ [(changeOutputFakeIndex, item, amount)], ?_, ?_⟩
    · rw [hTIs, map_append, ← append_assoc]
      rfl
    refine hfirst.trans (Credits.sweep hkey hpays rfl hchange ?_)
    rw [hfirst.length_recps]
    exact hrecps

theorem CreditsToken.exists_TIs (h : CreditsToken tokenId state after) :
    ∃ TIs, after.TIs = state.TIs ++ TIs := by
  cases h with
  | served _ _ _ hTIs => exact ⟨_, hTIs⟩
  | swept _ _ _ _ _ _ _ _ hTIs => exact ⟨_, hTIs.trans (append_assoc _ _ _)⟩

/-- A relation between two states of crediting and the instructions made in between that holds of
one slot and can be chained. -/
structure SlotRule (R : Crediting → Crediting → List TransferInstruction → Prop) : Prop where
  pass : ∀ {before after : Crediting}, after.queue.flatten = before.queue.flatten →
    after.recps = before.recps → after.totalChangeTokens = before.totalChangeTokens →
    R before after []
  slot : ∀ {state credited : Crediting} {slot slot' : Slot} {input input' : List Slot}
    {inputs inputs' : List (List Slot)} {TIs : List TransferInstruction},
    state.queue = (slot :: input) :: inputs → credited.queue = (slot' :: input') :: inputs' →
    slot'.left = 0 → CreditsToken (Slot.tokenId slot) state credited →
    credited.TIs = state.TIs ++ TIs → R state { credited with queue := input' :: inputs' } TIs
  trans : ∀ {first second third : Crediting} {TIs TIs' : List TransferInstruction},
    R first second TIs → R second third TIs' → R first third (TIs ++ TIs')

theorem SlotRule.creditInput (hrule : SlotRule R) (state : Crediting)
    (hqueue : state.queue = input :: inputs) (hn : input.length = n)
    (h : creditInput n state = .ok after) :
    ∃ TIs, after.TIs = state.TIs ++ TIs ∧ R state after TIs ∧
      ∃ inputs', after.queue = [] :: inputs' ∧ inputs'.length = inputs.length := by
  induction n generalizing input inputs state with
  | zero =>
    obtain rfl := length_eq_zero_iff.mp hn
    cases h
    exact ⟨[], by simp, hrule.pass rfl rfl rfl, inputs, hqueue, rfl⟩
  | succ n ih =>
    obtain ⟨slot, input, rfl⟩ := exists_cons_of_length_eq_add_one hn
    have hn : input.length = n := by simpa using hn
    simp only [TokenSelector.creditInput, hqueue] at h
    obtain ⟨credited, hcredit, h⟩ := bind_eq_ok.mp h
    have htoken := creditToken_eq_ok hqueue hcredit
    obtain ⟨TIs, hTIs⟩ := htoken.exists_TIs
    obtain ⟨hfront, hlengths⟩ := htoken.front
    rw [hqueue] at hlengths
    obtain ⟨slot', input', inputs', hcredited, hinput, hinputs⟩ := exists_front hlengths
    have hslot : slot'.left = 0 := by rwa [hcredited] at hfront
    -- the slot that has been emptied is passed
    rw [hcredited] at h
    obtain ⟨TIs', hTIs', hrest, inputs'', hafter, hlength⟩ := ih
      { credited with queue := input' :: inputs' } rfl (hinput.trans hn) h
    refine ⟨TIs ++ TIs', ?_, hrule.trans (hrule.slot hqueue hcredited hslot htoken hTIs) hrest,
      inputs'', hafter, hlength.trans hinputs⟩
    rw [hTIs', hTIs, append_assoc]

theorem SlotRule.creditInputs (hrule : SlotRule R) (state : Crediting)
    (hlength : state.queue.length = inputs.length)
    (h : creditInputs inputs state = .ok (itis, final)) :
    R state final (itis.flatMap (·.TIs)) ∧ final.queue = [] := by
  induction inputs generalizing state itis with
  | nil =>
    obtain ⟨rfl, rfl⟩ : [] = itis ∧ state = final := by simpa [TokenSelector.creditInputs] using h
    exact ⟨hrule.pass rfl rfl rfl, length_eq_zero_iff.mp hlength⟩
  | cons outpoint inputs ih =>
    obtain ⟨_, recps, totalChangeTokens, TIs⟩ := state
    obtain ⟨input, queue, rfl⟩ := exists_cons_of_length_eq_add_one hlength
    rw [TokenSelector.creditInputs] at h
    obtain ⟨credited, hcredit, h⟩ := bind_eq_ok.mp h
    obtain ⟨⟨rest, final'⟩, hrest, h⟩ := bind_eq_ok.mp h
    obtain ⟨rfl, rfl⟩ := by simpa using h
    obtain ⟨TIs', hTIs, hinput, queue', hcredited, hqueue'⟩ :=
      hrule.creditInput ⟨input :: queue, recps, totalChangeTokens, []⟩ rfl rfl hcredit
    rw [hcredited] at hrest
    obtain ⟨hinputs, hfinal⟩ := ih { credited with queue := queue' }
      (by simpa [hqueue'] using hlength) hrest
    have hstart : R ⟨input :: queue, recps, totalChangeTokens, TIs⟩
        ⟨input :: queue, recps, totalChangeTokens, []⟩ [] := hrule.pass rfl rfl rfl
    have hpass : R credited { credited with queue := queue' } [] := by
      refine hrule.pass ?_ rfl rfl
      rw [hcredited]
      rfl
    have hall := hrule.trans hstart (hrule.trans hinput (hrule.trans hpass hinputs))
    rw [flatMap_cons, hTIs]
    exact ⟨hall, hfinal⟩

theorem slotRule_credits : SlotRule fun before after TIs =>
    before.recps.length ≤ changeOutputFakeIndex →
      ∃ credits, TIs = credits.map creditTI ∧ Credits before after credits where
  pass hqueue hrecps hchange _ := ⟨[], rfl, .pass [] rfl hqueue.symm hrecps hchange⟩
  slot := by
    intro state credited slot slot' input input' inputs inputs' TIs hqueue hcredited hslot htoken
      hTIs hle
    obtain ⟨credits, hTIs', hcredits⟩ := htoken.credits hle
    have hpass : Credits credited { credited with queue := input' :: inputs' } [] := by
      refine .pass [slot'] (by simp [hslot]) ?_ rfl rfl
      rw [hcredited]
      rfl
    have hall := hcredits.trans hpass
    rw [append_nil] at hall
    exact ⟨credits, append_cancel_left (hTIs.symm.trans hTIs'), hall⟩
  trans hfirst hsecond hle := by
    obtain ⟨credits, rfl, hcredits⟩ := hfirst hle
    obtain ⟨credits', rfl, hcredits'⟩ := hsecond (by rwa [hcredits.length_recps])
    exact ⟨credits ++ credits', by rw [map_append], hcredits.trans hcredits'⟩

end Bfx.SelectorExecution
