import Bfx.TransferConservation

/-!
Without skip instructions the interpreter refines the queue of all slots: each
instruction is paid out of the front of the queue, whatever the inputs are.
-/

namespace Bfx.QueueRefinement

open CallOutcome LotQueue TokenScript TokenTransaction TransferInterpreter TransferSemantics List

def PassedEmpty (state : TransferState) : Prop :=
  total (state.slots.take state.currentInputIndex).flatten = 0

variable {slots : List (List Slot)}

theorem total_take_flatten_eq_zero
    (hzero : ∀ k < n, ∀ input, slots[k]? = some input → total input = 0) :
    total (slots.take n).flatten = 0 := by
  refine total_eq_zero_iff.mpr fun slot hslot => ?_
  obtain ⟨input, hinput, hmem⟩ := mem_flatten.mp hslot
  obtain ⟨k, hk, heq⟩ := mem_take_iff_getElem.mp hinput
  have hlt : k < n ∧ k < slots.length := by omega
  exact total_eq_zero_iff.mp
    (hzero k hlt.1 input (List.getElem?_eq_some_iff.mpr ⟨hlt.2, heq⟩)) slot hmem

theorem total_eq_zero_of_take (hzero : total (slots.take n).flatten = 0) (hk : k < n)
    (hinput : slots[k]? = some input) : total input = 0 := by
  refine total_eq_zero_iff.mpr fun slot hslot => total_eq_zero_iff.mp hzero slot ?_
  refine mem_flatten.mpr ⟨input, ?_, hslot⟩
  exact mem_of_getElem? (by rw [List.getElem?_take_of_lt hk, hinput])

theorem exists_actsOn (hpassed : PassedEmpty state) (hpos : 0 < total state.slots.flatten) :
    ∃ acting input, ActsOn state acting input ∧ total (state.slots.take acting).flatten = 0 := by
  have hexists : ∃ k : Nat, ∃ input : List Slot, state.slots[k]? = some input ∧ 0 < total input := by
    refine Classical.by_contradiction fun hnone => Nat.pos_iff_ne_zero.mp hpos ?_
    refine total_eq_zero_iff.mpr fun slot hslot => ?_
    obtain ⟨input, hinput, hmem⟩ := mem_flatten.mp hslot
    obtain ⟨k, hk⟩ := mem_iff_getElem?.mp hinput
    refine total_eq_zero_iff.mp (Nat.eq_zero_of_not_pos fun h => hnone ⟨k, input, hk, h⟩) slot hmem
  obtain ⟨acting, ⟨input, hinput, hinputPos⟩, hfirst⟩ :
      ∃ acting : Nat, (∃ input : List Slot, state.slots[acting]? = some input ∧ 0 < total input) ∧
        ∀ k < acting, ∀ input : List Slot, state.slots[k]? = some input → total input = 0 := by
    classical
    refine ⟨Nat.find hexists, Nat.find_spec hexists, fun k hk input hinput => ?_⟩
    exact Nat.eq_zero_of_not_pos fun h => Nat.find_min hexists hk ⟨input, hinput, h⟩
  refine ⟨acting, input, ⟨?_, hinput, hinputPos, ?_⟩, total_take_flatten_eq_zero hfirst⟩
  · refine Nat.le_of_not_lt fun hlt => ?_
    have := total_eq_zero_of_take hpassed hlt hinput
    omega
  intro k _ hk
  obtain ⟨hlt, -⟩ := List.getElem?_eq_some_iff.mp hinput
  have hkth : state.slots[k]? = some (state.slots.get ⟨k, by omega⟩) :=
    List.getElem?_eq_getElem (by omega)
  exact ⟨_, hkth, hfirst k hk _ hkth⟩

theorem exists_front (hpassed : PassedEmpty state)
    (hskip : skipEmpty state.slots.flatten = first :: rest) :
    ∃ acting input tail, ActsOn state acting input ∧
      total (state.slots.take acting).flatten = 0 ∧ skipEmpty input = first :: tail ∧
      rest = tail ++ (state.slots.drop (acting + 1)).flatten := by
  obtain ⟨acting, input, hacts, hbefore⟩ :=
    exists_actsOn hpassed (total_pos_of_skipEmpty hskip (pos_of_skipEmpty hskip))
  obtain ⟨head, tail, hhead, hheadPos⟩ := exists_skipEmpty_of_pos hacts.input_pos
  rw [flatten_eq_queueFrom state.slots acting, skipEmpty_append_of_zero hbefore,
    skipEmpty_queueFrom_cons hacts.input_eq hhead hheadPos] at hskip
  obtain ⟨rfl, rfl⟩ := List.cons.inj hskip
  exact ⟨acting, input, tail, hacts, hbefore, hhead, rfl⟩

theorem frontTotal_flatten (hbefore : total (slots.take acting).flatten = 0) :
    frontTotal tokenKey slots.flatten = frontTotal tokenKey (queueFrom slots acting) := by
  rw [flatten_eq_queueFrom slots acting, frontTotal_append_of_zero tokenKey hbefore]

def lastSlots (slots : List (List Slot)) : Nat := (slots.map List.length).getLastD 0

theorem lastSlots_of_last (hinput : slots[k]? = some input) (hlast : k + 1 = slots.length) :
    lastSlots slots = input.length := by
  have hk : slots.length - 1 = k := by omega
  rw [lastSlots, getLastD_eq_getLast?, List.getLast?_eq_getElem?, length_map, hk,
    List.getElem?_map, hinput]
  rfl

theorem lastSlots_le_length_drop (hn : n < slots.length) :
    lastSlots slots ≤ (slots.drop n).flatten.length := by
  have hinput : slots[slots.length - 1]? = some (slots.get ⟨slots.length - 1, by omega⟩) :=
    List.getElem?_eq_getElem (by omega)
  have hmem : slots.get ⟨slots.length - 1, by omega⟩ ∈ slots.drop n := by
    refine mem_iff_getElem?.mpr ⟨slots.length - 1 - n, ?_⟩
    rw [List.getElem?_drop, Nat.add_sub_cancel' (by omega), hinput]
  rw [lastSlots_of_last hinput (by omega)]
  exact (sublist_flatten_of_mem hmem).length_le

theorem length_rest_lt_lastSlots_iff {input tail : List Slot} (hinput : slots[acting]? = some input)
    (hhead : skipEmpty input = first :: tail) :
    (tail ++ (slots.drop (acting + 1)).flatten).length < lastSlots slots ↔
      acting + 1 = slots.length := by
  obtain ⟨hlt, -⟩ := List.getElem?_eq_some_iff.mp hinput
  have hlength := length_emptyFront_add input
  rw [hhead, length_cons] at hlength
  rw [length_append]
  constructor
  · intro hrest
    refine Classical.by_contradiction fun hne => ?_
    have := lastSlots_le_length_drop (show acting + 1 < slots.length by omega)
    omega
  intro hlast
  rw [lastSlots_of_last hinput hlast, drop_of_length_le (by omega), flatten_nil,
    length_nil]
  omega

theorem passedEmpty_of_take {after : List Slot} (htake : total (slots.take acting).flatten = 0)
    (hafter : slots[acting]? = some after) (vout : List BFXTTxOut) :
    PassedEmpty ⟨if total after = 0 then acting + 1 else acting, slots, vout⟩ := by
  rw [PassedEmpty]
  dsimp only
  split
  · rename_i hzero
    refine total_take_flatten_eq_zero fun k hk other hother => ?_
    rcases Nat.eq_or_lt_of_le (Nat.le_of_lt_succ hk) with rfl | hk
    · rw [hafter] at hother
      rwa [← Option.some.inj hother]
    · exact total_eq_zero_of_take htake hk hother
  · exact htake

def pushCredit (vout : List BFXTTxOut) (outputIndex : Nat) (token : BFXTTokenTxData) :
    List BFXTTxOut :=
  vout.modify outputIndex fun txout => { txout with tokens := txout.tokens ++ [token] }

/-- One instruction is one payment. When it empties the queue, the cursor leaves
the inputs exactly if the front was in the last one. -/
theorem executeInstruction_pays (ctx : TransferContext) (i : Nat) (ti : TransferInstruction)
    (state : TransferState) (hburn : ctx.burnOutput31 = false) (hflag : ti.skipInput = false)
    (hsize : ctx.vinSize = state.slots.length) (hpassed : PassedEmpty state)
    (hout : ti.outputIndex < state.vout.length)
    (hskip : skipEmpty state.slots.flatten = first :: rest)
    (hallowed : ensureNotBlacklisted ctx (Slot.tokenId first) = .ok ())
    (hamount : ti.amount ≤ frontTotal tokenKey state.slots.flatten) :
    ∃ next, executeInstruction ctx i ti state = .ok (some next) ∧
      next.slots.flatten = drainFront tokenKey ti.amount state.slots.flatten ∧
      next.vout = pushCredit state.vout ti.outputIndex { first.item with amount := ti.amount } ∧
      next.slots.map List.length = state.slots.map List.length ∧ PassedEmpty next ∧
      (total next.slots.flatten = 0 →
        (ctx.vinSize ≤ next.currentInputIndex ↔ rest.length < lastSlots state.slots)) := by
  have hfirst := pos_of_skipEmpty hskip
  obtain ⟨acting, input, tail, hacts, hbefore, hhead, rfl⟩ := exists_front hpassed hskip
  have hflatten := flatten_eq_queueFrom state.slots acting
  obtain ⟨hlt, -⟩ := List.getElem?_eq_some_iff.mp hacts.input_eq
  rw [frontTotal_flatten hbefore] at hamount
  have hrange : OutputInRange ctx ti state := Or.inl hout
  have hnot : burnThisOutput ctx ti = false := by simp [burnThisOutput, hburn]
  obtain ⟨slots, hslots, hdrained⟩ :=
    decredit_spec hacts.input_eq hacts.input_pos hhead hamount
  have hlength := hdrained.length_eq
  obtain ⟨after, hafter⟩ : ∃ after, slots[acting]? = some after :=
    ⟨_, List.getElem?_eq_getElem (by omega)⟩
  refine ⟨⟨if total after = 0 then acting + 1 else acting, slots,
    pushCredit state.vout ti.outputIndex { first.item with amount := ti.amount }⟩, ?_, ?_, rfl,
    hdrained.lengths_eq, ?_, ?_⟩
  · have hcredit : creditOutput (burnThisOutput ctx ti) state.vout ti.outputIndex
        { first.item with amount := ti.amount } =
        .ok (pushCredit state.vout ti.outputIndex { first.item with amount := ti.amount }) := by
      rw [hnot, creditOutput, if_neg (by decide), pushToken, if_pos hout]
      rfl
    rw [executeInstruction_acting ctx i ti state hrange (by omega) hacts hhead hfirst, hallowed,
      ok_bind, if_neg (Nat.not_lt.mpr hamount), hcredit, ok_bind, hslots, ok_bind, hflag,
      if_neg (by decide), index_eq_ok.mpr hafter, ok_bind]
    simp
  · rw [flatten_eq_queueFrom slots acting, hdrained.take_eq, hdrained.queue_eq, hflatten,
      drainFront_append_of_zero tokenKey hbefore]
  · exact passedEmpty_of_take (by rw [hdrained.take_eq, hbefore]) hafter _
  intro hempty
  have hzero : total after = 0 := by
    refine total_eq_zero_iff.mpr fun slot hslot => total_eq_zero_iff.mp hempty slot ?_
    exact mem_flatten.mpr ⟨after, mem_of_getElem? hafter, hslot⟩
  rw [length_rest_lt_lastSlots_iff hacts.input_eq hhead, if_pos hzero, hsize]
  dsimp only
  omega

/-- The tokens that cannot be moved at a height. -/
def blockedAt (height : Int) (tokenId : String) : Bool :=
  match isBFXTTokenBlacklisted tokenId with
  | some blacklistHeight => height ≥ blacklistHeight
  | none => false

theorem ensureNotBlacklisted_eq (ctx : TransferContext) (tokenId : String) :
    ensureNotBlacklisted ctx tokenId =
      if blockedAt ctx.env.nBestHeight tokenId then raise (blacklistedToken tokenId)
      else .ok () := by
  rw [ensureNotBlacklisted, blockedAt]
  cases isBFXTTokenBlacklisted tokenId with
  | none => rfl
  | some height => simp

/-- The tokens go to their outputs, in order. -/
def creditAll (vout : List BFXTTxOut) (credits : List (Nat × BFXTTokenTxData)) : List BFXTTxOut :=
  credits.foldl (fun vout credit => pushCredit vout credit.1 credit.2) vout

theorem getElem?_creditAll (vout : List BFXTTxOut) (credits : List (Nat × BFXTTokenTxData))
    (k : Nat) :
    (creditAll vout credits)[k]? = vout[k]?.map fun txout =>
      { txout with
        tokens := txout.tokens ++ (credits.filter fun credit => credit.1 = k).map Prod.snd } := by
  induction credits generalizing vout with
  | nil => simp [creditAll]
  | cons credit credits ih =>
    rw [creditAll, foldl_cons, ← creditAll, ih, pushCredit, List.getElem?_modify, filter_cons]
    rcases vout[k]? with _ | txout
    · rfl
    by_cases hk : credit.1 = k
    · simp [hk]
    · simp [hk]

/-- The token that an instruction credits when it is paid from an item. -/
def creditOf (ti : TransferInstruction) (pay : BFXTTokenTxData × Nat) : Nat × BFXTTokenTxData :=
  (ti.outputIndex, { pay.1 with amount := pay.2 })

/-- An instruction without skip flag, for an output that exists and for the
amount of a payment. -/
structure Asks (outputs : Nat) (ti : TransferInstruction) (pay : BFXTTokenTxData × Nat) :
    Prop where
  skip_eq : ti.skipInput = false
  output_lt : ti.outputIndex < outputs
  amount_eq : ti.amount = pay.2

theorem runInstructions_pays (ctx : TransferContext) (i : Nat) (state : TransferState)
    (houtputs : state.vout.length = outputs) (hburn : ctx.burnOutput31 = false)
    (hsize : ctx.vinSize = state.slots.length) (hpassed : PassedEmpty state) (hallowed : ∀ item ∈
      state.slots.flatten.map Lot.item, ensureNotBlacklisted ctx item.tokenId = .ok ())
    (hasks : List.Forall₂ (Asks outputs) tis paid)
    (hpays : Pays tokenKey state.slots.flatten paid lots) :
    ∃ final, runInstructions ctx i tis state = .ok final ∧ final.slots.flatten = lots ∧
      final.vout = creditAll state.vout (List.zipWith creditOf tis paid) := by
  induction hasks generalizing i state with
  | nil =>
    cases hpays
    exact ⟨state, rfl, rfl, rfl⟩
  | @cons ti pay tis paid hask hasks ih =>
    obtain ⟨item, amount⟩ := pay
    cases hpays with
    | @cons _ _ rest first _ _ hskip hamount hrest =>
      obtain ⟨hflag, hout, rfl⟩ : ti.skipInput = false ∧ ti.outputIndex < outputs ∧
        ti.amount = amount := ⟨hask.skip_eq, hask.output_lt, hask.amount_eq⟩
      rw [← houtputs] at hout
      have hfirst : first.item ∈ state.slots.flatten.map Lot.item := by
        rw [← emptyFront_append_skipEmpty state.slots.flatten, hskip, map_append]
        exact mem_append_right _ mem_cons_self
      obtain ⟨next, hstep, hslots, hvout, hlengths, hpassed', -⟩ :=
        executeInstruction_pays ctx i ti state hburn hflag hsize hpassed hout hskip
          (hallowed _ hfirst) hamount
      have hlength : next.vout.length = state.vout.length := by
        rw [hvout, pushCredit, length_modify]
      have hsize' : ctx.vinSize = next.slots.length := by
        rw [hsize, ← length_map List.length, ← hlengths, length_map]
      obtain ⟨final, hrun, hlots, hfinal⟩ := ih (i + 1) next (hlength.trans houtputs) hsize'
        hpassed' (by rwa [hslots, map_item_drainFront]) (by rwa [hslots])
      refine ⟨final, ?_, hlots, ?_⟩
      · rw [runInstructions, hstep, ok_bind]
        exact hrun
      · rw [hfinal, hvout]
        rfl

theorem changeTokens_of_empty (hempty : total lots = 0) : changeTokens fuel lots = [] := by
  induction fuel generalizing lots with
  | zero => rfl
  | succ fuel ih =>
    rcases lots with _ | ⟨slot, rest⟩
    · rfl
    · rw [total_cons] at hempty
      rw [changeTokens, if_pos (by omega), ih (by omega)]

/-- A transfer whose instructions are payments that empty the queue. -/
theorem transferTokens_pays (hhashes : ensureInputsHashesMatch env inputsTxs = .ok ())
    (hrelate : ensureInputTokensRelateToTx env tx inputsTxs = .ok ())
    (hload : loadInputs env tx inputsTxs tx.vin = .ok slots)
    (hsize : self.vin.length = slots.length)
    (hvalid : isInvalid slots = true → script.transferInstructions = []) (hallowed : ∀ item ∈
      slots.flatten.map Lot.item, blockedAt env.nBestHeight item.tokenId = false)
    (hasks : List.Forall₂ (Asks self.vout.length) script.transferInstructions paid)
    (hpays : Pays tokenKey slots.flatten paid lots) (hempty : total lots = 0) :
    ∃ result, transferTokens env self script tx inputsTxs false = .ok result ∧
      result.vout = deleteEmptyTokens
        (creditAll self.vout (List.zipWith creditOf script.transferInstructions paid)) := by
  let ctx : TransferContext := ⟨env, tx, self.vin.length, script.parsedScriptHex, false⟩
  have hallowed' : ∀ item ∈ slots.flatten.map Lot.item,
      ensureNotBlacklisted ctx item.tokenId = .ok () := by
    intro item hitem
    rw [ensureNotBlacklisted_eq, hallowed item hitem]
    rfl
  obtain ⟨final, hrun, hlots, hvout⟩ := runInstructions_pays ctx 0 ⟨0, slots, self.vout⟩ rfl rfl
    hsize rfl hallowed' hasks hpays
  have hinstructions : (if isInvalid slots then [] else script.transferInstructions) =
      script.transferInstructions := by
    cases hcase : isInvalid slots with
    | false => rfl
    | true => exact (hvalid hcase).symm
  have hchange : creditChange ctx final.slots final.vout = .ok final.vout := by
    have hnone : changeTokens (slotCount final.slots) final.slots.flatten = [] :=
      changeTokens_of_empty (by rw [hlots, hempty])
    rw [creditChange, hnone, if_neg (fun h => h.1 rfl), TransferConservation.pushBackTokens_nil]
  refine ⟨{ self with vout := deleteEmptyTokens final.vout }, ?_, by rw [← hvout]⟩
  rw [transferTokens, hhashes, ok_bind, hrelate, ok_bind, hload, ok_bind, hinstructions, hrun,
    ok_bind, hchange, ok_bind]

end Bfx.QueueRefinement
