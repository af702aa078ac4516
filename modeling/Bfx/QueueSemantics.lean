import Bfx.QueueRefinement

/-!
Skip-free transfers as operations on the queue of all slots. The reference knows
the inputs only by their slots in a row and by the number of slots of the last
one, which decides what an instruction meets after the last token is gone.
-/

namespace Bfx.QueueSemantics

open CallOutcome LotQueue QueueRefinement TokenScript TokenTransaction TransferConservation
  TransferInterpreter TransferSemantics Transaction List

/-- `inLast` says that the front of the queue was in the last input when an
instruction was paid last. -/
structure QueueState where
  queue : List Slot
  vout : List BFXTTxOut
  inLast : Bool

/-- One instruction. It fails, it finds no tokens and ends the run, or it is paid
out of the front of the queue. -/
def payInstruction (blocked : String → Bool) (lastInput : Nat) (ti : TransferInstruction)
    (state : QueueState) : Option (Option QueueState) :=
  match skipEmpty state.queue with
  | [] =>
    if state.inLast ∨ state.vout.length ≤ ti.outputIndex then none else some none
  | first :: rest =>
    if state.vout.length ≤ ti.outputIndex ∨ blocked (Slot.tokenId first) ∨
        frontTotal tokenKey state.queue < ti.amount then none
    else
      some (some ⟨drainFront tokenKey ti.amount state.queue,
        pushCredit state.vout ti.outputIndex { first.item with amount := ti.amount },
        rest.length < lastInput⟩)

def payInstructions (blocked : String → Bool) (lastInput : Nat) :
    List TransferInstruction → QueueState → Option QueueState
  | [], state => some state
  | ti :: tis, state =>
    payInstruction blocked lastInput ti state >>= fun
      | none => some state
      | some next => payInstructions blocked lastInput tis next

/-- What is left of a run of one token id: one token from the first slot that is
aggregatable on, a token for each slot before it. -/
def mergeRun : List Slot → List BFXTTokenTxData
  | [] => []
  | slot :: rest =>
    if slot.left = 0 then mergeRun rest
    else if slot.item.aggregationPolicy = aggregatableStr then
      [{ slot.item with amount := slot.left + total rest }]
    else { slot.item with amount := slot.left } :: mergeRun rest

def queueChange (queue : List Slot) : List BFXTTokenTxData :=
  (runs tokenKey queue).flatMap mergeRun

/-- What is left goes to the last output; tokens without amount are dropped. -/
def addChange (queue : List Slot) (vout : List BFXTTxOut) : Option (List BFXTTxOut) :=
  if queueChange queue ≠ [] ∧ vout.length = 0 then none
  else some (deleteEmptyTokens (pushBackTokens (queueChange queue) vout))

def queueTransfer (blocked : String → Bool) (tis : List TransferInstruction)
    (vout : List BFXTTxOut) (slots : List (List Slot)) : Option (List BFXTTxOut) :=
  payInstructions blocked (lastSlots slots) tis ⟨slots.flatten, vout, false⟩ >>= fun final =>
    addChange final.queue final.vout

section Instruction

/-- A state of the interpreter and the queue that stands for it. -/
structure Represents (ctx : TransferContext) (lastInput : Nat) (state : TransferState)
    (queued : QueueState) : Prop where
  size_eq : ctx.vinSize = state.slots.length
  last_eq : lastSlots state.slots = lastInput
  passed : PassedEmpty state
  queue_eq : state.slots.flatten = queued.queue
  vout_eq : state.vout = queued.vout
  cursor_iff : total state.slots.flatten = 0 →
    (ctx.vinSize ≤ state.currentInputIndex ↔ queued.inLast = true)

variable {ctx : TransferContext} {lastInput : Nat} {state : TransferState} {queued : QueueState}

variable (hrepresents : Represents ctx lastInput state queued)
include hrepresents

/-- No input is left to act on when the queue is empty. -/
theorem executeInstruction_of_exhausted (hburn : ctx.burnOutput31 = false)
    (hempty : total state.slots.flatten = 0) :
    executeInstruction ctx i ti state =
      if ctx.vinSize ≤ state.currentInputIndex then raise (inputOutOfRange ctx)
      else if state.vout.length ≤ ti.outputIndex then raise (outputOutOfRange ctx)
      else .ok none := by
  have hnot : burnThisOutput ctx ti = false := by simp [burnThisOutput, hburn]
  rw [executeInstruction, hnot]
  simp only [ge_iff_le, Bool.not_false, and_true]
  rcases Nat.lt_or_ge state.currentInputIndex ctx.vinSize with hlt | hle
  · have hsize := hrepresents.size_eq
    obtain ⟨found, hfound⟩ : ∃ found, skipEmptyInputs state.slots
        (ctx.vinSize - state.currentInputIndex) state.currentInputIndex = .ok found :=
      skipEmptyInputs_of_le (by omega)
    have hnone : found = none := by
      rcases found with _ | acting
      · rfl
      obtain ⟨-, -, ⟨input, hinput, hpos⟩, -⟩ := skipEmptyInputs_eq_some hfound
      have hzero : total input = 0 := by
        refine total_eq_zero_iff.mpr fun slot hslot => total_eq_zero_iff.mp hempty slot ?_
        exact mem_flatten.mpr ⟨input, mem_of_getElem? hinput, hslot⟩
      omega
    rw [hfound, hnone]
    rfl
  · rw [if_pos hle, if_pos hle]

theorem executeInstruction_fails (hburn : ctx.burnOutput31 = false)
    (hskip : skipEmpty state.slots.flatten = first :: rest) (hfails : state.vout.length ≤
      ti.outputIndex ∨ blockedAt ctx.env.nBestHeight (Slot.tokenId first) ∨ frontTotal tokenKey
      state.slots.flatten < ti.amount) :
    ∃ what, executeInstruction ctx i ti state = raise what := by
  obtain ⟨acting, input, tail, hacts, hbefore, hhead, -⟩ :=
    exists_front hrepresents.passed hskip
  obtain ⟨hlt, -⟩ := List.getElem?_eq_some_iff.mp hacts.input_eq
  have hcursor := hacts.cursor_le
  have hsize := hrepresents.size_eq
  rcases Nat.lt_or_ge ti.outputIndex state.vout.length with hout | hout
  · rw [executeInstruction_acting ctx i ti state (Or.inl hout) (by omega) hacts hhead
      (pos_of_skipEmpty hskip), ensureNotBlacklisted_eq, ← frontTotal_flatten hbefore]
    rcases hfails with hle | hblocked | hshort
    · omega
    · rw [if_pos hblocked]
      exact ⟨_, rfl⟩
    rw [if_pos hshort]
    split
    · exact ⟨_, rfl⟩
    · exact ⟨_, rfl⟩
  have hnot : burnThisOutput ctx ti = false := by simp [burnThisOutput, hburn]
  rw [executeInstruction, if_neg (by omega), if_pos ⟨hout, by rw [hnot]; rfl⟩]
  exact ⟨_, rfl⟩

omit hrepresents

/-- The results of one instruction: both runs end, or both go on. -/
def Continues (ctx : TransferContext) (lastInput : Nat) :
    Option TransferState → Option QueueState → Prop
  | some next, some queued => Represents ctx lastInput next queued
  | none, none => True
  | _, _ => False

theorem skipEmpty_eq_nil_iff {lots : List Slot} : skipEmpty lots = [] ↔ total lots = 0 := by
  constructor
  · intro hskip
    refine Nat.eq_zero_of_not_pos fun hpos => ?_
    obtain ⟨first, rest, hcons, -⟩ := exists_skipEmpty_of_pos hpos
    rw [hskip] at hcons
    cases hcons
  intro hzero
  rcases hskip : skipEmpty lots with _ | ⟨first, rest⟩
  · rfl
  · have := total_pos_of_skipEmpty hskip (pos_of_skipEmpty hskip)
    omega

theorem executeInstruction_agrees
    (hrepresents : Represents ctx lastInput state queued) (hburn : ctx.burnOutput31 = false)
    (hflag : ti.skipInput = false) :
    Agrees (Continues ctx lastInput) (executeInstruction ctx i ti state)
      (payInstruction (blockedAt ctx.env.nBestHeight) lastInput ti queued) := by
  rw [payInstruction, ← hrepresents.queue_eq, ← hrepresents.vout_eq]
  rcases hskip : skipEmpty state.slots.flatten with _ | ⟨first, rest⟩
  · have hempty := skipEmpty_eq_nil_iff.mp hskip
    rw [executeInstruction_of_exhausted hrepresents hburn hempty]
    dsimp only
    simp only [← hrepresents.cursor_iff hempty]
    by_cases hcursor : ctx.vinSize ≤ state.currentInputIndex
    · rw [if_pos hcursor, if_pos (Or.inl hcursor)]
      exact .thrown _
    rw [if_neg hcursor]
    by_cases hout : state.vout.length ≤ ti.outputIndex
    · rw [if_pos hout, if_pos (Or.inr hout)]
      exact .thrown _
    · rw [if_neg hout, if_neg (not_or.mpr ⟨hcursor, hout⟩)]
      exact .ok trivial
  dsimp only
  split_ifs with hfails
  · obtain ⟨what, hwhat⟩ := executeInstruction_fails (i := i) hrepresents hburn hskip hfails
    rw [hwhat]
    exact .thrown what
  obtain ⟨hout, hallowed, hamount⟩ : ti.outputIndex < state.vout.length ∧
      ¬ blockedAt ctx.env.nBestHeight (Slot.tokenId first) ∧
      ti.amount ≤ frontTotal tokenKey state.slots.flatten := by
    simpa [not_or] using hfails
  obtain ⟨next, hnext, hqueue, hvout, hlengths, hpassed, hcursor⟩ :=
    executeInstruction_pays ctx i ti state hburn hflag hrepresents.size_eq
      hrepresents.passed hout hskip (by rw [ensureNotBlacklisted_eq, if_neg hallowed]) hamount
  have hlast : lastSlots next.slots = lastSlots state.slots := by
    rw [lastSlots, hlengths, lastSlots]
  rw [hnext]
  refine .ok ⟨?_, hlast.trans hrepresents.last_eq, hpassed, hqueue, hvout, ?_⟩
  · rw [hrepresents.size_eq, ← length_map List.length, ← hlengths, length_map]
  · intro hempty
    rw [hcursor hempty, hrepresents.last_eq, decide_eq_true_eq]

end Instruction

/-- A run that was left or ended: only the slots and the outputs count. -/
structure Leaves (state : TransferState) (queued : QueueState) : Prop where
  queue_eq : state.slots.flatten = queued.queue
  vout_eq : state.vout = queued.vout

theorem runInstructions_agrees (hrepresents : Represents ctx lastInput state queued)
    (hburn : ctx.burnOutput31 = false) (hflags : ∀ ti ∈ tis, ti.skipInput = false) :
    Agrees Leaves (runInstructions ctx i tis state)
      (payInstructions (blockedAt ctx.env.nBestHeight) lastInput tis queued) := by
  induction tis generalizing i state queued with
  | nil => exact .ok ⟨hrepresents.queue_eq, hrepresents.vout_eq⟩
  | cons ti tis ih =>
    rw [forall_mem_cons] at hflags
    rw [runInstructions, payInstructions]
    refine (executeInstruction_agrees hrepresents hburn hflags.1).bind fun step queuedStep h => ?_
    cases step with
    | none =>
      cases queuedStep with
      | none => exact .ok ⟨hrepresents.queue_eq, hrepresents.vout_eq⟩
      | some next => exact h.elim
    | some next =>
      cases queuedStep with
      | none => exact h.elim
      | some queuedNext => exact ih h hflags.2

theorem mergeRun_of_zero (hzero : slot.left = 0) (rest : List Slot) :
    mergeRun (slot :: rest) = [] ++ mergeRun rest := by
  rw [mergeRun, if_pos hzero, nil_append]

/-- Slots that an aggregation has emptied add nothing to the change. -/
theorem queueChange_aggregate (tokenId : String) (lots : List Slot) :
    (aggregate tokenId lots).1 = total (run tokenKey tokenId lots) ∧
      queueChange (aggregate tokenId lots).2 =
        queueChange (lots.dropWhile fun slot => tokenKey slot.item = tokenId) := by
  induction lots with
  | nil => exact ⟨rfl, rfl⟩
  | cons slot rest ih =>
    by_cases hid : Slot.tokenId slot = tokenId
    · have hkey : tokenKey slot.item = tokenId := hid
      rw [aggregate_cons_of_eq hid, run_cons_of_eq tokenKey hid,
        dropWhile_cons_of_pos (by simp [hkey]), total_cons, ih.1]
      refine ⟨rfl, ?_⟩
      rw [← ih.2]
      exact flatMap_runs_cons tokenKey rfl (mergeRun_of_zero rfl) _
    have hkey : tokenKey slot.item ≠ tokenId := hid
    rw [aggregate_cons_of_ne hid, run_cons_of_ne tokenKey hid,
      dropWhile_cons_of_neg (by simp [hkey])]
    exact ⟨rfl, rfl⟩

theorem changeTokens_eq_queueChange (hfuel : lots.length ≤ fuel) :
    changeTokens fuel lots = queueChange lots := by
  induction fuel generalizing lots with
  | zero =>
    obtain rfl := eq_nil_of_length_eq_zero (Nat.le_zero.mp hfuel)
    rfl
  | succ fuel ih =>
    rcases lots with _ | ⟨slot, rest⟩
    · rfl
    have hrest : rest.length ≤ fuel := Nat.le_of_succ_le_succ hfuel
    rw [changeTokens]
    split_ifs with hzero hpolicy
    · rw [ih hrest]
      exact (flatMap_runs_cons tokenKey rfl (mergeRun_of_zero hzero) rest).symm
    · obtain ⟨hamount, hchange⟩ := queueChange_aggregate (Slot.tokenId slot) rest
      dsimp only
      rw [ih (by rw [length_aggregate]; exact hrest), hamount, hchange]
      conv_rhs => rw [queueChange, runs_cons, flatMap_cons, mergeRun, if_neg hzero, if_pos hpolicy]
      rfl
    have hslot : ∀ lots, mergeRun (slot :: lots) =
        [{ slot.item with amount := slot.left }] ++ mergeRun lots := by
      intro lots
      rw [mergeRun, if_neg hzero, if_neg hpolicy]
      rfl
    rw [ih hrest]
    exact (flatMap_runs_cons tokenKey rfl hslot rest).symm

section Inputs

/-! What the reference sees of the inputs besides their slots in a row. -/

variable {blocked : String → Bool} {tis : List TransferInstruction}

theorem payInstructions_mono (hlast : lastInput' ≤ lastInput) (hqueue : state'.queue = state.queue)
    (hvout : state'.vout = state.vout) (hinLast : state'.inLast = true → state.inLast = true)
    (hpay : payInstructions blocked lastInput tis state = some final) :
    ∃ final', payInstructions blocked lastInput' tis state' = some final' ∧
      final'.queue = final.queue ∧ final'.vout = final.vout := by
  induction tis generalizing state state' with
  | nil =>
    cases hpay
    exact ⟨state', rfl, hqueue, hvout⟩
  | cons ti tis ih =>
    rw [payInstructions, payInstruction] at hpay ⊢
    rw [hqueue, hvout]
    rcases hskip : skipEmpty state.queue with _ | ⟨first, rest⟩
    · simp only [hskip] at hpay ⊢
      split_ifs at hpay with hfails
      · cases hpay
      rw [not_or] at hfails
      cases hpay
      rw [if_neg (not_or.mpr ⟨fun h => hfails.1 (hinLast h), hfails.2⟩)]
      exact ⟨state', rfl, hqueue, hvout⟩
    simp only [hskip] at hpay ⊢
    split_ifs at hpay ⊢ with hfails
    · cases hpay
    change payInstructions blocked lastInput tis _ = some final at hpay
    refine ih ?_ ?_ ?_ hpay
    · rfl
    · rfl
    · simp only [decide_eq_true_eq]
      omega

/-- As long as an instruction finds tokens, the last input does not count. -/
theorem payInstructions_congr (hqueue : state'.queue = state.queue)
    (hvout : state'.vout = state.vout)
    (hsum : tis ≠ [] → (tis.dropLast.map (·.amount)).sum < total state.queue) :
    (payInstructions blocked lastInput' tis state').map (fun final => (final.queue, final.vout)) =
      (payInstructions blocked lastInput tis state).map
        (fun final => (final.queue, final.vout)) := by
  induction tis generalizing state state' with
  | nil => simp [payInstructions, hqueue, hvout]
  | cons ti tis ih =>
    have hpos := hsum (cons_ne_nil ti tis)
    rw [payInstructions, payInstructions, payInstruction, payInstruction, hqueue, hvout]
    rcases hskip : skipEmpty state.queue with _ | ⟨first, rest⟩
    · rw [skipEmpty_eq_nil_iff.mp hskip] at hpos
      omega
    dsimp only
    split_ifs with hfails
    · rfl
    have hamount : ti.amount ≤ frontTotal tokenKey state.queue :=
      Nat.le_of_not_lt fun h => hfails (Or.inr (Or.inr h))
    have htotal := total_drainFront_add tokenKey hskip hamount
    refine ih rfl rfl fun hne => ?_
    rw [dropLast_cons_of_ne_nil hne, map_cons, sum_cons] at hpos
    dsimp only
    omega

theorem flatten_insert_empty (before after : List (List Slot)) :
    (before ++ [] :: after).flatten = (before ++ after).flatten := by
  simp

theorem lastSlots_insert_empty {before after : List (List Slot)} (hafter : after ≠ []) :
    lastSlots (before ++ [] :: after) = lastSlots (before ++ after) := by
  have hmap : after.map List.length ≠ [] := by simpa using hafter
  simp only [lastSlots, map_append, map_cons, getLastD_eq_getLast?,
    List.getLast?_append_of_ne_nil _ hmap,
    List.getLast?_append_of_ne_nil _ (cons_ne_nil _ (after.map List.length)),
    List.getLast?_cons_of_ne_nil hmap]

theorem lastSlots_append_empty (slots : List (List Slot)) : lastSlots (slots ++ [[]]) = 0 := by
  simp [lastSlots]

variable {vout : List BFXTTxOut} {before after : List (List Slot)}

theorem queueTransfer_insert_empty (hafter : after ≠ []) :
    queueTransfer blocked tis vout (before ++ [] :: after) =
      queueTransfer blocked tis vout (before ++ after) := by
  rw [queueTransfer, queueTransfer, lastSlots_insert_empty hafter, flatten_insert_empty]

theorem queueTransfer_append_empty (htransfer : queueTransfer blocked tis vout slots = some result)
    :
    queueTransfer blocked tis vout (slots ++ [[]]) = some result := by
  obtain ⟨final, hpay, hchange⟩ := Option.bind_eq_some_iff.mp htransfer
  have hflatten : (slots ++ [[]]).flatten = slots.flatten := by simp
  obtain ⟨final', hpay', hqueue, hvout⟩ := payInstructions_mono (Nat.zero_le _) rfl rfl id hpay
  rw [queueTransfer, lastSlots_append_empty, hflatten]
  refine Option.bind_eq_some_iff.mpr ⟨final', hpay', ?_⟩
  rw [hqueue, hvout, hchange]

theorem queueTransfer_of_sum_lt (hflatten : slots'.flatten = slots.flatten)
    (hsum : (tis.dropLast.map (·.amount)).sum < total slots.flatten) :
    queueTransfer blocked tis vout slots' = queueTransfer blocked tis vout slots := by
  have hfinal : ∀ queued : Option QueueState,
      (queued >>= fun final => addChange final.queue final.vout) =
        queued.map (fun final => (final.queue, final.vout)) >>= fun final =>
          addChange final.1 final.2 := by
    intro queued
    cases queued with
    | none => rfl
    | some final => rfl
  rw [queueTransfer, queueTransfer, hfinal, hfinal, hflatten]
  congr 1
  apply payInstructions_congr
  · rfl
  · rfl
  · exact fun _ => hsum

end Inputs

section Transfer

/-- The transfer of a transaction whose inputs are found and whose first input
holds tokens; `slots` are the tokens of its inputs. -/
structure SpendsFrom (env : NodeEnv) (bfxtTx : BFXTTransaction) (tx : CTransaction)
    (inputsTxs : List InputPair) (slots : List (List Slot)) : Prop where
  hashes_match : ensureInputsHashesMatch env inputsTxs = .ok ()
  relates : ensureInputTokensRelateToTx env tx inputsTxs = .ok ()
  loaded : loadInputs env tx inputsTxs tx.vin = .ok slots
  size_eq : bfxtTx.vin.length = slots.length
  first_holds : isInvalid slots = false

theorem total_pos_of_first (hfirst : isInvalid slots = false) : 0 < total slots.flatten := by
  rcases slots with _ | ⟨input, slots⟩
  · cases hfirst
  have hpos : total input ≠ 0 := by simpa [isInvalid] using hfirst
  rw [flatten_cons, total_append]
  omega

variable {env : NodeEnv} {self : BFXTTransaction} {script : BFXTScript} {tx : CTransaction}
  {inputsTxs : List InputPair} {slots : List (List Slot)}

theorem transferTokens_agrees (hspends : SpendsFrom env self tx inputsTxs slots)
    (hflags : ∀ ti ∈ script.transferInstructions, ti.skipInput = false) :
    Agrees (fun result vout => result = { self with vout := vout })
      (transferTokens env self script tx inputsTxs false)
      (queueTransfer (blockedAt env.nBestHeight) script.transferInstructions self.vout slots) := by
  have hpos := total_pos_of_first hspends.first_holds
  have hstart : Represents ⟨env, tx, self.vin.length, script.parsedScriptHex, false⟩
      (lastSlots slots) ⟨0, slots, self.vout⟩ ⟨slots.flatten, self.vout, false⟩ := by
    refine ⟨hspends.size_eq, rfl, rfl, rfl, rfl, fun hzero => ?_⟩
    dsimp only at hzero
    omega
  rw [transferTokens, hspends.hashes_match, ok_bind, hspends.relates, ok_bind, hspends.loaded,
    ok_bind, if_neg (by simp [hspends.first_holds])]
  refine (runInstructions_agrees hstart rfl hflags).bind fun final queued hleaves => ?_
  rw [creditChange, slotCount, changeTokens_eq_queueChange (le_refl _), hleaves.queue_eq, hleaves.vout_eq,
    addChange]
  split_ifs with hnone
  · exact .thrown _
  · exact .ok rfl

def outputsOf (x : Outcome BFXTTransaction) : Option (List BFXTTxOut) :=
  x.toOption.map (·.vout)

theorem outputsOf_transferTokens (hspends : SpendsFrom env self tx inputsTxs slots)
    (hflags : ∀ ti ∈ script.transferInstructions, ti.skipInput = false) :
    outputsOf (transferTokens env self script tx inputsTxs false) =
      queueTransfer (blockedAt env.nBestHeight) script.transferInstructions self.vout slots := by
  have hagrees := transferTokens_agrees hspends hflags
  revert hagrees
  generalize transferTokens env self script tx inputsTxs false = x
  generalize queueTransfer (blockedAt env.nBestHeight) _ _ _ = y
  intro hagrees
  cases hagrees with
  | ok h => simp [outputsOf, Except.toOption, h]
  | thrown what => rfl

/-- Skip-free transfers are transfers of the queue. An input without tokens
changes nothing, unless it is the last one and instructions are left when the
last token is gone: then it can only turn a failure into a result. -/
theorem transferTokens_refines_queue (hspends : SpendsFrom env self tx inputsTxs slots)
    (hflags : ∀ ti ∈ script.transferInstructions, ti.skipInput = false) :
    Agrees (fun result vout => result = { self with vout := vout })
      (transferTokens env self script tx inputsTxs false)
      (queueTransfer (blockedAt env.nBestHeight) script.transferInstructions self.vout slots) ∧
    ∀ self' tx' inputsTxs' before after, slots = before ++ after → self'.vout = self.vout →
      SpendsFrom env self' tx' inputsTxs' (before ++ [] :: after) →
      (after ≠ [] ∨
          (script.transferInstructions.dropLast.map (·.amount)).sum < total slots.flatten →
        outputsOf (transferTokens env self' script tx' inputsTxs' false) =
          outputsOf (transferTokens env self script tx inputsTxs false)) ∧
      ∀ vout, outputsOf (transferTokens env self script tx inputsTxs false) = some vout →
        outputsOf (transferTokens env self' script tx' inputsTxs' false) = some vout := by
  refine ⟨transferTokens_agrees hspends hflags, ?_⟩
  intro self' tx' inputsTxs' before after hslots hvout hspends'
  rw [outputsOf_transferTokens hspends hflags, outputsOf_transferTokens hspends' hflags, hvout,
    hslots]
  refine ⟨?_, ?_⟩
  · rintro (hafter | hsum)
    · exact queueTransfer_insert_empty hafter
    · exact queueTransfer_of_sum_lt (flatten_insert_empty before after) hsum
  intro vout htransfer
  rcases eq_or_ne after ([]) with rfl | hafter
  · rw [append_nil] at htransfer
    exact queueTransfer_append_empty htransfer
  · rw [queueTransfer_insert_empty hafter, htransfer]

/-- Two instructions for five tokens: the first takes them all. -/
def overdrawingScript : BFXTScript :=
  ⟨⟨[], [⟨0, false, 0, [], 5⟩, ⟨0, false, 0, [], 1⟩], .transfer⟩, "", [], 3, [], .transfer, false⟩

def twoInputsTx : CTransaction := ⟨3, [⟨⟨1, 0⟩, []⟩, ⟨⟨1, 1⟩, []⟩], [⟨1, []⟩], 0⟩

/-- The outputs of a transaction: some tokens, and nothing. -/
def prevTxOf (tokens : List BFXTTokenTxData) : InputPair :=
  (⟨1, [], [⟨1, []⟩, ⟨1, []⟩], 0⟩, ⟨1, [], [⟨1, "", "", tokens⟩, ⟨1, "", "", []⟩], 0, 0, .issuance⟩)

def readWith (env : NodeEnv) (tokens : List BFXTTokenTxData) (script : BFXTScript)
    (tx : CTransaction) : Option (List (List BFXTTokenTxData)) :=
  (outputsOf (transferTokens env (readBFXTDataFromTxMinimal env emptyBFXTTransaction tx) script tx
    [prevTxOf tokens] false)).map (·.map (·.tokens))

theorem transferTokens_refines_queue_five :
    outputsOf (transferTokens timeEnv spendingBFXTTx overdrawingScript spendingTx [prevTx] false) =
      none ∧
    Agrees (fun result vout => result = { spendingBFXTTx with vout := vout })
      (transferTokens timeEnv spendingBFXTTx overdrawingScript spendingTx [prevTx] false)
      (queueTransfer (blockedAt 0) overdrawingScript.transferInstructions spendingBFXTTx.vout
        [[⟨fiveTokens, 5⟩]]) :=
  ⟨by decide +kernel,
    (transferTokens_refines_queue
      ⟨by decide +kernel, by decide +kernel, by decide +kernel, rfl, rfl⟩
      (by decide)).1⟩

def blacklistedTokens : BFXTTokenTxData :=
  { fiveTokens with tokenId := "La77KcJTUj991FnvxNKhrCD1ER8S81T3LgECS6" }

/-- An instruction behind the last token fails, but ends the run when an input
without tokens follows. From its height on, a blacklisted token is not moved
although its run holds enough. -/
theorem transfer_depends_on_empty_input_and_blacklist :
    readWith timeEnv [fiveTokens] overdrawingScript spendingTx = none ∧
    readWith timeEnv [fiveTokens] overdrawingScript twoInputsTx = some [[fiveTokens]] ∧
    readWith { timeEnv with nBestHeight := 299999 } [blacklistedTokens]
      { overdrawingScript with transferInstructions := [⟨0, false, 0, [], 5⟩] } spendingTx =
      some [[blacklistedTokens]] ∧
    readWith { timeEnv with nBestHeight := 300000 } [blacklistedTokens]
      { overdrawingScript with transferInstructions := [⟨0, false, 0, [], 5⟩] } spendingTx =
      none := by
  decide +kernel

end Transfer

end Bfx.QueueSemantics
