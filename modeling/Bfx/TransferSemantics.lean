import Bfx.TransferInterpreter

/-!
The loops of the interpreter in terms of queues: what an instruction sees and
changes is the queue of slots from its input on.
-/

namespace Bfx.TransferSemantics

open CallOutcome LotQueue TokenScript TokenTransaction TransferInterpreter List

abbrev tokenKey : BFXTTokenTxData → String := BFXTTokenTxData.tokenId

def queueFrom (slots : List (List Slot)) (inputIndex : Nat) : List Slot :=
  (slots.drop inputIndex).flatten

theorem queueFrom_eq (hinput : slots[inputIndex]? = some input) :
    queueFrom slots inputIndex = input ++ (slots.drop (inputIndex + 1)).flatten := by
  obtain ⟨hlt, heq⟩ := List.getElem?_eq_some_iff.mp hinput
  rw [queueFrom, drop_eq_getElem_cons hlt, heq, flatten_cons]

theorem adjacentInInput_of_pos (currentInput input : List Slot) (l : Nat) (found : Adjacent)
    (hpos : 0 < found.totalAdjacentTokensOfOneKind) :
    adjacentInInput currentInput l input found =
      .ok (⟨found.totalAdjacentTokensOfOneKind +
          total (run tokenKey found.currentTokenId input), found.currentTokenId,
          found.startTokenIndex⟩,
        decide ((run tokenKey found.currentTokenId input).length ≠ input.length)) := by
  induction input generalizing l found with
  | nil => simp [adjacentInInput, run]
  | cons slot rest ih =>
    rw [adjacentInInput]
    by_cases hid : Slot.tokenId slot = found.currentTokenId
    · rw [if_neg (fun h => h.1 hid), if_neg (Nat.pos_iff_ne_zero.mp hpos), ih]
      · simp [run_cons_of_eq tokenKey hid, Nat.add_assoc]
      · exact Nat.add_pos_left hpos _
    · rw [if_pos ⟨hid, hpos⟩]
      simp [run_cons_of_ne tokenKey hid]

theorem adjacentInRest_of_pos
    (currentInput : List Slot) (inputs : List (List Slot)) (found : Adjacent)
    (hpos : 0 < found.totalAdjacentTokensOfOneKind) :
    adjacentInRest currentInput inputs found =
      .ok ⟨found.totalAdjacentTokensOfOneKind +
          total (run tokenKey found.currentTokenId inputs.flatten), found.currentTokenId,
          found.startTokenIndex⟩ := by
  induction inputs generalizing found with
  | nil => simp [adjacentInRest, run]
  | cons input inputs ih =>
    rw [adjacentInRest, adjacentInInput_of_pos _ _ _ _ hpos, ok_bind, flatten_cons, run_append]
    rcases eq_or_ne ((run tokenKey found.currentTokenId input).length) input.length
      with hall | hstop
    · have hrun : run tokenKey found.currentTokenId input = input :=
        (List.takeWhile_prefix _).eq_of_length hall
      simp only [hall, ne_eq, not_true_eq_false, decide_false, Bool.false_eq_true, if_false,
        if_true]
      rw [ih]
      · simp [hrun, Nat.add_assoc]
      · exact Nat.add_pos_left hpos _
    · simp [hstop]

/-- Up to the first slot that is not empty the search only moves its start. -/
theorem adjacentInInput_of_zero (currentInput : List Slot) (l : Nat) (found : Adjacent)
    (hzero : found.totalAdjacentTokensOfOneKind = 0)
    (hskip : skipEmpty (currentInput.drop l) = first :: rest) :
    adjacentInInput currentInput l (currentInput.drop l) found =
      adjacentInInput currentInput (l + (emptyFront (currentInput.drop l)).length + 1) rest
        ⟨first.left, Slot.tokenId first, l + (emptyFront (currentInput.drop l)).length⟩ := by
  induction hlots : currentInput.drop l generalizing l found with
  | nil =>
    rw [hlots] at hskip
    simp [skipEmpty] at hskip
  | cons slot tail ih =>
    have hslot : currentInput[l]? = some slot := by
      rw [← List.head?_drop, hlots]
      rfl
    have htail : currentInput.drop (l + 1) = tail := by
      rw [← tail_drop, hlots]
      rfl
    have hturn : adjacentInInput currentInput l (slot :: tail) found =
        adjacentInInput currentInput (l + 1) tail ⟨slot.left, Slot.tokenId slot, l⟩ := by
      rw [adjacentInInput, if_neg (fun h => by omega), if_pos hzero,
        index_eq_ok.mpr hslot, ok_bind]
    rw [hturn]
    rw [hlots] at hskip
    rcases Nat.eq_zero_or_pos slot.left with hempty | hpos
    · have hfront : emptyFront (slot :: tail) = slot :: emptyFront tail := by
        simp [emptyFront, isEmptyLot, hempty]
      rw [skipEmpty_cons_of_zero hempty] at hskip
      rw [ih (l + 1) ⟨slot.left, Slot.tokenId slot, l⟩ hempty (by rw [htail]; exact hskip) htail,
        hfront, length_cons]
      congr 1
      · omega
      · congr 1
        omega
    have hfront : emptyFront (slot :: tail) = [] := by
      simp [emptyFront, isEmptyLot, Nat.pos_iff_ne_zero.mp hpos]
    rw [skipEmpty_cons_of_pos hpos] at hskip
    obtain ⟨rfl, rfl⟩ := List.cons.inj hskip
    simp [hfront]

/-- The search finds the front run of the queue. -/
theorem adjacentTokens_eq (inputs : List (List Slot))
    (hskip : skipEmpty currentInput = first :: rest) (hfirst : 0 < first.left) :
    adjacentTokens currentInput 0 inputs =
      .ok ⟨total (run tokenKey (Slot.tokenId first) (first :: rest ++ inputs.flatten)),
        Slot.tokenId first, (emptyFront currentInput).length⟩ := by
  have hsearch := adjacentInInput_of_zero currentInput 0 ⟨0, "", 0⟩ rfl hskip
  rw [drop_zero, Nat.zero_add] at hsearch
  have hrunFirst : run tokenKey (Slot.tokenId first) (first :: rest) =
      first :: run tokenKey (Slot.tokenId first) rest := run_cons_of_eq tokenKey rfl rest
  rw [adjacentTokens, drop_zero, hsearch, adjacentInInput_of_pos _ _ _ _ hfirst, ok_bind,
    run_append, hrunFirst]
  rcases eq_or_ne ((run tokenKey (Slot.tokenId first) rest).length) rest.length
    with hall | hstop
  · have hrun : run tokenKey (Slot.tokenId first) rest = rest :=
      (List.takeWhile_prefix _).eq_of_length hall
    simp only [hall, ne_eq, not_true_eq_false, decide_false, Bool.false_eq_true, if_false]
    rw [adjacentInRest_of_pos _ _ _ (Nat.add_pos_left hfirst _)]
    simp [hrun, Nat.add_assoc]
  · simp [hstop]

section Decredit

variable {amount inputIndex : Nat} {slots : List (List Slot)}

theorem decreditInput_spec (hamount : amount ≤ total (run tokenKey currentTokenId (input ++ rest)))
    :
    ∃ input' amount', decreditInput currentTokenId amount input = .ok (input', amount') ∧
      input'.length = input.length ∧ amount' ≤ total (run tokenKey currentTokenId rest) ∧
      drain tokenKey currentTokenId amount (input ++ rest) =
        input' ++ drain tokenKey currentTokenId amount' rest := by
  induction input generalizing amount with
  | nil => exact ⟨[], amount, rfl, rfl, hamount, rfl⟩
  | cons slot tail ih =>
    by_cases hid : Slot.tokenId slot = currentTokenId
    · rcases Nat.lt_or_ge slot.left amount with hlt | hle
      · rw [cons_append, run_cons_of_eq tokenKey hid, total_cons] at hamount
        obtain ⟨tail', amount', hdecredit, hlength, hleft, hdrain⟩ :=
          ih (show amount - slot.left ≤ _ by omega)
        refine ⟨⟨slot.item, 0⟩ :: tail', amount', ?_, by simp [hlength], hleft, ?_⟩
        · rw [decreditInput, if_pos hid, if_neg (by omega), hdecredit, ok_bind]
        · rw [cons_append, drain_cons_of_lt tokenKey hid hlt, hdrain, cons_append]
      refine ⟨⟨slot.item, slot.left - amount⟩ :: tail, 0, ?_, rfl, Nat.zero_le _, ?_⟩
      · rw [decreditInput, if_pos hid, if_pos hle]
      · rw [cons_append, drain_cons_of_le tokenKey hid hle, drain_zero, cons_append]
    have hzero : amount = 0 := by
      rw [cons_append, run_cons_of_ne tokenKey hid] at hamount
      simpa using hamount
    subst hzero
    refine ⟨slot :: tail, 0, ?_, rfl, Nat.zero_le _, by rw [drain_zero, drain_zero]⟩
    rw [decreditInput, if_neg hid, if_pos rfl]

theorem decreditInputs_spec (hamount : amount ≤ total (run tokenKey currentTokenId inputs.flatten))
    :
    ∃ inputs', decreditInputs currentTokenId amount inputs = .ok (inputs', 0) ∧
      inputs'.map List.length = inputs.map List.length ∧
      inputs'.flatten = drain tokenKey currentTokenId amount inputs.flatten := by
  induction inputs generalizing amount with
  | nil =>
    have hzero : amount = 0 := by simpa [run] using hamount
    subst hzero
    exact ⟨[], rfl, rfl, rfl⟩
  | cons input inputs ih =>
    obtain ⟨input', amount', hdecredit, hlength, hleft, hdrain⟩ := decreditInput_spec hamount
    rcases Nat.eq_zero_or_pos amount' with hzero | hpos
    · subst hzero
      refine ⟨input' :: inputs, ?_, by simp [hlength], ?_⟩
      · rw [decreditInputs, hdecredit, ok_bind]
        rfl
      · rw [flatten_cons, flatten_cons, hdrain, drain_zero]
    obtain ⟨inputs', hinputs, hlengths, hflatten⟩ := ih hleft
    refine ⟨input' :: inputs', ?_, by simp [hlength, hlengths], ?_⟩
    · rw [decreditInputs, hdecredit, ok_bind]
      dsimp only
      rw [if_neg (Nat.pos_iff_ne_zero.mp hpos), hinputs, ok_bind]
    · rw [flatten_cons, flatten_cons, hdrain, hflatten]

/-- An amount has been taken from the front of the queue from one input on; the
shape of the arrays and the inputs before it are as they were. -/
structure Drained (slots : List (List Slot)) (inputIndex amount : Nat)
    (slots' : List (List Slot)) : Prop where
  take_eq : slots'.take inputIndex = slots.take inputIndex
  lengths_eq : slots'.map List.length = slots.map List.length
  queue_eq : queueFrom slots' inputIndex =
    drainFront tokenKey amount (queueFrom slots inputIndex)

theorem Drained.length_eq (hdrained : Drained slots inputIndex amount slots') :
    slots'.length = slots.length := by
  simpa using congrArg List.length hdrained.lengths_eq

theorem flatten_eq_queueFrom (slots : List (List Slot)) (inputIndex : Nat) :
    slots.flatten = (slots.take inputIndex).flatten ++ queueFrom slots inputIndex := by
  rw [queueFrom, ← flatten_append, take_append_drop]

theorem Drained.items_eq (hdrained : Drained slots inputIndex amount slots') :
    slots'.flatten.map Lot.item = slots.flatten.map Lot.item := by
  rw [flatten_eq_queueFrom slots' inputIndex, flatten_eq_queueFrom slots inputIndex,
    map_append, map_append, hdrained.take_eq, hdrained.queue_eq, map_item_drainFront]

theorem skipEmpty_queueFrom (hinput : slots[inputIndex]? = some input) (hpos : 0 < total input) :
    skipEmpty (queueFrom slots inputIndex) =
      skipEmpty input ++ (slots.drop (inputIndex + 1)).flatten := by
  rw [queueFrom_eq hinput, skipEmpty_append_of_pos hpos]

theorem decredit_spec (hinput : slots[inputIndex]? = some input) (hpos : 0 < total input)
    (hskip : skipEmpty input = first :: rest)
    (hamount : amount ≤ frontTotal tokenKey (queueFrom slots inputIndex)) :
    ∃ slots', decredit slots inputIndex (emptyFront input).length (Slot.tokenId first) amount =
        .ok slots' ∧ Drained slots inputIndex amount slots' := by
  have hqueue := skipEmpty_queueFrom hinput hpos
  rw [hskip, cons_append] at hqueue
  rw [frontTotal_of_skipEmpty tokenKey hqueue] at hamount
  obtain ⟨hlt, heq⟩ := List.getElem?_eq_some_iff.mp hinput
  have hflat : (skipEmpty input :: slots.drop (inputIndex + 1)).flatten =
      first :: (rest ++ (slots.drop (inputIndex + 1)).flatten) := by
    rw [flatten_cons, hskip, cons_append]
  rw [← hflat] at hamount
  obtain ⟨inputs', hdecredit, hlengths, hflatten⟩ := decreditInputs_spec hamount
  obtain ⟨input', after, rfl⟩ : ∃ input' after, inputs' = input' :: after := by
    rcases inputs' with _ | ⟨input', after⟩
    · simp at hlengths
    · exact ⟨input', after, rfl⟩
  obtain ⟨hlength, hafter⟩ : input'.length = (skipEmpty input).length ∧
      after.map List.length = (slots.drop (inputIndex + 1)).map List.length := by
    simpa using hlengths
  have htake : (slots.take inputIndex).length = inputIndex := by
    rw [length_take]
    omega
  refine ⟨slots.take inputIndex ++ (emptyFront input ++ input') :: after, ?_, ?_, ?_, ?_⟩
  · rw [decredit, index_eq_ok.mpr hinput, ok_bind, drop_length_emptyFront]
    change (decreditInputs (tokenKey first.item) amount _ >>= _) = _
    rw [hdecredit, ok_bind, take_length_emptyFront]
    rfl
  · exact take_left' htake
  · have hslots : slots = slots.take inputIndex ++ input :: slots.drop (inputIndex + 1) := by
      rw [← heq, ← drop_eq_getElem_cons hlt, take_append_drop]
    have hrow : (emptyFront input ++ input').length = input.length := by
      rw [length_append, hlength, length_emptyFront_add]
    conv_rhs => rw [hslots]
    rw [map_append, map_append, map_cons, map_cons, hrow, hafter]
  rw [queueFrom, drop_left' htake, drainFront_of_skipEmpty tokenKey hqueue,
    queueFrom_eq hinput, emptyFront_append_of_pos hpos, flatten_cons, append_assoc]
  congr 1
  rw [← hflat]
  exact hflatten

end Decredit

section Execution

variable {acting : Nat} {first : Slot} {state : TransferState} {ctx : TransferContext}
  {ti : TransferInstruction}

theorem skipEmptyInputs_eq_some
    (hacting : skipEmptyInputs slots fuel inputIndex = .ok (some acting)) :
    inputIndex ≤ acting ∧ acting < inputIndex + fuel ∧
      (∃ input, slots[acting]? = some input ∧ 0 < total input) ∧
      ∀ k, inputIndex ≤ k → k < acting → ∃ input, slots[k]? = some input ∧ total input = 0 := by
  induction fuel generalizing inputIndex with
  | zero => cases hacting
  | succ fuel ih =>
    rw [skipEmptyInputs] at hacting
    obtain ⟨input, hinput, hacting⟩ := bind_eq_ok.mp hacting
    rw [index_eq_ok] at hinput
    split at hacting
    · rename_i hempty
      have hzero : total input = 0 := by
        rcases hempty with hnil | hzero
        · rw [eq_nil_of_length_eq_zero hnil]
          rfl
        · exact hzero
      obtain ⟨hle, hlt, hfound, hbefore⟩ := ih hacting
      refine ⟨by omega, by omega, hfound, ?_⟩
      intro k hk hlt
      rcases Nat.eq_or_lt_of_le hk with rfl | hk
      · exact ⟨input, hinput, hzero⟩
      · exact hbefore k hk hlt
    rename_i hnonempty
    cases hacting
    refine ⟨le_refl _, by omega, ⟨input, hinput, by omega⟩, ?_⟩
    intro k hk hlt
    omega

theorem total_pos_of_skipEmpty (hskip : skipEmpty input = first :: rest) (hfirst : 0 < first.left) :
    0 < total input := by
  rw [← emptyFront_append_skipEmpty input, hskip, total_append, total_cons]
  omega

section Front

variable {inputIndex : Nat} {slots : List (List Slot)} (hinput : slots[inputIndex]? = some input)
  (hskip : skipEmpty input = first :: rest) (hfirst : 0 < first.left)

include hinput hskip hfirst

theorem skipEmpty_queueFrom_cons :
    skipEmpty (queueFrom slots inputIndex) =
      first :: (rest ++ (slots.drop (inputIndex + 1)).flatten) := by
  rw [skipEmpty_queueFrom hinput (total_pos_of_skipEmpty hskip hfirst), hskip, cons_append]

theorem frontTotal_pos : 0 < frontTotal tokenKey (queueFrom slots inputIndex) := by
  have hrun : run tokenKey (tokenKey first.item)
      (first :: (rest ++ (slots.drop (inputIndex + 1)).flatten)) =
      first :: run tokenKey (tokenKey first.item)
        (rest ++ (slots.drop (inputIndex + 1)).flatten) := run_cons_of_eq tokenKey rfl _
  rw [frontTotal_of_skipEmpty tokenKey (skipEmpty_queueFrom_cons hinput hskip hfirst), hrun,
    total_cons]
  omega

theorem adjacentTokens_queue :
    adjacentTokens input 0 (slots.drop (inputIndex + 1)) =
      .ok ⟨frontTotal tokenKey (queueFrom slots inputIndex), Slot.tokenId first,
        (emptyFront input).length⟩ := by
  rw [adjacentTokens_eq _ hskip hfirst,
    frontTotal_of_skipEmpty tokenKey (skipEmpty_queueFrom_cons hinput hskip hfirst)]
  rfl

end Front

/-- The outputs after an instruction has credited them. -/
def creditOutput (burnThisOutput : Bool) (vout : List BFXTTxOut) (outputIndex : Nat)
    (token : BFXTTokenTxData) : Outcome (List BFXTTxOut) :=
  if burnThisOutput then .ok vout else pushToken vout outputIndex token

/-- The first input from the cursor on that is not empty. -/
structure ActsOn (state : TransferState) (acting : Nat) (input : List Slot) : Prop where
  cursor_le : state.currentInputIndex ≤ acting
  input_eq : state.slots[acting]? = some input
  input_pos : 0 < total input
  passed : ∀ k, state.currentInputIndex ≤ k → k < acting →
    ∃ input, state.slots[k]? = some input ∧ total input = 0

theorem skipEmptyInputs_eq_some_iff (hcursor : state.currentInputIndex ≤ vinSize) :
    skipEmptyInputs state.slots (vinSize - state.currentInputIndex) state.currentInputIndex =
        .ok (some acting) ↔ acting < vinSize ∧ ∃ input, ActsOn state acting input := by
  constructor
  · intro hskip
    obtain ⟨hle, hlt, ⟨input, hinput, hpos⟩, hpassed⟩ := skipEmptyInputs_eq_some hskip
    exact ⟨by omega, input, hle, hinput, hpos, hpassed⟩
  rintro ⟨hlt, input, hle, hinput, hpos, hpassed⟩
  generalize hfuel : vinSize - state.currentInputIndex = fuel
  generalize state.currentInputIndex = cursor at *
  induction fuel generalizing cursor with
  | zero => omega
  | succ fuel ih =>
    rw [skipEmptyInputs]
    rcases Nat.eq_or_lt_of_le hle with rfl | hbefore
    · rw [index_eq_ok.mpr hinput, ok_bind, if_neg]
      rintro (hnil | hzero)
      · rw [eq_nil_of_length_eq_zero hnil] at hpos
        simp at hpos
      · omega
    obtain ⟨empty, hempty, hzero⟩ := hpassed cursor (le_refl _) hbefore
    rw [index_eq_ok.mpr hempty, ok_bind, if_pos (Or.inr hzero)]
    exact ih (cursor + 1) (by omega) (by omega)
      (fun k hk hlt => hpassed k (by omega) hlt) (by omega)

theorem skipEmptyInputs_of_le (hle : inputIndex + fuel ≤ slots.length) :
    ∃ acting, skipEmptyInputs slots fuel inputIndex = .ok acting := by
  induction fuel generalizing inputIndex with
  | zero => exact ⟨none, rfl⟩
  | succ fuel ih =>
    rw [skipEmptyInputs, index_of_lt (by omega), ok_bind]
    split
    · exact ih (by omega)
    · exact ⟨some inputIndex, rfl⟩

def OutputInRange (ctx : TransferContext) (ti : TransferInstruction) (state : TransferState) :
    Prop :=
  ti.outputIndex < state.vout.length ∨ burnThisOutput ctx ti = true

instance (ctx : TransferContext) (ti : TransferInstruction) (state : TransferState) :
    Decidable (OutputInRange ctx ti state) :=
  inferInstanceAs (Decidable (_ ∨ _))

theorem not_outputInRange_iff :
    ¬ OutputInRange ctx ti state ↔
      ti.outputIndex ≥ state.vout.length ∧ (!burnThisOutput ctx ti) = true := by
  simp [OutputInRange]

theorem exists_creditOutput (hrange : OutputInRange ctx ti state) (token : BFXTTokenTxData) :
    ∃ vout, creditOutput (burnThisOutput ctx ti) state.vout ti.outputIndex token = .ok vout := by
  unfold creditOutput pushToken
  rcases hrange with hlt | hburn
  · split
    · exact ⟨_, rfl⟩
    · exact ⟨_, rfl⟩
  · rw [if_pos hburn]
    exact ⟨_, rfl⟩

theorem executeInstruction_acting (ctx : TransferContext) (i : Nat) (ti : TransferInstruction)
    (state : TransferState) (hrange : OutputInRange ctx ti state) (hlt : acting < ctx.vinSize)
    (hacts : ActsOn state acting input) (hskip : skipEmpty input = first :: rest)
    (hfirst : 0 < first.left) :
    executeInstruction ctx i ti state =
      ensureNotBlacklisted ctx (Slot.tokenId first) >>= fun _ =>
        if frontTotal tokenKey (queueFrom state.slots acting) < ti.amount then
          raise (insufficientTokens ctx i acting ti.amount
            (frontTotal tokenKey (queueFrom state.slots acting)))
        else
          creditOutput (burnThisOutput ctx ti) state.vout ti.outputIndex
              { first.item with amount := ti.amount } >>= fun vout =>
            decredit state.slots acting (emptyFront input).length
                (Slot.tokenId first) ti.amount >>= fun slots =>
              index .tokenSlots slots (if ti.skipInput then acting + 1 else acting) >>= fun next =>
                .ok (some ⟨if ti.skipInput ∨ total next = 0 then acting + 1 else acting,
                  slots, vout⟩) := by
  have hcursor := hacts.cursor_le
  have hacting := (skipEmptyInputs_eq_some_iff (by omega)).mpr ⟨hlt, input, hacts⟩
  have hinput := hacts.input_eq
  have htotal := frontTotal_pos hinput hskip hfirst
  have hlength := length_emptyFront_add input
  rw [hskip, length_cons] at hlength
  have hslot : input[(emptyFront input).length]? = some first := by
    rw [← List.head?_drop, drop_length_emptyFront, hskip]
    rfl
  rw [executeInstruction, if_neg (by omega),
    if_neg (fun h => not_outputInRange_iff.mpr h hrange), hacting, ok_bind]
  dsimp only
  -- the loop over the token kinds makes one turn: the whole amount comes out of the front run
  rw [distributeTokens, index_eq_ok.mpr hinput, ok_bind, if_neg (by omega),
    adjacentTokens_queue hinput hskip hfirst, ok_bind, bind_assoc]
  congr 1
  funext _
  rw [if_neg (Nat.pos_iff_ne_zero.mp htotal)]
  split
  · rfl
  rename_i hle
  rw [index_eq_ok.mpr hslot, ok_bind]
  dsimp only
  rw [Nat.min_eq_right (Nat.not_lt.mp hle), Nat.sub_self]
  simp only [bind_assoc]
  congr 1
  funext vout
  congr 1
  funext slots
  congr 1
  funext next
  rw [if_pos trivial]
  cases ti.skipInput with
  | false => simp
  | true => simp

/-- What an instruction does when it is carried out. -/
structure Executes (ctx : TransferContext) (ti : TransferInstruction)
    (state next : TransferState) (acting : Nat) (first : Slot) : Prop where
  acting_lt : acting < ctx.vinSize
  acts : ∃ input rest, ActsOn state acting input ∧ skipEmpty input = first :: rest
  first_pos : 0 < first.left
  output_in_range : OutputInRange ctx ti state
  allowed : ensureNotBlacklisted ctx (Slot.tokenId first) = .ok ()
  amount_le : ti.amount ≤ frontTotal tokenKey (queueFrom state.slots acting)
  credited : creditOutput (burnThisOutput ctx ti) state.vout ti.outputIndex
    { first.item with amount := ti.amount } = .ok next.vout
  drained : Drained state.slots acting ti.amount next.slots
  cursor_eq : ∃ input, next.slots[if ti.skipInput then acting + 1 else acting]? = some input ∧
    next.currentInputIndex = if ti.skipInput ∨ total input = 0 then acting + 1 else acting

theorem Executes.first_mem {next : TransferState}
    (hexecutes : Executes ctx ti state next acting first) : first ∈ state.slots.flatten := by
  obtain ⟨input, rest, hacts, hskip⟩ := hexecutes.acts
  have hmem : first ∈ input := by
    rw [← emptyFront_append_skipEmpty input, hskip]
    exact mem_append_right _ mem_cons_self
  exact mem_flatten.mpr ⟨input, mem_of_getElem? hacts.input_eq, hmem⟩

theorem executeInstruction_eq_some {next : TransferState}
    (hexecute : executeInstruction ctx i ti state = .ok (some next)) :
    ∃ acting first, Executes ctx ti state next acting first := by
  have hexecute' := hexecute
  rw [executeInstruction] at hexecute
  split_ifs at hexecute with hcursor hout
  · cases hexecute
  · cases hexecute
  obtain ⟨found, hfound, hexecute⟩ := bind_eq_ok.mp hexecute
  rcases found with _ | acting
  · cases hexecute
  obtain ⟨hlt, input, hacts⟩ := (skipEmptyInputs_eq_some_iff (by omega)).mp hfound
  obtain ⟨first, rest, hskip, hfirst⟩ := exists_skipEmpty_of_pos hacts.input_pos
  have hrange : OutputInRange ctx ti state :=
    Decidable.by_contra fun h => hout (not_outputInRange_iff.mp h)
  rw [executeInstruction_acting ctx i ti state hrange hlt hacts hskip hfirst] at hexecute'
  obtain ⟨_, hallowed, hexecute'⟩ := bind_eq_ok.mp hexecute'
  split at hexecute'
  · cases hexecute'
  rename_i henough
  simp only [bind_eq_ok] at hexecute'
  obtain ⟨vout, hvout, slots, hslots, after, hafter, hexecute'⟩ := hexecute'
  obtain rfl := Option.some.inj (Except.ok.inj hexecute')
  have hamount := Nat.not_lt.mp henough
  obtain ⟨slots', hslots', hdrained⟩ :=
    decredit_spec hacts.input_eq hacts.input_pos hskip hamount
  obtain rfl : slots = slots' := Except.ok.inj (hslots.symm.trans hslots')
  exact ⟨acting, first, hlt, ⟨input, rest, hacts, hskip⟩, hfirst, hrange, hallowed,
    hamount, hvout, hdrained, after, index_eq_ok.mp hafter, rfl⟩

end Execution

end Bfx.TransferSemantics
