import Bfx.QueueRefinement

/-!
Which accesses of the interpreter to its token arrays and to the outputs are
out of range: those of a skip instruction that acts on the last input.
-/

namespace Bfx.InterpreterSafety

open CallOutcome LotQueue QueueRefinement TokenScript TokenTransaction TransferConservation
  TransferInterpreter TransferSemantics Transaction List

/-- No undefined access to the token arrays or to the outputs. -/
def IndexSafe {α : Type} (x : Outcome α) : Prop :=
  InBoundsAt .tokenSlots x ∧ InBoundsAt .vout x

theorem indexSafe_ok (a : α) : IndexSafe (.ok a : Outcome α) :=
  ⟨inBoundsAt_ok _ a, inBoundsAt_ok _ a⟩

theorem indexSafe_raise (what : String) : IndexSafe (raise what : Outcome α) :=
  ⟨inBoundsAt_raise _ what, inBoundsAt_raise _ what⟩

theorem indexSafe_ite [Decidable p] (hx : IndexSafe x) (hy : IndexSafe y) :
    IndexSafe (if p then x else y) := by
  split
  · exact hx
  · exact hy

theorem indexSafe_bind : IndexSafe (x >>= f) ↔ IndexSafe x ∧ ∀ a, x = .ok a → IndexSafe (f a) := by
  constructor
  · rintro ⟨hslots, hvout⟩
    rw [inBoundsAt_bind] at hslots hvout
    exact ⟨⟨hslots.1, hvout.1⟩, fun a ha => ⟨hslots.2 a ha, hvout.2 a ha⟩⟩
  rintro ⟨⟨hslots, hvout⟩, hf⟩
  exact ⟨inBoundsAt_bind.mpr ⟨hslots, fun a ha => (hf a ha).1⟩,
    inBoundsAt_bind.mpr ⟨hvout, fun a ha => (hf a ha).2⟩⟩

section Instruction

/-- An undefined access to the token arrays if the condition holds, and none otherwise. -/
def FailsIf (p : Prop) (x : Outcome α) : Prop :=
  (p ∧ x = .error (.outOfBounds .tokenSlots)) ∨ (¬ p ∧ ((∃ a, x = .ok a) ∨ ∃ what, x = raise what))

theorem failsIf_ok (hp : ¬ p) (a : α) : FailsIf p (.ok a) := .inr ⟨hp, .inl ⟨a, rfl⟩⟩

theorem failsIf_raise (hp : ¬ p) (what : String) : FailsIf p (raise what : Outcome α) :=
  .inr ⟨hp, .inr ⟨what, rfl⟩⟩

theorem FailsIf.indexSafe_iff (h : FailsIf p x) : IndexSafe x ↔ ¬ p := by
  rcases h with ⟨hp, rfl⟩ | ⟨hp, ⟨a, rfl⟩ | ⟨what, rfl⟩⟩
  · exact iff_of_false (fun h => h.1 rfl) (not_not.mpr hp)
  · exact iff_of_true (indexSafe_ok a) hp
  · exact iff_of_true (indexSafe_raise what) hp

theorem FailsIf.inBoundsAt (h : FailsIf p x) (hstorage : storage ≠ .tokenSlots) :
    InBoundsAt storage x := by
  rcases h with ⟨-, rfl⟩ | ⟨-, ⟨a, rfl⟩ | ⟨what, rfl⟩⟩
  · exact fun h => hstorage (Fault.outOfBounds.inj (Except.error.inj h)).symm
  · exact inBoundsAt_ok _ a
  · exact inBoundsAt_raise _ what

/-- A skip instruction that is carried out on the last input: all inputs from
the cursor up to the last are empty and the last one holds enough tokens, of a
kind that is not blocked. -/
def SkipsPastLastInput (ctx : TransferContext) (ti : TransferInstruction)
    (state : TransferState) : Prop :=
  ti.skipInput = true ∧ OutputInRange ctx ti state ∧ ∃ input first rest,
    ActsOn state (state.slots.length - 1) input ∧ skipEmpty input = first :: rest ∧
      ensureNotBlacklisted ctx (Slot.tokenId first) = .ok () ∧
      ti.amount ≤ frontTotal tokenKey input

theorem actsOn_unique {ctx : TransferContext} (hlt : acting < ctx.vinSize)
    (hlt' : acting' < ctx.vinSize) (hacts : ActsOn state acting input)
    (hacts' : ActsOn state acting' input') : acting = acting' ∧ input = input' := by
  have hcursor := hacts.cursor_le
  have hfound := (skipEmptyInputs_eq_some_iff (by omega)).mpr ⟨hlt, input, hacts⟩
  have hfound' := (skipEmptyInputs_eq_some_iff (by omega)).mpr ⟨hlt', input', hacts'⟩
  obtain rfl : acting = acting' := Option.some.inj (Except.ok.inj (hfound.symm.trans hfound'))
  exact ⟨rfl, Option.mem_unique hacts.input_eq hacts'.input_eq⟩

theorem queueFrom_last (hinput : slots[acting]? = some input) (hlast : acting + 1 = slots.length) :
    queueFrom slots acting = input := by
  rw [queueFrom_eq hinput, drop_of_length_le (by omega), flatten_nil, append_nil]

variable (ctx : TransferContext)
include ctx

theorem failsIf_acting (i : Nat) (ti : TransferInstruction)
    (state : TransferState) (hrange : OutputInRange ctx ti state)
    (hsize : ctx.vinSize = state.slots.length) (hlt : acting < ctx.vinSize)
    (hacts : ActsOn state acting input) (hskip : skipEmpty input = first :: rest)
    (hfirst : 0 < first.left) :
    FailsIf (ti.skipInput = true ∧ acting + 1 = state.slots.length ∧
        ensureNotBlacklisted ctx (Slot.tokenId first) = .ok () ∧
        ti.amount ≤ frontTotal tokenKey (queueFrom state.slots acting))
      (executeInstruction ctx i ti state) := by
  rw [executeInstruction_acting ctx i ti state hrange hlt hacts hskip hfirst,
    ensureNotBlacklisted_eq]
  by_cases hblocked : blockedAt ctx.env.nBestHeight (Slot.tokenId first)
  · rw [if_pos hblocked, raise_bind]
    refine failsIf_raise ?_ _
    rintro ⟨-, -, hallowed, -⟩
    cases hallowed
  rw [if_neg hblocked, ok_bind]
  split
  · rename_i hshort
    refine failsIf_raise ?_ _
    rintro ⟨-, -, -, hle⟩
    omega
  rename_i henough
  have hamount := Nat.not_lt.mp henough
  obtain ⟨vout, hvout⟩ := exists_creditOutput hrange { first.item with amount := ti.amount }
  obtain ⟨slots, hslots, hdrained⟩ :=
    decredit_spec hacts.input_eq hacts.input_pos hskip hamount
  have hlength := hdrained.length_eq
  rw [hvout, ok_bind, hslots, ok_bind]
  rcases Nat.lt_or_ge (if ti.skipInput then acting + 1 else acting) slots.length
    with hnext | hnext
  · rw [index_of_lt hnext, ok_bind]
    refine failsIf_ok ?_ _
    rintro ⟨hflag, hlast, -⟩
    rw [if_pos hflag] at hnext
    omega
  rw [index_of_le hnext, error_bind]
  refine .inl ⟨?_, rfl⟩
  split at hnext
  · rename_i hflag
    exact ⟨hflag, by omega, rfl, hamount⟩
  · omega

/-- An instruction is safe unless it skips from the last input. -/
theorem failsIf_executeInstruction (i : Nat) (ti : TransferInstruction) (state : TransferState)
    (hsize : ctx.vinSize = state.slots.length) :
    FailsIf (SkipsPastLastInput ctx ti state) (executeInstruction ctx i ti state) := by
  have hlast : ∀ input, ActsOn state (state.slots.length - 1) input →
      state.slots.length - 1 < ctx.vinSize := by
    intro input hacts
    obtain ⟨hlt, -⟩ := List.getElem?_eq_some_iff.mp hacts.input_eq
    omega
  rcases Nat.lt_or_ge state.currentInputIndex ctx.vinSize with hcursor | hcursor
  · by_cases hrange : OutputInRange ctx ti state
    · obtain ⟨found, hfound⟩ : ∃ found, skipEmptyInputs state.slots
          (ctx.vinSize - state.currentInputIndex) state.currentInputIndex = .ok found :=
        skipEmptyInputs_of_le (by omega)
      rcases found with _ | acting
      · have hnone : executeInstruction ctx i ti state = .ok none := by
          rw [executeInstruction, if_neg (by omega),
            if_neg (fun h => not_outputInRange_iff.mpr h hrange), hfound, ok_bind]
        rw [hnone]
        refine failsIf_ok ?_ _
        rintro ⟨-, -, input, -, -, hacts, -⟩
        have := (skipEmptyInputs_eq_some_iff (by omega)).mpr ⟨hlast input hacts, input, hacts⟩
        rw [hfound] at this
        cases this
      obtain ⟨hlt, input, hacts⟩ := (skipEmptyInputs_eq_some_iff (by omega)).mp hfound
      obtain ⟨first, rest, hskip, hfirst⟩ := exists_skipEmpty_of_pos hacts.input_pos
      convert failsIf_acting ctx i ti state hrange hsize hlt hacts hskip hfirst using 1
      refine Iff.symm ⟨?_, ?_⟩
      · rintro ⟨hflag, hend, hallowed, hamount⟩
        rw [queueFrom_last hacts.input_eq hend] at hamount
        obtain rfl : acting = state.slots.length - 1 := by omega
        exact ⟨hflag, hrange, input, first, rest, hacts, hskip, hallowed, hamount⟩
      rintro ⟨hflag, -, input', first', rest', hacts', hskip', hallowed, hamount⟩
      obtain ⟨rfl, rfl⟩ := actsOn_unique hlt (hlast _ hacts') hacts hacts'
      rw [hskip] at hskip'
      obtain ⟨rfl, rfl⟩ := List.cons.inj hskip'
      have hend : state.slots.length - 1 + 1 = state.slots.length := by omega
      refine ⟨hflag, hend, hallowed, ?_⟩
      rwa [queueFrom_last hacts.input_eq hend]
    · rw [executeInstruction, if_neg (by omega), if_pos (not_outputInRange_iff.mp hrange)]
      exact failsIf_raise (fun h => hrange h.2.1) _
  rw [executeInstruction, if_pos hcursor]
  refine failsIf_raise ?_ _
  rintro ⟨-, -, input, -, -, hacts, -⟩
  have hle := hacts.cursor_le
  have hlt := hlast input hacts
  omega

omit ctx

theorem slots_length_of_executeInstruction {ctx : TransferContext} {state next : TransferState}
    (hstep : executeInstruction ctx i ti state = .ok (some next)) :
    next.slots.length = state.slots.length := by
  obtain ⟨acting, first, hexecutes⟩ := executeInstruction_eq_some hstep
  exact hexecutes.drained.length_eq

end Instruction

/-- The instruction loop gets to an instruction in a state. -/
inductive Reaches (ctx : TransferContext) :
    Nat → List TransferInstruction → TransferState → TransferInstruction → TransferState → Prop
  | here {i : Nat} {ti : TransferInstruction} {tis : List TransferInstruction}
      {state : TransferState} : Reaches ctx i (ti :: tis) state ti state
  | later {i : Nat} {ti reached : TransferInstruction} {tis : List TransferInstruction}
      {state next before : TransferState}
      (hstep : executeInstruction ctx i ti state = .ok (some next))
      (hreaches : Reaches ctx (i + 1) tis next reached before) :
      Reaches ctx i (ti :: tis) state reached before

theorem runInstructions_indexSafe_iff
    (ctx : TransferContext) (i : Nat) (tis : List TransferInstruction) (state : TransferState)
    (hsize : ctx.vinSize = state.slots.length) :
    IndexSafe (runInstructions ctx i tis state) ↔
      ∀ ti before, Reaches ctx i tis state ti before → ¬ SkipsPastLastInput ctx ti before := by
  induction tis generalizing i state with
  | nil =>
    refine iff_of_true (indexSafe_ok _) ?_
    intro ti before hreaches
    cases hreaches
  | cons ti tis ih =>
    rw [runInstructions, indexSafe_bind,
      (failsIf_executeInstruction ctx i ti state hsize).indexSafe_iff]
    have hsize' : ∀ next, executeInstruction ctx i ti state = .ok (some next) →
        ctx.vinSize = next.slots.length :=
      fun next hstep => hsize.trans (slots_length_of_executeInstruction hstep).symm
    constructor
    · rintro ⟨hhere, hrest⟩ reached before hreaches
      cases hreaches with
      | here => exact hhere
      | later hstep hreaches =>
        exact (ih _ _ (hsize' _ hstep)).mp (hrest _ hstep) reached before hreaches
    intro hall
    refine ⟨hall ti state .here, ?_⟩
    rintro (_ | next) hstep
    · exact indexSafe_ok _
    refine (ih _ _ (hsize' next hstep)).mpr ?_
    intro reached before hreaches
    exact hall reached before (.later hstep hreaches)

theorem inBoundsAt_runInstructions (hstorage : storage ≠ .tokenSlots) (ctx : TransferContext)
    (i : Nat) (tis : List TransferInstruction) (state : TransferState)
    (hsize : ctx.vinSize = state.slots.length) :
    InBoundsAt storage (runInstructions ctx i tis state) := by
  induction tis generalizing i state with
  | nil => exact inBoundsAt_ok _ _
  | cons ti tis ih =>
    refine inBoundsAt_bind.mpr
      ⟨(failsIf_executeInstruction ctx i ti state hsize).inBoundsAt hstorage, ?_⟩
    rintro (_ | next) hstep
    · exact inBoundsAt_ok _ _
    · exact ih _ _ (hsize.trans (slots_length_of_executeInstruction hstep).symm)

theorem inBoundsAt_getPrevInputIt (storage : Storage) (env : NodeEnv) (tx : CTransaction)
    (hash : UInt256) (inputsTxs : List InputPair) :
    InBoundsAt storage (getPrevInputIt env tx hash inputsTxs) := by
  unfold getPrevInputIt
  split
  · exact inBoundsAt_ok _ _
  · exact inBoundsAt_raise _ _

theorem loadInputs_indexSafe (env : NodeEnv) (tx : CTransaction) (inputsTxs : List InputPair)
    (vin : List CTxIn) : IndexSafe (loadInputs env tx inputsTxs vin) := by
  induction vin with
  | nil => exact indexSafe_ok _
  | cons txin vin ih =>
    have hload : IndexSafe (loadInput env tx inputsTxs txin) := by
      refine indexSafe_bind.mpr ⟨⟨inBoundsAt_getPrevInputIt _ env tx _ _,
        inBoundsAt_getPrevInputIt _ env tx _ _⟩, ?_⟩
      intro input _
      refine indexSafe_bind.mpr ⟨⟨inBoundsAt_index_of_ne (by simp) _ _,
        inBoundsAt_index_of_ne (by simp) _ _⟩, ?_⟩
      intro prevOut _
      exact indexSafe_ok _
    refine indexSafe_bind.mpr ⟨hload, ?_⟩
    intro input _
    refine indexSafe_bind.mpr ⟨ih, ?_⟩
    intro inputs _
    exact indexSafe_ok _

theorem length_of_loadInputs (hload : loadInputs env tx inputsTxs vin = .ok slots) :
    slots.length = vin.length := by
  rw [(loadInputs_eq_ok hload).1, length_map]

/-- Outside the token arrays a transfer is as safe as the loading of its inputs. -/
theorem inBoundsAt_transferTokens (hstorage : storage ≠ .tokenSlots)
    (hvin : self.vin.length = tx.vin.length)
    (hload : InBoundsAt storage (loadInputs env tx inputsTxs tx.vin)) (script : BFXTScript)
    (burnOutput31 : Bool) :
    InBoundsAt storage (transferTokens env self script tx inputsTxs burnOutput31) := by
  refine inBoundsAt_bind.mpr ⟨inBoundsAt_ite (inBoundsAt_ok _ _) (inBoundsAt_raise _ _), ?_⟩
  intro _ _
  refine inBoundsAt_bind.mpr ⟨inBoundsAt_ite (inBoundsAt_ok _ _) (inBoundsAt_raise _ _), ?_⟩
  intro _ _
  refine inBoundsAt_bind.mpr ⟨hload, ?_⟩
  intro slots hslots
  refine inBoundsAt_bind.mpr ⟨inBoundsAt_runInstructions hstorage _ _ _ _
    (hvin.trans (length_of_loadInputs hslots).symm), ?_⟩
  intro state _
  refine inBoundsAt_bind.mpr ⟨inBoundsAt_ite (inBoundsAt_raise _ _) (inBoundsAt_ok _ _), ?_⟩
  intro vout _
  exact inBoundsAt_ok _ _

/-- The state in which the instruction loop is entered. -/
structure Starts (env : NodeEnv) (tx : CTransaction) (inputsTxs : List InputPair)
    (vout : List BFXTTxOut) (start : TransferState) : Prop where
  hashes_match : ensureInputsHashesMatch env inputsTxs = .ok ()
  tokens_relate : ensureInputTokensRelateToTx env tx inputsTxs = .ok ()
  loaded : loadInputs env tx inputsTxs tx.vin = .ok start.slots
  valid : isInvalid start.slots = false
  cursor_eq : start.currentInputIndex = 0
  vout_eq : start.vout = vout

/-- The transfer is safe exactly when no instruction that the loop gets to skips
from the last input. -/
theorem transferTokens_indexSafe_iff
    (env : NodeEnv) (self : BFXTTransaction) (script : BFXTScript) (tx : CTransaction)
    (inputsTxs : List InputPair) (burnOutput31 : Bool) :
    IndexSafe (transferTokens env (readBFXTDataFromTxMinimal env self tx) script tx inputsTxs
        burnOutput31) ↔
      ∀ start ti before, Starts env tx inputsTxs (tx.vout.map readTxOut) start →
        Reaches ⟨env, tx, tx.vin.length, script.parsedScriptHex, burnOutput31⟩ 0
          script.transferInstructions start ti before →
        ¬ SkipsPastLastInput ⟨env, tx, tx.vin.length, script.parsedScriptHex, burnOutput31⟩ ti
          before := by
  have hvin : (readBFXTDataFromTxMinimal env self tx).vin.length = tx.vin.length :=
    length_map _
  rw [transferTokens, hvin, indexSafe_bind]
  constructor
  · rintro ⟨-, hsafe⟩ ⟨cursor, slots, vout⟩ ti before hstart
    obtain ⟨hhashes, hrelate, hload, hvalid, rfl, rfl⟩ := hstart
    have hsafe := (indexSafe_bind.mp (hsafe _ hhashes)).2 _ hrelate
    have hsafe := (indexSafe_bind.mp ((indexSafe_bind.mp hsafe).2 _ hload)).1
    rw [if_neg (by simp [hvalid])] at hsafe
    exact (runInstructions_indexSafe_iff _ _ _ _ (length_of_loadInputs hload).symm).mp hsafe
      ti before
  intro hall
  refine ⟨indexSafe_ite (indexSafe_ok _) (indexSafe_raise _), ?_⟩
  intro _ hhashes
  refine indexSafe_bind.mpr ⟨indexSafe_ite (indexSafe_ok _) (indexSafe_raise _), ?_⟩
  intro _ hrelate
  refine indexSafe_bind.mpr ⟨loadInputs_indexSafe env tx inputsTxs tx.vin, ?_⟩
  intro slots hload
  refine indexSafe_bind.mpr ⟨?_, ?_⟩
  · cases hvalid : isInvalid slots with
    | true => exact indexSafe_ok _
    | false =>
      refine (runInstructions_indexSafe_iff _ _ _ _ (length_of_loadInputs hload).symm).mpr ?_
      intro ti before
      exact hall _ ti before ⟨hhashes, hrelate, hload, hvalid, rfl, rfl⟩
  intro state _
  refine indexSafe_bind.mpr ⟨indexSafe_ite (indexSafe_raise _) (indexSafe_ok _), ?_⟩
  intro vout _
  exact indexSafe_ok _

/-- One skip instruction at the only input, for all of its tokens. -/
theorem transferTokens_skip_last_input :
    (parseScript "4e540310018005" >>= fun script =>
      transferTokens timeEnv (readBFXTDataFromTxMinimal timeEnv emptyBFXTTransaction spendingTx)
        script spendingTx [prevTx] false) = .error (.outOfBounds .tokenSlots) := by
  decide +kernel

end Bfx.InterpreterSafety
