import Bfx.CoinSpending
import Bfx.TokenReading

/-!
Whole runs of the token layer: transactions are read one after the other, each
against the results of those it spends.
-/

namespace Bfx.TokenLedger

open CallOutcome CoinSpending TokenReading TokenScript TokenTransaction TransferConservation
  TransferInterpreter Transaction List

variable {inputsTxs : List InputPair} {spent : List COutPoint} {tx : CTransaction} {amount : Nat}

section Outputs

variable (env : NodeEnv)

/-- The outputs of a transaction with their tokens. -/
def entryOutputs (entry : InputPair) : List (COutPoint × List BFXTTokenTxData) :=
  entry.2.vout.zipIdx.map fun (txout, n) => (⟨env.getHash entry.1, n⟩, txout.tokens)

def outputs (entries : List InputPair) : List (COutPoint × List BFXTTokenTxData) :=
  entries.flatMap (entryOutputs env)

def outpoints (entries : List InputPair) : List COutPoint := (outputs env entries).map Prod.fst

/-- The outputs of earlier transactions that a transaction spends. -/
def spends (entries : List InputPair) (tx : CTransaction) : List COutPoint :=
  (tx.vin.map CTxIn.prevout).filter fun prevout => prevout ∈ outpoints env entries

def tokenCoins (t : String) (entries : List InputPair) : List (COutPoint × Nat) :=
  (outputs env entries).map fun output => (output.1, tokenAmount t output.2)

/-- The amount of a token id on the outputs that are not spent. -/
def unspentAmount (entries : List InputPair) (spent : List COutPoint) (t : String) : Nat :=
  unspent spent (tokenCoins env t entries)

/-- The id, the amount and the first input of the issuance that a transaction
carries. -/
def issuanceOf (tx : CTransaction) : Option (String × Nat × COutPoint) :=
  match isTxBFXT env tx with
  | none => none
  | some opReturnArg =>
    match parseScript opReturnArg with
    | .error _ => none
    | .ok script =>
      match script.kind, tx.vin with
      | .issuance tokenSymbol amount issuanceFlags, txin :: _ =>
        match newTokenId
          ⟨env, tx, opReturnArg, txin.prevout, tokenSymbol, issuanceFlags⟩ with
        | .ok tokenId => some (tokenId, amount, txin.prevout)
        | .error _ => none
      | _, _ => none

def declaredAmount (tx : CTransaction) (t : String) : Nat :=
  match issuanceOf env tx with
  | some (tokenId, amount, _) => if tokenId = t then amount else 0
  | none => 0

end Outputs

/-- The transactions read so far, the latest first, and the outputs they have
spent. No output is spent twice. -/
inductive Run (env : NodeEnv) : List InputPair → List COutPoint → Prop
  | empty : Run env [] []
  | read {entries inputsTxs : List InputPair} {spent : List COutPoint} {tx : CTransaction}
      {self result : BFXTTransaction} (hrun : Run env entries spent)
      (hinputs : ∀ input ∈ inputsTxs, input ∈ entries) (hself : self.isNull = true)
      (hread : readBFXTDataFromTx env self tx inputsTxs = .ok result)
      (hspends : (spends env entries tx ++ spent).Nodup) :
      Run env ((tx, result) :: entries) (spends env entries tx ++ spent)

section Step

variable {env : NodeEnv}

theorem mem_outputs (hinput : input ∈ entries) (htxout : input.2.vout[n]? = some txout) :
    (⟨env.getHash input.1, n⟩, txout.tokens) ∈ outputs env entries := by
  refine mem_flatMap.mpr ⟨input, hinput, mem_map.mpr ⟨(txout, n), ?_, rfl⟩⟩
  exact mem_zipIdx_iff_getElem?.mpr htxout

theorem prevTokens_mem_outputs (hinputs : ∀ input ∈ inputsTxs, input ∈ entries)
    (htokens : prevTokens env inputsTxs txin ≠ []) :
    (txin.prevout, prevTokens env inputsTxs txin) ∈ outputs env entries := by
  revert htokens
  rw [prevTokens]
  split
  · exact fun htokens => absurd rfl htokens
  rename_i input hinput
  split
  · exact fun htokens => absurd rfl htokens
  rename_i txout htxout
  intro _
  have hhash : env.getHash input.1 = txin.prevout.hash := by
    simpa using List.find?_some hinput
  have hmem : (⟨env.getHash input.1, txin.prevout.n⟩, txout.tokens) ∈ outputs env entries :=
    mem_outputs (hinputs input (mem_of_find?_eq_some hinput)) htxout
  rwa [hhash] at hmem

theorem prevAmount_eq_spent (hinputs : ∀ input ∈ inputsTxs, input ∈ entries) (t : String)
    (vin : List CTxIn) :
    prevAmount env inputsTxs t vin =
      ((vin.filter fun txin => txin.prevout ∈ outpoints env entries).map fun txin =>
        tokenAmount t (prevTokens env inputsTxs txin)).sum := by
  induction vin with
  | nil => rfl
  | cons txin vin ih =>
    rw [prevAmount] at ih ⊢
    rw [map_cons, sum_cons, ih, filter_cons]
    split
    · rw [map_cons, sum_cons]
    rename_i hout
    have htokens : prevTokens env inputsTxs txin = [] := by
      refine Decidable.by_contra fun htokens => hout (decide_eq_true ?_)
      exact mem_map_of_mem (prevTokens_mem_outputs hinputs htokens)
    rw [htokens, tokenAmount_nil, Nat.zero_add]

theorem unspent_spends_add_prevAmount_le (hinputs : ∀ input ∈ inputsTxs, input ∈ entries)
    (hspends : (spends env entries tx ++ spent).Nodup) (t : String) :
    unspentAmount env entries (spends env entries tx ++ spent) t +
        prevAmount env inputsTxs t tx.vin ≤ unspentAmount env entries spent t := by
  let picks : List (COutPoint × Nat) :=
    (tx.vin.filter fun txin => txin.prevout ∈ outpoints env entries).map fun txin =>
      (txin.prevout, tokenAmount t (prevTokens env inputsTxs txin))
  have hkeys : picks.map Prod.fst = spends env entries tx := by
    rw [spends, filter_map, map_map]
    rfl
  have hamounts : (picks.map Prod.snd).sum = prevAmount env inputsTxs t tx.vin := by
    rw [prevAmount_eq_spent hinputs, map_map]
    rfl
  have hpicks : ∀ pick ∈ picks, pick.2 ≠ 0 → pick ∈ tokenCoins env t entries := by
    intro pick hpick hpos
    obtain ⟨txin, -, rfl⟩ := mem_map.mp hpick
    have htokens : prevTokens env inputsTxs txin ≠ [] := by
      intro hnil
      rw [hnil] at hpos
      exact hpos rfl
    exact mem_map.mpr ⟨_, prevTokens_mem_outputs hinputs htokens, rfl⟩
  rw [← hkeys] at hspends ⊢
  rw [← hamounts]
  exact unspent_spends_add_le hpicks hspends

theorem issuanceOf_eq_some (hissues : IssuesTokens ctx script amount inputsTxs issued vout)
    (hid : newTokenId ctx = .ok tokenId) :
    issuanceOf ctx.env ctx.tx = some (tokenId, amount, ctx.firstInput) := by
  obtain ⟨txin, rest, hvin, hprevout⟩ := hissues.first_input
  simp only [issuanceOf, hissues.carries.arg_eq, hissues.carries.parsed, hissues.kind_eq, hvin,
    hprevout, hid]

/-- A read puts no more on the outputs than the inputs bring and the transaction
declares. -/
theorem reads_voutAmount_le (hreads : Reads env tx inputsTxs result) (t : String) :
    voutAmount t result.vout ≤ prevAmount env inputsTxs t tx.vin + declaredAmount env tx t := by
  rcases hreads with ⟨-, htokens⟩ | ⟨rfl, rfl, hissues⟩ | htransfers
  · rw [voutAmount, htokens]
    exact Nat.zero_le _
  · obtain ⟨written, hwritten, -, hperm⟩ := hissues.tokens_perm
    obtain ⟨hsum, -⟩ := issueOutputs_eq_ok hissues.issued_eq
    rw [voutAmount, tokenAmount_perm t hperm, tokenAmount_append, tokenAmount_flatMap, ← prevAmount]
    refine Nat.add_le_add_left ?_ _
    rcases written with _ | ⟨token, written⟩
    · exact Nat.zero_le _
    have hids : ∀ other ∈ token :: written, newTokenId _ = .ok other.tokenId :=
      fun other hother => (issuedToken_eq_ok (hwritten.exists_amount other hother)).1
    have hid := hids token mem_cons_self
    have hsame : ∀ other ∈ token :: written, other.tokenId = token.tokenId :=
      fun other hother => Except.ok.inj ((hids other hother).symm.trans hid)
    rw [tokenAmount_of_id hsame, hwritten.map_amount, hsum, declaredAmount,
      issuanceOf_eq_some hissues hid]
  have hbalance := transferTokens_balance htransfers.transferred t
  have hstart : voutAmount t (tx.vout.map readTxOut) = 0 := by
    rw [voutAmount, allTokens_readTxOut]
    rfl
  rw [htransfers.vout_eq, hstart] at hbalance
  omega

theorem unspentAmount_singleton_le (entry : InputPair) (spent : List COutPoint) (t : String) :
    unspentAmount env [entry] spent t ≤ voutAmount t entry.2.vout := by
  refine (unspent_le_sum _ _).trans (Nat.le_of_eq ?_)
  have hcoins : (tokenCoins env t [entry]).map Prod.snd =
      (entry.2.vout.zipIdx.map Prod.fst).map fun txout => tokenAmount t txout.tokens := by
    rw [tokenCoins, outputs, flatMap_singleton, entryOutputs, map_map, map_map, map_map]
    rfl
  rw [hcoins, zipIdx_map_fst, voutAmount, allTokens, tokenAmount_flatMap]

/-- The step of the run: the unspent amount grows by what is declared at most. -/
theorem unspentAmount_step (hinputs : ∀ input ∈ inputsTxs, input ∈ entries)
    (hself : self.isNull = true) (hread : readBFXTDataFromTx env self tx inputsTxs = .ok result)
    (hspends : (spends env entries tx ++ spent).Nodup) (t : String) :
    unspentAmount env ((tx, result) :: entries) (spends env entries tx ++ spent) t ≤
      unspentAmount env entries spent t + declaredAmount env tx t := by
  have hnew : unspentAmount env [(tx, result)] (spends env entries tx ++ spent) t ≤
      voutAmount t result.vout := unspentAmount_singleton_le _ _ _
  have hreads := reads_voutAmount_le (readBFXTDataFromTx_eq_ok hself hread) t
  have hold := unspent_spends_add_prevAmount_le hinputs hspends t
  have hsplit : unspentAmount env ((tx, result) :: entries) (spends env entries tx ++ spent) t =
      unspentAmount env [(tx, result)] (spends env entries tx ++ spent) t +
        unspentAmount env entries (spends env entries tx ++ spent) t := by
    simp only [unspentAmount, tokenCoins, outputs, flatMap_cons, map_append, unspent_append,
      flatMap_nil, append_nil]
  omega

def declaredTotal (env : NodeEnv) (entries : List InputPair) (t : String) : Nat :=
  (entries.map fun entry => declaredAmount env entry.1 t).sum

theorem Run.unspentAmount_le (hrun : Run env entries spent) (t : String) :
    unspentAmount env entries spent t ≤ declaredTotal env entries t := by
  induction hrun with
  | empty => exact Nat.le_refl _
  | read _ hinputs hself hread hspends ih =>
    have hstep := unspentAmount_step hinputs hself hread hspends t
    rw [declaredTotal, map_cons, sum_cons, ← declaredTotal]
    exact hstep.trans (by rw [Nat.add_comm]; exact Nat.add_le_add_left ih _)

end Step

section Issuances

variable {env : NodeEnv}

variable {firstInput : COutPoint}

theorem exists_of_issuanceOf (hissuance : issuanceOf env tx = some (tokenId, amount, firstInput)) :
    ∃ (ctx : IssuanceContext) (script : BFXTScript), ctx.env = env ∧ ctx.tx = tx ∧
      ctx.firstInput = firstInput ∧ tx.vin.head?.map (·.prevout) = some firstInput ∧
      CarriesScript env tx ctx.opReturnArg script ∧
      script.kind = .issuance ctx.tokenSymbol amount ctx.issuanceFlags := by
  rw [issuanceOf] at hissuance
  split at hissuance
  · cases hissuance
  rename_i opReturnArg harg
  split at hissuance
  · cases hissuance
  rename_i script hparse
  split at hissuance
  · rename_i tokenSymbol amount' issuanceFlags txin rest hkind hvin
    split at hissuance
    · obtain ⟨-, rfl, rfl⟩ : _ ∧ amount' = amount ∧ txin.prevout = firstInput := by
        simpa using hissuance
      exact ⟨⟨env, tx, opReturnArg, txin.prevout, tokenSymbol, issuanceFlags⟩, script, rfl, rfl,
        rfl, by rw [hvin]; rfl, ⟨harg, hparse⟩, hkind⟩
    · cases hissuance
  · cases hissuance

theorem firstInput_mem_spends (hinputs : ∀ input ∈ inputsTxs, input ∈ entries)
    (hreads : Reads env tx inputsTxs result)
    (hissuance : issuanceOf env tx = some (tokenId, amount, firstInput)) :
    firstInput ∈ spends env entries tx := by
  obtain ⟨ctx, script, rfl, rfl, rfl, hfirst, hcarries, hkind⟩ := exists_of_issuanceOf hissuance
  obtain ⟨issued, hissues⟩ := reads_issuance hcarries hkind hfirst hreads
  obtain ⟨txin, rest, hvin, hprevout⟩ := hissues.first_input
  have hpassed := hissues.passed
  rw [hvin, passInputTokens] at hpassed
  obtain ⟨prev, hprev, hpassed⟩ := bind_eq_ok.mp hpassed
  obtain ⟨prevOut, hprevOut, -⟩ := bind_eq_ok.mp hpassed
  obtain ⟨hmem, hhash⟩ := mem_of_getPrevInputIt hprev
  have houtput : (⟨ctx.env.getHash prev.1, txin.prevout.n⟩, prevOut.tokens) ∈
      outputs ctx.env entries := mem_outputs (hinputs prev hmem) (index_eq_ok.mp hprevOut)
  rw [hhash] at houtput
  rw [spends, hvin, ← hprevout]
  exact mem_filter.mpr ⟨mem_cons_self, decide_eq_true (mem_map.mpr ⟨_, houtput, rfl⟩)⟩

/-- At most one transaction of a run issues a token id. -/
def IssuedOnce (env : NodeEnv) (entries : List InputPair) : Prop :=
  entries.Pairwise fun entry entry' => ∀ tokenId amount amount' firstInput firstInput',
    issuanceOf env entry.1 = some (tokenId, amount, firstInput) →
      issuanceOf env entry'.1 ≠ some (tokenId, amount', firstInput')

/-- Token ids made from distinct first inputs are distinct. -/
def DistinctTokenIds (env : NodeEnv) (entries : List InputPair) : Prop :=
  ∀ entry ∈ entries, ∀ entry' ∈ entries, ∀ tokenId amount amount' firstInput firstInput',
    issuanceOf env entry.1 = some (tokenId, amount, firstInput) →
      issuanceOf env entry'.1 = some (tokenId, amount', firstInput') → firstInput = firstInput'

theorem Run.firstInput_mem_spent (hrun : Run env entries spent) (hentry : entry ∈ entries)
    (hissuance : issuanceOf env entry.1 = some (tokenId, amount, firstInput)) :
    firstInput ∈ spent := by
  induction hrun with
  | empty => cases hentry
  | read _ hinputs hself hread _ ih =>
    rcases mem_cons.mp hentry with rfl | hentry
    · exact mem_append_left _
        (firstInput_mem_spends hinputs (readBFXTDataFromTx_eq_ok hself hread) hissuance)
    · exact mem_append_right _ (ih hentry)

theorem Run.issuedOnce (hrun : Run env entries spent) (hids : DistinctTokenIds env entries) :
    IssuedOnce env entries := by
  induction hrun with
  | empty => exact List.Pairwise.nil
  | read hrun hinputs hself hread hspends ih =>
    refine pairwise_cons.mpr ⟨?_, ih ?_⟩
    · intro entry hentry tokenId amount amount' firstInput firstInput' hissuance hissuance'
      -- the same first input would be spent by both transactions
      have hsame := hids _ mem_cons_self entry (mem_cons_of_mem _ hentry) tokenId
        amount amount' firstInput firstInput' hissuance hissuance'
      have hnew := firstInput_mem_spends hinputs (readBFXTDataFromTx_eq_ok hself hread) hissuance
      have hold := hrun.firstInput_mem_spent hentry hissuance'
      rw [← hsame] at hold
      exact (nodup_append.mp hspends).2.2 _ hnew _ hold rfl
    · intro entry hentry entry' hentry'
      exact hids entry (mem_cons_of_mem _ hentry) entry' (mem_cons_of_mem _ hentry')

theorem declaredAmount_eq_zero
    (hnone : ∀ amount firstInput, issuanceOf env tx ≠ some (t, amount, firstInput)) :
    declaredAmount env tx t = 0 := by
  rw [declaredAmount]
  split
  · rename_i tokenId amount firstInput hissuance
    refine if_neg fun hid => hnone amount firstInput ?_
    rw [hissuance, hid]
  · rfl

theorem declaredTotal_eq_zero (hnone : ∀ entry ∈ entries, ∀ amount firstInput, issuanceOf env
      entry.1 ≠ some (t, amount, firstInput)) : declaredTotal env entries t = 0 := by
  refine sum_eq_zero fun amount hamount => ?_
  obtain ⟨entry, hentry, rfl⟩ := mem_map.mp hamount
  exact declaredAmount_eq_zero (hnone entry hentry)

theorem IssuedOnce.declaredTotal_eq (honce : IssuedOnce env entries) (hentry : entry ∈ entries)
    (hissuance : issuanceOf env entry.1 = some (t, amount, firstInput)) :
    declaredTotal env entries t = amount := by
  induction entries with
  | nil => cases hentry
  | cons first entries ih =>
    obtain ⟨hfirst, hrest⟩ := pairwise_cons.mp honce
    rw [declaredTotal, map_cons, sum_cons, ← declaredTotal]
    rcases mem_cons.mp hentry with rfl | hentry
    · rw [declaredAmount, hissuance, declaredTotal_eq_zero]
      · exact if_pos rfl
      intro other hother amount' firstInput'
      exact hfirst other hother t amount amount' firstInput firstInput' hissuance
    rw [ih hrest hentry, declaredAmount_eq_zero, Nat.zero_add]
    intro amount' firstInput' hissuance'
    exact hfirst entry hentry t amount' amount firstInput' firstInput hissuance' hissuance

/-- No token is inflated: what is unspent of a token id is at most what its only
issuance declares. -/
theorem run_never_inflates (env : NodeEnv) (entries : List InputPair) (spent : List COutPoint)
    (hrun : Run env entries spent) (hids : DistinctTokenIds env entries) (t : String) :
    IssuedOnce env entries ∧
      (∀ entry ∈ entries, ∀ amount firstInput,
        issuanceOf env entry.1 = some (t, amount, firstInput) →
          unspentAmount env entries spent t ≤ amount) ∧
      ((∀ entry ∈ entries, ∀ amount firstInput,
        issuanceOf env entry.1 ≠ some (t, amount, firstInput)) →
          unspentAmount env entries spent t = 0) := by
  have honce := hrun.issuedOnce hids
  have hle := hrun.unspentAmount_le t
  refine ⟨honce, ?_, ?_⟩
  · intro entry hentry amount firstInput hissuance
    rwa [honce.declaredTotal_eq hentry hissuance] at hle
  intro hnone
  rw [declaredTotal_eq_zero hnone] at hle
  exact Nat.eq_zero_of_le_zero hle

theorem run_issuing_never_inflates :
    ∃ entries spent t firstInput, Run timeEnv entries spent ∧
      issuanceOf timeEnv (issuingTx 3 0) = some (t, 5, firstInput) ∧
      unspentAmount timeEnv entries spent t ≤ 5 := by
  let funding : InputPair :=
    (fundingTx.1, readBFXTDataFromTxMinimal timeEnv emptyBFXTTransaction fundingTx.1)
  obtain ⟨result, hresult⟩ : ∃ result,
      readBFXTDataFromTx timeEnv emptyBFXTTransaction (issuingTx 3 0) [funding] = .ok result :=
    ⟨_, rfl⟩
  obtain ⟨t, firstInput, hissuance⟩ : ∃ t firstInput,
      issuanceOf timeEnv (issuingTx 3 0) = some (t, 5, firstInput) := ⟨_, _, rfl⟩
  have hplain : issuanceOf timeEnv fundingTx.1 = none := by decide
  have hread : readBFXTDataFromTx timeEnv emptyBFXTTransaction fundingTx.1 [] = .ok funding.2 :=
    rfl
  have hfunding : Run timeEnv [funding] [] :=
    Run.read Run.empty (by simp) (by rfl) hread (by decide)
  have hrun : Run timeEnv [(issuingTx 3 0, result), funding] [⟨1, 0⟩] :=
    Run.read hfunding (by simp) (by rfl) hresult (by decide)
  have hids : DistinctTokenIds timeEnv [(issuingTx 3 0, result), funding] := by
    have honly : ∀ entry ∈ [(issuingTx 3 0, result), funding], ∀ tokenId amount input,
        issuanceOf timeEnv entry.1 = some (tokenId, amount, input) → input = firstInput := by
      intro entry hentry tokenId amount input hentryIssues
      rcases mem_pair.mp hentry with rfl | rfl
      · rw [hissuance] at hentryIssues
        cases hentryIssues
        rfl
      · rw [hplain] at hentryIssues
        cases hentryIssues
    intro entry hentry entry' hentry' tokenId amount amount' input input' hfirst hsecond
    rw [honly entry hentry _ _ _ hfirst, honly entry' hentry' _ _ _ hsecond]
  refine ⟨_, _, t, firstInput, hrun, hissuance, ?_⟩
  exact (run_never_inflates timeEnv _ _ hrun hids t).2.1 _ mem_cons_self 5 firstInput hissuance

end Issuances

end Bfx.TokenLedger
