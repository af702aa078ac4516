import Bfx.SelectorBalance

/-!
The totals of the selector: the amounts that the search for inputs counts, against the amounts on
the inputs that are used in the end. They differ by what is on inputs of the caller that the search
has not taken.
-/

namespace Bfx.SelectionTotals

open CallOutcome SelectorAgreement SelectorBalance TokenSelector TokenTransaction
  TransferConservation TransferInterpreter Transaction List

variable {output : COutPoint} {before after : Selection} {t : String}
  {r : BFXTSendTokensOneRecipientData}

section Filling

/-- The wallet's transaction has the output. -/
def Readable (wallet : BFXTWallet) (output : COutPoint) : Prop :=
  ∀ tx, findOutput wallet output = some tx → output.n < tx.vout.length

def tokenIds (wallet : BFXTWallet) (output : COutPoint) : List String :=
  (walletTokens wallet output).map (·.tokenId)

variable {wallet : BFXTWallet}

theorem walletTokens_of_none (h : findOutput wallet output = none) :
    walletTokens wallet output = [] := by
  rw [walletTokens, h]

theorem walletTokens_of_some (h : findOutput wallet output = some tx)
    (htxout : tx.vout[output.n]? = some txout) : walletTokens wallet output = txout.tokens := by
  simp only [walletTokens, h, htxout]

theorem addTotals_eq (tokens : List BFXTTokenTxData) (totals : String → Nat) (t : String) :
    addTotals tokens totals t = totals t + tokenAmount t tokens := by
  induction tokens generalizing totals with
  | nil => rfl
  | cons token tokens ih =>
    rw [addTotals, foldl_cons, ← addTotals, ih, tokenAmount_cons]
    rcases eq_or_ne t token.tokenId with heq | hne
    · rw [if_pos heq, if_pos heq.symm, Nat.add_assoc]
    · rw [if_neg hne, if_neg (Ne.symm hne), Nat.zero_add]

/-- What one round over the available outputs does. -/
structure Takes (wallet : BFXTWallet) (addMore : Bool) (tokenId : String) (required : Int)
    (outputs : List COutPoint) (before after : Selection) (taken kept : List COutPoint) :
    Prop where
  available_eq : after.availableOutputs = before.availableOutputs ++ kept
  inputs_eq : after.tokenSourceInputs = before.tokenSourceInputs ++ taken
  totals_eq : ∀ t, after.totals t = before.totals t + amountOn wallet t taken
  perm : (taken ++ kept).Perm outputs
  left : ∀ output ∈ kept, walletTokens wallet output = [] ∨
    addMore = true ∧ (tokenId ∈ tokenIds wallet output → required ≤ after.totals tokenId)
  readable : ∀ output ∈ outputs, Readable wallet output

variable {addMore : Bool} {required : Int}

theorem Takes.take (hreadable : Readable wallet output)
    (havailable : middle.availableOutputs = before.availableOutputs)
    (hinputs : middle.tokenSourceInputs = before.tokenSourceInputs ++ [output]) (htotals : ∀ t,
      middle.totals t = before.totals t + tokenAmount t (walletTokens wallet output))
    (h : Takes wallet addMore tokenId required outputs middle after taken kept) :
    Takes wallet addMore tokenId required (output :: outputs) before after (output :: taken) kept where
  available_eq := by rw [h.available_eq, havailable]
  inputs_eq := by rw [h.inputs_eq, hinputs, append_assoc, singleton_append]
  totals_eq t := by rw [h.totals_eq, htotals, amountOn_cons, Nat.add_assoc]
  perm := h.perm.cons output
  left := h.left
  readable := forall_mem_cons.mpr ⟨hreadable, h.readable⟩

theorem Takes.keep (hreadable : Readable wallet output) (hleft : walletTokens wallet output = [] ∨
      addMore = true ∧ (tokenId ∈ tokenIds wallet output → required ≤ before.totals tokenId)) (h :
      Takes wallet addMore tokenId required outputs { before with availableOutputs :=
      before.availableOutputs ++ [output] } after taken kept) :
    Takes wallet addMore tokenId required (output :: outputs) before after taken (output :: kept) where
  available_eq := by rw [h.available_eq, append_assoc, singleton_append]
  inputs_eq := h.inputs_eq
  totals_eq := h.totals_eq
  perm := perm_middle.trans (h.perm.cons output)
  left := by
    refine forall_mem_cons.mpr ⟨hleft.imp_right fun ⟨hmore, hcovered⟩ => ⟨hmore, fun hid => ?_⟩,
      h.left⟩
    have hle := hcovered hid
    have htotals := h.totals_eq tokenId
    dsimp only at htotals
    omega
  readable := forall_mem_cons.mpr ⟨hreadable, h.readable⟩

theorem takeOutputs_takes (outputs : List COutPoint) (before : Selection) :
    ReturnsWhen (∀ output ∈ outputs, Readable wallet output)
      (takeOutputs wallet addMore tokenId required outputs before) fun after =>
        ∃ taken kept, Takes wallet addMore tokenId required outputs before after taken kept := by
  induction outputs generalizing before with
  | nil => exact ⟨[], [], by simp, by simp, by simp, .nil, by simp, by simp⟩
  | cons output outputs ih =>
    rw [takeOutputs]
    split
    · rename_i hnone
      refine (ih _).mono forall_mem_of_forall_mem_cons fun after ⟨taken, kept, htakes⟩ =>
        ⟨taken, output :: kept, htakes.keep ?_ (.inl (walletTokens_of_none hnone))⟩
      intro tx htx
      rw [hnone] at htx
      cases htx
    rename_i tx hsome
    cases htxout : index .prevVout tx.vout output.n with
    | error fault =>
      intro hreadable
      rw [index_of_lt (hreadable output mem_cons_self tx hsome)] at htxout
      cases htxout
    | ok txout =>
      rw [index_eq_ok] at htxout
      have htokens := walletTokens_of_some hsome htxout
      have hreadable : Readable wallet output := by
        intro tx' htx'
        obtain rfl := Option.mem_unique hsome htx'
        exact (List.getElem?_eq_some_iff.mp htxout).1
      rw [ok_bind]
      split
      · refine (ih _).mono forall_mem_of_forall_mem_cons fun after ⟨taken, kept, htakes⟩ =>
          ⟨output :: taken, kept, .take hreadable ?_ ?_ (fun t => ?_) htakes⟩
        · rfl
        · rfl
        · rw [htokens, ← addTotals_eq]
      rename_i hskip
      refine (ih _).mono forall_mem_of_forall_mem_cons fun after ⟨taken, kept, htakes⟩ =>
        ⟨taken, output :: kept, htakes.keep hreadable (.inr ⟨?_, fun hid => ?_⟩)⟩
      · rw [not_or] at hskip
        exact Bool.eq_true_of_not_eq_false hskip.1
      rw [not_or, not_and] at hskip
      rw [tokenIds, htokens] at hid
      have hany : txout.tokens.any (fun token => token.tokenId = tokenId) = true := by
        obtain ⟨token, htoken, hid⟩ := mem_map.mp hid
        exact any_eq_true.mpr ⟨token, htoken, decide_eq_true hid⟩
      have := hskip.2 hany
      omega

/-- What the rounds for all required tokens do. -/
structure Fills (wallet : BFXTWallet) (addMore : Bool) (targets : List (String × Int))
    (before after : Selection) (taken : List COutPoint) : Prop where
  inputs_eq : after.tokenSourceInputs = before.tokenSourceInputs ++ taken
  totals_eq : ∀ t, after.totals t = before.totals t + amountOn wallet t taken
  perm : (taken ++ after.availableOutputs).Perm before.availableOutputs
  left : ∀ target ∈ targets, ∀ output ∈ after.availableOutputs, walletTokens wallet output = [] ∨
    addMore = true ∧ (target.1 ∈ tokenIds wallet output → target.2 ≤ after.totals target.1)
  readable : targets ≠ [] → ∀ output ∈ before.availableOutputs, Readable wallet output
  none_taken : targets = [] → taken = []

theorem fillInputs_fills (targets : List (String × Int)) (before : Selection) :
    ReturnsWhen (∀ output ∈ before.availableOutputs, Readable wallet output)
      (fillInputs wallet addMore targets before) fun after =>
        ∃ taken, Fills wallet addMore targets before after taken := by
  induction targets generalizing before with
  | nil => exact ⟨[], by simp, by simp, .refl _, by simp, by simp, fun _ => rfl⟩
  | cons target targets ih =>
    obtain ⟨tokenId, required⟩ := target
    refine ((takeOutputs_takes _ _).bind (q := True) fun middle ⟨taken, kept, htakes⟩ => ?_).mono
      (fun hreadable => ⟨hreadable, trivial⟩) fun _ => id
    have hkept : middle.availableOutputs = kept := htakes.available_eq
    refine (ih middle).mono (fun _ output houtput => ?_) fun after ⟨taken', hfills⟩ => ?_
    · rw [hkept] at houtput
      exact htakes.readable output (htakes.perm.subset (mem_append_right _ houtput))
    refine ⟨taken ++ taken', ?_, fun t => ?_, ?_, ?_, fun _ => htakes.readable,
      fun hnil => absurd hnil (cons_ne_nil _ _)⟩
    · rw [hfills.inputs_eq, htakes.inputs_eq, append_assoc]
    · have htotals := htakes.totals_eq t
      dsimp only at htotals
      rw [hfills.totals_eq, htotals, amountOn_append, Nat.add_assoc]
    · rw [append_assoc]
      refine (List.Perm.append_left taken hfills.perm).trans ?_
      rw [hkept]
      exact htakes.perm
    refine forall_mem_cons.mpr ⟨fun output houtput => ?_, hfills.left⟩
    -- what is left at the end was left in the first round
    have hmem : output ∈ kept := by
      rw [← hkept]
      exact hfills.perm.subset (mem_append_right _ houtput)
    refine (htakes.left output hmem).imp_right fun ⟨hmore, hcovered⟩ => ⟨hmore, fun hid => ?_⟩
    have hle := hcovered hid
    have := hfills.totals_eq tokenId
    dsimp only
    omega

theorem tokenAmount_of_notMem (h : t ∉ tokenIds wallet output) :
    tokenAmount t (walletTokens wallet output) = 0 := by
  refine sum_eq_zero fun n hn => ?_
  obtain ⟨token, htoken, rfl⟩ := mem_map.mp hn
  exact if_neg fun hid => h (mem_map.mpr ⟨token, htoken, hid⟩)

theorem takeOutputs_append (outputs outputs' : List COutPoint) (before : Selection) :
    takeOutputs wallet addMore tokenId required (outputs ++ outputs') before =
      takeOutputs wallet addMore tokenId required outputs before >>=
        takeOutputs wallet addMore tokenId required outputs' := by
  induction outputs generalizing before with
  | nil => rfl
  | cons output outputs ih =>
    rw [cons_append, takeOutputs, takeOutputs]
    split
    · exact ih _
    rename_i tx hsome
    cases htxout : index .prevVout tx.vout output.n with
    | error fault => rfl
    | ok txout =>
      rw [ok_bind, ok_bind]
      split
      · exact ih _
      · exact ih _

theorem takeOutputs_of_covered (hreadable : ∀ output ∈ outputs, Readable wallet output)
    (hcovered : required ≤ before.totals tokenId) :
    takeOutputs wallet true tokenId required outputs before =
      .ok { before with availableOutputs := before.availableOutputs ++ outputs } := by
  induction outputs generalizing before with
  | nil => rw [takeOutputs, append_nil]
  | cons output outputs ih =>
    rw [forall_mem_cons] at hreadable
    have hrest := @ih { before with availableOutputs := before.availableOutputs ++ [output] }
      hreadable.2 hcovered
    rw [append_assoc, singleton_append] at hrest
    rw [takeOutputs]
    split
    · exact hrest
    rename_i tx hsome
    rw [index_of_lt (hreadable.1 tx hsome), ok_bind, if_neg]
    · exact hrest
    rintro (h | ⟨-, h⟩)
    · cases h
    · omega

/-- If the outputs in front cover what is required, the ones behind are not taken. -/
theorem exists_fillInputs {targets : List (String × Int)} {front rest : List COutPoint}
    {before : Selection} (havailable : before.availableOutputs = front ++ rest)
    (hreadable : ∀ output ∈ front ++ rest, Readable wallet output)
    (hcovered : ∀ target ∈ targets,
      target.2 ≤ before.totals target.1 + amountOn wallet target.1 front) :
    ∃ after taken front', fillInputs wallet true targets before = .ok after ∧
      after.tokenSourceInputs = before.tokenSourceInputs ++ taken ∧
      (∀ t, after.totals t = before.totals t + amountOn wallet t taken) ∧
      (taken ++ front').Perm front ∧
      ∀ target ∈ targets, target.2 ≤ after.totals target.1 := by
  induction targets generalizing before front with
  | nil => exact ⟨before, [], front, rfl, by simp, by simp, .refl _, by simp⟩
  | cons target targets ih =>
    obtain ⟨tokenId, required⟩ := target
    obtain ⟨hfirst, hcovered⟩ := forall_mem_cons.mp hcovered
    rw [forall_mem_append] at hreadable
    obtain ⟨middle, hmiddle, taken, kept, htakes⟩ := (@takeOutputs_takes wallet true required
      tokenId front { before with availableOutputs := [] }).returns hreadable.1
    have htotals : ∀ t, middle.totals t = before.totals t + amountOn wallet t taken :=
      htakes.totals_eq
    have hfront : ∀ t, amountOn wallet t front =
        amountOn wallet t taken + amountOn wallet t kept := fun t => by
      rw [← amountOn_perm htakes.perm, amountOn_append]
    -- either an output was left because there was enough, or none that is left has the token
    have henough : required ≤ middle.totals tokenId := by
      by_contra hless
      have hnone : amountOn wallet tokenId kept = 0 := by
        refine amountOn_eq_zero fun output houtput => tokenAmount_of_notMem fun hid => ?_
        rcases htakes.left output houtput with hempty | ⟨-, hcovered⟩
        · rw [tokenIds, hempty] at hid
          cases hid
        · exact hless (hcovered hid)
      have := hfront tokenId
      have := htotals tokenId
      dsimp only at hfirst
      omega
    have hround : takeOutputs wallet true tokenId required before.availableOutputs
        { before with availableOutputs := [] } =
          .ok { middle with availableOutputs := kept ++ rest } := by
      rw [havailable, takeOutputs_append, hmiddle, ok_bind,
        takeOutputs_of_covered hreadable.2 henough]
      rw [show middle.availableOutputs = kept from htakes.available_eq]
    have hkept : ∀ output ∈ kept ++ rest, Readable wallet output := by
      refine forall_mem_append.mpr ⟨fun output houtput => ?_, hreadable.2⟩
      exact hreadable.1 output (htakes.perm.subset (mem_append_right _ houtput))
    obtain ⟨after, taken', front', hafter, hinputs, htotals', hperm, henough'⟩ :=
      @ih kept { middle with availableOutputs := kept ++ rest } rfl hkept
        (fun target htarget => by
          have := hcovered target htarget
          have := hfront target.1
          have := htotals target.1
          dsimp only
          omega)
    refine ⟨after, taken ++ taken', front', ?_, ?_, fun t => ?_, ?_, ?_⟩
    · rw [fillInputs, hround, ok_bind, hafter]
    · rw [hinputs, htakes.inputs_eq, append_assoc]
    · rw [htotals', htotals, amountOn_append, Nat.add_assoc]
    · rw [append_assoc]
      exact (hperm.append_left taken).trans htakes.perm
    refine forall_mem_cons.mpr ⟨?_, henough'⟩
    have := htotals' tokenId
    dsimp only at this ⊢
    omega

end Filling

section Requirements

def SortedKeys (l : List (String × Int)) : Prop := l.Pairwise fun p q => p.1 < q.1

variable {l : List (String × Int)} {seen : List BFXTSendTokensOneRecipientData}

theorem mem_addRequired (hsorted : SortedKeys l) (hp : p ∈ addRequired tokenId amount l) :
    p.1 = tokenId ∧ ((∃ required, (tokenId, required) ∈ l ∧ p.2 = required + amount) ∨
        (∀ q ∈ l, q.1 ≠ tokenId) ∧ p.2 = amount) ∨
      p.1 ≠ tokenId ∧ p ∈ l := by
  induction l with
  | nil =>
    obtain rfl := mem_singleton.mp hp
    exact .inl ⟨rfl, .inr ⟨by simp, rfl⟩⟩
  | cons q l ih =>
    obtain ⟨other, required⟩ := q
    have hrest : SortedKeys l := (pairwise_cons.mp hsorted).2
    have hne : ∀ q ∈ l, q.1 ≠ other := fun q hq heq =>
      String.lt_irrefl other (heq ▸ (pairwise_cons.mp hsorted).1 q hq)
    rw [addRequired] at hp
    split at hp
    · rename_i heq
      subst heq
      rcases mem_cons.mp hp with rfl | hp
      · exact .inl ⟨rfl, .inl ⟨required, mem_cons_self, rfl⟩⟩
      · exact .inr ⟨hne p hp, mem_cons_of_mem _ hp⟩
    split at hp
    · rename_i hother hlt
      -- the key would come before the first one
      have hnone : ∀ q ∈ (other, required) :: l, q.1 ≠ tokenId := by
        refine forall_mem_cons.mpr ⟨Ne.symm hother, fun q hq heq => ?_⟩
        have hlt' := String.lt_trans hlt ((pairwise_cons.mp hsorted).1 q hq)
        rw [heq] at hlt'
        exact String.lt_irrefl _ hlt'
      rcases mem_cons.mp hp with rfl | hp
      · exact .inl ⟨rfl, .inr ⟨hnone, rfl⟩⟩
      · exact .inr ⟨hnone p hp, hp⟩
    rename_i hother hlt
    rcases mem_cons.mp hp with rfl | hp
    · exact .inr ⟨Ne.symm hother, mem_cons_self⟩
    rcases ih hrest hp with ⟨hid, ⟨old, hold, hvalue⟩ | ⟨hnone, hvalue⟩⟩ | ⟨hid, hmem⟩
    · exact .inl ⟨hid, .inl ⟨old, mem_cons_of_mem _ hold, hvalue⟩⟩
    · exact .inl ⟨hid, .inr ⟨forall_mem_cons.mpr ⟨Ne.symm hother, hnone⟩, hvalue⟩⟩
    · exact .inr ⟨hid, mem_cons_of_mem _ hmem⟩

theorem keys_addRequired (tokenId : String) (amount : Int) (l : List (String × Int)) :
    (∃ p ∈ addRequired tokenId amount l, p.1 = tokenId) ∧
      ∀ q ∈ l, ∃ p ∈ addRequired tokenId amount l, p.1 = q.1 := by
  induction l with
  | nil => exact ⟨⟨_, mem_cons_self, rfl⟩, by simp⟩
  | cons q l ih =>
    obtain ⟨other, required⟩ := q
    rw [addRequired]
    split
    · rename_i heq
      refine ⟨⟨_, mem_cons_self, heq.symm⟩, forall_mem_cons.mpr
        ⟨⟨_, mem_cons_self, rfl⟩, fun q hq => ⟨q, mem_cons_of_mem _ hq, rfl⟩⟩⟩
    split
    · exact ⟨⟨_, mem_cons_self, rfl⟩, fun q hq => ⟨q, mem_cons_of_mem _ hq, rfl⟩⟩
    obtain ⟨⟨p, hp, hid⟩, hkeys⟩ := ih
    refine ⟨⟨p, mem_cons_of_mem _ hp, hid⟩, forall_mem_cons.mpr
      ⟨⟨_, mem_cons_self, rfl⟩, fun q hq => ?_⟩⟩
    obtain ⟨p, hp, hid⟩ := hkeys q hq
    exact ⟨p, mem_cons_of_mem _ hp, hid⟩

theorem sortedKeys_addRequired (hsorted : SortedKeys l) :
    SortedKeys (addRequired tokenId amount l) := by
  induction l with
  | nil => exact pairwise_singleton _ _
  | cons q l ih =>
    obtain ⟨other, required⟩ := q
    obtain ⟨hfirst, hrest⟩ := pairwise_cons.mp hsorted
    rw [addRequired]
    split
    · exact pairwise_cons.mpr ⟨hfirst, hrest⟩
    split
    · rename_i hlt
      refine pairwise_cons.mpr ⟨forall_mem_cons.mpr ⟨hlt, fun q hq => ?_⟩, hsorted⟩
      exact String.lt_trans hlt (hfirst q hq)
    rename_i hother hlt
    refine pairwise_cons.mpr ⟨fun p hp => ?_, ih hrest⟩
    rcases mem_addRequired hrest hp with ⟨hid, -⟩ | ⟨-, hmem⟩
    · rw [hid]
      by_contra h
      exact hother (String.le_antisymm (String.not_lt.mp h) (String.not_lt.mp hlt))
    · exact hfirst p hmem

/-- The map holds what the recipients that have been seen ask for. -/
structure Counts (seen : List BFXTSendTokensOneRecipientData) (l : List (String × Int)) :
    Prop where
  sorted : SortedKeys l
  values : ∀ p ∈ l, p.1 ≠ toIssueTokenId ∧ p.2 = requested seen p.1
  complete : ∀ r ∈ seen, r.tokenId ≠ toIssueTokenId → ∃ p ∈ l, p.1 = r.tokenId
  asked : ∀ p ∈ l, ∃ r ∈ seen, r.tokenId = p.1

theorem requested_append (recps recps' : List BFXTSendTokensOneRecipientData) (t : String) :
    requested (recps ++ recps') t = requested recps t + requested recps' t := by
  rw [requested, map_append, sum_append, requested, requested]

theorem Counts.add (h : Counts seen l) (hr : r.tokenId ≠ toIssueTokenId) :
    Counts (seen ++ [r]) (addRequired r.tokenId r.amount l) where
  sorted := sortedKeys_addRequired h.sorted
  values p hp := by
    rw [requested_append, requested_cons, requested_nil, Int.add_zero]
    rcases mem_addRequired h.sorted hp with ⟨hid, hvalue⟩ | ⟨hid, hmem⟩
    · rw [hid, if_pos rfl]
      refine ⟨hr, ?_⟩
      rcases hvalue with ⟨required, hmem, hvalue⟩ | ⟨hnone, hvalue⟩
      · have hold : required = requested seen r.tokenId := (h.values _ hmem).2
        rw [hvalue, hold]
      -- nobody has asked for the token before
      have hzero : requested seen r.tokenId = 0 := by
        refine requested_eq_zero fun other hother hotherId => ?_
        obtain ⟨q, hq, hqid⟩ := h.complete other hother (hotherId ▸ hr)
        exact absurd (hqid.trans hotherId) (hnone q hq)
      rw [hvalue, hzero, Int.zero_add]
    · rw [if_neg (Ne.symm hid), Int.add_zero]
      exact h.values p hmem
  complete other hother hid := by
    obtain ⟨hkey, hkeys⟩ := keys_addRequired r.tokenId r.amount l
    rcases mem_append.mp hother with hother | hother
    · obtain ⟨q, hq, hqid⟩ := h.complete other hother hid
      obtain ⟨p, hp, hpid⟩ := hkeys q hq
      exact ⟨p, hp, hpid.trans hqid⟩
    · rw [mem_singleton.mp hother]
      exact hkey
  asked p hp := by
    rcases mem_addRequired h.sorted hp with ⟨hid, -⟩ | ⟨-, hmem⟩
    · exact ⟨r, mem_append_right _ mem_cons_self, hid.symm⟩
    · obtain ⟨other, hother, hid⟩ := h.asked p hmem
      exact ⟨other, mem_append_left _ hother, hid⟩

theorem Counts.skip (h : Counts seen l) (hr : r.tokenId = toIssueTokenId) :
    Counts (seen ++ [r]) l where
  sorted := h.sorted
  values p hp := by
    obtain ⟨hissue, hvalue⟩ := h.values p hp
    refine ⟨hissue, ?_⟩
    have hne : r.tokenId ≠ p.1 := fun hid => hissue (hid.symm.trans hr)
    rw [requested_append, requested_cons, requested_nil, if_neg hne, Int.add_zero, Int.add_zero,
      hvalue]
  complete other hother hid := by
    rcases mem_append.mp hother with hother | hother
    · exact h.complete other hother hid
    · rw [mem_singleton.mp hother] at hid
      exact absurd hr hid
  asked p hp := by
    obtain ⟨other, hother, hid⟩ := h.asked p hp
    exact ⟨other, mem_append_left _ hother, hid⟩

theorem counts_calculateRequiredTokenAmounts (recipients : List BFXTSendTokensOneRecipientData) :
    Counts recipients (calculateRequiredTokenAmounts recipients) := by
  have hfold : ∀ (rest seen : List BFXTSendTokensOneRecipientData) (l : List (String × Int)),
      Counts seen l → Counts (seen ++ rest) (rest.foldl (fun requiredAmounts r =>
        if r.tokenId = toIssueTokenId then requiredAmounts
        else addRequired r.tokenId r.amount requiredAmounts) l) := by
    intro rest
    induction rest with
    | nil =>
      intro seen l h
      rw [append_nil]
      exact h
    | cons r rest ih =>
      intro seen l h
      rw [foldl_cons, ← singleton_append, ← append_assoc]
      refine ih _ _ ?_
      split
      · rename_i hr
        exact h.skip hr
      · rename_i hr
        exact h.add hr
  exact hfold recipients [] [] ⟨List.Pairwise.nil, by simp, by simp, by simp⟩

end Requirements

section Calls

def tokenRecipients (recipients : List BFXTSendTokensOneRecipientData) :
    List BFXTSendTokensOneRecipientData :=
  recipients.filter fun r => r.tokenId ≠ neblTokenId

def walletOutputs (wallet : BFXTWallet) : List COutPoint :=
  wallet.walletOutputsWithTokens.map Prod.fst

/-- What a call of the selector has computed when it returns. -/
structure Returns (order : SelectionOrder) (wallet : BFXTWallet)
    (tokenToIssueData : Option IssueTokenData) (inputs : List COutPoint)
    (recipients : List BFXTSendTokensOneRecipientData) (addMore : Bool) (data : BFXTSendTxData)
    (selection : Selection) (final : Crediting) : Prop where
  verified : verifyBFXTIssuanceRecipientsValidity tokenToIssueData (tokenRecipients recipients) =
    .ok ()
  covered : ∃ balancesMap,
    getAvailableTokenBalances wallet (order.uniqueInputs inputs) addMore = .ok balancesMap ∧
    ensureCovered wallet balancesMap
      (calculateRequiredTokenAmounts (tokenRecipients recipients)) = .ok ()
  filled : fillInputs wallet addMore (calculateRequiredTokenAmounts (tokenRecipients recipients))
    ⟨order.shuffle (if addMore then walletOutputs wallet else order.uniqueInputs inputs),
      order.uniqueInputs (order.uniqueInputs inputs), fun _ => 0⟩ = .ok selection
  sorted : sortInputs wallet order (order.uniqueInputs selection.tokenSourceInputs) =
    .ok data.tokenSourceInputs
  indices : ensureIndices wallet
    "While attempting to credit recipients, input index is out of range for: "
    data.tokenSourceInputs = .ok ()
  credited : ∃ itis, creditInputs data.tokenSourceInputs
      ⟨decreditSlots wallet data.tokenSourceInputs, tokenRecipients recipients, fun _ => 0, []⟩ =
        .ok (itis, final) ∧
    data.intermediaryTIs = issuanceTIs tokenToIssueData ++ itis
  fulfilled : ensureFulfilled final.recps = .ok ()
  change_eq : data.totalChangeTokens = final.totalChangeTokens
  totals_eq : data.totalTokenAmountsInSelectedInputs = selection.totals
  recipients_eq : data.recipientsList = tokenRecipients recipients

variable {order : SelectionOrder} {wallet : BFXTWallet} {tokenToIssueData : Option IssueTokenData}
  {inputs : List COutPoint} {recipients : List BFXTSendTokensOneRecipientData} {addMore : Bool}
  {data : BFXTSendTxData} {selection : Selection} {final : Crediting}

theorem selectBFXTTokens_eq_ok_iff :
    selectBFXTTokens order wallet issue inputs recipients addMore = .ok data ↔
      ∃ selection final,
        Returns order wallet issue inputs recipients addMore data selection final := by
  constructor
  · intro h
    simp only [selectBFXTTokens, bind_eq_ok] at h
    obtain ⟨_, hverify, balancesMap, hbalances, _, hcovered, selection, hfill, tokenSourceInputs,
      hsort, _, hindices, ⟨itis, final⟩, hcredit, _, hfulfilled, h⟩ := h
    cases h
    exact ⟨selection, final, hverify, ⟨balancesMap, hbalances, hcovered⟩, hfill, hsort, hindices,
      ⟨itis, hcredit, rfl⟩, hfulfilled, rfl, rfl, rfl⟩
  rintro ⟨selection, final, h⟩
  obtain ⟨balancesMap, hbalances, hcovered⟩ := h.covered
  obtain ⟨itis, hcredit, hitis⟩ := h.credited
  obtain ⟨tokenSourceInputs, intermediaryTIs, totalChangeTokens, totals, recipientsList⟩ := data
  obtain rfl := hitis
  obtain rfl := h.change_eq
  obtain rfl := h.totals_eq
  obtain rfl := h.recipients_eq
  refine bind_eq_ok.mpr ⟨(), h.verified, ?_⟩
  refine bind_eq_ok.mpr ⟨balancesMap, hbalances, ?_⟩
  refine bind_eq_ok.mpr ⟨(), hcovered, ?_⟩
  refine bind_eq_ok.mpr ⟨selection, h.filled, ?_⟩
  refine bind_eq_ok.mpr ⟨tokenSourceInputs, h.sorted, ?_⟩
  refine bind_eq_ok.mpr ⟨(), h.indices, ?_⟩
  refine bind_eq_ok.mpr ⟨(itis, final), hcredit, ?_⟩
  exact bind_eq_ok.mpr ⟨(), h.fulfilled, rfl⟩

theorem perm_of_sortInputs (h : sortInputs wallet order inputs = .ok sorted) :
    sorted.Perm inputs := by
  rw [sortInputs] at h
  split at h
  · rw [← Except.ok.inj h]
    exact order.sort_perm _ _
  obtain ⟨-, -, h⟩ := bind_eq_ok.mp h
  rw [← Except.ok.inj h]
  exact order.sort_perm _ _

theorem ensureIndices_ok_iff :
    ensureIndices wallet what inputs = .ok () ↔ ∀ input ∈ inputs, Readable wallet input := by
  induction inputs with
  | nil => simp [ensureIndices]
  | cons input inputs ih =>
    rw [ensureIndices, forall_mem_cons, ← ih]
    split
    · rename_i hnone
      refine ⟨fun h => ⟨fun tx htx => ?_, h⟩, fun h => h.2⟩
      rw [hnone] at htx
      cases htx
    rename_i tx hsome
    have hreadable : Readable wallet input ↔ input.n < tx.vout.length := by
      rw [Readable, hsome]
      exact ⟨fun h => h tx rfl, fun h tx' htx' => Option.some.inj htx' ▸ h⟩
    rw [hreadable]
    split
    · rename_i hrange
      refine ⟨fun h => absurd h (raise_ne_ok _ _), fun ⟨hlt, _⟩ => ?_⟩
      -- the sum can only wrap around to something smaller
      rw [indexOutOfRange, decide_eq_true_iff] at hrange
      have := Nat.mod_le (input.n + 1) (2 ^ 32)
      omega
    constructor
    · intro h
      obtain ⟨txout, htxout, h⟩ := bind_eq_ok.mp h
      exact ⟨(List.getElem?_eq_some_iff.mp (index_eq_ok.mp htxout)).1, h⟩
    · rintro ⟨hlt, h⟩
      rw [index_of_lt hlt, ok_bind, h]

variable (h : Returns order wallet tokenToIssueData inputs recipients addMore data selection final)
include h

theorem Returns.mem_used (htaken : selection.tokenSourceInputs =
      order.uniqueInputs (order.uniqueInputs inputs) ++ taken) (input : COutPoint) :
    input ∈ data.tokenSourceInputs ↔ input ∈ inputs ∨ input ∈ taken := by
  rw [(perm_of_sortInputs h.sorted).mem_iff, order.mem_uniqueInputs, htaken, mem_append,
    order.mem_uniqueInputs, order.mem_uniqueInputs]

theorem Returns.nodup :
    data.tokenSourceInputs.Nodup :=
  (perm_of_sortInputs h.sorted).nodup_iff.mpr (order.uniqueInputs_nodup _)

omit h

theorem requested_tokenRecipients (ht : t ≠ neblTokenId) :
    requested (tokenRecipients recipients) t = requested recipients t := by
  induction recipients with
  | nil => rfl
  | cons r recipients ih =>
    rw [tokenRecipients, filter_cons]
    split
    · rw [requested_cons, requested_cons, ← tokenRecipients, ih]
    rename_i hnebl
    have hne : r.tokenId ≠ t := by
      rintro rfl
      exact hnebl (by simpa using ht)
    rw [requested_cons, if_neg hne, Int.zero_add, ← tokenRecipients, ih]

/-- What is on the used inputs goes to the recipients and into change. -/
theorem Returns.books
    (h : Returns order wallet issue inputs recipients addMore data selection final)
    (ht : ¬Placeholder t) :
    (amountOn wallet t data.tokenSourceInputs : Int) =
      requested recipients t + data.totalChangeTokens t := by
  obtain ⟨itis, hcredit, -⟩ := h.credited
  have hzero : requested final.recps t = 0 := by
    refine requested_eq_zero fun r hr hid => ?_
    rcases ensureFulfilled_eq_ok h.fulfilled r hr with hplace | hplace | hamount
    · exact absurd (.inl (hid.symm.trans hplace)) ht
    · exact absurd (.inr (hid.symm.trans hplace)) ht
    · exact hamount
  have hamounts := creditInputs_amounts hcredit t
  rw [requested_tokenRecipients fun hnebl => ht (.inl hnebl), hzero] at hamounts
  rw [h.change_eq]
  omega

end Calls

/-- The three books agree, and no input is used twice. -/
structure Balanced (wallet : BFXTWallet) (recipients : List BFXTSendTokensOneRecipientData)
    (data : BFXTSendTxData) : Prop where
  totals_eq : ∀ t, data.totalTokenAmountsInSelectedInputs t =
    amountOn wallet t data.tokenSourceInputs
  change_eq : ∀ t, ¬Placeholder t → (data.totalTokenAmountsInSelectedInputs t : Int) =
    requested recipients t + data.totalChangeTokens t
  nodup : data.tokenSourceInputs.Nodup

def Bare (wallet : BFXTWallet) (output : COutPoint) : Prop :=
  ∀ token ∈ walletTokens wallet output, token.amount = 0

instance (wallet : BFXTWallet) (output : COutPoint) : Decidable (Bare wallet output) :=
  inferInstanceAs (Decidable (∀ token ∈ walletTokens wallet output, token.amount = 0))

theorem Bare.tokenAmount_eq (h : Bare wallet output) (t : String) :
    tokenAmount t (walletTokens wallet output) = 0 := by
  refine sum_eq_zero fun n hn => ?_
  obtain ⟨token, htoken, rfl⟩ := mem_map.mp hn
  rw [h token htoken, ite_self]

theorem amount_le_tokenAmount (h : token ∈ tokens) :
    token.amount ≤ tokenAmount token.tokenId tokens := by
  induction tokens with
  | nil => cases h
  | cons first tokens ih =>
    rw [tokenAmount_cons]
    rcases mem_cons.mp h with rfl | h
    · rw [if_pos rfl]
      exact Nat.le_add_right _ _
    · exact (ih h).trans (Nat.le_add_left _ _)

theorem perm_append_rest {part outputs : List COutPoint} (hpart : part.Nodup)
    (houtputs : outputs.Nodup) (hsubset : part ⊆ outputs) :
    (part ++ outputs.filter fun output => output ∉ part).Perm outputs := by
  refine (List.Perm.append ?_ (List.Perm.of_eq ?_)).trans
    (filter_append_perm (fun output => decide (output ∈ part)) outputs)
  · refine (perm_ext_iff_of_nodup hpart (houtputs.filter _)).mpr fun output => ?_
    rw [mem_filter, decide_eq_true_iff]
    exact ⟨fun h => ⟨hsubset h, h⟩, fun h => h.2⟩
  · simp

theorem Returns.balanced_iff
    (h : Returns order wallet issue inputs recipients addMore data selection final)
    (htaken : selection.tokenSourceInputs =
      order.uniqueInputs (order.uniqueInputs inputs) ++ taken)
    (htotals : ∀ t, selection.totals t = amountOn wallet t taken) (hnodup : taken.Nodup) :
    Balanced wallet recipients data ↔ ∀ input ∈ inputs, ¬Bare wallet input → input ∈ taken := by
  -- the used inputs are those that were taken and the others
  have hused : (taken ++ data.tokenSourceInputs.filter fun input => input ∉ taken).Perm
      data.tokenSourceInputs :=
    perm_append_rest hnodup h.nodup fun input hinput => (h.mem_used htaken input).mpr (.inr hinput)
  have hamount : ∀ t, amountOn wallet t data.tokenSourceInputs = amountOn wallet t taken +
      amountOn wallet t (data.tokenSourceInputs.filter fun input => input ∉ taken) := fun t => by
    rw [← amountOn_perm hused, amountOn_append]
  constructor
  · intro hbalanced input hinput hbare
    by_contra hnot
    obtain ⟨token, htoken, hpos⟩ : ∃ token ∈ walletTokens wallet input, token.amount ≠ 0 := by
      simpa [Bare] using hbare
    have hmem : input ∈ data.tokenSourceInputs.filter fun input => input ∉ taken :=
      mem_filter.mpr ⟨(h.mem_used htaken input).mpr (.inl hinput), decide_eq_true hnot⟩
    have hle := amount_le_tokenAmount
      (mem_flatMap.mpr ⟨input, hmem, htoken⟩ :
        token ∈ List.flatMap (walletTokens wallet) _)
    have htotal := hbalanced.totals_eq token.tokenId
    rw [h.totals_eq, htotals, hamount, amountOn, amountOn] at htotal
    omega
  intro hcounted
  have htotal : ∀ t, data.totalTokenAmountsInSelectedInputs t =
      amountOn wallet t data.tokenSourceInputs := by
    intro t
    have hrest : amountOn wallet t
        (data.tokenSourceInputs.filter fun input => input ∉ taken) = 0 := by
      refine amountOn_eq_zero fun input hinput => ?_
      obtain ⟨hmem, hnot⟩ := mem_filter.mp hinput
      have hnot : input ∉ taken := of_decide_eq_true hnot
      have hcaller := ((h.mem_used htaken input).mp hmem).resolve_right hnot
      exact Bare.tokenAmount_eq (by
        by_contra hbare
        exact hnot (hcounted input hcaller hbare)) t
    rw [h.totals_eq, htotals, hamount, hrest, Nat.add_zero]
  exact ⟨htotal, fun t ht => by rw [htotal, h.books ht], h.nodup⟩

section Counting

def usableOutputs (wallet : BFXTWallet) (recipients : List BFXTSendTokensOneRecipientData) :
    List COutPoint :=
  (walletOutputs wallet).filter fun output =>
    ∀ kind ∈ tokenIds wallet output, ¬Conflict kind recipients

/-- The wallet's other outputs do not hold what is required of one of the tokens of the output. -/
def Needed (wallet : BFXTWallet) (recipients : List BFXTSendTokensOneRecipientData)
    (output : COutPoint) : Prop :=
  ∃ t ∈ tokenIds wallet output, ¬Placeholder t ∧
    (amountOn wallet t ((usableOutputs wallet recipients).filter (· ≠ output)) : Int) <
      requested recipients t

/-- Every input of the caller that carries something is counted: all of them, if more inputs are
not to be added and there is a token to send; otherwise those that the search cannot do without. -/
def Counted (wallet : BFXTWallet) (inputs : List COutPoint)
    (recipients : List BFXTSendTokensOneRecipientData) (addMoreInputsIfRequired : Bool) : Prop :=
  ∀ input ∈ inputs, ¬Bare wallet input →
    if addMoreInputsIfRequired then Needed wallet recipients input
    else ∃ r ∈ recipients, ¬Placeholder r.tokenId

variable {order : SelectionOrder} {wallet : BFXTWallet} {tokenToIssueData : Option IssueTokenData}
  {inputs : List COutPoint} {recipients : List BFXTSendTokensOneRecipientData}
  {data : BFXTSendTxData} {selection : Selection} {final : Crediting} {taken : List COutPoint}

theorem mem_tokenRecipients :
    r ∈ tokenRecipients recipients ↔ r ∈ recipients ∧ r.tokenId ≠ neblTokenId := by
  simp [tokenRecipients]

theorem conflict_tokenRecipients :
    Conflict kind (tokenRecipients recipients) ↔ Conflict kind recipients := by
  refine and_congr_right fun _ => exists_congr fun r => ?_
  rw [mem_tokenRecipients, and_assoc]
  refine and_congr_right fun _ => ⟨fun h => h.2, fun h => ⟨?_, h⟩⟩
  rw [h.1]
  decide

theorem amountOn_le_of_subset {t : String} {outputs outputs' : List COutPoint}
    (hnodup : outputs.Nodup) (hsubset : outputs ⊆ outputs') :
    amountOn wallet t outputs ≤ amountOn wallet t outputs' := by
  obtain ⟨kept, hkept, hsublist⟩ := subperm_of_subset hnodup hsubset
  obtain ⟨rest, hperm⟩ := hsublist.exists_perm_append
  rw [amountOn_perm hperm, amountOn_append, amountOn_perm hkept]
  exact Nat.le_add_right _ _

theorem amountOn_filter (h : ∀ output ∈ outputs,
      p output = false → tokenAmount t (walletTokens wallet output) = 0) :
    amountOn wallet t (outputs.filter p) = amountOn wallet t outputs := by
  rw [← amountOn_perm (filter_append_perm p outputs), amountOn_append, left_eq_add]
  refine amountOn_eq_zero fun output houtput => ?_
  obtain ⟨hmem, hout⟩ := mem_filter.mp houtput
  exact h output hmem (by simpa using hout)

theorem mem_walletOutputs (h : ¬Bare wallet output) :
    output ∈ walletOutputs wallet := by
  by_contra hnot
  refine h ?_
  have hnone : findOutput wallet output = none := by
    rw [findOutput, lookup_eq_none_iff]
    intro p hp
    rw [bne_iff_ne]
    rintro rfl
    exact hnot (mem_map_of_mem hp)
  rw [Bare, walletTokens_of_none hnone]
  exact forall_mem_nil _

theorem exists_target (ht : ¬Placeholder t) (hr : r ∈ recipients) (hid : r.tokenId = t) :
    (t, requested recipients t) ∈ calculateRequiredTokenAmounts (tokenRecipients recipients) := by
  have hcounts := counts_calculateRequiredTokenAmounts (tokenRecipients recipients)
  have hnebl : t ≠ neblTokenId := fun h => ht (.inl h)
  obtain ⟨⟨key, value⟩, hp, rfl⟩ := hcounts.complete r
    (mem_tokenRecipients.mpr ⟨hr, hid ▸ hnebl⟩) (hid ▸ fun h => ht (.inr h))
  obtain rfl : r.tokenId = t := hid
  have hvalue : value = requested (tokenRecipients recipients) r.tokenId := (hcounts.values _ hp).2
  rwa [hvalue, requested_tokenRecipients hnebl] at hp

theorem target_spec (h : target ∈ calculateRequiredTokenAmounts (tokenRecipients recipients)) :
    ¬Placeholder target.1 ∧ target.2 = requested recipients target.1 ∧
      ∃ r ∈ recipients, r.tokenId = target.1 := by
  have hcounts := counts_calculateRequiredTokenAmounts (tokenRecipients recipients)
  obtain ⟨hissue, hvalue⟩ := hcounts.values target h
  obtain ⟨r, hr, hid⟩ := hcounts.asked target h
  obtain ⟨hr, hnebl⟩ := mem_tokenRecipients.mp hr
  rw [hid] at hnebl
  exact ⟨fun hplace => hplace.elim hnebl hissue,
    hvalue.trans (requested_tokenRecipients hnebl), r, hr, hid⟩

theorem Returns.noConflict
    (h : Returns order wallet issue inputs recipients addMore data selection final) :
    ∀ input ∈ data.tokenSourceInputs, ∀ kind ∈ tokenIds wallet input, ¬Conflict kind recipients := by
  obtain ⟨itis, hcredit, -⟩ := h.credited
  obtain ⟨-, -, hconflicts⟩ := creditInputs_balances _ (by simp [decreditSlots]) hcredit
  dsimp only at hconflicts
  rw [kinds_decreditSlots] at hconflicts
  intro input hinput kind hkind
  rw [← conflict_tokenRecipients]
  refine hconflicts kind ?_
  obtain ⟨token, htoken, rfl⟩ := mem_map.mp hkind
  exact mem_map_of_mem (mem_flatMap.mpr ⟨input, hinput, htoken⟩)

theorem Returns.balanced_iff_of_given
    (h : Returns order wallet issue inputs recipients false data selection final) :
    Balanced wallet recipients data ↔ Counted wallet inputs recipients false := by
  obtain ⟨taken, hfills⟩ := (fillInputs_fills _ _).of_eq_ok h.filled
  have hperm := hfills.perm.trans (order.shuffle_perm _)
  rw [if_neg Bool.false_ne_true] at hperm
  have hnodup : (taken ++ selection.availableOutputs).Nodup :=
    hperm.nodup_iff.mpr (order.uniqueInputs_nodup _)
  rw [h.balanced_iff hfills.inputs_eq (fun t => by rw [hfills.totals_eq, Nat.zero_add])
    hnodup.of_append_left]
  refine forall₂_congr fun input hinput => forall_congr' fun hbare => ?_
  rw [if_neg Bool.false_ne_true]
  constructor
  · intro htaken
    obtain ⟨target, htarget⟩ := exists_mem_of_ne_nil
      (calculateRequiredTokenAmounts (tokenRecipients recipients)) (fun hnil => by
        rw [hfills.none_taken hnil] at htaken
        cases htaken)
    obtain ⟨hplace, -, r, hr, hid⟩ := target_spec htarget
    exact ⟨r, hr, hid ▸ hplace⟩
  rintro ⟨r, hr, hplace⟩
  have htarget := exists_target hplace hr rfl
  have hmem : input ∈ taken ++ selection.availableOutputs :=
    hperm.mem_iff.mpr ((order.mem_uniqueInputs _ _).mpr hinput)
  refine (mem_append.mp hmem).resolve_right fun hleft => hbare ?_
  rcases hfills.left _ htarget input hleft with hnone | ⟨hmore, -⟩
  · rw [Bare, hnone]
    exact nofun
  · cases hmore

theorem Returns.mem_taken_of_needed
    (h : Returns order wallet issue inputs recipients true data selection final)
    (hkeys : (walletOutputs wallet).Nodup) (hfills : Fills wallet true
      (calculateRequiredTokenAmounts (tokenRecipients recipients)) ⟨order.shuffle (walletOutputs
      wallet), order.uniqueInputs (order.uniqueInputs inputs), fun _ => 0⟩ selection taken)
    (hmem : input ∈ walletOutputs wallet) (hneeded : Needed wallet recipients input) :
    input ∈ taken := by
  have hperm : (taken ++ selection.availableOutputs).Perm (walletOutputs wallet) :=
    hfills.perm.trans (order.shuffle_perm _)
  have hnodup : (taken ++ selection.availableOutputs).Nodup := hperm.nodup_iff.mpr hkeys
  obtain ⟨t, ht, hplace, hless⟩ := hneeded
  refine (mem_append.mp (hperm.mem_iff.mpr hmem)).resolve_right fun hleft => ?_
  -- the others that were taken do not hold enough, so the output cannot have been left
  have hle : amountOn wallet t taken ≤
      amountOn wallet t ((usableOutputs wallet recipients).filter (· ≠ input)) := by
    refine amountOn_le_of_subset hnodup.of_append_left fun output houtput => ?_
    refine mem_filter.mpr ⟨mem_filter.mpr ⟨?_, ?_⟩, ?_⟩
    · exact hperm.subset (mem_append_left _ houtput)
    · exact decide_eq_true
        (h.noConflict output ((h.mem_used hfills.inputs_eq output).mpr (.inr houtput)))
    refine decide_eq_true ?_
    rintro rfl
    exact (disjoint_of_nodup_append hnodup) houtput hleft
  obtain ⟨r, hr, hid⟩ : ∃ r ∈ recipients, r.tokenId = t := by
    by_contra hnobody
    have hzero : requested recipients t = 0 :=
      requested_eq_zero fun r hr hid => absurd ⟨r, hr, hid⟩ hnobody
    omega
  have htarget := exists_target hplace hr hid
  rcases hfills.left _ htarget input hleft with hnone | ⟨-, hcovered⟩
  · rw [tokenIds, hnone] at ht
    cases ht
  have htotals : selection.totals t = amountOn wallet t taken := by
    rw [hfills.totals_eq, Nat.zero_add]
  have := hcovered ht
  dsimp only at this
  omega

theorem Returns.requested_le
    (h : Returns order wallet issue inputs recipients addMore data selection final)
    (ht : ¬Placeholder t) :
    requested recipients t ≤ amountOn wallet t (usableOutputs wallet recipients) := by
  have hbooks := h.books ht
  have hwallet : amountOn wallet t (data.tokenSourceInputs.filter (· ∈ walletOutputs wallet)) =
      amountOn wallet t data.tokenSourceInputs := by
    refine amountOn_filter fun input _ hnot => Bare.tokenAmount_eq ?_ t
    by_contra hbare
    exact of_decide_eq_false hnot (mem_walletOutputs hbare)
  have hle : amountOn wallet t (data.tokenSourceInputs.filter (· ∈ walletOutputs wallet)) ≤
      amountOn wallet t (usableOutputs wallet recipients) := by
    refine amountOn_le_of_subset (h.nodup.filter _) fun input hinput => ?_
    obtain ⟨hused, hmem⟩ := mem_filter.mp hinput
    exact mem_filter.mpr ⟨of_decide_eq_true hmem, decide_eq_true (h.noConflict input hused)⟩
  omega

/-- The outputs of the wallet in an order in which `output` comes last of those that can be used. -/
def outputLast (wallet : BFXTWallet) (recipients : List BFXTSendTokensOneRecipientData)
    (output : COutPoint) : List COutPoint :=
  (usableOutputs wallet recipients).filter (· ≠ output) ++
    (walletOutputs wallet).filter fun other =>
      other ∉ (usableOutputs wallet recipients).filter (· ≠ output)

theorem outputLast_perm (hkeys : (walletOutputs wallet).Nodup) (output : COutPoint) :
    (outputLast wallet recipients output).Perm (walletOutputs wallet) :=
  perm_append_rest ((hkeys.filter _).filter _) hkeys fun _ hother =>
    (mem_filter.mp (mem_filter.mp hother).1).1

def orderLast (order : SelectionOrder) (wallet : BFXTWallet)
    (recipients : List BFXTSendTokensOneRecipientData) (hkeys : (walletOutputs wallet).Nodup)
    (output : COutPoint) : SelectionOrder :=
  { order with
    shuffle := fun outputs =>
      if outputs = walletOutputs wallet then outputLast wallet recipients output
      else order.shuffle outputs
    shuffle_perm := fun outputs => by
      split
      · rename_i heq
        rw [heq]
        exact outputLast_perm hkeys output
      · exact order.shuffle_perm outputs }

/-- Without an output that is not needed, the wallet still holds what is required. -/
theorem Returns.covered_without
    (h : Returns order wallet issue inputs recipients addMore data selection final)
    (hneeded : ¬Needed wallet recipients output) (ht : ¬Placeholder t) : requested recipients t ≤
      amountOn wallet t ((usableOutputs wallet recipients).filter (· ≠ output)) := by
  by_cases hid : t ∈ tokenIds wallet output
  · exact not_lt.mp fun hless => hneeded ⟨t, hid, ht, hless⟩
  have hall := h.requested_le ht
  have hrest : amountOn wallet t ((usableOutputs wallet recipients).filter (· ≠ output)) =
      amountOn wallet t (usableOutputs wallet recipients) := by
    refine amountOn_filter fun other _ hother => ?_
    obtain rfl : other = output := by simpa using hother
    exact tokenAmount_of_notMem hid
  omega

theorem servable_tokenRecipients (ht : ¬Placeholder t) :
    Servable wallet outputs (tokenRecipients recipients) t ↔
      Servable wallet outputs recipients t := by
  have hnebl : t ≠ neblTokenId := fun h => ht (.inl h)
  have hmem : ∀ r : BFXTSendTokensOneRecipientData, r.tokenId = t →
      (r ∈ tokenRecipients recipients ↔ r ∈ recipients) := by
    rintro r rfl
    rw [mem_tokenRecipients]
    exact and_iff_left hnebl
  constructor
  · rintro ⟨hnonneg, hcovered⟩
    rw [requested_tokenRecipients hnebl] at hcovered
    exact ⟨fun r hr hid => hnonneg r ((hmem r hid).mpr hr) hid, hcovered⟩
  rintro ⟨hnonneg, hcovered⟩
  rw [← requested_tokenRecipients hnebl] at hcovered
  exact ⟨fun r hr hid => hnonneg r ((hmem r hid).mp hr) hid, hcovered⟩

theorem Returns.servable
    (h : Returns order wallet issue inputs recipients addMore data selection final)
    (ht : ¬Placeholder t) :
    Servable wallet data.tokenSourceInputs recipients t := by
  obtain ⟨itis, hcredit, -⟩ := h.credited
  exact (servable_tokenRecipients ht).mp ((fulfilled_iff hcredit).mp h.fulfilled t ht)

/-- After the search a call returns if its inputs can be read, are in no conflict with an issuance
and hold what the recipients ask for. -/
theorem exists_returns (hverified : verifyBFXTIssuanceRecipientsValidity issue
      (tokenRecipients recipients) = .ok ())
    (hcovered : ∃ balancesMap,
      getAvailableTokenBalances wallet (order.uniqueInputs inputs) addMore = .ok balancesMap ∧
      ensureCovered wallet balancesMap
        (calculateRequiredTokenAmounts (tokenRecipients recipients)) = .ok ())
    (hfilled : fillInputs wallet addMore
      (calculateRequiredTokenAmounts (tokenRecipients recipients))
      ⟨order.shuffle (if addMore then walletOutputs wallet else order.uniqueInputs inputs),
        order.uniqueInputs (order.uniqueInputs inputs), fun _ => 0⟩ = .ok selection)
    (hreadable : ∀ input ∈ order.uniqueInputs selection.tokenSourceInputs, Readable wallet input)
    (hconflict : ∀ input ∈ order.uniqueInputs selection.tokenSourceInputs,
      ∀ kind ∈ tokenIds wallet input, ¬Conflict kind recipients)
    (hservable : ∀ t, ¬Placeholder t →
      Servable wallet (order.uniqueInputs selection.tokenSourceInputs) recipients t) :
    ∃ data final,
      Returns order wallet issue inputs recipients addMore data selection final := by
  obtain ⟨used, hsorted⟩ : ∃ used, sortInputs wallet order
      (order.uniqueInputs selection.tokenSourceInputs) = .ok used := by
    rw [sortInputs, ensureIndices_ok_iff.mpr hreadable]
    split <;> exact ⟨_, rfl⟩
  have hperm := perm_of_sortInputs hsorted
  obtain ⟨⟨itis, final⟩, hcredit⟩ := @exists_creditInputs used
    ⟨decreditSlots wallet used, tokenRecipients recipients, fun _ => 0, []⟩
    (by simp [decreditSlots]) (fun kind hkind => by
      dsimp only at hkind
      rw [kinds_decreditSlots] at hkind
      obtain ⟨token, htoken, rfl⟩ := mem_map.mp hkind
      obtain ⟨input, hinput, htoken⟩ := mem_flatMap.mp htoken
      rw [conflict_tokenRecipients]
      exact hconflict input (hperm.subset hinput) _ (mem_map_of_mem htoken))
  have hfulfilled : ensureFulfilled final.recps = .ok () := by
    refine (fulfilled_iff hcredit).mpr fun t ht => (servable_tokenRecipients ht).mpr ?_
    obtain ⟨hnonneg, hcovered⟩ := hservable t ht
    exact ⟨hnonneg, by rwa [amountOn_perm hperm]⟩
  exact ⟨⟨used, issuanceTIs issue ++ itis, final.totalChangeTokens, selection.totals,
    tokenRecipients recipients⟩, final, hverified, hcovered, hfilled, hsorted,
    ensureIndices_ok_iff.mpr fun input hinput => hreadable input (hperm.subset hinput),
    ⟨itis, hcredit, rfl⟩, hfulfilled, rfl, rfl, rfl⟩

/-- If an input is not needed, there is an order in which the call returns without counting it. -/
theorem Returns.exists_last
    (h : Returns order wallet issue inputs recipients true data selection final)
    (hkeys : (walletOutputs wallet).Nodup)
    (hreadable : ∀ output ∈ walletOutputs wallet, Readable wallet output)
    (hneeded : ¬Needed wallet recipients output) :
    ∃ data' selection' final' taken',
      Returns (orderLast order wallet recipients hkeys output) wallet issue inputs
        recipients true data' selection' final' ∧
      selection'.tokenSourceInputs = order.uniqueInputs (order.uniqueInputs inputs) ++ taken' ∧
      (∀ t, selection'.totals t = amountOn wallet t taken') ∧ taken'.Nodup ∧ output ∉ taken' := by
  have hlast : (outputLast wallet recipients output).Perm (walletOutputs wallet) :=
    outputLast_perm hkeys output
  obtain ⟨selection', taken', front', hfilled, hinputs, htotals, hperm, henough⟩ :=
    @exists_fillInputs wallet (calculateRequiredTokenAmounts (tokenRecipients recipients)) _ _
      ⟨outputLast wallet recipients output, order.uniqueInputs (order.uniqueInputs inputs),
        fun _ => 0⟩ rfl (fun other hother => hreadable other (hlast.subset hother))
      (fun target htarget => by
        obtain ⟨hplace, hvalue, -⟩ := target_spec htarget
        have := h.covered_without hneeded hplace
        push_cast
        omega)
  simp only [Nat.zero_add] at htotals
  obtain ⟨taken, hfills⟩ := (fillInputs_fills _ _).of_eq_ok h.filled
  have hfront : ∀ other ∈ taken', other ∈ usableOutputs wallet recipients ∧ other ≠ output := by
    intro other hother
    obtain ⟨husable, hne⟩ :=
      mem_filter.mp (hperm.subset (mem_append_left _ hother))
    exact ⟨husable, of_decide_eq_true hne⟩
  have hnodup : taken'.Nodup :=
    (hperm.nodup_iff.mpr ((hkeys.filter _).filter _)).of_append_left
  have hused : ∀ input ∈ inputs, input ∈ data.tokenSourceInputs := fun input hinput =>
    (h.mem_used hfills.inputs_eq input).mpr (.inl hinput)
  have hsource : ∀ input ∈ order.uniqueInputs selection'.tokenSourceInputs,
      input ∈ inputs ∨ input ∈ taken' := by
    intro input hinput
    rw [order.mem_uniqueInputs, hinputs, mem_append, order.mem_uniqueInputs,
      order.mem_uniqueInputs] at hinput
    exact hinput
  have hreturns : ∃ data' final', Returns (orderLast order wallet recipients hkeys output) wallet
      issue inputs recipients true data' selection' final' := by
    refine exists_returns h.verified h.covered ?_ ?_ ?_ ?_
    · rw [← hfilled]
      congr 2
      exact if_pos rfl
    · intro input hinput
      rcases hsource input hinput with hinput | hinput
      · exact ensureIndices_ok_iff.mp h.indices input (hused input hinput)
      · exact hreadable input (mem_filter.mp (hfront input hinput).1).1
    · intro input hinput
      rcases hsource input hinput with hinput | hinput
      · exact h.noConflict input (hused input hinput)
      · exact of_decide_eq_true (mem_filter.mp (hfront input hinput).1).2
    intro t ht
    refine ⟨(h.servable ht).nonneg, ?_⟩
    rcases Decidable.em (∃ r ∈ recipients, r.tokenId = t) with ⟨r, hr, hid⟩ | hnobody
    · have hle := henough _ (exists_target ht hr hid)
      have htaken : amountOn wallet t taken' ≤ amountOn wallet t
          (order.uniqueInputs selection'.tokenSourceInputs) := by
        refine amountOn_le_of_subset hnodup fun other hother => ?_
        rw [order.mem_uniqueInputs, hinputs]
        exact mem_append_right _ hother
      dsimp only at hle
      rw [htotals] at hle
      exact hle.trans (by exact_mod_cast htaken)
    · rw [requested_eq_zero fun r hr hid => absurd ⟨r, hr, hid⟩ hnobody]
      exact Int.natCast_nonneg _
  obtain ⟨data', final', hreturns⟩ := hreturns
  exact ⟨data', selection', final', taken', hreturns, hinputs, htotals, hnodup,
    fun hmem => (hfront output hmem).2 rfl⟩

/-- The books of the selector balance, in whatever order it goes through the outputs, exactly if
every input of the caller that carries something is counted. -/
theorem selectBFXTTokens_balanced_iff (wallet : BFXTWallet)
    (hkeys : (wallet.walletOutputsWithTokens.map Prod.fst).Nodup)
    (tokenToIssueData : Option IssueTokenData) (inputs : List COutPoint)
    (recipients : List BFXTSendTokensOneRecipientData) (addMoreInputsIfRequired : Bool)
    (hreturns : ∃ order data, selectBFXTTokens order wallet tokenToIssueData inputs recipients
      addMoreInputsIfRequired = .ok data) :
    (∀ order data, selectBFXTTokens order wallet tokenToIssueData inputs recipients
        addMoreInputsIfRequired = .ok data → Balanced wallet recipients data) ↔
      Counted wallet inputs recipients addMoreInputsIfRequired := by
  obtain ⟨order, data, hselect⟩ := hreturns
  obtain ⟨selection, final, h⟩ := selectBFXTTokens_eq_ok_iff.mp hselect
  cases addMoreInputsIfRequired with
  | false =>
    refine ⟨fun hall => h.balanced_iff_of_given.mp (hall order data hselect),
      fun hcounted order' data' hselect' => ?_⟩
    obtain ⟨selection', final', h'⟩ := selectBFXTTokens_eq_ok_iff.mp hselect'
    exact h'.balanced_iff_of_given.mpr hcounted
  | true =>
    have hshuffled : ∀ order : SelectionOrder, (order.shuffle (walletOutputs wallet)).Nodup :=
      fun order => (order.shuffle_perm _).nodup_iff.mpr hkeys
    constructor
    · intro hall input hinput hbare
      rw [if_pos rfl]
      by_contra hneeded
      obtain ⟨taken, hfills⟩ := (fillInputs_fills _ _).of_eq_ok h.filled
      rw [if_pos rfl] at hfills
      have htaken : input ∈ taken :=
        (h.balanced_iff hfills.inputs_eq (fun t => by rw [hfills.totals_eq, Nat.zero_add])
          (hfills.perm.nodup_iff.mpr (hshuffled order)).of_append_left).mp (hall order data hselect) input hinput hbare
      have htargets : calculateRequiredTokenAmounts (tokenRecipients recipients) ≠ [] := by
        intro hnil
        rw [hfills.none_taken hnil] at htaken
        cases htaken
      obtain ⟨data', selection', final', taken', h', hinputs, htotals, hnodup, hnot⟩ :=
        h.exists_last hkeys (fun output houtput => hfills.readable htargets output
          ((order.shuffle_perm _).mem_iff.mpr houtput)) hneeded
      have hbalanced := hall _ data' (selectBFXTTokens_eq_ok_iff.mpr ⟨selection', final', h'⟩)
      exact hnot ((h'.balanced_iff hinputs htotals hnodup).mp hbalanced input hinput hbare)
    intro hcounted order' data' hselect'
    obtain ⟨selection', final', h'⟩ := selectBFXTTokens_eq_ok_iff.mp hselect'
    obtain ⟨taken, hfills⟩ := (fillInputs_fills _ _).of_eq_ok h'.filled
    rw [if_pos rfl] at hfills
    refine (h'.balanced_iff hfills.inputs_eq (fun t => by rw [hfills.totals_eq, Nat.zero_add])
      (hfills.perm.nodup_iff.mpr (hshuffled order')).of_append_left).mpr fun input hinput hbare => ?_
    have hneeded := hcounted input hinput hbare
    rw [if_pos rfl] at hneeded
    exact h'.mem_taken_of_needed hkeys hfills (mem_walletOutputs hbare) hneeded

def twoWallet : BFXTWallet where
  walletOutputsWithTokens := [(⟨2, 0⟩, prevTx.2), (⟨1, 0⟩, prevTx.2)]
  balances tokenId := if tokenId = "t" then some 10 else none
  getTokenName tokenId := tokenId

/-- Three tokens are sent and the caller has chosen an output that holds five. The search takes
the other one, and the totals are those of that one only; the change is that of both. -/
theorem selectBFXTTokens_unbalanced :
    ∃ data, selectBFXTTokens plainOrder twoWallet none [⟨1, 0⟩] [⟨"t", "a", 3⟩] true = .ok data ∧
      data.totalTokenAmountsInSelectedInputs "t" = 5 ∧
      amountOn twoWallet "t" data.tokenSourceInputs = 10 ∧ data.totalChangeTokens "t" = 7 :=
  @exists_of_toOption _ _ (selectBFXTTokens plainOrder twoWallet none [⟨1, 0⟩] [⟨"t", "a", 3⟩] true)
    (fun data => data.totalTokenAmountsInSelectedInputs "t" = 5 ∧
      amountOn twoWallet "t" data.tokenSourceInputs = 10 ∧ data.totalChangeTokens "t" = 7)
    inferInstance (by decide +kernel)

theorem selectBFXTTokens_fiveWallet_balanced :
    Counted fiveWallet [⟨1, 0⟩] [⟨"t", "a", 3⟩] true ∧
      ∀ order data, selectBFXTTokens order fiveWallet none [⟨1, 0⟩] [⟨"t", "a", 3⟩] true =
        .ok data → Balanced fiveWallet [⟨"t", "a", 3⟩] data := by
  have hcounted : Counted fiveWallet [⟨1, 0⟩] [⟨"t", "a", 3⟩] true := by
    intro input hinput hbare
    obtain rfl := mem_singleton.mp hinput
    exact ⟨"t", by decide +kernel, by decide, by decide +kernel⟩
  refine ⟨hcounted, (selectBFXTTokens_balanced_iff fiveWallet (by decide) none [⟨1, 0⟩]
    [⟨"t", "a", 3⟩] true ?_).mpr hcounted⟩
  exact ⟨plainOrder, exists_of_isOk (by decide +kernel)⟩

end Counting

end Bfx.SelectionTotals
