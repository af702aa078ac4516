import Bfx.SelectorAgreement

/-!
The books of crediting: what leaves the slots of the selected inputs has gone to recipients or into
change, and change is only taken where everyone is served. So the recipients are served exactly if
the inputs hold what they ask for.
-/

namespace Bfx.SelectorBalance

open CallOutcome LotQueue QueueRefinement SelectorAgreement SelectorExecution TokenSelector
  TokenTransaction TransferConservation TransferInterpreter TransferSemantics Transaction List

variable {r : BFXTSendTokensOneRecipientData} {recps' : List BFXTSendTokensOneRecipientData}

section Recipients

def requested (recipients : List BFXTSendTokensOneRecipientData) (t : String) : Int :=
  (recipients.map fun r => if r.tokenId = t then r.amount else 0).sum

@[simp] theorem requested_nil (t : String) : requested [] t = 0 := rfl

@[simp] theorem requested_cons (r : BFXTSendTokensOneRecipientData)
    (recipients : List BFXTSendTokensOneRecipientData) (t : String) :
    requested (r :: recipients) t =
      (if r.tokenId = t then r.amount else 0) + requested recipients t := by
  simp [requested]

/-- What crediting can do to a recipient: it takes what is needed at most, and never serves the
one who is to receive issued tokens. -/
structure Served (r r' : BFXTSendTokensOneRecipientData) : Prop where
  tokenId_eq : r'.tokenId = r.tokenId
  amount_le : r'.amount ≤ r.amount
  nonneg : 0 ≤ r.amount → 0 ≤ r'.amount
  satisfied : r.amount ≤ 0 → r'.amount = r.amount
  issuing : r.tokenId = toIssueTokenId → r' = r

theorem Served.refl (r : BFXTSendTokensOneRecipientData) : Served r r :=
  ⟨rfl, le_refl _, id, fun _ => rfl, fun _ => rfl⟩

variable {recps : List BFXTSendTokensOneRecipientData}

theorem Served.trans (h : Served r r') (h' : Served r' r'') : Served r r'' where
  tokenId_eq := h'.tokenId_eq.trans h.tokenId_eq
  amount_le := h'.amount_le.trans h.amount_le
  nonneg hr := h'.nonneg (h.nonneg hr)
  satisfied hr := by
    have hr' := h.satisfied hr
    rw [h'.satisfied (by rw [hr']; exact hr), hr']
  issuing hr := by
    have hr' := h.issuing hr
    rw [h'.issuing (by rw [hr']; exact hr), hr']

abbrev ServedAll (recps recps' : List BFXTSendTokensOneRecipientData) : Prop :=
  List.Forall₂ Served recps recps'

theorem ServedAll.refl (recps : List BFXTSendTokensOneRecipientData) : ServedAll recps recps :=
  forall₂_same.mpr fun r _ => Served.refl r

theorem ServedAll.trans (h : ServedAll recps recps') (h' : ServedAll recps' recps'') :
    ServedAll recps recps'' := by
  induction h generalizing recps'' with
  | nil => exact h'
  | cons hfirst _ ih =>
    obtain ⟨_, _, hfirst', hrest', rfl⟩ := forall₂_cons_left_iff.mp h'
    exact .cons (hfirst.trans hfirst') (ih hrest')

/-- A slot of this kind makes crediting throw: someone still waits for issued tokens. -/
def Conflict (tokenId : String) (recps : List BFXTSendTokensOneRecipientData) : Prop :=
  tokenId = toIssueTokenId ∧ ∃ r ∈ recps, r.tokenId = toIssueTokenId ∧ 0 < r.amount

instance (tokenId : String) (recps : List BFXTSendTokensOneRecipientData) :
    Decidable (Conflict tokenId recps) :=
  inferInstanceAs (Decidable (_ ∧ _))

theorem ServedAll.conflict_iff (h : ServedAll recps recps') (tokenId : String) :
    Conflict tokenId recps' ↔ Conflict tokenId recps := by
  refine and_congr_right fun _ => ⟨?_, ?_⟩
  · rintro ⟨r', hr', hid, hpos⟩
    obtain ⟨r, hr, hserved⟩ := exists_of_forall₂ h.flip hr'
    exact ⟨r, hr, hserved.tokenId_eq ▸ hid, hpos.trans_le hserved.amount_le⟩
  rintro ⟨r, hr, hid, hpos⟩
  obtain ⟨r', hr', hserved⟩ := exists_of_forall₂ h hr
  rw [hserved.issuing hid] at hr'
  exact ⟨r, hr', hid, hpos⟩

end Recipients

section Crediting

def kinds (queue : List (List Slot)) : List String := queue.flatten.map Slot.tokenId

variable {queue' : List (List Slot)} {recps : List BFXTSendTokensOneRecipientData}
  {before after : Crediting}

theorem kinds_of_items (h : queue'.flatten.map Lot.item = queue.flatten.map Lot.item) :
    kinds queue' = kinds queue := by
  have hkinds := congrArg (List.map BFXTTokenTxData.tokenId) h
  rw [map_map, map_map] at hkinds
  exact hkinds

theorem frontLeft_takeFromInputs (hid : Slot.tokenId slot = tokenId) (needed : Nat)
    (input : List Slot) (inputs : List (List Slot)) :
    frontLeft (takeFromInputs tokenId needed ((slot :: input) :: inputs)).2 =
      slot.left - needed := by
  rw [takeFromInputs, takeFromInput, if_neg (not_not.mpr hid)]
  dsimp only
  split
  · rename_i hneeded
    dsimp only
    split
    · exact (Nat.sub_eq_zero_of_le hneeded).symm
    · exact (Nat.sub_eq_zero_of_le hneeded).symm
  · rfl

/-- What the loop over the recipients does to the books of one slot: what leaves the queue has
gone to recipients, and they are all served if something is left in front. -/
structure BalancesRecipients (tokenId : String) (left : Nat) (queue queue' : List (List Slot))
    (recps recps' : List BFXTSendTokensOneRecipientData) : Prop where
  served : ServedAll recps recps'
  amounts : ∀ t, (held tokenKey t queue.flatten : Int) - requested recps t =
    held tokenKey t queue'.flatten - requested recps' t
  front_le : frontLeft queue' ≤ left
  satisfied : 0 < frontLeft queue' → ∀ r ∈ recps', r.tokenId = tokenId → r.amount ≤ 0
  noConflict : ¬Conflict tokenId recps

theorem BalancesRecipients.take (hid : r.tokenId = tokenId) (hpos : 0 < r.amount)
    (hissue : r.tokenId ≠ toIssueTokenId) (htaken : taken = min r.amount.toNat (total (run tokenKey
      tokenId ((slot :: input) :: inputs).flatten))) (hslot : Slot.tokenId slot = tokenId)
    (hdrain : queue₁.flatten = drain tokenKey tokenId taken ((slot :: input) :: inputs).flatten)
    (hrest : BalancesRecipients tokenId (slot.left - r.amount.toNat) queue₁ queue' recps recps') :
    BalancesRecipients tokenId slot.left ((slot :: input) :: inputs) queue' (r :: recps)
      ({ r with amount := r.amount - taken } :: recps') where
  served := by
    refine .cons ⟨rfl, ?_, fun _ => ?_, fun h => absurd hpos h.not_gt, fun h => absurd h hissue⟩
      hrest.served
    · dsimp only
      omega
    · dsimp only
      omega
  amounts t := by
    have hheld := held_drain tokenKey (htaken.le.trans (Nat.min_le_right _ _)) t
    have hrest := hrest.amounts t
    rw [hdrain] at hrest
    rw [requested_cons, requested_cons, ← hheld]
    dsimp only
    rcases eq_or_ne tokenId t with rfl | hne
    · rw [if_pos rfl, if_pos hid, if_pos hid]
      push_cast
      omega
    have hr : r.tokenId ≠ t := fun h => hne (hid.symm.trans h)
    rw [if_neg (Ne.symm hne), if_neg hr, if_neg hr]
    omega
  front_le := hrest.front_le.trans (Nat.sub_le _ _)
  satisfied hfront := by
    have hleft : r.amount.toNat < slot.left := by
      have := hrest.front_le
      omega
    -- the front slot alone has covered what was needed
    have hall : taken = r.amount.toNat := by
      rw [flatten_cons, cons_append, run_cons_of_eq tokenKey hslot, total_cons] at htaken
      omega
    refine forall_mem_cons.mpr ⟨fun _ => ?_, hrest.satisfied hfront⟩
    dsimp only
    omega
  noConflict := fun ⟨hissued, _⟩ => hissue (hid.trans hissued)

theorem BalancesRecipients.skip (hskip : ¬(tokenId = r.tokenId ∧ r.amount > 0))
    (hrest : BalancesRecipients tokenId left queue queue' recps recps') :
    BalancesRecipients tokenId left queue queue' (r :: recps) (r :: recps') where
  served := .cons (Served.refl r) hrest.served
  amounts t := by
    have := hrest.amounts t
    rw [requested_cons, requested_cons]
    omega
  front_le := hrest.front_le
  satisfied hfront :=
    forall_mem_cons.mpr
      ⟨fun hid => not_lt.mp fun hpos => hskip ⟨hid.symm, hpos⟩, hrest.satisfied hfront⟩
  noConflict := by
    rintro ⟨hissued, other, hother, hid, hpos⟩
    rcases mem_cons.mp hother with rfl | hother
    · exact hskip ⟨hissued.trans hid.symm, hpos⟩
    · exact hrest.noConflict ⟨hissued, other, hother, hid, hpos⟩

theorem creditRecipients_balances (hslot : Slot.tokenId slot = tokenId) (j : Nat)
    (input : List Slot) (inputs : List (List Slot)) :
    ReturnsWhen (¬Conflict tokenId recps)
      (creditRecipients tokenId j recps ((slot :: input) :: inputs)) fun result =>
        BalancesRecipients tokenId slot.left ((slot :: input) :: inputs) result.2.1 recps
          result.1 := by
  induction recps generalizing j slot input inputs with
  | nil =>
    exact ⟨.nil, fun _ => rfl, le_refl _, fun _ _ h => absurd h not_mem_nil,
      fun ⟨_, _, hr, _⟩ => absurd hr not_mem_nil⟩
  | cons r recps ih =>
    have hrest : ¬Conflict tokenId (r :: recps) → ¬Conflict tokenId recps ∧ True :=
      fun hconflict => ⟨fun ⟨hissued, other, hother, h⟩ =>
        hconflict ⟨hissued, other, mem_cons_of_mem _ hother, h⟩, trivial⟩
    rw [creditRecipients]
    split
    · rename_i hr
      split
      · rename_i hissue
        exact fun hconflict => hconflict ⟨hr.1.trans hissue, r, mem_cons_self, hissue, hr.2⟩
      rename_i hissue
      obtain ⟨htaken, hdrain, hlengths⟩ :=
        takeFromInputs_spec tokenId r.amount.toNat ((slot :: input) :: inputs)
      have hfront := frontLeft_takeFromInputs hslot r.amount.toNat input inputs
      generalize takeFromInputs tokenId r.amount.toNat ((slot :: input) :: inputs) = result
        at htaken hdrain hlengths hfront ⊢
      obtain ⟨taken, queue₁⟩ := result
      dsimp only at htaken hdrain hlengths hfront ⊢
      -- the loop goes on with a queue of the same shape
      obtain ⟨slot₁, input₁, inputs₁, rfl, -⟩ := exists_front hlengths
      have hslot₁ : Slot.tokenId slot₁ = tokenId := by
        have hitems := map_item_drain tokenKey tokenId taken ((slot :: input) :: inputs).flatten
        rw [← hdrain] at hitems
        exact (congrArg BFXTTokenTxData.tokenId (List.cons.inj hitems).1).trans hslot
      refine ((ih hslot₁ _ _ _).bind fun result hresult => ?_).mono hrest fun _ => id
      rw [show slot₁.left = slot.left - r.amount.toNat from hfront] at hresult
      exact .take hr.1.symm hr.2 hissue htaken hslot hdrain hresult
    rename_i hskip
    refine ((ih hslot _ _ _).bind fun result hresult => ?_).mono hrest fun _ => id
    exact .skip hskip hresult

/-- What a part of crediting does to the books: what leaves the queue has gone to recipients or
into change, and change is only taken where everyone is served. -/
structure Balances (before after : Crediting) : Prop where
  served : ServedAll before.recps after.recps
  amounts : ∀ t, (held tokenKey t before.queue.flatten : Int) + before.totalChangeTokens t -
      requested before.recps t =
    held tokenKey t after.queue.flatten + after.totalChangeTokens t - requested after.recps t
  change_le : ∀ t, before.totalChangeTokens t ≤ after.totalChangeTokens t
  satisfied : ∀ t, before.totalChangeTokens t < after.totalChangeTokens t →
    ∀ r ∈ after.recps, r.tokenId = t → r.amount ≤ 0

theorem Balances.pass (empty : List Slot) (hempty : total empty = 0)
    (hqueue : before.queue.flatten = empty ++ after.queue.flatten)
    (hrecps : after.recps = before.recps)
    (hchange : after.totalChangeTokens = before.totalChangeTokens) : Balances before after where
  served := by
    rw [hrecps]
    exact ServedAll.refl _
  amounts t := by
    have hheld : held tokenKey t empty = 0 := by
      rw [total_eq_zero_iff] at hempty
      refine sum_eq_zero fun n hn => ?_
      obtain ⟨slot, hslot, rfl⟩ := mem_map.mp hn
      rw [hempty slot hslot, ite_self]
    rw [hqueue, held_append, hheld, Nat.zero_add, hrecps, hchange]
  change_le t := by rw [hchange]
  satisfied t h := by
    rw [hchange] at h
    exact absurd h (lt_irrefl _)

theorem Balances.trans (h : Balances first second) (h' : Balances second third) :
    Balances first third where
  served := h.served.trans h'.served
  amounts t := (h.amounts t).trans (h'.amounts t)
  change_le t := (h.change_le t).trans (h'.change_le t)
  satisfied t hlt r'' hr'' hid := by
    rcases (h.change_le t).eq_or_lt with heq | hlt'
    · exact h'.satisfied t (heq ▸ hlt) r'' hr'' hid
    obtain ⟨r', hr', hserved⟩ := exists_of_forall₂ h'.served.flip hr''
    exact hserved.amount_le.trans
      (h.satisfied t hlt' r' hr' (hserved.tokenId_eq.symm.trans hid))

theorem BalancesRecipients.balances
    (h : BalancesRecipients tokenId left before.queue after.queue before.recps after.recps)
    (hchange : after.totalChangeTokens = before.totalChangeTokens) : Balances before after where
  served := h.served
  amounts t := by
    have := h.amounts t
    rw [hchange]
    omega
  change_le t := by rw [hchange]
  satisfied t hlt := by
    rw [hchange] at hlt
    exact absurd hlt (lt_irrefl _)

theorem Balances.sweep (hamount : amount = total (run tokenKey tokenId before.queue.flatten))
    (hdrain : after.queue.flatten = drain tokenKey tokenId amount before.queue.flatten)
    (hrecps : after.recps = before.recps)
    (hchange : after.totalChangeTokens = addChange tokenId amount before.totalChangeTokens)
    (hserved : ∀ r ∈ before.recps, r.tokenId = tokenId → r.amount ≤ 0) : Balances before after where
  served := by
    rw [hrecps]
    exact ServedAll.refl _
  amounts t := by
    have hheld := held_drain tokenKey hamount.le t
    rw [hrecps, hdrain, ← hheld, hchange, addChange]
    split_ifs
    · push_cast
      omega
    · omega
  change_le t := by
    rw [hchange, addChange]
    split_ifs
    · exact Nat.le_add_right _ _
    · exact le_refl _
  satisfied t hlt r hr hid := by
    rw [hchange, addChange] at hlt
    split_ifs at hlt with ht
    · rw [hrecps] at hr
      exact hserved r hr (hid.trans ht)
    · exact absurd hlt (lt_irrefl _)

/-- One slot keeps the books, and does not change the kinds of the slots. -/
theorem CreditsToken.balances (hqueue : state.queue = (slot :: input) :: inputs)
    (h : CreditsToken (Slot.tokenId slot) state after) :
    Balances state after ∧ kinds after.queue = kinds state.queue ∧
      ¬Conflict (Slot.tokenId slot) state.recps := by
  cases h with
  | served hrecipients _ hchange _ =>
    obtain ⟨_, -, hcredits⟩ := creditRecipients_spec hrecipients
    have hkinds := kinds_of_items (hcredits.pays.map_item tokenKey)
    rw [hqueue] at hrecipients
    have hbalances := (creditRecipients_balances rfl _ _ _).of_eq_ok hrecipients
    rw [← hqueue] at hbalances
    exact ⟨hbalances.balances hchange, hkinds, hbalances.noConflict⟩
  | @swept queue TIs amount hrecipients hleft _ hamount hdrain _ _ hchange _ =>
    obtain ⟨_, -, hcredits⟩ := creditRecipients_spec hrecipients
    have hkinds := kinds_of_items (hcredits.pays.map_item tokenKey)
    have hkinds' : kinds after.queue = kinds queue :=
      kinds_of_items (by rw [hdrain, map_item_drain])
    rw [hqueue] at hrecipients
    have hbalances := (creditRecipients_balances rfl _ _ _).of_eq_ok hrecipients
    rw [← hqueue] at hbalances
    have hfirst : Balances state ⟨queue, after.recps, state.totalChangeTokens, TIs⟩ :=
      hbalances.balances rfl
    refine ⟨hfirst.trans ?_, hkinds'.trans hkinds, hbalances.noConflict⟩
    exact .sweep hamount hdrain rfl hchange (hbalances.satisfied hleft)

theorem exists_creditToken (hqueue : state.queue = (slot :: input) :: inputs)
    (hconflict : ¬Conflict (Slot.tokenId slot) state.recps) :
    ∃ after, creditToken (Slot.tokenId slot) state = .ok after := by
  obtain ⟨⟨recps, queue, TIs⟩, hresult, -⟩ :=
    (creditRecipients_balances rfl 0 input inputs).returns hconflict
  rw [creditToken, hqueue, hresult, ok_bind]
  dsimp only
  split
  · exact ⟨_, rfl⟩
  · exact ⟨_, rfl⟩

/-- The books are kept slot by slot, and no slot that is passed is in conflict. -/
theorem slotRule_balances : SlotRule fun before after _ =>
    Balances before after ∧ ∃ passed, kinds before.queue = passed ++ kinds after.queue ∧
      ∀ kind ∈ passed, ¬Conflict kind before.recps where
  pass hqueue hrecps hchange := by
    refine ⟨.pass [] rfl hqueue.symm hrecps hchange, [], ?_, nofun⟩
    rw [kinds, kinds, hqueue, nil_append]
  slot := by
    intro state credited slot slot' input input' inputs inputs' TIs hqueue hcredited hslot htoken _
    obtain ⟨hbalances, hkinds, hconflict⟩ := CreditsToken.balances hqueue htoken
    have hpass : Balances credited { credited with queue := input' :: inputs' } := by
      refine .pass [slot'] (by simp [hslot]) ?_ rfl rfl
      rw [hcredited]
      rfl
    rw [hcredited, hqueue] at hkinds
    refine ⟨hbalances.trans hpass, [Slot.tokenId slot], ?_, by simpa using hconflict⟩
    obtain ⟨hfront, -⟩ := List.cons.inj hkinds
    rw [hqueue, ← hkinds, ← show Slot.tokenId slot' = Slot.tokenId slot from hfront]
    rfl
  trans := by
    rintro first second third - - ⟨hbalances, passed, hkinds, hconflicts⟩
      ⟨hbalances', passed', hkinds', hconflicts'⟩
    refine ⟨hbalances.trans hbalances', passed ++ passed', ?_, ?_⟩
    · rw [hkinds, hkinds', append_assoc]
    refine forall_mem_append.mpr ⟨hconflicts, fun kind hkind => ?_⟩
    rw [← hbalances.served.conflict_iff]
    exact hconflicts' kind hkind

theorem exists_creditInput (state : Crediting) (hqueue : state.queue = input :: inputs)
    (hn : input.length = n)
    (hconflicts : ∀ kind ∈ input.map Slot.tokenId, ¬Conflict kind state.recps) :
    ∃ after, creditInput n state = .ok after := by
  induction n generalizing input inputs state with
  | zero => exact ⟨_, rfl⟩
  | succ n ih =>
    obtain ⟨slot, input, rfl⟩ := exists_cons_of_length_eq_add_one hn
    have hn : input.length = n := by simpa using hn
    obtain ⟨hconflict, hconflicts⟩ := forall_mem_cons.mp hconflicts
    obtain ⟨credited, hcredit⟩ := exists_creditToken hqueue hconflict
    have htoken := creditToken_eq_ok hqueue hcredit
    obtain ⟨hbalances, hkinds, -⟩ := CreditsToken.balances hqueue htoken
    obtain ⟨-, hlengths⟩ := htoken.front
    rw [hqueue] at hlengths
    obtain ⟨slot', input', inputs', hcredited, hinput, -⟩ := exists_front hlengths
    rw [hcredited, hqueue] at hkinds
    obtain ⟨-, hrest⟩ := List.cons.inj hkinds
    rw [append_eq, append_eq, map_append, map_append] at hrest
    have hinputKinds := (append_inj hrest (by rw [length_map, length_map, hinput])).1
    obtain ⟨after, hafter⟩ := @ih input' inputs'
      { credited with queue := dropFront credited.queue }
      (show dropFront credited.queue = input' :: inputs' by rw [hcredited]; rfl)
      (hinput.trans hn) (fun kind hkind => by
        rw [hbalances.served.conflict_iff]
        exact hconflicts kind (hinputKinds ▸ hkind))
    refine ⟨after, ?_⟩
    simp only [creditInput, hqueue]
    exact bind_eq_ok.mpr ⟨credited, hcredit, hafter⟩

/-- All inputs: the books are kept, every slot is emptied, and no slot was in conflict. -/
theorem creditInputs_balances (state : Crediting) (hlength : state.queue.length = inputs.length)
    (h : creditInputs inputs state = .ok (itis, final)) :
    Balances state final ∧ final.queue = [] ∧
      ∀ kind ∈ kinds state.queue, ¬Conflict kind state.recps := by
  obtain ⟨⟨hbalances, passed, hkinds, hconflicts⟩, hfinal⟩ :=
    slotRule_balances.creditInputs state hlength h
  rw [hfinal, show kinds [] = [] from rfl, append_nil] at hkinds
  exact ⟨hbalances, hfinal, hkinds ▸ hconflicts⟩

theorem exists_creditInputs {inputs : List COutPoint} (state : Crediting)
    (hlength : state.queue.length = inputs.length)
    (hconflicts : ∀ kind ∈ kinds state.queue, ¬Conflict kind state.recps) :
    ∃ result, creditInputs inputs state = .ok result := by
  induction inputs generalizing state with
  | nil => exact ⟨_, rfl⟩
  | cons outpoint inputs ih =>
    obtain ⟨_, recps, totalChangeTokens, TIs⟩ := state
    obtain ⟨input, queue, rfl⟩ := exists_cons_of_length_eq_add_one hlength
    have hsplit : kinds (input :: queue) = input.map Slot.tokenId ++ kinds queue := by
      rw [kinds, flatten_cons, map_append, kinds]
    dsimp only at hconflicts
    rw [hsplit] at hconflicts
    obtain ⟨credited, hcredit⟩ := exists_creditInput
      ⟨input :: queue, recps, totalChangeTokens, []⟩ rfl rfl
      fun kind hkind => hconflicts kind (mem_append_left _ hkind)
    obtain ⟨-, -, ⟨hbalances, passed, hkinds, -⟩, queue', hcredited, hqueue'⟩ :=
      slotRule_balances.creditInput ⟨input :: queue, recps, totalChangeTokens, []⟩ rfl rfl hcredit
    rw [hcredited] at hkinds
    obtain ⟨result, hresult⟩ := ih { credited with queue := credited.queue.tail }
      (by rw [hcredited]; simpa [hqueue'] using hlength) (fun kind hkind => by
        rw [hbalances.served.conflict_iff]
        refine hconflicts kind ?_
        rw [← hsplit, show kinds (input :: queue) = _ from hkinds]
        rw [hcredited] at hkind
        exact mem_append_right _ hkind)
    exact ⟨_, bind_eq_ok.mpr ⟨credited, hcredit, bind_eq_ok.mpr ⟨result, hresult, rfl⟩⟩⟩

end Crediting

section Fulfilment

def amountOn (wallet : BFXTWallet) (t : String) (outputs : List COutPoint) : Nat :=
  tokenAmount t (outputs.flatMap (walletTokens wallet))

variable {wallet : BFXTWallet} {t : String}

@[simp] theorem amountOn_nil : amountOn wallet t [] = 0 := rfl

@[simp] theorem amountOn_cons (output : COutPoint) (outputs : List COutPoint) :
    amountOn wallet t (output :: outputs) =
      tokenAmount t (walletTokens wallet output) + amountOn wallet t outputs := by
  rw [amountOn, flatMap_cons, tokenAmount_append, amountOn]

@[simp] theorem amountOn_append (outputs outputs' : List COutPoint) :
    amountOn wallet t (outputs ++ outputs') =
      amountOn wallet t outputs + amountOn wallet t outputs' := by
  rw [amountOn, flatMap_append, tokenAmount_append, amountOn, amountOn]

theorem amountOn_perm (hperm : outputs.Perm outputs') :
    amountOn wallet t outputs = amountOn wallet t outputs' :=
  tokenAmount_perm t (hperm.flatMap_right _)

theorem amountOn_eq_zero (h : ∀ output ∈ outputs, tokenAmount t (walletTokens wallet output) = 0) :
    amountOn wallet t outputs = 0 := by
  rw [amountOn, tokenAmount_flatMap]
  exact sum_eq_zero (by simpa using h)

theorem held_decreditSlots (inputs : List COutPoint) :
    held tokenKey t (decreditSlots wallet inputs).flatten = amountOn wallet t inputs := by
  have htokens : ∀ tokens : List BFXTTokenTxData,
      held tokenKey t (tokens.map fun token => ⟨token, token.amount⟩) = tokenAmount t tokens := by
    intro tokens
    induction tokens with
    | nil => rfl
    | cons token tokens ih =>
      rw [map_cons, held_cons, ih, tokenAmount_cons]
  induction inputs with
  | nil => rfl
  | cons input inputs ih =>
    rw [decreditSlots, map_cons, flatten_cons, held_append, ← decreditSlots, ih,
      amountOn_cons, htokens]

theorem kinds_decreditSlots (inputs : List COutPoint) :
    kinds (decreditSlots wallet inputs) =
      (inputs.flatMap (walletTokens wallet)).map (·.tokenId) := by
  rw [← map_item_decreditSlots, kinds, map_map]
  rfl

variable {recps : List BFXTSendTokensOneRecipientData}

theorem requested_eq_zero (h : ∀ r ∈ recps, r.tokenId = t → r.amount = 0) :
    requested recps t = 0 := by
  refine sum_eq_zero fun n hn => ?_
  obtain ⟨r, hr, rfl⟩ := mem_map.mp hn
  split_ifs with hid
  · exact h r hr hid
  · rfl

theorem amount_le_requested (hnonneg : ∀ r ∈ recps, r.tokenId = t → 0 ≤ r.amount) (hr : r ∈ recps)
    (hid : r.tokenId = t) : r.amount ≤ requested recps t := by
  have hterm : r.amount ∈ recps.map fun r => if r.tokenId = t then r.amount else 0 :=
    mem_map.mpr ⟨r, hr, if_pos hid⟩
  refine single_le_sum (fun n hn => ?_) _ hterm
  obtain ⟨other, hother, rfl⟩ := mem_map.mp hn
  split_ifs with hotherId
  · exact hnonneg other hother hotherId
  · exact le_refl _

theorem ensureFulfilled_of_forall
    (h : ∀ r ∈ recps, r.tokenId = neblTokenId ∨ r.tokenId = toIssueTokenId ∨ r.amount = 0) :
    ensureFulfilled recps = .ok () := by
  induction recps with
  | nil => rfl
  | cons r recps ih =>
    rw [forall_mem_cons] at h
    rw [ensureFulfilled, if_pos h.1, ih h.2]

def Placeholder (t : String) : Prop := t = neblTokenId ∨ t = toIssueTokenId

instance (t : String) : Decidable (Placeholder t) := inferInstanceAs (Decidable (_ ∨ _))

/-- What has to hold for the recipients of a token to be served out of some outputs. -/
structure Servable (wallet : BFXTWallet) (outputs : List COutPoint)
    (recps : List BFXTSendTokensOneRecipientData) (t : String) : Prop where
  nonneg : ∀ r ∈ recps, r.tokenId = t → 0 ≤ r.amount
  covered : requested recps t ≤ amountOn wallet t outputs

variable {inputs : List COutPoint} {recps : List BFXTSendTokensOneRecipientData}
  {itis : List IntermediaryTI} {final : Crediting}

variable (hcredit : creditInputs inputs ⟨decreditSlots wallet inputs, recps, fun _ => 0, []⟩ =
  .ok (itis, final))
include hcredit

theorem creditInputs_amounts (t : String) :
    (amountOn wallet t inputs : Int) - requested recps t =
      final.totalChangeTokens t - requested final.recps t := by
  obtain ⟨hbalances, hfinal, -⟩ := creditInputs_balances _ (by simp [decreditSlots]) hcredit
  have hamounts := hbalances.amounts t
  dsimp only at hamounts
  rw [hfinal, held_decreditSlots, flatten_nil, held_nil] at hamounts
  push_cast at hamounts
  omega

theorem fulfilled_iff :
    ensureFulfilled final.recps = .ok () ↔
      ∀ t, ¬Placeholder t → Servable wallet inputs recps t := by
  obtain ⟨hbalances, -, -⟩ := creditInputs_balances _ (by simp [decreditSlots]) hcredit
  constructor
  · intro hfulfilled t ht
    have hzero : ∀ r' ∈ final.recps, r'.tokenId = t → r'.amount = 0 := by
      intro r' hr' hid
      rcases ensureFulfilled_eq_ok hfulfilled r' hr' with h | h | h
      · exact absurd (.inl (hid.symm.trans h)) ht
      · exact absurd (.inr (hid.symm.trans h)) ht
      · exact h
    have hamounts := creditInputs_amounts hcredit t
    rw [requested_eq_zero hzero] at hamounts
    refine ⟨fun r hr hid => ?_, by omega⟩
    obtain ⟨r', hr', hserved⟩ := exists_of_forall₂ hbalances.served hr
    have hr'zero := hzero r' hr' (hserved.tokenId_eq.trans hid)
    by_contra hneg
    have := hserved.satisfied (by omega)
    omega
  intro hservable
  refine ensureFulfilled_of_forall fun r' hr' => ?_
  rw [← or_assoc]
  refine or_iff_not_imp_left.mpr fun hplace => ?_
  obtain ⟨r, hr, hserved⟩ := exists_of_forall₂ hbalances.served.flip hr'
  have hnonneg : ∀ r' ∈ final.recps, r'.tokenId = r.tokenId → 0 ≤ r'.amount := by
    intro other hother hid
    obtain ⟨before, hbefore, hserved'⟩ := exists_of_forall₂ hbalances.served.flip hother
    exact hserved'.nonneg ((hservable _ (hserved.tokenId_eq ▸ hplace)).nonneg before hbefore
      (hserved'.tokenId_eq.symm.trans hid))
  have hcovered := (hservable _ (hserved.tokenId_eq ▸ hplace)).covered
  have hamounts := creditInputs_amounts hcredit r.tokenId
  have hle := amount_le_requested hnonneg hr' hserved.tokenId_eq
  by_contra hne
  have hpos : 0 < r'.amount := lt_of_le_of_ne (hnonneg r' hr' hserved.tokenId_eq) (Ne.symm hne)
  -- someone still waits, so nothing of the token has become change
  have hchange : final.totalChangeTokens r.tokenId = 0 := by
    by_contra hchange
    have := hbalances.satisfied r.tokenId (Nat.pos_of_ne_zero hchange) r' hr' hserved.tokenId_eq
    omega
  rw [hchange] at hamounts
  omega

omit hcredit

end Fulfilment

end Bfx.SelectorBalance
