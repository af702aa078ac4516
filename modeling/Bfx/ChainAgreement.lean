import Bfx.BestChain

/-!
When `SetBestChain` leaves memory, links and database in agreement.
-/

namespace Bfx.ChainAgreement

open BestChain BlockConnection BlockTree CallOutcome ChainIndex Function InputConnection List
  MintingBound NodeState SpentIndex Transaction

variable {p q : IndexPtr} {list : List IndexPtr} {env : ChainEnv} {hash : UInt256}

section Paths

/-- The entries from `p` up to `q`, without `p`, the lowest first. -/
inductive Climbs : IndexPtr → List IndexPtr → IndexPtr → Prop
  | refl (p : IndexPtr) : Climbs p [] p
  | step {entry : IndexEntry} {p q : IndexPtr} {list : List IndexPtr}
      (h : Climbs (entry :: p) list q) : Climbs p ((entry :: p) :: list) q

theorem Climbs.concat (h : Climbs p list q) (entry : IndexEntry) :
    Climbs p (list ++ [entry :: q]) (entry :: q) := by
  induction h with
  | refl p => exact .step (.refl _)
  | step _ ih => exact .step ih

theorem Climbs.suffix (h : Climbs p list q) : p <:+ q := by
  induction h with
  | refl p => exact suffix_refl _
  | step _ ih => exact (suffix_cons _ _).trans ih

theorem not_cons_suffix : ¬ entry :: p <:+ p :=
  fun h => Nat.not_succ_le_self _ h.length_le

theorem not_pair_suffix : ¬ entry :: parent :: p <:+ [other] :=
  fun h => absurd h.length_le (by simp)

variable (h : Climbs p list q)
include h

theorem Climbs.mem_suffix (hr : r ∈ list) : r <:+ q := by
  induction h with
  | refl p => cases hr
  | step hrest ih =>
    rcases mem_cons.mp hr with rfl | hr
    · exact hrest.suffix
    · exact ih hr

theorem Climbs.trans (h' : Climbs q list' r) : Climbs p (list ++ list') r := by
  induction h with
  | refl p => exact h'
  | step _ ih => exact .step (ih h')

theorem Climbs.mem_iff : r ∈ list ↔ r <:+ q ∧ ¬ r <:+ p := by
  induction h with
  | refl p => simp
  | @step entry p q list hrest ih =>
    rw [mem_cons, ih, suffix_cons_iff, not_or]
    constructor
    · rintro (rfl | ⟨hr, -, hnot⟩)
      · exact ⟨hrest.suffix, not_cons_suffix⟩
      · exact ⟨hr, hnot⟩
    rintro ⟨hr, hnot⟩
    rcases eq_or_ne r (entry :: p) with heq | hne
    · exact .inl heq
    · exact .inr ⟨hr, hne, hnot⟩

omit h

theorem above_self (p : IndexPtr) : above p p = [] := by
  cases p with
  | nil => rfl
  | cons entry p => exact if_pos rfl

theorem above_cons (h : p <:+ q) (entry : IndexEntry) :
    above p (entry :: q) = (entry :: q) :: above p q := by
  refine if_neg ?_
  rintro rfl
  exact not_cons_suffix h

theorem climbs_above (h : p <:+ q) : Climbs p (above p q).reverse q := by
  obtain ⟨upper, rfl⟩ := h
  induction upper with
  | nil =>
    rw [nil_append, above_self]
    exact .refl _
  | cons entry upper ih =>
    rw [cons_append, above_cons (suffix_append _ _), reverse_cons]
    exact ih.concat entry

theorem stepDown_eq_some (h : stepDown pfork plonger = some pindex) :
    pindex <:+ plonger ∧ pindex.length ≤ pfork.length ∧
      ∀ r, r <:+ plonger → r.length ≤ pfork.length → r <:+ pindex := by
  induction plonger with
  | nil => cases h
  | cons entry pprev ih =>
    rw [stepDown, nHeight, nHeight] at h
    split at h
    · rename_i hhigher
      obtain ⟨hsuffix, hle, hmax⟩ := ih h
      refine ⟨hsuffix.trans (suffix_cons _ _), hle, fun r hr hheight => ?_⟩
      refine hmax r ((suffix_cons_iff.mp hr).resolve_left ?_) hheight
      rintro rfl
      omega
    · cases h
      exact ⟨suffix_refl _, by omega, fun r hr _ => hr⟩

theorem findFork_eq_ok (h : findFork pindex plonger = .ok pfork) :
    pfork ≠ [] ∧ pfork <:+ pindex ∧ pfork <:+ plonger ∧
      ∀ r, r <:+ pindex → r <:+ plonger → r <:+ pfork := by
  induction pindex generalizing plonger with
  | nil => cases h
  | cons entry pprev ih =>
    rw [findFork] at h
    split at h
    · rename_i heq
      cases h
      rw [← heq]
      exact ⟨cons_ne_nil _ _, suffix_refl _, suffix_refl _, fun r hr _ => hr⟩
    split at h
    · cases h
    rename_i lower hlower
    obtain ⟨hsuffix, hle, hbelow⟩ := stepDown_eq_some hlower
    split at h
    · rename_i heq
      cases h
      rw [← heq] at hsuffix ⊢
      exact ⟨cons_ne_nil _ _, suffix_refl _, hsuffix, fun r hr _ => hr⟩
    rename_i hne
    obtain ⟨hnil, hpprev, hfork, hmax⟩ := ih h
    refine ⟨hnil, hpprev.trans (suffix_cons _ _), hfork.trans hsuffix, fun r hr hr' => ?_⟩
    have hlow := hbelow r hr' hr.length_le
    refine hmax r ((suffix_cons_iff.mp hr).resolve_left ?_) hlow
    rintro rfl
    exact hne (hlow.eq_of_length_le hle)

theorem postpone_eq (nBestTrust : Nat) (pindex : IndexPtr) :
    (postpone nBestTrust pindex).2 <:+ pindex ∧
      (postpone nBestTrust pindex).1 = above (postpone nBestTrust pindex).2 pindex := by
  induction pindex with
  | nil => exact ⟨suffix_refl _, rfl⟩
  | cons entry pprev ih =>
    obtain ⟨hsuffix, heq⟩ := ih
    rw [postpone]
    split
    · exact ⟨hsuffix.trans (suffix_cons _ _), by rw [above_cons hsuffix, ← heq]⟩
    · exact ⟨suffix_refl _, (above_self _).symm⟩

end Paths

section Links

/-- Entries of the chain with one hash are one entry. -/
def Distinct (pindex : IndexPtr) : Prop :=
  ∀ entry pprev entry' pprev', entry :: pprev <:+ pindex → entry' :: pprev' <:+ pindex →
    entry.hashBlock = entry'.hashBlock → entry :: pprev = entry' :: pprev'

theorem distinct_of_mapOk (hmap : MapOk memory)
    (hpindex : memory.mapBlockIndex hash = some pindex) : Distinct pindex := by
  intro entry pprev entry' pprev' h h' heq
  have hfirst := hmap.closed hash pindex hpindex entry pprev h
  have hsecond := hmap.closed hash pindex hpindex entry' pprev' h'
  rw [heq] at hfirst
  exact Option.mem_unique hfirst hsecond

theorem Distinct.suffix (h : Distinct pindex) (hsuffix : pindex' <:+ pindex) : Distinct pindex' :=
  fun _ _ _ _ hfirst hsecond => h _ _ _ _ (hfirst.trans hsuffix) (hsecond.trans hsuffix)

def LinkedTo (pnext : UInt256 → Option UInt256) (pindex : IndexPtr) : Prop :=
  ∀ hash next, pnext hash = some next ↔ ∃ entry parent pprev,
    entry :: parent :: pprev <:+ pindex ∧ parent.hashBlock = hash ∧ entry.hashBlock = next

variable {entry : IndexEntry} {pprev : IndexPtr}

theorem exists_pair_cons_iff {hash next : UInt256} :
    (∃ entry' parent' pprev', entry' :: parent' :: pprev' <:+ entry :: parent :: pprev ∧
        parent'.hashBlock = hash ∧ entry'.hashBlock = next) ↔
      (parent.hashBlock = hash ∧ entry.hashBlock = next) ∨
        ∃ entry' parent' pprev', entry' :: parent' :: pprev' <:+ parent :: pprev ∧
          parent'.hashBlock = hash ∧ entry'.hashBlock = next := by
  constructor
  · rintro ⟨entry', parent', pprev', hsuffix, hhash, hnext⟩
    rcases suffix_cons_iff.mp hsuffix with heq | hsuffix
    · obtain ⟨rfl, hrest⟩ := List.cons.inj heq
      obtain ⟨rfl, rfl⟩ := List.cons.inj hrest
      exact .inl ⟨hhash, hnext⟩
    · exact .inr ⟨entry', parent', pprev', hsuffix, hhash, hnext⟩
  rintro (⟨hhash, hnext⟩ | ⟨entry', parent', pprev', hsuffix, hhash, hnext⟩)
  · exact ⟨entry, parent, pprev, suffix_refl _, hhash, hnext⟩
  · exact ⟨entry', parent', pprev', hsuffix.trans (suffix_cons _ _), hhash, hnext⟩

theorem Distinct.not_parent (h : Distinct (parent :: pprev)) :
    ¬ ∃ entry' parent' pprev', entry' :: parent' :: pprev' <:+ parent :: pprev ∧
      parent'.hashBlock = parent.hashBlock ∧ entry'.hashBlock = n := by
  rintro ⟨entry', parent', pprev', hsuffix, hhash, -⟩
  have heq := h parent' pprev' parent pprev ((suffix_cons _ _).trans hsuffix)
    (suffix_refl _) hhash
  rw [heq] at hsuffix
  exact not_cons_suffix hsuffix

theorem LinkedTo.link (h : LinkedTo pnext pprev) (entry : IndexEntry) (hdistinct : Distinct pprev) :
    LinkedTo (link pnext (entry :: pprev)) (entry :: pprev) := by
  intro hash next
  cases pprev with
  | nil =>
    refine (h hash next).trans ⟨?_, ?_⟩
    · rintro ⟨entry', parent', pprev', hsuffix, -⟩
      cases suffix_nil.mp hsuffix
    rintro ⟨entry', parent', pprev', hsuffix, -⟩
    exact absurd hsuffix not_pair_suffix
  | cons parent pprev =>
    rw [exists_pair_cons_iff, ← h hash next, BestChain.link]
    rcases eq_or_ne hash parent.hashBlock with rfl | hne
    · rw [update_self, Option.some.injEq]
      refine ⟨fun heq => .inl ⟨rfl, heq⟩, ?_⟩
      rintro (⟨-, heq⟩ | hold)
      · exact heq
      · exact absurd ((h _ _).mp hold) hdistinct.not_parent
    · rw [update_of_ne hne]
      exact (or_iff_right fun hparent => hne hparent.1.symm).symm

theorem LinkedTo.unlink (h : LinkedTo pnext (entry :: pprev)) (hdistinct : Distinct pprev) :
    LinkedTo (unlink pnext (entry :: pprev)) pprev := by
  intro hash next
  cases pprev with
  | nil =>
    refine (h hash next).trans ⟨?_, ?_⟩
    · rintro ⟨entry', parent', pprev', hsuffix, -⟩
      exact absurd hsuffix not_pair_suffix
    · rintro ⟨entry', parent', pprev', hsuffix, -⟩
      cases suffix_nil.mp hsuffix
  | cons parent pprev =>
    have hpair := h hash next
    rw [exists_pair_cons_iff] at hpair
    rw [BestChain.unlink]
    rcases eq_or_ne hash parent.hashBlock with rfl | hne
    · rw [update_self]
      exact iff_of_false (fun h => by cases h) hdistinct.not_parent
    · rw [update_of_ne hne, hpair]
      exact or_iff_right fun hparent => hne hparent.1.symm

theorem LinkedTo.climb (h : LinkedTo pnext p) (hclimbs : Climbs p list q) (hdistinct : Distinct q) :
    LinkedTo (list.foldl BestChain.link pnext) q := by
  induction hclimbs generalizing pnext with
  | refl p => exact h
  | step hrest ih =>
    exact ih (h.link _ (hdistinct.suffix ((suffix_cons _ _).trans hrest.suffix))) hdistinct

theorem LinkedTo.descend (h : LinkedTo pnext q) (hsuffix : p <:+ q) (hdistinct : Distinct q) :
    LinkedTo ((above p q).foldl BestChain.unlink pnext) p := by
  obtain ⟨upper, rfl⟩ := hsuffix
  induction upper generalizing pnext with
  | nil =>
    rw [nil_append] at h ⊢
    rwa [above_self]
  | cons entry upper ih =>
    have hdistinct' := hdistinct.suffix (suffix_cons _ _)
    rw [cons_append, above_cons (suffix_append _ _), foldl_cons]
    exact ih (h.unlink hdistinct') hdistinct'

theorem LinkedTo.isInMainChain (h : LinkedTo memory.pnext q) (hsuffix : entry :: pprev <:+ q)
    (hne : entry :: pprev ≠ q) : isInMainChain memory (entry :: pprev) = true := by
  obtain ⟨upper, rfl⟩ := hsuffix
  have hupper : upper ≠ [] := by
    rintro rfl
    exact hne rfl
  have hlink : memory.pnext entry.hashBlock = some (upper.getLast hupper).hashBlock := by
    refine (h _ _).mpr ⟨upper.getLast hupper, entry, pprev, ⟨upper.dropLast, ?_⟩, rfl, rfl⟩
    conv_rhs => rw [← dropLast_append_getLast hupper]
    rw [append_assoc, singleton_append]
  rw [NodeState.isInMainChain]
  change ((memory.pnext entry.hashBlock).isSome || _) = true
  rw [hlink]
  rfl

end Links

section Moves

variable {τ : Type} {state next : State τ}

section Records

variable (memory : Memory) (pindex : IndexPtr) (hashNext : UInt256) (txdb : NodeDb τ)

@[simp] theorem writeBlockIndex_blocks :
    (writeBlockIndex memory pindex hashNext txdb).blocks = txdb.blocks := by
  cases pindex with
  | nil => rfl
  | cons entry pprev => rfl

@[simp] theorem writeBlockIndex_txIndex :
    (writeBlockIndex memory pindex hashNext txdb).txIndex = txdb.txIndex := by
  cases pindex with
  | nil => rfl
  | cons entry pprev => rfl

@[simp] theorem writeBlockIndex_hashBestChain :
    (writeBlockIndex memory pindex hashNext txdb).hashBestChain = txdb.hashBestChain := by
  cases pindex with
  | nil => rfl
  | cons entry pprev => rfl

@[simp] theorem writeBlockIndex_tokens :
    (writeBlockIndex memory pindex hashNext txdb).tokens = txdb.tokens := by
  cases pindex with
  | nil => rfl
  | cons entry pprev => rfl

theorem writeBlockIndex_recorded (h : (txdb.blockIndexes hash).isSome) :
    ((writeBlockIndex memory pindex hashNext txdb).blockIndexes hash).isSome := by
  cases pindex with
  | nil => exact h
  | cons entry pprev =>
    rw [writeBlockIndex]
    dsimp only
    rcases eq_or_ne hash entry.hashBlock with rfl | hne
    · rw [update_self]
      rfl
    · rwa [update_of_ne hne]

end Records

/-- A block that is connected or disconnected changes the index, the records and the
tokens in the view of the handle, and the amounts in memory. -/
structure Moved (state next : State τ) : Prop where
  memory_eq : next.memory = { state.memory with amounts := next.memory.amounts }
  committed_eq : next.committed = state.committed
  blocks_eq : next.txdb.blocks = state.txdb.blocks
  hashBestChain_eq : next.txdb.hashBestChain = state.txdb.hashBestChain
  recorded : ∀ hash, (state.txdb.blockIndexes hash).isSome → (next.txdb.blockIndexes hash).isSome

theorem Moved.refl (state : State τ) : Moved state state :=
  ⟨rfl, rfl, rfl, rfl, fun _ h => h⟩

theorem Moved.trans (h : Moved state next) (h' : Moved next final) : Moved state final := by
  refine ⟨?_, h'.committed_eq.trans h.committed_eq, h'.blocks_eq.trans h.blocks_eq,
    h'.hashBestChain_eq.trans h.hashBestChain_eq, fun hash hsome => h'.recorded _ (h.recorded _ hsome)⟩
  rw [h'.memory_eq, h.memory_eq]

theorem readFromDisk_congr {env : ChainEnv} {txdb txdb' : NodeDb τ} (h : txdb'.blocks = txdb.blocks)
    (pindex : IndexPtr) : readFromDisk env txdb' pindex = readFromDisk env txdb pindex := by
  rw [readFromDisk, readFromDisk, h]

variable {entry : IndexEntry} {pprev : IndexPtr} {block : CBlock}
  {before after : UInt256 → Option CTxIndex} {create : Bool}

theorem Moved.andThen {next : State τ → Verdict Unit × State τ} (h : Moved state result.2)
    (hnext : ∀ middle, Moved middle (next middle).2) :
    Moved state (BestChain.andThen result next).2 := by
  rcases result with ⟨refusal | ⟨⟩, middle⟩
  · exact h
  · exact h.trans (hnext middle)

theorem moved_connectOrLeave (entry : IndexEntry) (pprev : IndexPtr) (block : CBlock)
    (state : State τ) : Moved state (connectOrLeave s entry pprev block state).2 := by
  rw [connectOrLeave]
  split
  · rename_i connected hconnect
    obtain ⟨result, -, hstate⟩ := bind_eq_ok.mp hconnect
    cases hstate
    refine ⟨rfl, rfl, by simp, by simp, fun hash hsome => ?_⟩
    exact writeBlockIndex_recorded _ _ _ _ (writeBlockIndex_recorded _ _ _ _ hsome)
  rw [leaveUnfinished]
  split
  · exact .refl state
  refine ⟨rfl, rfl, ?_, ?_, fun hash hsome => ?_⟩ <;> dsimp only <;> split
  · simp
  · rfl
  · simp
  · rfl
  · exact writeBlockIndex_recorded _ _ _ _ hsome
  · exact hsome

theorem moved_disconnectOrLeave (entry : IndexEntry) (pprev : IndexPtr) (block : CBlock)
    (state : State τ) : Moved state (disconnectOrLeave s entry pprev block state).2 := by
  rw [disconnectOrLeave]
  split
  · exact ⟨rfl, rfl, by simp, by simp, fun _ h => writeBlockIndex_recorded _ _ _ _ h⟩
  · exact ⟨rfl, rfl, rfl, rfl, fun _ h => h⟩

theorem connectBlockIn_eq_ok (h : connectOrLeave s entry pprev block state = (.ok (), next)) :
    connectBlockIn s state entry pprev block = .ok next := by
  rw [connectOrLeave] at h
  split at h
  · rename_i connected hconnect
    rw [hconnect, (Prod.mk.inj h).2]
  · cases (Prod.mk.inj h).1

theorem connectOrLeave_eq_ok (h : connectOrLeave s entry pprev block state = (.ok (), next)) :
    Moved state next ∧ ∀ hash,
      (hash ∉ block.vtx.map s.env.getHash ∧
          positions next.txdb.txIndex hash = positions state.txdb.txIndex hash) ∨
        PlacedAt s.env entry.blockKeyInDB (firstTxPos false block) block.vtx hash
          (positions next.txdb.txIndex hash) := by
  have hmoved := @moved_connectOrLeave τ s entry pprev block state
  rw [h] at hmoved
  refine ⟨hmoved, fun hash => ?_⟩
  obtain ⟨result, hresult, hstate⟩ := bind_eq_ok.mp (connectBlockIn_eq_ok h)
  cases hstate
  rw [writeBlockIndex_txIndex, writeBlockIndex_txIndex]
  obtain ⟨coinbase, others, hchecked⟩ := checkBlock_eq_ok (connectBlock_eq_ok hresult).1
  obtain ⟨final, hfinal, hqueued⟩ := connectBlock_queued hresult
  rw [hqueued]
  exact connectTransactions_positions (hchecked.firstTxPos_lt false) hfinal hash

theorem disconnectOrLeave_eq_ok (h : disconnectOrLeave s entry pprev block state = (.ok (), next)) :
    Moved state next ∧ next.txdb.tokens = state.txdb.tokens ∧
      ∀ hash, positions next.txdb.txIndex hash =
        if hash ∈ block.vtx.map s.env.getHash then none
        else positions state.txdb.txIndex hash := by
  have hmoved := @moved_disconnectOrLeave τ s entry pprev block state
  rw [h] at hmoved
  refine ⟨hmoved, ?_⟩
  rw [disconnectOrLeave] at h
  split at h
  · rename_i index hindex
    obtain rfl := (Prod.mk.inj h).2
    rw [writeBlockIndex_txIndex, writeBlockIndex_tokens]
    obtain ⟨cleared, hcleared, hindex⟩ := bind_eq_ok.mp hindex
    obtain ⟨_, -, hindex⟩ := bind_eq_ok.mp hindex
    refine ⟨rfl, fun hash => ?_⟩
    rw [← Except.ok.inj hindex, positions_disconnectTransactions hcleared]
    simp only [map_reverse, mem_reverse]
  · cases (Prod.mk.inj h).1

theorem moved_disconnectBlocks (list : List IndexPtr) (state : State τ) :
    Moved state (disconnectBlocks s list state).2 := by
  induction list generalizing state with
  | nil => exact .refl state
  | cons pindex rest ih =>
    cases pindex with
    | nil => exact .refl state
    | cons entry pprev =>
      rw [disconnectBlocks]
      split
      · exact .refl state
      refine .andThen ?_ ih
      rw [orError_state]
      exact moved_disconnectOrLeave _ _ _ state

theorem moved_connectBlocks (list : List IndexPtr) (state : State τ) :
    Moved state (connectBlocks s list state).2 := by
  induction list generalizing state with
  | nil => exact .refl state
  | cons pindex rest ih =>
    cases pindex with
    | nil => exact .refl state
    | cons entry pprev =>
      rw [connectBlocks]
      split
      · exact .refl state
      refine .andThen ?_ ih
      rw [orError_state]
      exact moved_connectOrLeave _ _ _ state

def txidsOf (env : ChainEnv) (txdb : NodeDb τ) (list : List IndexPtr) : List UInt256 :=
  (list.filterMap (readFromDisk env txdb)).flatMap fun block => block.vtx.map env.getHash

theorem txidsOf_cons (h : readFromDisk env txdb pindex = some block) (list : List IndexPtr) :
    txidsOf env txdb (pindex :: list) = block.vtx.map env.getHash ++ txidsOf env txdb list := by
  rw [txidsOf, filterMap_cons, h]
  rfl

theorem mem_txidsOf :
    hash ∈ txidsOf env txdb list ↔ ∃ pindex ∈ list, ∃ block,
      readFromDisk env txdb pindex = some block ∧ hash ∈ block.vtx.map env.getHash := by
  simp only [txidsOf, mem_flatMap, mem_filterMap]
  constructor
  · rintro ⟨block, ⟨pindex, hpindex, hblock⟩, hmem⟩
    exact ⟨pindex, hpindex, block, hblock, hmem⟩
  · rintro ⟨pindex, hpindex, block, hblock, hmem⟩
    exact ⟨block, ⟨pindex, hpindex, hblock⟩, hmem⟩

theorem txidsOf_congr {txdb txdb' : NodeDb τ} (h : txdb'.blocks = txdb.blocks)
    (list : List IndexPtr) : txidsOf env txdb' list = txidsOf env txdb list := by
  have hread : readFromDisk env txdb' = readFromDisk env txdb := funext (readFromDisk_congr h)
  rw [txidsOf, txidsOf, hread]

/-- After blocks have been connected, an entry of the index is as before or points
into one of the blocks, which has the transaction. -/
def Placed (env : ChainEnv) (txdb : NodeDb τ) (list : List IndexPtr)
    (before after : UInt256 → Option CTxIndex) : Prop :=
  ∀ hash, (hash ∉ txidsOf env txdb list ∧ txBlock after hash = txBlock before hash) ∨
    ∃ entry pprev block, entry :: pprev ∈ list ∧
      readFromDisk env txdb (entry :: pprev) = some block ∧ hash ∈ block.vtx.map env.getHash ∧
      txBlock after hash = some entry.blockKeyInDB

theorem Placed.isSome_iff (h : Placed env txdb list before after) (hash : UInt256) :
    (after hash).isSome ↔ (before hash).isSome ∨ hash ∈ txidsOf env txdb list := by
  rw [← txBlock_isSome after, ← txBlock_isSome before]
  rcases h hash with ⟨hnot, heq⟩ | ⟨entry, pprev, block, hmem, hread, hhash, heq⟩
  · rw [heq, or_iff_left hnot]
  · rw [heq]
    exact iff_of_true rfl (.inr (mem_txidsOf.mpr ⟨_, hmem, block, hread, hhash⟩))

theorem placed_singleton (hread : readFromDisk env txdb (entry :: pprev) = some block)
    (h : ∀ hash, (hash ∉ block.vtx.map env.getHash ∧ positions after hash = positions before hash) ∨
      PlacedAt env entry.blockKeyInDB nTxPos block.vtx hash (positions after hash)) :
    Placed env txdb [entry :: pprev] before after := by
  intro hash
  rw [txBlock_eq_positions, txBlock_eq_positions]
  rcases h hash with ⟨hmem, heq⟩ | ⟨above, tx, below, hvtx, hhash, heq⟩
  · rw [heq, txidsOf_cons hread, mem_append]
    exact .inl ⟨fun h => h.elim hmem not_mem_nil, rfl⟩
  refine .inr ⟨entry, pprev, block, mem_cons_self, hread, ?_, ?_⟩
  · rw [hvtx, ← hhash]
    exact mem_map_of_mem (mem_append_right _ mem_cons_self)
  · rw [heq]
    rfl

theorem Placed.trans (h : Placed env txdb list before middle)
    (h' : Placed env txdb list' middle after) : Placed env txdb (list ++ list') before after := by
  intro hash
  rw [txidsOf, filterMap_append, flatMap_append, mem_append, not_or]
  rcases h' hash with ⟨hnot', heq'⟩ | ⟨entry, pprev, block, hmem, hread, hhash, heq⟩
  · rcases h hash with ⟨hnot, heq⟩ | ⟨entry, pprev, block, hmem, hread, hhash, heq⟩
    · exact .inl ⟨⟨hnot, hnot'⟩, heq'.trans heq⟩
    · exact .inr ⟨entry, pprev, block, mem_append_left _ hmem, hread, hhash, heq'.trans heq⟩
  · exact .inr ⟨entry, pprev, block, mem_append_right _ hmem, hread, hhash, heq⟩

theorem Placed.congr {txdb txdb' : NodeDb τ} (h : Placed env txdb' list before after)
    (hblocks : txdb'.blocks = txdb.blocks) : Placed env txdb list before after := by
  intro hash
  have hplaced := h hash
  simp only [txidsOf_congr hblocks, readFromDisk_congr hblocks] at hplaced
  exact hplaced

theorem connectBlocks_eq_ok (h : connectBlocks s list state = (.ok (), final)) :
    Moved state final ∧ (∀ pindex ∈ list, (readFromDisk s.env state.txdb pindex).isSome) ∧
      Placed s.env state.txdb list state.txdb.txIndex final.txdb.txIndex := by
  induction list generalizing state with
  | nil =>
    obtain rfl := (Prod.mk.inj h).2
    exact ⟨.refl _, nofun, fun hash => .inl ⟨not_mem_nil, rfl⟩⟩
  | cons pindex list ih =>
    cases pindex with
    | nil => cases (Prod.mk.inj h).1
    | cons entry pprev =>
      rw [connectBlocks] at h
      split at h
      · cases (Prod.mk.inj h).1
      rename_i block hread
      obtain ⟨next, hconnect, h⟩ := andThen_eq_ok.mp h
      obtain ⟨hmoved, hindex⟩ := connectOrLeave_eq_ok (orError_eq_ok.mp hconnect)
      obtain ⟨hmoved', hreads, hplaced⟩ := ih h
      refine ⟨hmoved.trans hmoved', forall_mem_cons.mpr ⟨?_, fun pindex hpindex => ?_⟩, ?_⟩
      · rw [hread]
        rfl
      · rw [← readFromDisk_congr hmoved.blocks_eq]
        exact hreads pindex hpindex
      · exact (placed_singleton hread hindex).trans (hplaced.congr hmoved.blocks_eq)

theorem disconnectBlocks_eq_ok (h : disconnectBlocks s list state = (.ok (), final)) :
    Moved state final ∧ ∀ hash, positions final.txdb.txIndex hash =
      if hash ∈ txidsOf s.env state.committed list then none
      else positions state.txdb.txIndex hash := by
  induction list generalizing state with
  | nil =>
    obtain rfl := (Prod.mk.inj h).2
    exact ⟨.refl _, fun hash => (if_neg not_mem_nil).symm⟩
  | cons pindex list ih =>
    cases pindex with
    | nil => cases (Prod.mk.inj h).1
    | cons entry pprev =>
      rw [disconnectBlocks] at h
      split at h
      · cases (Prod.mk.inj h).1
      rename_i block hread
      obtain ⟨next, hdisconnect, h⟩ := andThen_eq_ok.mp h
      obtain ⟨hmoved, -, hindex⟩ := disconnectOrLeave_eq_ok (orError_eq_ok.mp hdisconnect)
      obtain ⟨hmoved', hindex'⟩ := ih h
      refine ⟨hmoved.trans hmoved', fun hash => ?_⟩
      rw [hindex', hmoved.committed_eq, txidsOf_cons hread, hindex]
      by_cases hmem : hash ∈ txidsOf s.env state.committed list
      · rw [if_pos hmem, if_pos (mem_append_right _ hmem)]
      · rw [if_neg hmem]
        simp only [mem_append, or_iff_left hmem]

def Synced (createDbTransaction : Bool) (state : State τ) : Prop :=
  createDbTransaction = true → state.committed = state.txdb

/-- Blocks have been connected, and the hash and the links been set. -/
structure Advanced (env : ChainEnv) (createDbTransaction : Bool) (list : List IndexPtr)
    (hash : UInt256) (state next : State τ) : Prop where
  memory_eq : next.memory =
    { state.memory with amounts := next.memory.amounts, pnext := list.foldl link state.memory.pnext }
  committed_eq : next.committed = if createDbTransaction then next.txdb else state.committed
  blocks_eq : next.txdb.blocks = state.txdb.blocks
  hashBestChain_eq : next.txdb.hashBestChain = some hash
  recorded : ∀ hash, (state.txdb.blockIndexes hash).isSome → (next.txdb.blockIndexes hash).isSome
  read : ∀ pindex ∈ list, (readFromDisk env state.txdb pindex).isSome
  placed : Placed env state.txdb list state.txdb.txIndex next.txdb.txIndex

theorem writeHashBestChain_eq_ok
    (h : writeHashBestChain s hash refusal state = (.ok (), next)) :
    next = { state with txdb := { state.txdb with hashBestChain := some hash } } := by
  rw [BestChain.writeHashBestChain] at h
  split at h
  · exact (Prod.mk.inj h).2.symm
  · cases (Prod.mk.inj h).1

theorem commitIf_memory (create : Bool) (state : State τ) :
    (commitIf create state).memory = state.memory := by
  cases create with
  | false => rfl
  | true => rfl

theorem commitIf_txdb (create : Bool) (state : State τ) :
    (commitIf create state).txdb = state.txdb := by
  cases create with
  | false => rfl
  | true => rfl

theorem commitIf_committed (create : Bool) (state : State τ) :
    (commitIf create state).committed =
      if create then state.txdb else state.committed := by
  cases create with
  | false => rfl
  | true => rfl

theorem setBestChainInner_runs
    (h : setBestChainInner s create entry pprev block state = (.ok (), final)) :
    ∃ next written, connectOrLeave s entry pprev block state = (.ok (), next) ∧
      written = { next with
        txdb := { next.txdb with hashBestChain := some (s.env.getBlockHash block) } } ∧
      final = { commitIf create written with
        memory := { next.memory with pnext := link next.memory.pnext (entry :: pprev) } } := by
  rw [setBestChainInner] at h
  split at h
  · rename_i written hwritten
    obtain rfl := (Prod.mk.inj h).2
    obtain ⟨next, hconnect, hwrite⟩ := andThen_eq_ok.mp hwritten
    obtain rfl := writeHashBestChain_eq_ok hwrite
    exact ⟨next, _, hconnect, rfl, by rw [commitIf_memory]⟩
  · cases (Prod.mk.inj h).1
  · rename_i hok _
    exact absurd h (hok _)

theorem setBestChainInner_eq_ok
    (hread : readFromDisk s.env state.txdb (entry :: pprev) = some block)
    (h : setBestChainInner s create entry pprev block state = (.ok (), final)) :
    Advanced s.env create [entry :: pprev] (s.env.getBlockHash block) state final := by
  obtain ⟨next, written, hconnect, rfl, rfl⟩ := setBestChainInner_runs h
  obtain ⟨hmoved, hindex⟩ := connectOrLeave_eq_ok hconnect
  refine ⟨?_, ?_, ?_, ?_, ?_, ?_, ?_⟩
  · rw [hmoved.memory_eq]
    rfl
  · rw [commitIf_txdb, commitIf_committed]
    exact congrArg (ite _ _) hmoved.committed_eq
  · rw [commitIf_txdb]
    exact hmoved.blocks_eq
  · rw [commitIf_txdb]
  · rw [commitIf_txdb]
    exact hmoved.recorded
  · intro pindex hpindex
    rw [mem_singleton.mp hpindex, hread]
    rfl
  · rw [commitIf_txdb]
    exact placed_singleton hread hindex

theorem reorganize_runs (h : reorganize s create pindexNew state = (.ok (), final)) :
    ∃ pfork disconnected connected written,
      findFork state.memory.pindexBest pindexNew = .ok pfork ∧
      disconnectBlocks s (above pfork state.memory.pindexBest) state = (.ok (), disconnected) ∧
      connectBlocks s (above pfork pindexNew).reverse disconnected = (.ok (), connected) ∧
      written = { connected with
        txdb := { connected.txdb with hashBestChain := some (getBlockHash pindexNew) } } ∧
      final = { commitIf create written with
        memory := { connected.memory with
          pnext := (above pfork pindexNew).reverse.foldl link
            ((above pfork state.memory.pindexBest).foldl unlink connected.memory.pnext) } } := by
  rw [reorganize] at h
  split at h
  · cases (Prod.mk.inj h).1
  rename_i pfork hfork
  obtain ⟨disconnected, hdisconnect, h⟩ := andThen_eq_ok.mp h
  obtain ⟨connected, hconnect, h⟩ := andThen_eq_ok.mp h
  obtain ⟨written, hwrite, h⟩ := andThen_eq_ok.mp h
  obtain rfl := writeHashBestChain_eq_ok hwrite
  obtain rfl := (Prod.mk.inj h).2
  exact ⟨pfork, disconnected, connected, _, hfork, hdisconnect, hconnect, rfl,
    by rw [commitIf_memory]⟩

theorem reorganize_eq_ok (h : reorganize s create pindexNew state = (.ok (), final)) :
    ∃ pfork disconnected, findFork state.memory.pindexBest pindexNew = .ok pfork ∧
      Moved state disconnected ∧
      (∀ hash, positions disconnected.txdb.txIndex hash =
        if hash ∈ txidsOf s.env state.committed (above pfork state.memory.pindexBest) then none
        else positions state.txdb.txIndex hash) ∧
      Advanced s.env create (above pfork pindexNew).reverse (getBlockHash pindexNew)
        { disconnected with
          memory := { disconnected.memory with
            pnext := (above pfork state.memory.pindexBest).foldl unlink state.memory.pnext } }
        final := by
  obtain ⟨pfork, disconnected, connected, written, hfork, hdisconnect, hconnect, rfl, rfl⟩ :=
    reorganize_runs h
  obtain ⟨hmoved, hindex⟩ := disconnectBlocks_eq_ok hdisconnect
  obtain ⟨hmoved', hreads, hplaced⟩ := connectBlocks_eq_ok hconnect
  refine ⟨pfork, disconnected, hfork, hmoved, hindex, ?_, ?_, ?_, ?_, ?_, hreads, ?_⟩
  · rw [hmoved'.memory_eq, hmoved.memory_eq]
  · rw [commitIf_txdb, commitIf_committed]
    exact congrArg (ite _ _) hmoved'.committed_eq
  · rw [commitIf_txdb]
    exact hmoved'.blocks_eq
  · rw [commitIf_txdb]
  · rw [commitIf_txdb]
    exact hmoved'.recorded
  · rw [commitIf_txdb]
    exact hplaced

theorem Advanced.trans {hash hash' : UInt256} (h : Advanced env create list hash state next)
    (h' : Advanced env create list' hash' next final) :
    Advanced env create (list ++ list') hash' state final := by
  refine ⟨?_, ?_, h'.blocks_eq.trans h.blocks_eq, h'.hashBestChain_eq,
    fun hash hsome => h'.recorded _ (h.recorded _ hsome), ?_, h.placed.trans (h'.placed.congr h.blocks_eq)⟩
  · rw [h'.memory_eq, h.memory_eq, foldl_append]
  · rw [h'.committed_eq, h.committed_eq]
    cases create with
    | false => rfl
    | true => rfl
  refine forall_mem_append.mpr ⟨h.read, fun pindex hpindex => ?_⟩
  rw [← readFromDisk_congr h.blocks_eq]
  exact h'.read pindex hpindex

theorem Advanced.synced (h : Advanced env create list hash state next) :
    Synced create next := by
  rintro rfl
  exact h.committed_eq

theorem stored_of_readFromDisk (h : readFromDisk env txdb (entry :: pprev) = some block) :
    txdb.blocks entry.blockKeyInDB = some block ∧ env.getBlockHash block = entry.hashBlock := by
  obtain ⟨entry', hentry, h⟩ := Option.bind_eq_some_iff.mp h
  cases hentry
  obtain ⟨stored, hstored, h⟩ := Option.bind_eq_some_iff.mp h
  split at h
  · rename_i hhash
    cases h
    exact ⟨hstored, hhash⟩
  · cases h

theorem getBlockHash_of_readFromDisk (h : readFromDisk env txdb pindex = some block) :
    env.getBlockHash block = getBlockHash pindex := by
  cases pindex with
  | nil => cases h
  | cons entry pprev => exact (stored_of_readFromDisk h).2

end Moves

section Postponed

variable {τ : Type} {s : Surroundings τ} {create : Bool} {state : State τ}

/-- Every postponed block is read and connected. -/
def PostponedConnect (s : Surroundings τ) (createDbTransaction : Bool) :
    List IndexPtr → State τ → Prop
  | [], _ => True
  | pindex :: rest, state => ∃ entry pprev block next, pindex = entry :: pprev ∧
      readFromDisk s.env state.txdb (entry :: pprev) = some block ∧
      setBestChainInner s createDbTransaction entry pprev block state = (.ok (), next) ∧
      PostponedConnect s createDbTransaction rest next

theorem connectPostponed_advanced (hstart : Advanced s.env create list (getBlockHash p) start state)
    (hclimbs : Climbs p list' q) (hconnect : PostponedConnect s create list' state)
    (h : connectPostponed s create list' state = (.ok (), final)) :
    Advanced s.env create (list ++ list') (getBlockHash q) start final := by
  induction hclimbs generalizing list state with
  | refl p =>
    obtain rfl := (Prod.mk.inj h).2
    rwa [append_nil]
  | @step entry p q list' hrest ih =>
    obtain ⟨entry', pprev, block, next, heq, hread, hinner, hconnect⟩ := hconnect
    obtain ⟨rfl, rfl⟩ := List.cons.inj heq
    rw [connectPostponed, hread] at h
    dsimp only at h
    rw [hinner] at h
    have hadvanced := setBestChainInner_eq_ok hread hinner
    rw [getBlockHash_of_readFromDisk hread] at hadvanced
    have hnext := ih (hstart.trans hadvanced) hconnect h
    rwa [append_assoc] at hnext

variable (hsynced : Synced create state)
include hsynced

/-- A block that is not connected leaves the hash that is in the database. -/
theorem setBestChainInner_refused (h : setBestChainInner s create entry pprev block
      state = (.error (.returned nDoS message), final)) :
    final.txdb.hashBestChain = state.txdb.hashBestChain ∧ Synced create final := by
  have hmoved := @moved_connectOrLeave τ s entry pprev block state
  have hkept := And.intro hmoved.committed_eq hmoved.hashBestChain_eq
  have hwritten : ∀ left refusal, andThen (connectOrLeave s entry pprev block state)
      (writeHashBestChain s (s.env.getBlockHash block) .silent) = (.error refusal, left) →
      left.committed = state.committed ∧ left.txdb.hashBestChain = state.txdb.hashBestChain := by
    intro left refusal hleft
    cases hnext : connectOrLeave s entry pprev block state with
    | mk result next =>
      rw [hnext] at hleft hkept
      cases result with
      | error _ =>
        rw [← (Prod.mk.inj hleft).2]
        exact hkept
      | ok _ =>
        change writeHashBestChain s _ _ next = _ at hleft
        rw [BestChain.writeHashBestChain] at hleft
        split at hleft
        · cases (Prod.mk.inj hleft).1
        · rw [← (Prod.mk.inj hleft).2]
          exact hkept
  rw [setBestChainInner] at h
  split at h
  · cases (Prod.mk.inj h).1
  · rename_i left hleft
    obtain ⟨hcommitted, hhash⟩ := hwritten _ _ hleft
    have habort : (abortIf create left).txdb.hashBestChain = state.txdb.hashBestChain := by
      cases create with
      | false => exact hhash
      | true => exact congrArg NodeDb.hashBestChain (hcommitted.trans (hsynced rfl))
    rw [← (Prod.mk.inj h).2, invalidChainFound]
    constructor
    · split
      · dsimp only
        split <;> exact habort
      · exact habort
    · rintro rfl
      split <;> rfl
  · rename_i hother
    exact absurd h (hother _ _ _)

/-- If a postponed block is not connected, the database names a block below the
new one. -/
theorem connectPostponed_stops
    (hclimbs : Climbs p list q) (hhash : state.txdb.hashBestChain = some (getBlockHash p))
    (hnot : ¬ PostponedConnect s create list state)
    (h : connectPostponed s create list state = (.ok (), final)) :
    Synced create final ∧
      ∃ r, p <:+ r ∧ r <:+ q ∧ r ≠ q ∧ final.txdb.hashBestChain = some (getBlockHash r) := by
  induction hclimbs generalizing state with
  | refl p => exact absurd trivial hnot
  | @step entry p q list hrest ih =>
    have hbelow : p <:+ q ∧ p ≠ q := by
      refine ⟨(suffix_cons _ _).trans hrest.suffix, ?_⟩
      rintro rfl
      exact not_cons_suffix hrest.suffix
    rw [connectPostponed] at h
    split at h
    · obtain rfl := (Prod.mk.inj h).2
      exact ⟨hsynced, p, suffix_refl _, hbelow.1, hbelow.2, hhash⟩
    rename_i block hread
    split at h
    · rename_i next hinner
      have hadvanced := setBestChainInner_eq_ok hread hinner
      have hnext := hadvanced.hashBestChain_eq
      rw [getBlockHash_of_readFromDisk hread] at hnext
      have hnot' : ¬ PostponedConnect s create list next :=
        fun hconnect => hnot ⟨entry, p, block, next, rfl, hread, hinner, hconnect⟩
      obtain ⟨hsync, r, hlow, hhigh, hne, hfinal⟩ := ih hadvanced.synced hnext hnot' h
      exact ⟨hsync, r, (suffix_cons _ _).trans hlow, hhigh, hne, hfinal⟩
    · rename_i left hinner
      obtain rfl := (Prod.mk.inj h).2
      obtain ⟨hkept, hsync⟩ := setBestChainInner_refused hsynced hinner
      exact ⟨hsync, p, suffix_refl _, hbelow.1, hbelow.2, hkept.trans hhash⟩
    · rename_i hok _
      exact absurd h (hok _)

omit hsynced

end Postponed

section Agreement

variable {τ : Type}

/-- Memory, links and database describe one chain. The genesis block is never
connected. -/
structure Agrees (env : ChainEnv) (memory : Memory) (txdb : NodeDb τ) : Prop where
  best_ne : memory.pindexBest ≠ []
  hash_eq : memory.hashBestChain = getBlockHash memory.pindexBest
  height_eq : memory.nBestHeight = nHeight memory.pindexBest
  trust_eq : memory.nBestChainTrust = nChainTrust memory.pindexBest
  stored : txdb.hashBestChain = some memory.hashBestChain
  linked : LinkedTo memory.pnext memory.pindexBest
  indexed : ∀ entry parent pprev, entry :: parent :: pprev <:+ memory.pindexBest →
    ∃ block, readFromDisk env txdb (entry :: parent :: pprev) = some block ∧
      ∀ tx ∈ block.vtx, (txdb.txIndex (env.getHash tx)).isSome

/-- The database that the call leaves: what it has committed, or what its caller is
going to commit. -/
def database (createDbTransaction : Bool) (state : State τ) : NodeDb τ :=
  if createDbTransaction then state.committed else state.txdb

theorem database_eq (h : Synced create state) : database create state = state.txdb := by
  cases create with
  | false => rfl
  | true => exact h rfl

/-- The entry of the new block is in the tree and the block is stored. -/
structure NewTip (s : Surroundings τ) (entry : IndexEntry) (pprev : IndexPtr) (block : CBlock)
    (state : State τ) : Prop where
  map : MapOk state.memory
  new : state.memory.mapBlockIndex entry.hashBlock = some (entry :: pprev)
  parent : pprev = (state.memory.mapBlockIndex block.hashPrevBlock).getD []
  read : readFromDisk s.env state.txdb (entry :: pprev) = some block

structure Blank (s : Surroundings τ) (pprev : IndexPtr) (block : CBlock) (state : State τ) :
    Prop where
  pindexGenesisBlock_eq : state.memory.pindexGenesisBlock = []
  pnext_eq : state.memory.pnext = fun _ => none
  hashBestChain_eq : state.txdb.hashBestChain = none
  pprev_eq : pprev = []
  hash_eq : s.env.getBlockHash block = s.hashGenesisBlock

structure Settled (s : Surroundings τ) (state : State τ) : Prop where
  pindexGenesisBlock_ne : state.memory.pindexGenesisBlock ≠ []
  best : state.memory.mapBlockIndex state.memory.hashBestChain = some state.memory.pindexBest
  agrees : Agrees s.env state.memory state.txdb

/-- A transaction of the part that stays is not taken out of the index with a
disconnected block, unless it is put in again with a new one. -/
def KeepsIds (s : Surroundings τ) (pfork pindexNew : IndexPtr) (state : State τ) : Prop :=
  ∀ entry parent pprev block, entry :: parent :: pprev <:+ pfork →
    readFromDisk s.env state.txdb (entry :: parent :: pprev) = some block →
    ∀ tx ∈ block.vtx,
      s.env.getHash tx ∈ txidsOf s.env state.committed (above pfork state.memory.pindexBest) →
      s.env.getHash tx ∈ txidsOf s.env state.txdb (above pfork pindexNew)

/-- The chain is switched completely. -/
structure SwitchesAll (s : Surroundings τ) (createDbTransaction : Bool) (pindexNew : IndexPtr)
    (state : State τ) : Prop where
  postponed : ∀ reorganized, reorganize s createDbTransaction
      (postpone (nChainTrust state.memory.pindexBest) pindexNew).2 state = (.ok (), reorganized) →
    PostponedConnect s createDbTransaction
      (postpone (nChainTrust state.memory.pindexBest) pindexNew).1.reverse reorganized
  kept : ∀ pfork, findFork state.memory.pindexBest
      (postpone (nChainTrust state.memory.pindexBest) pindexNew).2 = .ok pfork →
    KeepsIds s pfork pindexNew state

def KeepsAgreement (s : Surroundings τ) (createDbTransaction : Bool) (entry : IndexEntry)
    (pprev : IndexPtr) (block : CBlock) (state : State τ) : Prop :=
  if state.memory.pindexGenesisBlock = [] then
    s.writeHashBestChain (s.env.getBlockHash block) = true
  else block.hashPrevBlock = state.memory.hashBestChain ∨
    SwitchesAll s createDbTransaction (entry :: pprev) state

variable {s : Surroundings τ} {create : Bool} {state final : State τ}
  {entry : IndexEntry} {pprev : IndexPtr} {block : CBlock}

/-- After blocks have been connected on top of `p`, all that the agreement asks for
is that the transactions up to `p` are in the index. -/
theorem agrees_adopt_iff (hlinked : LinkedTo state.memory.pnext p)
    (hclimbs : Climbs p list q) (hadvanced : Advanced env create list hash state final)
    (hdistinct : Distinct q) (hq : q ≠ []) (hhash : hash = getBlockHash q) :
    Agrees env (adopt hash q final).memory (database create final) ↔
      ∀ entry parent pprev, entry :: parent :: pprev <:+ p →
        ∃ block, readFromDisk env state.txdb (entry :: parent :: pprev) = some block ∧
          ∀ tx ∈ block.vtx, (state.txdb.txIndex (env.getHash tx)).isSome ∨
            env.getHash tx ∈ txidsOf env state.txdb list := by
  rw [database_eq hadvanced.synced]
  have hread := @readFromDisk_congr τ env _ _ hadvanced.blocks_eq
  constructor
  · intro h entry parent pprev hsuffix
    obtain ⟨block, hblock, hindexed⟩ :=
      h.indexed entry parent pprev (hsuffix.trans hclimbs.suffix)
    rw [hread] at hblock
    exact ⟨block, hblock, fun tx htx => (hadvanced.placed.isSome_iff _).mp (hindexed tx htx)⟩
  intro h
  refine ⟨hq, hhash, rfl, rfl, hadvanced.hashBestChain_eq, ?_, fun entry parent pprev hsuffix => ?_⟩
  · rw [adopt]
    dsimp only
    rw [hadvanced.memory_eq]
    exact hlinked.climb hclimbs hdistinct
  rw [hread]
  rcases Classical.em (entry :: parent :: pprev <:+ p) with hlow | hhigh
  · obtain ⟨block, hblock, hindexed⟩ := h entry parent pprev hlow
    exact ⟨block, hblock, fun tx htx => (hadvanced.placed.isSome_iff _).mpr (hindexed tx htx)⟩
  have hmem := hclimbs.mem_iff.mpr ⟨hsuffix, hhigh⟩
  obtain ⟨block, hblock⟩ := Option.isSome_iff_exists.mp (hadvanced.read _ hmem)
  refine ⟨block, hblock, fun tx htx => (hadvanced.placed.isSome_iff _).mpr (.inr ?_)⟩
  exact mem_txidsOf.mpr ⟨_, hmem, block, hblock, mem_map_of_mem htx⟩

theorem agrees_startChain_iff (hnew : NewTip s entry pprev block state)
    (hblank : Blank s pprev block state) :
    Agrees s.env (adopt (s.env.getBlockHash block) (entry :: pprev)
        (startChain s create (entry :: pprev) (s.env.getBlockHash block) state)).memory
        (database create
          (startChain s create (entry :: pprev) (s.env.getBlockHash block) state)) ↔
      s.writeHashBestChain (s.env.getBlockHash block) = true := by
  have hdb : database create
      (startChain s create (entry :: pprev) (s.env.getBlockHash block) state) =
        (writeHashBestChain s (s.env.getBlockHash block) .silent state).2.txdb := by
    cases create with
    | false => rfl
    | true => rfl
  have hmemory : (writeHashBestChain s (s.env.getBlockHash block) .silent state).2.memory =
      state.memory := by
    rw [BestChain.writeHashBestChain]
    split
    · rfl
    · rfl
  have hhash := getBlockHash_of_readFromDisk hnew.read
  rw [hdb]
  obtain rfl := hblank.pprev_eq
  constructor
  · intro h
    by_contra hwrite
    have hstored := h.stored
    rw [BestChain.writeHashBestChain, if_neg hwrite] at hstored
    cases hblank.hashBestChain_eq.symm.trans hstored
  intro hwrite
  refine ⟨cons_ne_nil _ _, hhash, rfl, rfl, ?_, fun hash next => ?_, ?_⟩
  · rw [BestChain.writeHashBestChain, if_pos hwrite]
    rfl
  · rw [adopt, startChain]
    dsimp only
    rw [commitIf_memory, hmemory, hblank.pnext_eq]
    refine iff_of_false (fun h => by cases h) ?_
    rintro ⟨entry', parent', pprev', hsuffix, -⟩
    exact not_pair_suffix hsuffix
  · intro entry' parent' pprev' hsuffix
    exact absurd hsuffix not_pair_suffix

theorem postpone_ne_nil (h : pindex ≠ []) : (postpone nBestTrust pindex).2 ≠ [] := by
  induction pindex with
  | nil => exact h
  | cons entry pprev ih =>
    rw [postpone]
    split
    · rename_i hpostponed
      exact ih hpostponed.1
    · exact h

theorem switchChain_eq_ok (h : switchChain s create pindexNew state = (.ok (), final)) :
    ∃ reorganized, reorganize s create
        (postpone (nChainTrust state.memory.pindexBest) pindexNew).2 state = (.ok (), reorganized) ∧
      connectPostponed s create
        (postpone (nChainTrust state.memory.pindexBest) pindexNew).1.reverse reorganized =
          (.ok (), final) := by
  rw [switchChain] at h
  dsimp only at h
  split at h
  · rename_i reorganized hreorganize
    exact ⟨reorganized, hreorganize, h⟩
  · cases (Prod.mk.inj h).1
  · rename_i hok _
    exact absurd h (hok _)

theorem agrees_switchChain_iff (hnew : NewTip s entry pprev block state)
    (hsettled : Settled s state)
    (h : switchChain s create (entry :: pprev) state = (.ok (), final)) :
    Agrees s.env (adopt (s.env.getBlockHash block) (entry :: pprev) final).memory
        (database create final) ↔
      SwitchesAll s create (entry :: pprev) state := by
  obtain ⟨reorganized, hreorganize, hpostponed⟩ := switchChain_eq_ok h
  obtain ⟨pfork, disconnected, hfork, hmoved, hindex, hadvanced⟩ := reorganize_eq_ok hreorganize
  obtain ⟨-, hbest, hlow, -⟩ := findFork_eq_ok hfork
  obtain ⟨hhigh, hsecondary⟩ :=
    postpone_eq (nChainTrust state.memory.pindexBest) (entry :: pprev)
  have hdistinct := distinct_of_mapOk hnew.map hnew.new
  have hhash := getBlockHash_of_readFromDisk hnew.read
  have hclimbs := climbs_above hhigh
  rw [← hsecondary] at hclimbs
  rcases Classical.em (PostponedConnect s create
    (postpone (nChainTrust state.memory.pindexBest) (entry :: pprev)).1.reverse reorganized) with
    hconnect | hnot
  · have hall := connectPostponed_advanced hadvanced hclimbs hconnect hpostponed
    have hpath := (climbs_above hlow).trans hclimbs
    have hlinked : LinkedTo ((above pfork state.memory.pindexBest).foldl unlink state.memory.pnext)
        pfork :=
      hsettled.agrees.linked.descend hbest (distinct_of_mapOk hnew.map hsettled.best)
    rw [hhash, agrees_adopt_iff hlinked hpath hall hdistinct (cons_ne_nil _ _) rfl]
    dsimp only
    have hread := @readFromDisk_congr τ s.env _ _ hmoved.blocks_eq
    have hids : ∀ hash, hash ∈ txidsOf s.env disconnected.txdb
        ((above pfork (postpone (nChainTrust state.memory.pindexBest) (entry :: pprev)).2).reverse ++
          (postpone (nChainTrust state.memory.pindexBest) (entry :: pprev)).1.reverse) ↔
        hash ∈ txidsOf s.env state.txdb (above pfork (entry :: pprev)) := by
      intro hash
      rw [txidsOf_congr hmoved.blocks_eq]
      simp only [mem_txidsOf, hpath.mem_iff, ← (climbs_above hpath.suffix).mem_iff, mem_reverse]
    have hsome : ∀ hash, (disconnected.txdb.txIndex hash).isSome ↔
        hash ∉ txidsOf s.env state.committed (above pfork state.memory.pindexBest) ∧
          (state.txdb.txIndex hash).isSome := by
      intro hash
      have hpositions : ∀ index : UInt256 → Option CTxIndex,
          (positions index hash).isSome = (index hash).isSome := fun _ => Option.isSome_map
      rw [← hpositions, hindex, ← hpositions]
      split
      · rename_i hmem
        exact iff_of_false Bool.false_ne_true fun h => h.1 hmem
      · rename_i hmem
        exact (and_iff_right hmem).symm
    simp only [hread, hids, hsome]
    constructor
    · intro hindexed
      constructor
      · intro other hother
        rw [hreorganize] at hother
        rw [← (Prod.mk.inj hother).2]
        exact hconnect
      intro other hother entry' parent' pprev' block' hsuffix hblock' tx htx hgone
      rw [hfork] at hother
      cases hother
      obtain ⟨stored, hstored, hin⟩ := hindexed entry' parent' pprev' hsuffix
      obtain rfl := Option.mem_unique hblock' hstored
      exact (hin tx htx).resolve_left fun h => h.1 hgone
    intro hswitches entry' parent' pprev' hsuffix
    obtain ⟨stored, hstored, hin⟩ :=
      hsettled.agrees.indexed entry' parent' pprev' (hsuffix.trans hbest)
    refine ⟨stored, hstored, fun tx htx => ?_⟩
    rcases Classical.em (s.env.getHash tx ∈
      txidsOf s.env state.committed (above pfork state.memory.pindexBest)) with hgone | hkept
    · exact .inr (hswitches.kept pfork hfork entry' parent' pprev' stored hsuffix hstored tx htx
        hgone)
    · exact .inl ⟨hkept, hin tx htx⟩
  refine iff_of_false (fun hagrees => ?_) fun hall => hnot (hall.postponed _ hreorganize)
  obtain ⟨hsynced, r, hlow', hsuffix, hne, hfinal⟩ :=
    connectPostponed_stops hadvanced.synced hclimbs hadvanced.hashBestChain_eq hnot hpostponed
  have hstored := hagrees.stored
  rw [database_eq hsynced, hfinal] at hstored
  have heq : getBlockHash r = getBlockHash (entry :: pprev) :=
    (Option.some.inj hstored).trans hhash
  have hr : r ≠ [] := by
    rintro rfl
    exact postpone_ne_nil (cons_ne_nil _ _) (suffix_nil.mp hlow')
  obtain ⟨entry', pprev', rfl⟩ := exists_cons_of_ne_nil hr
  exact hne (hdistinct _ _ _ _ hsuffix (suffix_refl _) heq)

/-- `SetBestChain` keeps the agreement exactly if the first hash is written, or the
chain is extended, or all postponed blocks are connected and no transaction of the
part that stays is lost. -/
theorem setBestChain_agrees_iff (hnew : NewTip s entry pprev block state)
    (hstate : Blank s pprev block state ∨ Settled s state)
    (h : setBestChain s createDbTransaction entry pprev block state = (.ok (), final)) :
    Agrees s.env final.memory (database createDbTransaction final) ↔
      KeepsAgreement s createDbTransaction entry pprev block state := by
  obtain ⟨last, hlast, hfinal⟩ := andThen_eq_ok.mp h
  obtain rfl := (Prod.mk.inj hfinal).2
  rw [KeepsAgreement]
  change Agrees s.env _ (database createDbTransaction last) ↔ _
  rcases hstate with hblank | hsettled
  · rw [if_pos ⟨hblank.pindexGenesisBlock_eq, hblank.hash_eq⟩] at hlast
    obtain rfl := (Prod.mk.inj hlast).2
    rw [if_pos hblank.pindexGenesisBlock_eq]
    exact agrees_startChain_iff hnew hblank
  rw [if_neg fun h => hsettled.pindexGenesisBlock_ne h.1] at hlast
  rw [if_neg hsettled.pindexGenesisBlock_ne]
  split at hlast
  · rename_i hextends
    refine iff_of_true ?_ (.inl hextends)
    have hpprev : pprev = state.memory.pindexBest := by
      have hparent := hnew.parent
      rwa [hextends, hsettled.best] at hparent
    subst hpprev
    have hdistinct := distinct_of_mapOk hnew.map hnew.new
    have hhash := getBlockHash_of_readFromDisk hnew.read
    have hadvanced := setBestChainInner_eq_ok hnew.read (orError_eq_ok.mp hlast)
    refine (agrees_adopt_iff hsettled.agrees.linked (.step (.refl _)) hadvanced hdistinct
      (cons_ne_nil _ _) hhash).mpr fun entry' parent' pprev' hsuffix => ?_
    obtain ⟨stored, hstored, hin⟩ := hsettled.agrees.indexed entry' parent' pprev' hsuffix
    exact ⟨stored, hstored, fun tx htx => .inl (hin tx htx)⟩
  rename_i hextends
  rw [or_iff_right hextends]
  exact agrees_switchChain_iff hnew hsettled hlast

/-! A best chain of two blocks and a branch of three on the genesis block. -/

def tableOf (pointers : List IndexPtr) (hash : UInt256) : Option IndexPtr :=
  pointers.find? fun pindex => getBlockHash pindex == hash

theorem mapOk_of_table (hmap : memory.mapBlockIndex = tableOf pointers)
    (hne : ∀ pindex ∈ pointers, pindex ≠ []) (hclosed : ∀ pindex ∈ pointers, ∀ i < pindex.length,
      tableOf pointers (getBlockHash (pindex.drop i)) = some (pindex.drop i)) : MapOk memory := by
  rw [← hmap] at hclosed
  constructor
  · intro hash pindex h
    rw [hmap] at h
    obtain ⟨entry, pprev, rfl⟩ := exists_cons_of_ne_nil (hne _ (mem_of_find?_eq_some h))
    have hhash := List.find?_some h
    exact ⟨entry, pprev, rfl, beq_iff_eq.mp hhash⟩
  intro hash pindex h entry pprev hsuffix
  rw [hmap] at h
  have hle := hsuffix.length_le
  rw [length_cons] at hle
  have hdrop := suffix_iff_eq_drop.mp hsuffix
  have hfound := hclosed pindex (mem_of_find?_eq_some h)
    (pindex.length - (entry :: pprev).length) (by rw [length_cons]; omega)
  rwa [← hdrop] at hfound

def chainTx (n : Nat) : CTransaction :=
  ⟨n, [⟨⟨0, 2 ^ 32 - 1⟩, [1, 1]⟩], [⟨COIN, [0x51]⟩], 0⟩

def chainBlock (hashPrevBlock hashMerkleRoot : UInt256) (n : Nat) : CBlock :=
  ⟨6, hashPrevBlock, hashMerkleRoot, 100 + n, 0, 0, [chainTx n], []⟩

def chainEntry (n nChainTrust : Nat) : IndexEntry :=
  ⟨BitVec.ofNat 256 (100 + n), BitVec.ofNat 256 (100 + n), nChainTrust, false, false, true, 0,
    ⟨0, 0⟩, 0, 0, 100 + n, 0⟩

def bestPtr : IndexPtr := [chainEntry 1 2, chainEntry 0 1]

/-- The last two blocks of the branch have more trust than the best chain. -/
def branchPtr : IndexPtr := [chainEntry 4 4, chainEntry 3 3, chainEntry 2 2, chainEntry 0 1]

def nextPtr : IndexPtr := chainEntry 5 3 :: bestPtr

def forkedMemory : Memory where
  mapBlockIndex := tableOf [[chainEntry 0 1], bestPtr, [chainEntry 2 2, chainEntry 0 1],
    [chainEntry 3 3, chainEntry 2 2, chainEntry 0 1], branchPtr, nextPtr]
  amounts _ := ⟨0, 0⟩
  setStakeSeen _ := false
  pnext := link (fun _ => none) bestPtr
  pindexGenesisBlock := [chainEntry 0 1]
  pindexBest := bestPtr
  hashBestChain := 101
  nBestHeight := 1
  nBestChainTrust := 2
  nBestInvalidTrust := 0

/-- The Merkle root of block 4 is wrong. -/
def forkedDb : NodeDb Unit where
  blocks hash := [chainBlock 0 0 0, chainBlock 100 1 1, chainBlock 100 2 2, chainBlock 102 3 3,
    chainBlock 103 0 4, chainBlock 101 5 5].find? fun block => workEnv.getBlockHash block == hash
  blockIndexes _ := none
  txIndex hash := if hash = 1 then some (CTxIndex.new ⟨101, 81⟩ 1) else none
  hashBestChain := some 101
  bestInvalidTrust := none
  tokens := ()

def forkedState : State Unit := ⟨forkedMemory, forkedDb, forkedDb⟩

def calmSurroundings : Surroundings Unit where
  env := workEnv
  hashGenesisBlock := 100
  tokens := ⟨fun _ _ _ _ _ => .ok [], fun _ _ symbols _ _ _ => .ok symbols, fun _ _ _ => (.ok (), ())⟩
  mempoolLookup _ _ := none
  writeBlockIndex _ _ := true
  updateTxIndex _ _ := true
  disconnectDB _ := ⟨fun _ _ => true, fun _ => true⟩
  writeHashBestChain _ := true
  writeBestInvalidTrust _ := true
  unfinished _ _ := none
  halfDisconnected _ txdb := txdb.txIndex

theorem forked_mapOk : MapOk forkedMemory :=
  mapOk_of_table rfl (by decide) (by decide +kernel)

theorem linkedTo_nil (entry : IndexEntry) : LinkedTo (fun _ => none) [entry] := by
  intro hash next
  refine iff_of_false (fun h => by cases h) ?_
  rintro ⟨entry', parent', pprev', hsuffix, -⟩
  exact not_pair_suffix hsuffix

theorem forked_settled : Settled calmSurroundings forkedState := by
  refine ⟨by decide, by decide +kernel, by decide, by decide, by decide, by decide, rfl, ?_, ?_⟩
  · refine (linkedTo_nil _).link _ (@distinct_of_mapOk 100 _ _ forked_mapOk ?_)
    decide +kernel
  intro entry parent pprev hsuffix
  have heq : entry :: parent :: pprev = bestPtr := by
    refine hsuffix.eq_of_length_le ?_
    simp [forkedState, forkedMemory, bestPtr]
  rw [heq]
  refine ⟨chainBlock 100 1 1, by decide +kernel, fun tx htx => ?_⟩
  rw [mem_singleton.mp htx]
  rfl

theorem setBestChain_agrees_next : ∃ final,
    setBestChain calmSurroundings false (chainEntry 5 3) bestPtr (chainBlock 101 5 5) forkedState =
        (.ok (), final) ∧
      Agrees workEnv final.memory (database false final) := by
  have htip : NewTip calmSurroundings (chainEntry 5 3) bestPtr (chainBlock 101 5 5) forkedState :=
    ⟨forked_mapOk, by decide +kernel, by decide +kernel, by decide +kernel⟩
  exact ⟨_, rfl, (setBestChain_agrees_iff htip (.inr forked_settled) rfl).mpr (.inl rfl)⟩

/-- The last block of the branch is not connected, and becomes the best block. -/
theorem setBestChain_postponed_not_connected : ∃ final,
    NewTip calmSurroundings (chainEntry 4 4) branchPtr.tail (chainBlock 103 0 4) forkedState ∧
      Settled calmSurroundings forkedState ∧
      setBestChain calmSurroundings false (chainEntry 4 4) branchPtr.tail (chainBlock 103 0 4)
        forkedState = (.ok (), final) ∧
      final.memory.hashBestChain = 104 ∧ (database false final).hashBestChain = some 103 ∧
      ¬ Agrees workEnv final.memory (database false final) := by
  refine ⟨_, ⟨forked_mapOk, by decide +kernel, by decide +kernel, by decide +kernel⟩, forked_settled, rfl, rfl, rfl, fun h => ?_⟩
  cases h.stored

end Agreement

end Bfx.ChainAgreement
