import Bfx.ChainAgreement

/-!
`Reorganize` switches to another branch of the block tree exactly at the fork.
-/

namespace Bfx.ChainSwitch

open BestChain BlockTree ChainAgreement ChainIndex List NodeState Transaction

/-- The lowest common ancestor of two entries. -/
structure LowestCommon (pfork p q : IndexPtr) : Prop where
  ne_nil : pfork ≠ []
  left : pfork <:+ p
  right : pfork <:+ q
  lowest : ∀ r, r <:+ p → r <:+ q → r <:+ pfork

theorem exists_stepDown (hne : r ≠ []) (hr : r <:+ plonger) (hheight : r.length ≤ pfork.length) :
    ∃ lower, stepDown pfork plonger = some lower := by
  induction plonger with
  | nil => exact absurd (suffix_nil.mp hr) hne
  | cons entry pprev ih =>
    rw [stepDown]
    split
    · rename_i hhigher
      refine ih ((suffix_cons_iff.mp hr).resolve_left ?_)
      rintro rfl
      rw [nHeight, nHeight] at hhigher
      omega
    · exact ⟨_, rfl⟩

theorem exists_findFork (hne : r ≠ []) (hr : r <:+ pindex) (hr' : r <:+ plonger) :
    ∃ pfork, findFork pindex plonger = .ok pfork := by
  -- the common ancestor stays below both cursors until they are equal
  induction pindex generalizing plonger with
  | nil => exact absurd (suffix_nil.mp hr) hne
  | cons entry pprev ih =>
    rw [findFork]
    split
    · exact ⟨_, rfl⟩
    obtain ⟨lower, hlower⟩ := exists_stepDown hne hr' hr.length_le
    rw [hlower]
    dsimp only
    split
    · exact ⟨_, rfl⟩
    rename_i hother
    obtain ⟨-, hle, hbelow⟩ := stepDown_eq_some hlower
    have hsuffix := hbelow r hr' hr.length_le
    refine ih ((suffix_cons_iff.mp hr).resolve_left ?_) hsuffix
    rintro rfl
    exact hother (hsuffix.eq_of_length_le hle)

theorem exists_lowestCommon (hp : p.getLast? = some genesis) (hq : q.getLast? = some genesis) :
    ∃ pfork, findFork p q = .ok pfork ∧ LowestCommon pfork p q := by
  have hsuffix : ∀ r : IndexPtr, r.getLast? = some genesis → [genesis] <:+ r := by
    intro r hr
    obtain ⟨upper, rfl⟩ := List.getLast?_eq_some_iff.mp hr
    exact suffix_append _ _
  obtain ⟨pfork, hfork⟩ := exists_findFork (cons_ne_nil _ _) (hsuffix p hp) (hsuffix q hq)
  obtain ⟨hnil, hleft, hright, hmax⟩ := findFork_eq_ok hfork
  exact ⟨pfork, hfork, hnil, hleft, hright, hmax⟩

section Calls

variable {τ : Type} (s : Surroundings τ)

/-- A block of one of the two lists of `Reorganize`. -/
inductive Call where
  | disconnect (pindex : IndexPtr)
  | connect (pindex : IndexPtr)

def Call.run : Call → State τ → Verdict Unit × State τ
  | .disconnect pindex => disconnectBlocks s [pindex]
  | .connect pindex => connectBlocks s [pindex]

/-- The first call that fails is the last one. -/
def runCalls : List Call → State τ → Verdict Unit × State τ
  | [], state => (.ok (), state)
  | call :: calls, state => andThen (call.run s state) (runCalls calls)

/-- What `Reorganize` does when all blocks are disconnected and connected. -/
def writeLinks (createDbTransaction : Bool) (pindexNew : IndexPtr)
    (vDisconnect vConnect : List IndexPtr) (state : State τ) : Verdict Unit × State τ :=
  andThen (writeHashBestChain s (getBlockHash pindexNew)
    (.logged "Reorganize() : WriteHashBestChain failed") state) fun state =>
  let state := commitIf createDbTransaction state
  (.ok (), { state with
    memory := { state.memory with
      pnext := vConnect.foldl link (vDisconnect.foldl unlink state.memory.pnext) } })

variable {s} {state : State τ}

theorem andThen_assoc :
    andThen (andThen result f) g = andThen result fun state => andThen (f state) g := by
  rcases result with ⟨refusal | _, middle⟩
  · rfl
  · rfl

theorem runCalls_append (calls calls' : List Call) (state : State τ) :
    runCalls s (calls ++ calls') state = andThen (runCalls s calls state) (runCalls s calls') := by
  induction calls generalizing state with
  | nil => rfl
  | cons call calls ih =>
    rw [cons_append, runCalls, runCalls, andThen_assoc, funext ih]

theorem runCalls_disconnect (list : List IndexPtr) (state : State τ) :
    runCalls s (list.map .disconnect) state = disconnectBlocks s list state := by
  induction list generalizing state with
  | nil => rfl
  | cons pindex list ih =>
    rw [map_cons, runCalls, Call.run, funext ih]
    cases pindex with
    | nil => rfl
    | cons entry pprev =>
      rw [disconnectBlocks, disconnectBlocks]
      split
      · rfl
      · rw [andThen_assoc]
        rfl

theorem runCalls_connect (list : List IndexPtr) (state : State τ) :
    runCalls s (list.map .connect) state = connectBlocks s list state := by
  induction list generalizing state with
  | nil => rfl
  | cons pindex list ih =>
    rw [map_cons, runCalls, Call.run, funext ih]
    cases pindex with
    | nil => rfl
    | cons entry pprev =>
      rw [connectBlocks, connectBlocks]
      split
      · rfl
      · rw [andThen_assoc]
        rfl

end Calls

section Switch

variable {τ : Type} {s : Surroundings τ} {createDbTransaction : Bool} {state final : State τ}
  {pindexNew : IndexPtr}

theorem isInMainChain_iff (hmap : MapOk memory) {hash bestHash : UInt256}
    (hpindex : memory.mapBlockIndex hash = some pindex)
    (hbest : memory.mapBlockIndex bestHash = some memory.pindexBest)
    (hlinked : LinkedTo memory.pnext memory.pindexBest) :
    isInMainChain memory pindex = true ↔ pindex <:+ memory.pindexBest := by
  obtain ⟨entry, pprev, rfl, rfl⟩ := hmap.hash_eq _ _ hpindex
  constructor
  · intro hin
    rw [isInMainChain, Bool.or_eq_true] at hin
    rcases hin with hnext | heq
    · obtain ⟨next, hnext⟩ := Option.isSome_iff_exists.mp hnext
      obtain ⟨child, parent, rest, hsuffix, hhash, -⟩ := (hlinked _ _).mp hnext
      have hbelow : parent :: rest <:+ memory.pindexBest := (suffix_cons _ _).trans hsuffix
      have hparent := hmap.closed _ _ hbest parent rest hbelow
      rw [hhash] at hparent
      rw [Option.mem_unique hpindex hparent]
      exact hbelow
    · exact eq_of_beq heq ▸ suffix_refl _
  intro hsuffix
  rcases eq_or_ne (entry :: pprev) memory.pindexBest with heq | hne
  · rw [isInMainChain, heq, beq_self_eq_true, Bool.or_true]
  · exact hlinked.isInMainChain hsuffix hne

theorem pnext_of_reorganize_error
    (h : reorganize s createDbTransaction pindexNew state = (.error refusal, final)) :
    final.memory.pnext = state.memory.pnext := by
  rw [reorganize] at h
  split at h
  · rw [← (Prod.mk.inj h).2]
  rename_i pfork hfork
  have hmoved : Moved state (andThen (disconnectBlocks s (above pfork state.memory.pindexBest) state)
      (connectBlocks s (above pfork pindexNew).reverse)).2 :=
    .andThen (moved_disconnectBlocks _ state) (moved_connectBlocks _)
  dsimp only at h
  rw [← andThen_assoc] at h
  generalize andThen (disconnectBlocks s _ state) _ = result at h hmoved
  rcases result with ⟨_ | _, middle⟩
  · rw [← (Prod.mk.inj h).2, hmoved.memory_eq]
  rw [andThen, writeHashBestChain] at h
  split at h
  · cases (Prod.mk.inj h).1
  · rw [← (Prod.mk.inj h).2, hmoved.memory_eq]

/-- `Reorganize` disconnects the blocks of the best chain above the fork, the tip first,
and connects those of the new branch, the lowest first. -/
theorem reorganize_switches {genesis : IndexEntry} {bestHash newHash : UInt256}
    (hmap : MapOk state.memory)
    (hgenesis : ∀ hash pindex, state.memory.mapBlockIndex hash = some pindex →
      pindex.getLast? = some genesis)
    (hbest : state.memory.mapBlockIndex bestHash = some state.memory.pindexBest)
    (hnew : state.memory.mapBlockIndex newHash = some pindexNew)
    (hlinked : LinkedTo state.memory.pnext state.memory.pindexBest) :
    (∃ pfork vDisconnect vConnect, LowestCommon pfork state.memory.pindexBest pindexNew ∧
        Climbs pfork vDisconnect.reverse state.memory.pindexBest ∧
        Climbs pfork vConnect pindexNew ∧
        reorganize s createDbTransaction pindexNew state =
          andThen (runCalls s (vDisconnect.map .disconnect ++ vConnect.map .connect) state)
            (writeLinks s createDbTransaction pindexNew vDisconnect vConnect)) ∧
      (∀ final, reorganize s createDbTransaction pindexNew state = (.ok (), final) →
        LinkedTo final.memory.pnext pindexNew ∧
        ∀ hash pindex, state.memory.mapBlockIndex hash = some pindex →
          (isInMainChain { final.memory with pindexBest := pindexNew } pindex = true ↔
            pindex <:+ pindexNew)) ∧
      ∀ refusal final, reorganize s createDbTransaction pindexNew state = (.error refusal, final) →
        final.memory.pnext = state.memory.pnext := by
  refine ⟨?_, fun final hfinal => ?_, fun refusal final => pnext_of_reorganize_error⟩
  · obtain ⟨pfork, hfork, hcommon⟩ := exists_lowestCommon (hgenesis _ _ hbest) (hgenesis _ _ hnew)
    refine ⟨pfork, _, _, hcommon, climbs_above hcommon.left, climbs_above hcommon.right, ?_⟩
    rw [reorganize, hfork, runCalls_append, andThen_assoc, runCalls_disconnect,
      funext (runCalls_connect _)]
    rfl
  obtain ⟨pfork, disconnected, hfork, hmoved, -, hadvanced⟩ := reorganize_eq_ok hfinal
  obtain ⟨-, hleft, hright, -⟩ := findFork_eq_ok hfork
  have hmap' : final.memory.mapBlockIndex = state.memory.mapBlockIndex := by
    rw [hadvanced.memory_eq]
    dsimp only
    rw [hmoved.memory_eq]
  have hlinked' : LinkedTo final.memory.pnext pindexNew := by
    rw [hadvanced.memory_eq]
    exact (hlinked.descend hleft (distinct_of_mapOk hmap hbest)).climb (climbs_above hright)
      (distinct_of_mapOk hmap hnew)
  refine ⟨hlinked', fun hash pindex hpindex => ?_⟩
  have hok : MapOk { final.memory with pindexBest := pindexNew } := by
    constructor
    · rw [hmap']
      exact hmap.hash_eq
    · rw [hmap']
      exact hmap.closed
  rw [← hmap'] at hpindex hnew
  exact isInMainChain_iff hok hpindex hnew hlinked'

theorem reorganize_switches_forkedState : ∃ final,
    reorganize calmSurroundings false [chainEntry 3 3, chainEntry 2 2, chainEntry 0 1]
        forkedState = (.ok (), final) ∧
      LinkedTo final.memory.pnext [chainEntry 3 3, chainEntry 2 2, chainEntry 0 1] ∧
      (isInMainChain { final.memory with
        pindexBest := [chainEntry 3 3, chainEntry 2 2, chainEntry 0 1] } bestPtr = true ↔
          bestPtr <:+ [chainEntry 3 3, chainEntry 2 2, chainEntry 0 1]) := by
  have hgenesis : ∀ hash pindex, forkedState.memory.mapBlockIndex hash = some pindex →
      pindex.getLast? = some (chainEntry 0 1) := by
    intro hash pindex hpindex
    have hmem := mem_of_find?_eq_some hpindex
    clear hpindex
    revert pindex
    decide +kernel
  obtain ⟨-, hswitched, -⟩ := @reorganize_switches _ calmSurroundings false forkedState
    [chainEntry 3 3, chainEntry 2 2, chainEntry 0 1] (chainEntry 0 1) 101 103 forked_mapOk hgenesis
    (by decide +kernel) (by decide +kernel) forked_settled.agrees.linked
  obtain ⟨final, hfinal⟩ : ∃ final, reorganize calmSurroundings false
      [chainEntry 3 3, chainEntry 2 2, chainEntry 0 1] forkedState = (.ok (), final) := ⟨_, rfl⟩
  obtain ⟨hlinked, hmain⟩ := hswitched final hfinal
  exact ⟨final, hfinal, hlinked, hmain 101 bestPtr (by decide +kernel)⟩

end Switch

end Bfx.ChainSwitch
