import Bfx.BlockAcceptance
import Bfx.KeyTable

/-!
The blocks held back until their predecessor is known: `ProcessBlock` stores them,
`PruneOrphanBlocks` drops a random one, and an accepted block drains those waiting for it.
-/

namespace Bfx.OrphanBlocks

open BlockAcceptance BlockConnection ChainIndex Function KeyTable List Transaction

abbrev Stake := COutPoint × Nat

structure Orphans where
  mapOrphanBlocks : UInt256 → Option CBlock := fun _ => none
  /-- A multimap: in order of the keys, equal keys in order of insertion. -/
  mapOrphanBlocksByPrev : List (UInt256 × CBlock) := []
  setStakeSeenOrphan : Finset Stake := ∅

/-- A call of `ProcessBlock` with what it reads outside the orphan containers. -/
structure Call where
  block : CBlock
  /-- The keys of `mapBlockIndex`. -/
  known : UInt256 → Bool
  /-- One of the checks between the duplicate check and the orphan branch fails. -/
  refused : Bool
  wantedByPendingSyncCheckpoint : Bool
  maxSize : Nat
  insecureRand : Nat
  acceptBlock : CBlock → Bool

variable (getHash : CBlock → UInt256)

/-- The walk to an orphan that no other one depends on; it visits every orphan at most once. -/
def leafFrom (byPrev : List (UInt256 × CBlock)) : Nat → UInt256 × CBlock → UInt256 × CBlock
  | 0, it => it
  | fuel + 1, it =>
    match byPrev.find? (·.1 = getHash it.2) with
    | none => it
    | some it2 => leafFrom byPrev fuel it2

def pruneOrphanBlocks (maxSize insecureRand : Nat) (o : Orphans) : Orphans :=
  let size := o.mapOrphanBlocksByPrev.length
  if size ≤ maxSize then o
  else match o.mapOrphanBlocksByPrev[insecureRand % size]? with
    | none => o
    | some it =>
      let it := leafFrom getHash o.mapOrphanBlocksByPrev size it
      { o with
        mapOrphanBlocksByPrev := o.mapOrphanBlocksByPrev.erase it
        mapOrphanBlocks := update o.mapOrphanBlocks (getHash it.2) none }

/-- One pass of the work queue: the orphans that wait for `hashPrev` are let go. -/
def release (hashPrev : UInt256) (o : Orphans) : Orphans :=
  let waiting := o.mapOrphanBlocksByPrev.filter (·.1 = hashPrev)
  { mapOrphanBlocks :=
      waiting.foldl (fun map entry => update map (getHash entry.2) none) o.mapOrphanBlocks
    mapOrphanBlocksByPrev := o.mapOrphanBlocksByPrev.filter (·.1 ≠ hashPrev)
    setStakeSeenOrphan :=
      waiting.foldl (fun set entry => set.erase (getProofOfStake entry.2)) o.setStakeSeenOrphan }

def acceptedOf (acceptBlock : CBlock → Bool) (hashPrev : UInt256) (o : Orphans) : List UInt256 :=
  ((o.mapOrphanBlocksByPrev.filter (·.1 = hashPrev)).filter (acceptBlock ·.2)).map (getHash ·.2)

theorem length_acceptedOf_le (acceptBlock : CBlock → Bool) (hashPrev : UInt256) (o : Orphans) :
    (acceptedOf getHash acceptBlock hashPrev o).length +
      (release getHash hashPrev o).mapOrphanBlocksByPrev.length ≤
        o.mapOrphanBlocksByPrev.length := by
  have hsplit := length_eq_length_filter_add (l := o.mapOrphanBlocksByPrev) (·.1 = hashPrev)
  have hle := length_filter_le (acceptBlock ·.2) (o.mapOrphanBlocksByPrev.filter (·.1 = hashPrev))
  simp only [acceptedOf, release, length_map]
  simp only [decide_not] at hsplit ⊢
  omega

/-- The loop over `vWorkQueue`, which grows by the orphans that are accepted. -/
def drain (acceptBlock : CBlock → Bool) : List UInt256 → Orphans → Orphans
  | [], o => o
  | hashPrev :: vWorkQueue, o =>
    drain acceptBlock (vWorkQueue ++ acceptedOf getHash acceptBlock hashPrev o)
      (release getHash hashPrev o)
termination_by vWorkQueue o => vWorkQueue.length + o.mapOrphanBlocksByPrev.length
decreasing_by
  have := length_acceptedOf_le getHash acceptBlock hashPrev o
  simp only [length_append, length_cons]
  omega

/-- The refusal "duplicate proof-of-stake for orphan block". -/
def duplicateOrphanStake (call : Call) (o : Orphans) : Bool :=
  isProofOfStake call.block && decide (getProofOfStake call.block ∈ o.setStakeSeenOrphan) &&
    !o.mapOrphanBlocksByPrev.any (·.1 = getHash call.block) &&
    !call.wantedByPendingSyncCheckpoint

/-- The checks that come before the predecessor is looked up. -/
def passesChecks (call : Call) (o : Orphans) : Bool :=
  !call.known (getHash call.block) && (o.mapOrphanBlocks (getHash call.block)).isNone &&
    !call.refused

def storeOrphan (call : Call) (o : Orphans) : Orphans :=
  let block := call.block
  let o := { o with
    setStakeSeenOrphan := if isProofOfStake block then
      insert (getProofOfStake block) o.setStakeSeenOrphan else o.setStakeSeenOrphan }
  let o := pruneOrphanBlocks getHash call.maxSize call.insecureRand o
  { o with
    mapOrphanBlocks := update o.mapOrphanBlocks (getHash block) (some block)
    mapOrphanBlocksByPrev :=
      o.mapOrphanBlocksByPrev.orderedInsert (·.1 < ·.1) (block.hashPrevBlock, block) }

def processBlock (call : Call) (o : Orphans) : Bool × Orphans :=
  if !passesChecks getHash call o then (false, o)
  else if !call.known call.block.hashPrevBlock then
    if duplicateOrphanStake getHash call o then (false, o) else (true, storeOrphan getHash call o)
  else if !call.acceptBlock call.block then (false, o)
  else (true, drain getHash call.acceptBlock [getHash call.block] o)

def run (calls : List Call) : Orphans :=
  calls.foldl (fun o call => (processBlock getHash call o).2) {}

section Blocks

/-- Both maps hold the same blocks, one by its hash and one by its predecessor's. -/
structure SameBlocks (o : Orphans) : Prop where
  keyed : ∀ entry ∈ o.mapOrphanBlocksByPrev, entry.1 = entry.2.hashPrevBlock
  held : ∀ hash block, o.mapOrphanBlocks hash = some block ↔
    getHash block = hash ∧ (block.hashPrevBlock, block) ∈ o.mapOrphanBlocksByPrev
  nodup : o.mapOrphanBlocksByPrev.Nodup

variable {getHash} {o : Orphans}

/-- Entries may leave the second map when their hashes leave the first one. -/
theorem SameBlocks.drop (hsame : SameBlocks getHash o)
    (hdropped : dropped ⊆ o.mapOrphanBlocksByPrev) (hmap : o'.mapOrphanBlocks = dropped.foldl (fun
      map entry => update map (getHash entry.2) none) o.mapOrphanBlocks) (hbyPrev : ∀ entry, entry ∈
      o'.mapOrphanBlocksByPrev ↔ entry ∈ o.mapOrphanBlocksByPrev ∧ entry ∉ dropped)
    (hnodup : o'.mapOrphanBlocksByPrev.Nodup) : SameBlocks getHash o' where
  keyed entry hentry := hsame.keyed entry ((hbyPrev entry).mp hentry).1
  nodup := hnodup
  held hash block := by
    rw [hmap, foldl_erase_eq_some, hsame.held, hbyPrev, and_assoc]
    apply and_congr_right
    rintro rfl
    apply and_congr_right
    intro hblock
    constructor
    · exact fun hkept hin => hkept _ hin rfl
    · intro hnot entry hin heq
      have hkey := hsame.keyed entry (hdropped hin)
      have hheld := (hsame.held _ entry.2).mpr ⟨heq, by rw [← hkey]; exact hdropped hin⟩
      rw [(hsame.held _ block).mpr ⟨rfl, hblock⟩, Option.some.injEq] at hheld
      exact hnot (by rwa [hheld, ← hkey])

theorem leafFrom_mem (fuel : Nat) (hit : it ∈ byPrev) :
    leafFrom getHash byPrev fuel it ∈ byPrev := by
  induction fuel generalizing it with
  | zero => exact hit
  | succ fuel ih =>
    rw [leafFrom]
    split
    · exact hit
    · exact ih (mem_of_find?_eq_some ‹_›)

/-- What `PruneOrphanBlocks` does: nothing, or one held block leaves both maps. -/
theorem pruneOrphanBlocks_cases (getHash : CBlock → UInt256) (maxSize insecureRand : Nat)
    (o : Orphans) :
    pruneOrphanBlocks getHash maxSize insecureRand o = o ∨
    maxSize < o.mapOrphanBlocksByPrev.length ∧ ∃ it ∈ o.mapOrphanBlocksByPrev,
      pruneOrphanBlocks getHash maxSize insecureRand o = { o with
        mapOrphanBlocksByPrev := o.mapOrphanBlocksByPrev.erase it
        mapOrphanBlocks := update o.mapOrphanBlocks (getHash it.2) none } := by
  simp only [pruneOrphanBlocks]
  split_ifs with hsize
  · exact .inl rfl
  split
  · exact .inl rfl
  · exact .inr ⟨not_le.mp hsize, _, leafFrom_mem _ (mem_of_getElem? ‹_›), rfl⟩

theorem length_pruneOrphanBlocks_le (insecureRand : Nat)
    (ho : o.mapOrphanBlocksByPrev.length ≤ maxSize + 1) :
    (pruneOrphanBlocks getHash maxSize insecureRand o).mapOrphanBlocksByPrev.length ≤ maxSize := by
  rw [pruneOrphanBlocks]
  split_ifs with hsize
  · exact hsize
  have hpos := Nat.mod_lt insecureRand (Nat.zero_lt_of_lt (not_le.mp hsize))
  rw [getElem?_eq_getElem hpos]
  dsimp only
  rw [length_erase_of_mem (leafFrom_mem _ (getElem_mem hpos))]
  omega

theorem SameBlocks.prune (hsame : SameBlocks getHash o) (maxSize insecureRand : Nat) :
    SameBlocks getHash (pruneOrphanBlocks getHash maxSize insecureRand o) := by
  obtain heq | ⟨-, it, hit, heq⟩ := pruneOrphanBlocks_cases getHash maxSize insecureRand o
  · rwa [heq]
  rw [heq]
  apply hsame.drop (cons_subset.mpr ⟨hit, nil_subset _⟩) rfl _ (hsame.nodup.erase it)
  intro entry
  rw [hsame.nodup.mem_erase_iff, mem_singleton, and_comm]

theorem SameBlocks.release (hsame : SameBlocks getHash o) (hashPrev : UInt256) :
    SameBlocks getHash (release getHash hashPrev o) := by
  apply hsame.drop filter_sublist.subset rfl _ (hsame.nodup.filter _)
  intro entry
  simp only [OrphanBlocks.release, mem_filter, decide_eq_true_eq]
  tauto

/-- The block in all three containers. -/
def withOrphan (getHash : CBlock → UInt256) (block : CBlock) (o : Orphans) : Orphans where
  mapOrphanBlocks := update o.mapOrphanBlocks (getHash block) (some block)
  mapOrphanBlocksByPrev :=
    o.mapOrphanBlocksByPrev.orderedInsert (·.1 < ·.1) (block.hashPrevBlock, block)
  setStakeSeenOrphan := if isProofOfStake block then
    insert (getProofOfStake block) o.setStakeSeenOrphan else o.setStakeSeenOrphan

theorem SameBlocks.insert (hsame : SameBlocks getHash o)
    (hnew : o.mapOrphanBlocks (getHash block) = none) :
    SameBlocks getHash (withOrphan getHash block o) where
  keyed entry hentry := by
    obtain rfl | hentry := (mem_orderedInsert _).mp hentry
    · rfl
    · exact hsame.keyed entry hentry
  nodup := by
    refine ((perm_orderedInsert _ _ _).nodup_iff).mpr (nodup_cons.mpr ⟨fun hmem => ?_, hsame.nodup⟩)
    rw [(hsame.held _ block).mpr ⟨rfl, hmem⟩] at hnew
    cases hnew
  held hash other := by
    simp only [withOrphan, mem_orderedInsert, Prod.mk.injEq]
    have hother := hsame.held hash other
    rw [update_apply]
    grind

end Blocks

section Stakes

variable {getHash} {o : Orphans}

/-- The seen stakes are those of the held blocks, and no two held blocks share one. -/
structure StakesSeen (o : Orphans) : Prop where
  seen : ∀ stake, stake ∈ o.setStakeSeenOrphan ↔ ∃ entry ∈ o.mapOrphanBlocksByPrev,
    isProofOfStake entry.2 = true ∧ getProofOfStake entry.2 = stake
  distinct : ∀ entry ∈ o.mapOrphanBlocksByPrev, ∀ other ∈ o.mapOrphanBlocksByPrev,
    isProofOfStake entry.2 = true → getProofOfStake entry.2 = getProofOfStake other.2 →
      entry = other ∨ isProofOfStake other.2 = false

/-- The value of a block without a stake is no stake. -/
theorem isNull_getProofOfStake (block : CBlock) :
    (getProofOfStake block).1.isNull = !isProofOfStake block := by
  cases hpos : isProofOfStake block with
  | false => simp [getProofOfStake, hpos, COutPoint.isNull]
  | true =>
    have hstake := hpos
    simp only [isProofOfStake] at hstake
    split at hstake
    · rename_i tx _ hvtx
      obtain ⟨_, _, _, _⟩ := tx
      simp only [isCoinStake] at hstake
      split at hstake
      · simp_all [getProofOfStake]
      · cases hstake
    · cases hstake

theorem mem_foldl_erase (entries : List (UInt256 × CBlock)) {stakes : Finset Stake} :
    stake ∈ entries.foldl (fun set entry => set.erase (getProofOfStake entry.2)) stakes ↔
      stake ∈ stakes ∧ ∀ entry ∈ entries, getProofOfStake entry.2 ≠ stake := by
  induction entries generalizing stakes with
  | nil => simp
  | cons entry entries ih =>
    rw [foldl_cons, ih, Finset.mem_erase, forall_mem_cons, and_assoc, and_left_comm, ne_comm]

theorem StakesSeen.release (hstakes : StakesSeen o) (hashPrev : UInt256) :
    StakesSeen (release getHash hashPrev o) where
  distinct entry hentry other hother :=
    hstakes.distinct entry (mem_of_mem_filter hentry) other (mem_of_mem_filter hother)
  seen stake := by
    simp only [OrphanBlocks.release, mem_foldl_erase, hstakes.seen, mem_filter, decide_eq_true_eq]
    constructor
    · rintro ⟨⟨entry, hentry, hpos, heq⟩, hkept⟩
      exact ⟨entry, ⟨hentry, fun hkey => hkept entry ⟨hentry, hkey⟩ heq⟩, hpos, heq⟩
    rintro ⟨entry, ⟨hentry, hkey⟩, hpos, rfl⟩
    refine ⟨⟨entry, hentry, hpos, rfl⟩, fun other ⟨hother, hkey'⟩ heq => ?_⟩
    obtain rfl | hwork := hstakes.distinct entry hentry other hother hpos heq.symm
    · exact hkey hkey'
    have hnull := isNull_getProofOfStake other.2
    rw [heq, isNull_getProofOfStake, hpos, hwork] at hnull
    cases hnull

theorem StakesSeen.prune (hsame : SameBlocks getHash o) (hstakes : StakesSeen o)
    (maxSize insecureRand : Nat) (hwork : maxSize < o.mapOrphanBlocksByPrev.length →
      ∀ entry ∈ o.mapOrphanBlocksByPrev, isProofOfStake entry.2 = false) :
    StakesSeen (pruneOrphanBlocks getHash maxSize insecureRand o) := by
  obtain heq | ⟨hsize, it, hit, heq⟩ := pruneOrphanBlocks_cases getHash maxSize insecureRand o
  · rwa [heq]
  rw [heq]
  refine ⟨fun stake => ?_, fun entry hentry other hother =>
    hstakes.distinct entry (mem_of_mem_erase hentry) other (mem_of_mem_erase hother)⟩
  simp only [hstakes.seen, hsame.nodup.mem_erase_iff]
  constructor
  · rintro ⟨entry, hentry, hpos, -⟩
    rw [hwork hsize entry hentry] at hpos
    cases hpos
  · rintro ⟨entry, ⟨-, hentry⟩, h⟩
    exact ⟨entry, hentry, h⟩

theorem StakesSeen.insert (hstakes : StakesSeen o)
    (hfresh : isProofOfStake block = true → getProofOfStake block ∉ o.setStakeSeenOrphan) :
    StakesSeen (withOrphan getHash block o) where
  seen stake := by
    simp only [withOrphan, mem_orderedInsert, or_and_right, exists_or, exists_eq_left,
      ← hstakes.seen]
    split_ifs with hpos
    · simp [hpos, eq_comm]
    · simp [hpos]
  distinct entry hentry other hother hpos heq := by
    have hold : ∀ entry ∈ o.mapOrphanBlocksByPrev, isProofOfStake entry.2 = true →
        getProofOfStake entry.2 = getProofOfStake block → isProofOfStake block = false := by
      intro entry hentry hpos heq
      by_contra hblock
      exact hfresh (by simpa using hblock) ((hstakes.seen _).mpr ⟨entry, hentry, hpos, heq⟩)
    have hdistinct := hstakes.distinct
    simp only [withOrphan, mem_orderedInsert] at hentry hother
    grind

end Stakes

section Runs

/-- If the block is stored, then pruning has no proof-of-stake block to drop, and the block does
not repeat a stake. -/
def calm (call : Call) (o : Orphans) : Bool :=
  !passesChecks getHash call o || call.known call.block.hashPrevBlock ||
    duplicateOrphanStake getHash call o ||
    (decide (o.mapOrphanBlocksByPrev.length ≤ call.maxSize) ||
        o.mapOrphanBlocksByPrev.all (!isProofOfStake ·.2)) &&
      !(isProofOfStake call.block && decide (getProofOfStake call.block ∈ o.setStakeSeenOrphan))

def calmRun : List Call → Orphans → Bool
  | [], _ => true
  | call :: calls, o => calm getHash call o && calmRun calls (processBlock getHash call o).2

variable {getHash}

/-- A property kept by every pass of the work queue is kept by the whole loop. -/
theorem drain_invariant {P : Orphans → Prop}
    (hrelease : ∀ hashPrev o, P o → P (release getHash hashPrev o)) (acceptBlock : CBlock → Bool)
    (vWorkQueue : List UInt256) (hP : P o) : P (drain getHash acceptBlock vWorkQueue o) := by
  induction vWorkQueue, o using drain.induct getHash acceptBlock with
  | case1 o => rwa [drain]
  | case2 hashPrev vWorkQueue o ih =>
    rw [drain]
    exact ih (hrelease hashPrev o hP)

/-- What a call does: nothing, the block is stored, or an accepted block drains the queue. -/
theorem processBlock_cases (getHash : CBlock → UInt256) (call : Call) (o : Orphans) :
    (processBlock getHash call o).2 = o ∨
    (passesChecks getHash call o = true ∧ call.known call.block.hashPrevBlock = false ∧
      duplicateOrphanStake getHash call o = false ∧
      (processBlock getHash call o).2 = withOrphan getHash call.block
        (pruneOrphanBlocks getHash call.maxSize call.insecureRand o)) ∨
    (processBlock getHash call o).2 =
      drain getHash call.acceptBlock [getHash call.block] o := by
  unfold processBlock
  split_ifs with hchecks hknown hduplicate haccept
  · exact .inl rfl
  · exact .inl rfl
  · simp only [Bool.not_eq_true] at hchecks hknown hduplicate
    refine .inr (.inl ⟨by simpa using hchecks, by simpa using hknown, hduplicate, ?_⟩)
    by_cases hsize : o.mapOrphanBlocksByPrev.length ≤ call.maxSize
    · simp only [storeOrphan, pruneOrphanBlocks, if_pos hsize]
      rfl
    · simp only [storeOrphan, pruneOrphanBlocks, if_neg hsize]
      split <;> rfl
  · exact .inl rfl
  · exact .inr (.inr rfl)

theorem SameBlocks.processBlock (hsame : SameBlocks getHash o) (call : Call) :
    SameBlocks getHash (processBlock getHash call o).2 := by
  obtain heq | ⟨hchecks, -, -, heq⟩ | heq := processBlock_cases getHash call o
  · rwa [heq]
  · rw [heq]
    simp only [passesChecks, Bool.and_eq_true, Option.isNone_iff_eq_none] at hchecks
    refine (hsame.prune _ _).insert ?_
    obtain heq | ⟨-, it, -, heq⟩ := pruneOrphanBlocks_cases getHash call.maxSize call.insecureRand o
    · rw [heq, hchecks.1.2]
    · simp only [heq, update_apply, hchecks.1.2, ite_self]
  · rw [heq]
    exact drain_invariant (fun hashPrev o h => h.release hashPrev) _ _ hsame

theorem StakesSeen.processBlock (hsame : SameBlocks getHash o) (hstakes : StakesSeen o)
    (hcalm : calm getHash call o = true) : StakesSeen (processBlock getHash call o).2 := by
  obtain heq | ⟨hchecks, hknown, hduplicate, heq⟩ | heq := processBlock_cases getHash call o
  · rwa [heq]
  · simp only [calm, hchecks, hknown, hduplicate, Bool.not_true, Bool.false_or, Bool.and_eq_true,
      Bool.or_eq_true, decide_eq_true_eq, all_eq_true, Bool.not_eq_eq_eq_not, Bool.and_eq_false_imp,
      decide_eq_false_iff_not] at hcalm
    rw [heq]
    refine (hstakes.prune hsame _ _ fun hsize => ?_).insert ?_
    · exact hcalm.1.resolve_left (not_le.mpr hsize)
    · obtain heq | ⟨-, it, -, heq⟩ :=
        pruneOrphanBlocks_cases getHash call.maxSize call.insecureRand o
      all_goals simpa only [heq] using hcalm.2
  · rw [heq]
    exact drain_invariant (fun hashPrev o h => h.release hashPrev) _ _ hstakes

theorem length_processBlock_le (call : Call)
    (ho : o.mapOrphanBlocksByPrev.length ≤ call.maxSize + 1) :
    (processBlock getHash call o).2.mapOrphanBlocksByPrev.length ≤ call.maxSize + 1 := by
  obtain heq | ⟨-, -, -, heq⟩ | heq := processBlock_cases getHash call o
  · rwa [heq]
  · rw [heq, withOrphan, orderedInsert_length]
    exact Nat.succ_le_succ (length_pruneOrphanBlocks_le _ ho)
  · rw [heq]
    exact drain_invariant (P := fun o => o.mapOrphanBlocksByPrev.length ≤ call.maxSize + 1)
      (fun _ _ h => (length_filter_le _ _).trans h) _ _ ho

theorem sameBlocks_foldl (calls : List Call) (hsame : SameBlocks getHash o) :
    SameBlocks getHash (calls.foldl (fun o call => (processBlock getHash call o).2) o) := by
  induction calls generalizing o with
  | nil => exact hsame
  | cons call calls ih => exact ih (hsame.processBlock call)

theorem stakesSeen_foldl (hsame : SameBlocks getHash o) (hstakes : StakesSeen o)
    (hcalm : calmRun getHash calls o = true) :
    StakesSeen (calls.foldl (fun o call => (processBlock getHash call o).2) o) := by
  induction calls generalizing o with
  | nil => exact hstakes
  | cons call calls ih =>
    simp only [calmRun, Bool.and_eq_true] at hcalm
    exact ih (hsame.processBlock call) (hstakes.processBlock hsame hcalm.1) hcalm.2

theorem sameBlocks_empty : SameBlocks getHash {} := ⟨nofun, by simp, nodup_nil⟩

/-- The two maps hold the same blocks in every run. While no held stake is dropped by pruning or
repeated, the seen stakes are those of the held blocks, so only a held one is a duplicate. -/
theorem orphans_bookkept (calls : List Call) :
    SameBlocks getHash (run getHash calls) ∧ (calmRun getHash calls {} = true →
      (∀ stake, stake ∈ (run getHash calls).setStakeSeenOrphan ↔
        ∃ hash block, (run getHash calls).mapOrphanBlocks hash = some block ∧
          isProofOfStake block = true ∧ getProofOfStake block = stake) ∧
      ∀ call, duplicateOrphanStake getHash call (run getHash calls) = true →
        ∃ hash block, (run getHash calls).mapOrphanBlocks hash = some block ∧
          isProofOfStake block = true ∧ getProofOfStake block = getProofOfStake call.block) := by
  have hsame := sameBlocks_foldl calls (sameBlocks_empty : SameBlocks getHash {})
  refine ⟨hsame, fun hcalm => ?_⟩
  have hstakes := stakesSeen_foldl sameBlocks_empty ⟨by simp, nofun⟩ hcalm
  have hseen : ∀ stake, stake ∈ (run getHash calls).setStakeSeenOrphan ↔
      ∃ hash block, (run getHash calls).mapOrphanBlocks hash = some block ∧
        isProofOfStake block = true ∧ getProofOfStake block = stake := by
    intro stake
    refine (hstakes.seen stake).trans ⟨?_, ?_⟩
    · rintro ⟨entry, hentry, h⟩
      have hkey := hsame.keyed entry hentry
      exact ⟨_, entry.2, (hsame.held _ _).mpr ⟨rfl, by rwa [← hkey]⟩, h⟩
    · rintro ⟨hash, block, hheld, h⟩
      exact ⟨_, ((hsame.held hash block).mp hheld).2, h⟩
  refine ⟨hseen, fun call hduplicate => (hseen _).mp ?_⟩
  simp only [duplicateOrphanStake, Bool.and_eq_true, decide_eq_true_eq] at hduplicate
  exact hduplicate.1.1.2

/-- A node holds at most one orphan more than its limit, whatever it is sent. -/
theorem orphans_bounded (calls : List Call) (hsize : ∀ call ∈ calls, call.maxSize = maxSize) :
    (run getHash calls).mapOrphanBlocksByPrev.length ≤ maxSize + 1 := by
  refine foldlRecOn (motive := fun o : Orphans => o.mapOrphanBlocksByPrev.length ≤ maxSize + 1)
    calls _ (Nat.zero_le _) fun o ho call hcall => ?_
  rw [← hsize call hcall] at ho ⊢
  exact length_processBlock_le call ho

end Runs

/-- A block without transactions, or one with a coinstake that spends the output `nonce`. -/
def sampleBlock (nonce : Nat) (hashPrevBlock : UInt256) (stake : Bool) : CBlock :=
  ⟨6, hashPrevBlock, 0, 0, 0, nonce, if stake then
    [⟨0, [], [], 0⟩, ⟨nonce, [⟨⟨1, nonce⟩, []⟩], [⟨0, []⟩, ⟨1, []⟩], 0⟩] else [], []⟩

def nonceHash (block : CBlock) : UInt256 := block.nNonce

def sampleCall (block : CBlock) : Call := ⟨block, (· == 1), false, false, 1, 0, fun _ => true⟩

def stakeCall : Call := sampleCall (sampleBlock 5 20 true)

theorem orphans_bookkept_two :
    calmRun nonceHash [stakeCall, sampleCall (sampleBlock 6 30 false)] {} = true ∧
      SameBlocks nonceHash (run nonceHash [stakeCall, sampleCall (sampleBlock 6 30 false)]) ∧
      ∃ hash block, (run nonceHash [stakeCall, sampleCall (sampleBlock 6 30 false)]).mapOrphanBlocks
        hash = some block ∧ isProofOfStake block = true ∧
          getProofOfStake block = getProofOfStake (sampleBlock 5 40 true) :=
  have h := @orphans_bookkept nonceHash [stakeCall, sampleCall (sampleBlock 6 30 false)]
  ⟨by decide, h.1, (h.2 (by decide)).2 ⟨sampleBlock 5 40 true, fun _ => false, false, false, 1, 0,
    fun _ => true⟩ (by decide)⟩

theorem orphans_bounded_two : (run nonceHash
    [stakeCall, sampleCall (sampleBlock 6 30 false)]).mapOrphanBlocksByPrev.length ≤ 2 :=
  orphans_bounded _ (by decide)

/-- The third orphan drops the first one but not its stake, so it cannot come back. -/
theorem pruned_stake_stays :
    let o := run nonceHash
      [stakeCall, sampleCall (sampleBlock 6 30 false), sampleCall (sampleBlock 7 40 false)]
    getProofOfStake stakeCall.block ∈ o.setStakeSeenOrphan ∧
      (∀ entry ∈ o.mapOrphanBlocksByPrev, isProofOfStake entry.2 = false) ∧
      duplicateOrphanStake nonceHash stakeCall o = true ∧
      (processBlock nonceHash stakeCall o).1 = false := by
  decide

end Bfx.OrphanBlocks
