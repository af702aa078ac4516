import Bfx.ChainAgreement
import Bfx.ForkExactness

/-!
Block locators: the hash of a block and of ancestors at growing distances, from
which another node finds the last block that it has in its main chain, and the headers
that `getheaders` sends from there.
-/

namespace Bfx.BlockLocator

open BestChain BlockTree ChainAgreement ForkExactness List NodeState Transaction

/-- The loop of `Set`; every turn moves back by a block at least, which bounds the
number of turns. -/
def setFrom : Nat → Nat → Nat → IndexPtr → List UInt256
  | 0, _, _, _ => []
  | _ + 1, _, _, [] => []
  | fuel + 1, nStep, nHave, entry :: pprev =>
    entry.hashBlock :: setFrom fuel (if nHave + 1 > 10 then nStep * 2 else nStep) (nHave + 1)
      ((entry :: pprev).drop nStep)

/-- The hashes without that of the genesis block, which is appended. -/
def vHave (pindex : IndexPtr) : List UInt256 := setFrom pindex.length 1 0 pindex

def CBlockLocator.set (hashGenesisBlock : UInt256) (pindex : IndexPtr) : List UInt256 :=
  vHave pindex ++ [hashGenesisBlock]

def findInMainChain (memory : Memory) (hash : UInt256) : Option IndexPtr :=
  (memory.mapBlockIndex hash).filter (isInMainChain memory)

def getBlockIndex (memory : Memory) : List UInt256 → IndexPtr
  | [] => memory.pindexGenesisBlock
  | hash :: vHave => (findInMainChain memory hash).getD (getBlockIndex memory vHave)

def getDistanceBackFrom (memory : Memory) : Nat → Nat → List UInt256 → Nat
  | nDistance, _, [] => nDistance
  | nDistance, nStep, hash :: vHave =>
    if (findInMainChain memory hash).isSome then nDistance
    else getDistanceBackFrom memory (nDistance + nStep)
      (if nDistance + nStep > 10 then nStep * 2 else nStep) vHave

def getDistanceBack (memory : Memory) (vHave : List UInt256) : Nat :=
  getDistanceBackFrom memory 0 1 vHave

/-- The last ancestor on the main chain is `d` steps back. -/
structure ForkAt (memory : Memory) (pindex : IndexPtr) (d : Nat) : Prop where
  lt : d < pindex.length
  inMain : pindex.drop d <:+ memory.pindexBest
  last : ∀ k < d, ¬ pindex.drop k <:+ memory.pindexBest

/-- The state of both loops at an entry: `nHave` entries come before it. -/
def Pace (nHave distance nStep : Nat) : Prop :=
  (nHave ≤ 10 ∧ nStep = 1 ∧ distance = nHave) ∨
    (11 ≤ nHave ∧ 2 ≤ nStep ∧ distance = 9 + nStep)

/-- The two loops double their steps at the same entries. -/
theorem Pace.next (h : Pace nHave distance nStep) :
    (nHave + 1 > 10 ↔ distance + nStep > 10) ∧ Pace (nHave + 1) (distance + nStep)
      (if nHave + 1 > 10 then nStep * 2 else nStep) := by
  rw [Pace] at h ⊢
  split <;> omega

theorem suffix_iff (hfork : ForkAt memory pindex d) :
    pindex.drop k <:+ memory.pindexBest ↔ d ≤ k := by
  constructor
  · exact fun hsuffix => Nat.le_of_not_lt fun hlt => hfork.last k hlt hsuffix
  intro hle
  have hdrop : pindex.drop k = (pindex.drop d).drop (k - d) := by
    rw [drop_drop, Nat.add_sub_cancel' hle]
  rw [hdrop]
  exact (drop_suffix _ _).trans hfork.inMain

variable {τ : Type} {txdb : NodeDb τ}

/-- From an entry on, either the first entry behind the fork is hit, where the distance
is right, or the walk runs past the genesis block. -/
theorem setFrom_finds (htree : TreeOk memory txdb) {hash : UInt256}
    (hpindex : memory.mapBlockIndex hash = some pindex) (hfork : ForkAt memory pindex d)
    (hpace : Pace nHave k nStep) (hk : k ≤ d ∨ (11 < d ∧ k ≤ 2 * d - 11))
    (hfuel : pindex.length ≤ fuel + k) :
    (∃ r, (r = d ∨ (11 < d ∧ d ≤ r ∧ r ≤ 2 * d - 11)) ∧ r < pindex.length ∧ ∀ rest,
      getBlockIndex memory (setFrom fuel nStep nHave (pindex.drop k) ++ rest) = pindex.drop r ∧
      getDistanceBackFrom memory k nStep (setFrom fuel nStep nHave (pindex.drop k) ++ rest) = r) ∨
    (11 < d ∧ ∀ hash ∈ setFrom fuel nStep nHave (pindex.drop k), findInMainChain memory hash = none) := by
  have hlt := hfork.lt
  induction fuel generalizing nHave k nStep with
  | zero => exact .inr ⟨by omega, nofun⟩
  | succ fuel ih =>
    cases hentry : pindex.drop k with
    | nil =>
      have hlen := drop_eq_nil_iff.mp hentry
      exact .inr ⟨by omega, nofun⟩
    | cons entry pprev =>
      have hklt : k < pindex.length := by
        rw [← not_le, ← drop_eq_nil_iff, hentry]
        exact cons_ne_nil _ _
      have hfind : findInMainChain memory entry.hashBlock =
          if d ≤ k then some (pindex.drop k) else none := by
        have hfound : memory.mapBlockIndex entry.hashBlock = some (pindex.drop k) := by
          rw [hentry]
          exact htree.closed _ _ hpindex _ _ (hentry ▸ drop_suffix _ _)
        rw [findInMainChain, hfound, Option.filter]
        exact if_congr ((htree.main _ _ hfound).trans (suffix_iff hfork)) rfl rfl
      rcases Nat.lt_or_ge k d with hmiss | hhit
      · obtain ⟨hdouble, hnext⟩ := hpace.next
        have hback : k + nStep ≤ d ∨ (11 < d ∧ k + nStep ≤ 2 * d - 11) := by
          rw [Pace] at hpace
          omega
        have hstep : 1 ≤ nStep := by
          rw [Pace] at hpace
          omega
        have hrest := ih hnext hback (by omega)
        rw [if_neg (by omega)] at hfind
        simp only [setFrom, ← hentry, drop_drop, cons_append, getBlockIndex, getDistanceBackFrom,
          hfind, forall_mem_cons, Option.getD_none, Option.isSome_none, Bool.false_eq_true, if_false,
          ← hdouble, true_and]
        exact hrest
      rw [if_pos hhit] at hfind
      refine .inl ⟨k, by omega, hklt, fun rest => ?_⟩
      simp only [setFrom, cons_append, getBlockIndex, getDistanceBackFrom, hfind, Option.getD_some,
        Option.isSome_some, if_true, and_self]

theorem getBlockIndex_append (h : ∀ hash ∈ hashes, findInMainChain memory hash = none) :
    getBlockIndex memory (hashes ++ rest) = getBlockIndex memory rest := by
  induction hashes with
  | nil => rfl
  | cons hash hashes ih =>
    obtain ⟨hhash, hhashes⟩ := forall_mem_cons.mp h
    rw [cons_append, getBlockIndex, hhash, Option.getD_none, ih hhashes]

theorem drop_of_getLast? {pindex : IndexPtr} (h : pindex.getLast? = some genesis) :
    0 < pindex.length ∧ pindex.drop (pindex.length - 1) = [genesis] := by
  obtain ⟨upper, rfl⟩ := getLast?_eq_some_iff.mp h
  rw [length_append, length_singleton, Nat.add_sub_cancel, drop_left]
  exact ⟨Nat.succ_pos _, rfl⟩

/-- The locator of a block finds the fork, or a block that is at most about twice as
far back, or the genesis block. -/
theorem getBlockIndex_near_fork (htree : TreeOk memory txdb)
    (hgenesis : memory.pindexGenesisBlock = [genesis])
    (hroot : memory.mapBlockIndex genesis.hashBlock = some [genesis]) {hash : UInt256}
    (hpindex : memory.mapBlockIndex hash = some pindex) :
    ∃ d r, ForkAt memory pindex d ∧ d ≤ r ∧ r < pindex.length ∧
      pindex.drop r <:+ memory.pindexBest ∧
      getBlockIndex memory (CBlockLocator.set genesis.hashBlock pindex) = pindex.drop r ∧
      (r ≤ max d (2 * d - 11) ∨ pindex.drop r = memory.pindexGenesisBlock) ∧ (d ≤ 11 → r = d) ∧
      ((∃ hash ∈ vHave pindex, (findInMainChain memory hash).isSome) →
        getDistanceBack memory (CBlockLocator.set genesis.hashBlock pindex) = r) := by
  obtain ⟨genesis', hlast⟩ := htree.genesis
  obtain rfl : genesis = genesis' := Option.some.inj (hlast _ _ hroot)
  obtain ⟨best, hbest⟩ := htree.best
  obtain ⟨hpos, hdrop⟩ := drop_of_getLast? (hlast _ _ hpindex)
  have hmain : [genesis] <:+ memory.pindexBest := by
    rw [← (drop_of_getLast? (hlast _ _ hbest)).2]
    exact drop_suffix _ _
  have hsome : ∃ k, pindex.drop k <:+ memory.pindexBest := ⟨_, hdrop ▸ hmain⟩
  obtain ⟨d, hfork⟩ : ∃ d, ForkAt memory pindex d := by
    classical
    have hle := Nat.find_min' hsome (hdrop ▸ hmain)
    exact ⟨Nat.find hsome, by omega, Nat.find_spec hsome, fun _ => Nat.find_min hsome⟩
  have hd := hfork.lt
  have hwalk := setFrom_finds htree hpindex hfork (.inl ⟨Nat.zero_le _, rfl, rfl⟩)
    (.inl (Nat.zero_le _)) (Nat.le_refl _)
  rw [drop_zero] at hwalk
  rcases hwalk with ⟨r, hr, hlt, hfound⟩ | ⟨hfar, hnone⟩
  · obtain ⟨hindex, hdistance⟩ := hfound [genesis.hashBlock]
    exact ⟨d, r, hfork, by omega, hlt, (suffix_iff hfork).mpr (by omega), hindex, .inl (by omega),
      by omega, fun _ => hdistance⟩
  refine ⟨d, pindex.length - 1, hfork, by omega, by omega, hdrop ▸ hmain, ?_,
    .inr (hdrop.trans hgenesis.symm), by omega, ?_⟩
  · have hfind : findInMainChain memory genesis.hashBlock = some [genesis] := by
      rw [findInMainChain, hroot, Option.filter]
      exact if_pos ((htree.main _ _ hroot).mpr hmain)
    rw [CBlockLocator.set, vHave, getBlockIndex_append hnone, getBlockIndex, hfind, hdrop]
    rfl
  rintro ⟨hash, hmem, hsome⟩
  rw [hnone hash hmem] at hsome
  cases hsome

theorem getBlockIndex_near_fork_twoBlocks :
    ∃ d r, ForkAt twoBlocksMemory [mainEntry, genesisEntry] d ∧ (d ≤ 11 → r = d) ∧
      getBlockIndex twoBlocksMemory (CBlockLocator.set 100 [mainEntry, genesisEntry]) =
        [mainEntry, genesisEntry].drop r := by
  have hpindex : twoBlocksMemory.mapBlockIndex 101 = some [mainEntry, genesisEntry] := rfl
  obtain ⟨d, r, hfork, -, -, -, hindex, -, hr, -⟩ :=
    getBlockIndex_near_fork twoBlocks_treeOk rfl rfl hpindex
  exact ⟨d, r, hfork, hr, hindex⟩

section Headers

/-- The block that `pnext` points to. -/
def nextIndex (memory : Memory) (pindex : IndexPtr) : Option IndexPtr :=
  (memory.pnext (getBlockHash pindex)).bind memory.mapBlockIndex

/-- The loop of `getheaders`. -/
def headersFrom (memory : Memory) (hashStop : UInt256) : Nat → Option IndexPtr → List IndexPtr
  | _, none => []
  | 0, some pindex => [pindex]
  | nLimit + 1, some pindex =>
    pindex :: if nLimit = 0 ∨ getBlockHash pindex = hashStop then []
      else headersFrom memory hashStop nLimit (nextIndex memory pindex)

/-- The blocks whose headers are pushed, if there is a reply. For a null locator the block
is assigned to a variable of the inner scope, and the loop starts from the outer one. -/
def getHeaders (memory : Memory) (locator : List UInt256) (hashStop : UInt256) :
    Option (List IndexPtr) :=
  if locator.isEmpty then
    match memory.mapBlockIndex hashStop with
    | none => none
    | some _ => some (headersFrom memory hashStop 2000 none)
  else
    match getBlockIndex memory locator with
    | [] => some (headersFrom memory hashStop 2000 none)
    | entry :: pprev => some (headersFrom memory hashStop 2000 (nextIndex memory (entry :: pprev)))

/-- The blocks up to the one that is asked for. -/
def upTo (hashStop : UInt256) : List IndexPtr → List IndexPtr
  | [] => []
  | pindex :: list => pindex :: if getBlockHash pindex = hashStop then [] else upTo hashStop list

/-- What is asked for: one block, or the blocks of the main chain that follow. -/
def headersAsked (memory : Memory) (locator : List UInt256) (hashStop : UInt256) :
    Option (List IndexPtr) :=
  if locator.isEmpty then (memory.mapBlockIndex hashStop).map fun pindex => [pindex]
  else
    let following := (above (getBlockIndex memory locator) memory.pindexBest).reverse
    some ((upTo hashStop following).take 2000)

section Walk

variable (htree : TreeOk memory txdb)

include htree

theorem getBlockIndex_main (hgenesis : memory.pindexGenesisBlock <:+ memory.pindexBest)
    (hne : memory.pindexGenesisBlock ≠ []) (locator : List UInt256) :
    getBlockIndex memory locator <:+ memory.pindexBest ∧ getBlockIndex memory locator ≠ [] := by
  induction locator with
  | nil => exact ⟨hgenesis, hne⟩
  | cons hash locator ih =>
    rw [getBlockIndex]
    cases hfound : findInMainChain memory hash with
    | none => exact ih
    | some pindex =>
      obtain ⟨hindex, hmain⟩ := Option.filter_eq_some_iff.mp hfound
      obtain ⟨entry, pprev, rfl, -⟩ := htree.hash_eq hash _ hindex
      exact ⟨(htree.main hash _ hindex).mp hmain, cons_ne_nil _ _⟩

variable (hlinked : LinkedTo memory.pnext memory.pindexBest)

include hlinked

theorem nextIndex_parent (hsuffix : entry :: parent :: pprev <:+ memory.pindexBest) :
    nextIndex memory (parent :: pprev) = some (entry :: parent :: pprev) := by
  obtain ⟨hash, hbest⟩ := htree.best
  have hlink : memory.pnext parent.hashBlock = some entry.hashBlock :=
    (hlinked _ _).mpr ⟨entry, parent, pprev, hsuffix, rfl, rfl⟩
  rw [nextIndex, getBlockHash, head?_cons, Option.map_some, Option.getD_some, hlink,
    Option.bind_some]
  exact htree.closed hash _ hbest entry _ hsuffix

theorem nextIndex_pindexBest : nextIndex memory memory.pindexBest = none := by
  obtain ⟨hash, hbest⟩ := htree.best
  have hdistinct := distinct_of_mapOk htree.toMapOk hbest
  obtain ⟨entry, pprev, htip, -⟩ := htree.hash_eq hash _ hbest
  rw [htip] at hdistinct hlinked ⊢
  have hlink : memory.pnext entry.hashBlock = none :=
    Option.eq_none_iff_forall_ne_some.mpr fun next hnext =>
      hdistinct.not_parent ((hlinked _ next).mp hnext)
  rw [nextIndex, getBlockHash, head?_cons, Option.map_some, Option.getD_some, hlink,
    Option.bind_none]

/-- The loop follows the main chain. -/
theorem headersFrom_climbs (hclimbs : Climbs (entry :: pprev) list memory.pindexBest) :
    headersFrom memory hashStop (nLimit + 1) (nextIndex memory (entry :: pprev)) =
      (upTo hashStop list).take (nLimit + 1) := by
  generalize htip : memory.pindexBest = tip at hclimbs
  induction list generalizing entry pprev nLimit with
  | nil =>
    cases hclimbs
    rw [← htip, nextIndex_pindexBest htree hlinked]
    rfl
  | cons pindex list ih =>
    cases hclimbs with
    | step hclimbs =>
      rw [nextIndex_parent htree hlinked (htip ▸ hclimbs.suffix), headersFrom, upTo, take_succ_cons]
      congr 1
      rcases nLimit with _ | nLimit
      · rw [if_pos (.inl rfl), take_zero]
      simp only [Nat.add_eq_zero_iff, one_ne_zero, and_false, false_or]
      split
      · exact take_nil.symm
      · exact ih hclimbs

end Walk

/-- The reply has the headers that are asked for, unless the locator is null and the block is
known: then it has none. -/
theorem getHeaders_iff {η : Type} (getBlockHeader : IndexPtr → η) (htree : TreeOk memory txdb)
    (hlinked : LinkedTo memory.pnext memory.pindexBest)
    (hgenesis : memory.pindexGenesisBlock <:+ memory.pindexBest)
    (hne : memory.pindexGenesisBlock ≠ []) (locator : List UInt256) (hashStop : UInt256) :
    (getHeaders memory locator hashStop).map (·.map getBlockHeader) =
        (headersAsked memory locator hashStop).map (·.map getBlockHeader) ↔
      locator ≠ [] ∨ memory.mapBlockIndex hashStop = none := by
  rcases locator with _ | ⟨hash, locator⟩
  · simp only [getHeaders, headersAsked, isEmpty_nil, if_true]
    cases memory.mapBlockIndex hashStop with
    | none => exact iff_of_true rfl (.inr rfl)
    | some pindex => simp [headersFrom]
  refine iff_of_true (congrArg _ ?_) (.inl (cons_ne_nil _ _))
  obtain ⟨hmain, hfound⟩ := getBlockIndex_main htree hgenesis hne (hash :: locator)
  simp only [getHeaders, headersAsked, isEmpty_cons, Bool.false_eq_true, if_false]
  cases hindex : getBlockIndex memory (hash :: locator) with
  | nil => exact absurd hindex hfound
  | cons entry pprev =>
    rw [hindex] at hmain
    exact congrArg some (headersFrom_climbs htree hlinked (climbs_above hmain))

theorem linkedTo_twoBlocks : LinkedTo twoBlocksMemory.pnext twoBlocksMemory.pindexBest := by
  have hdistinct : Distinct [genesisEntry] :=
    distinct_of_mapOk twoBlocks_treeOk.toMapOk (show twoBlocksMemory.mapBlockIndex 100 = _ from rfl)
  have hpnext : twoBlocksMemory.pnext = link (fun _ => none) [mainEntry, genesisEntry] := by
    funext hash
    simp [twoBlocksMemory, link, Function.update_apply, genesisEntry, mainEntry]
  rw [hpnext]
  exact (linkedTo_nil genesisEntry).link mainEntry hdistinct

theorem getHeaders_twoBlocks :
    (getHeaders twoBlocksMemory [7, 100] 0).map (·.map getBlockHash) =
      (headersAsked twoBlocksMemory [7, 100] 0).map (·.map getBlockHash) :=
  (getHeaders_iff getBlockHash twoBlocks_treeOk linkedTo_twoBlocks (suffix_cons _ _)
    (cons_ne_nil _ _) [7, 100] 0).mpr (.inl (by decide))

/-- The known block 101 is asked for. -/
theorem getHeaders_null :
    getHeaders twoBlocksMemory [] 101 = some [] ∧
      headersAsked twoBlocksMemory [] 101 = some [[mainEntry, genesisEntry]] :=
  ⟨rfl, rfl⟩

end Headers

end Bfx.BlockLocator
