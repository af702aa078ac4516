import Bfx.BlockTree
import Bfx.CompactNumber

/-!
The difficulty retarget, `GetNextTargetRequired`: three formulas, chosen by the
height of the last block and by the fork that the best chain has reached. An
arbitrary-precision number is an integer; its division truncates.
-/

namespace Bfx.Retarget

open BlockTree CallOutcome ChainIndex CompactNumber List

/-- The ways in which a retarget stops the node. -/
inductive Stop where
  | assertFailed
  | nullPointer
  deriving DecidableEq, Repr

/-- `assert(condition)`. -/
def assert (condition : Prop) [Decidable condition] : Except Stop Unit :=
  if condition then .ok () else .error .assertFailed

def bnProofOfWorkLimit : Int := 2 ^ 255 - 1

def bnProofOfStakeLimit : Int := 2 ^ 236 - 1

def targetLimit (fProofOfStake : Bool) : Int :=
  if fProofOfStake then bnProofOfStakeLimit else bnProofOfWorkLimit

def nTargetSpacing : Int := 60

def nOldTargetSpacing : Int := 60

def nTargetTimespan : Int := 2 * 60 * 60

def TARGET_AVERAGE_BLOCK_COUNT : Int := 100

def targetSpacing (env : ChainEnv) : Int :=
  if env.isForkActivated .tachyon then nTargetSpacing else nOldTargetSpacing

/-- The last two blocks of the kind, unless one of them is the genesis block. -/
def lastTwo (fProofOfStake : Bool) (pindexLast : IndexPtr) : Option (IndexEntry × IndexEntry) :=
  match getLastBlockIndex fProofOfStake pindexLast with
  | prev :: pprev =>
    match getLastBlockIndex fProofOfStake pprev with
    | prevPrev :: _ :: _ => some (prev, prevPrev)
    | _ => none
  | [] => none

def actualSpacing (prev prevPrev : IndexEntry) : Int := (prev.nTime : Int) - prevPrev.nTime

def getNextTargetRequiredV1 (env : ChainEnv) (pindexLast : IndexPtr) (fProofOfStake : Bool) :
    Except Stop Nat :=
  match lastTwo fProofOfStake pindexLast with
  | none => .ok (encode (targetLimit fProofOfStake))
  | some (prev, prevPrev) =>
    let nActualSpacing := actualSpacing prev prevPrev
    let nTS := targetSpacing env
    let nInterval := nTargetTimespan.tdiv nTS
    let bnNew := (decode prev.nBits *
      ((nInterval - 1) * nTS + nActualSpacing + nActualSpacing)).tdiv ((nInterval + 1) * nTS)
    .ok (encode (if bnNew > targetLimit fProofOfStake then targetLimit fProofOfStake else bnNew))

def getNextTargetRequiredV2 (env : ChainEnv) (pindexLast : IndexPtr) (fProofOfStake : Bool) :
    Except Stop Nat :=
  match lastTwo fProofOfStake pindexLast with
  | none => .ok (encode (targetLimit fProofOfStake))
  | some (prev, prevPrev) =>
    let nTS := targetSpacing env
    let nActualSpacing :=
      if actualSpacing prev prevPrev < 0 then nTS else actualSpacing prev prevPrev
    let nInterval := nTargetTimespan.tdiv nTS
    let bnNew := (decode prev.nBits *
      ((nInterval - 1) * nTS + nActualSpacing + nActualSpacing)).tdiv ((nInterval + 1) * nTS)
    .ok (encode (if bnNew ≤ 0 ∨ bnNew > targetLimit fProofOfStake then targetLimit fProofOfStake
      else bnNew))

def blockTimes : Nat → IndexPtr → Except Stop (List Int)
  | 0, _ => .ok []
  | _ + 1, [] => .error .nullPointer
  | n + 1, entry :: pprev => do
    let times ← blockTimes n pprev
    .ok ((entry.nTime : Int) :: times)

/-- `std::adjacent_difference`: the first element is copied. -/
def adjacentDifference (times : List Int) : List Int :=
  times.take 1 ++ List.zipWith (· - ·) times.tail times

/-- The sum is made in an `int`. -/
def accumulate (differences : List Int) : Int :=
  differences.foldl (fun sum difference => (sum + difference).bmod (2 ^ 32)) 0

/-- At least two blocks, and none before the fork if there are enough behind it. -/
def numOfBlocksToAverage (env : ChainEnv) (pindexLast : IndexPtr) : Int :=
  let forkBlock := forksToBlockMap env.fTestNet .retargetCorrection
  let count := nHeight pindexLast - (forkBlock + 1)
  let count := if count ≤ 1 then 2 else count
  if count > TARGET_AVERAGE_BLOCK_COUNT then TARGET_AVERAGE_BLOCK_COUNT else count

def calculateActualBlockSpacingForV3 (env : ChainEnv) (pindexLast : IndexPtr) : Except Stop Int := do
  let times ← blockTimes (numOfBlocksToAverage env pindexLast).toNat pindexLast
  let blockTimeDifferences := adjacentDifference (times.insertionSort (· ≤ ·))
  assert (2 ≤ blockTimeDifferences.length)
  .ok ((accumulate (blockTimeDifferences.drop 1)).tdiv (numOfBlocksToAverage env pindexLast - 1))

def getNextTargetRequiredV3 (env : ChainEnv) (pindexLast : IndexPtr) (fProofOfStake : Bool) :
    Except Stop Nat :=
  match lastTwo fProofOfStake pindexLast with
  | none => .ok (encode (targetLimit fProofOfStake))
  | some (prev, _) => do
    let nActualSpacing ← calculateActualBlockSpacingForV3 env pindexLast
    let nTS := targetSpacing env
    let nActualSpacing := if nActualSpacing < 0 then nTS else nActualSpacing
    assert (futureDrift 0 = 10 * 60)
    assert (nTS = 30)
    assert (nTargetTimespan = 2 * 60 * 60)
    let nInterval := nTargetTimespan.tdiv nTS
    let k := 15
    let l := 7
    let m := 90
    let newTarget := (decode prev.nBits *
      ((nInterval - l + k) * nTS + (m + l) * nActualSpacing)).tdiv
        ((nInterval + k) * nTS + m * nActualSpacing)
    .ok (encode (if newTarget ≤ 0 ∨ newTarget > targetLimit fProofOfStake then
      targetLimit fProofOfStake else newTarget))

def getNextTargetRequired (env : ChainEnv) (pindexLast : IndexPtr) (fProofOfStake : Bool) :
    Except Stop Nat :=
  if pindexLast = [] then .error .nullPointer
  else if nHeight pindexLast < 2000 then getNextTargetRequiredV1 env pindexLast fProofOfStake
  else if env.isForkActivated .retargetCorrection then
    getNextTargetRequiredV3 env pindexLast fProofOfStake
  else getNextTargetRequiredV2 env pindexLast fProofOfStake

section Range

/-- The bits stand for a target of the proof kind. -/
def LegalTarget (fProofOfStake : Bool) (bits : Nat) : Prop :=
  0 < decode bits ∧ decode bits ≤ targetLimit fProofOfStake

def RetargetLegal (env : ChainEnv) (pindexLast : IndexPtr) (fProofOfStake : Bool) : Prop :=
  ∃ bits, getNextTargetRequired env pindexLast fProofOfStake = .ok bits ∧
    LegalTarget fProofOfStake bits

/-- Where the last two blocks of the kind count: the third formula is not used,
and the first one leaves something of the target. -/
def RetargetSafe (env : ChainEnv) (pindexLast : IndexPtr) (fProofOfStake : Bool) : Prop :=
  ∀ prev prevPrev, lastTwo fProofOfStake pindexLast = some (prev, prevPrev) →
    (nHeight pindexLast < 2000 →
      121 * 60 ≤ decode prev.nBits * (119 * 60 + 2 * actualSpacing prev prevPrev)) ∧
    (2000 ≤ nHeight pindexLast → env.isForkActivated .retargetCorrection = false)

theorem targetSpacing_eq (env : ChainEnv) : targetSpacing env = 60 := by
  rw [targetSpacing]
  split
  · rfl
  · rfl

theorem targetLimit_pos (fProofOfStake : Bool) : 0 < targetLimit fProofOfStake := by
  cases fProofOfStake with
  | false => decide
  | true => decide

theorem targetLimit_lt (fProofOfStake : Bool) : targetLimit fProofOfStake < 2 ^ 255 := by
  cases fProofOfStake with
  | false => decide
  | true => decide

variable {fProofOfStake : Bool} {pindexLast : IndexPtr}

theorem legalTarget_encode (hpos : 0 < target) (hle : target ≤ targetLimit fProofOfStake) :
    LegalTarget fProofOfStake (encode target) := by
  have hlt := targetLimit_lt fProofOfStake
  obtain ⟨hdecode, hdecodeLe⟩ := decode_encode_pos hpos (by omega)
  exact ⟨hdecode, hdecodeLe.trans hle⟩

theorem not_legalTarget_encode (h : target ≤ 0) : ¬ LegalTarget fProofOfStake (encode target) := by
  rintro ⟨hpos, -⟩
  rcases Int.lt_or_eq_of_le h with hneg | rfl
  · have hle := decode_encode_neg hneg
    omega
  · rw [decode_encode_zero] at hpos
    omega

theorem legalTarget_clamp :
    LegalTarget fProofOfStake (encode
      (if target > targetLimit fProofOfStake then targetLimit fProofOfStake else target)) ↔
      0 < target := by
  have hlimit := targetLimit_pos fProofOfStake
  split
  · exact ⟨fun _ => by omega, fun _ => legalTarget_encode hlimit (Int.le_refl _)⟩
  constructor
  · intro hlegal
    by_contra hpos
    exact not_legalTarget_encode (by omega) hlegal
  · intro hpos
    exact legalTarget_encode hpos (by omega)

theorem legalTarget_clamp_both (fProofOfStake : Bool) (target : Int) :
    LegalTarget fProofOfStake (encode
      (if target ≤ 0 ∨ target > targetLimit fProofOfStake then targetLimit fProofOfStake
        else target)) := by
  have hlimit := targetLimit_pos fProofOfStake
  split
  · exact legalTarget_encode hlimit (Int.le_refl _)
  · exact legalTarget_encode (by omega) (by omega)

theorem tdiv_interval_pos_iff (n : Int) : 0 < n.tdiv (121 * 60) ↔ 121 * 60 ≤ n := by
  rcases Int.le_total 0 n with hn | hn
  · rw [Int.tdiv_eq_ediv_of_nonneg hn]
    omega
  have hneg : n.tdiv (121 * 60) = - ((-n) / (121 * 60)) := by
    rw [← Int.tdiv_eq_ediv_of_nonneg (by omega), Int.neg_tdiv, Int.neg_neg]
  rw [hneg]
  omega

theorem getNextTargetRequiredV1_eq (env : ChainEnv) {prev prevPrev : IndexEntry}
    (h : lastTwo fProofOfStake pindexLast = some (prev, prevPrev)) :
    ∃ bits, getNextTargetRequiredV1 env pindexLast fProofOfStake = .ok bits ∧
      (LegalTarget fProofOfStake bits ↔
        121 * 60 ≤ decode prev.nBits * (119 * 60 + 2 * actualSpacing prev prevPrev)) := by
  rw [getNextTargetRequiredV1, h]
  refine ⟨_, rfl, ?_⟩
  rw [legalTarget_clamp, targetSpacing_eq]
  have hfactor : (nTargetTimespan.tdiv 60 - 1) * 60 + actualSpacing prev prevPrev +
      actualSpacing prev prevPrev = 119 * 60 + 2 * actualSpacing prev prevPrev := by
    rw [show nTargetTimespan.tdiv 60 = 120 by decide]
    ring
  rw [hfactor, show (nTargetTimespan.tdiv 60 + 1) * 60 = 121 * 60 by decide]
  exact tdiv_interval_pos_iff _

theorem getNextTargetRequiredV2_legal (env : ChainEnv) (pindexLast : IndexPtr)
    (fProofOfStake : Bool) :
    ∃ bits, getNextTargetRequiredV2 env pindexLast fProofOfStake = .ok bits ∧
      LegalTarget fProofOfStake bits := by
  rw [getNextTargetRequiredV2]
  split
  · exact ⟨_, rfl, legalTarget_encode (targetLimit_pos _) (Int.le_refl _)⟩
  · exact ⟨_, rfl, legalTarget_clamp_both _ _⟩

theorem blockTimes_eq_ok (h : n ≤ pindex.length) :
    ∃ times, blockTimes n pindex = .ok times ∧ times.length = n := by
  induction n generalizing pindex with
  | zero => exact ⟨[], rfl, rfl⟩
  | succ n ih =>
    rcases pindex with _ | ⟨entry, pprev⟩
    · exact absurd h (by simp)
    obtain ⟨times, htimes, hlength⟩ := ih (Nat.le_of_succ_le_succ h)
    refine ⟨(entry.nTime : Int) :: times, ?_, by rw [length_cons, hlength]⟩
    rw [blockTimes, htimes]
    rfl

theorem length_adjacentDifference (times : List Int) :
    (adjacentDifference times).length = times.length := by
  rw [adjacentDifference, length_append, length_take, length_zipWith, length_tail]
  omega

theorem numOfBlocksToAverage_range (env : ChainEnv) (pindexLast : IndexPtr) :
    2 ≤ numOfBlocksToAverage env pindexLast ∧ numOfBlocksToAverage env pindexLast ≤ 100 := by
  rw [numOfBlocksToAverage, TARGET_AVERAGE_BLOCK_COUNT]
  split
  · omega
  split
  · omega
  · omega

theorem calculateActualBlockSpacingForV3_eq_ok (env : ChainEnv) (h : 100 ≤ pindexLast.length) :
    ∃ spacing, calculateActualBlockSpacingForV3 env pindexLast = .ok spacing := by
  obtain ⟨hmin, hmax⟩ := numOfBlocksToAverage_range env pindexLast
  obtain ⟨times, htimes, hlength⟩ :
      ∃ times, blockTimes (numOfBlocksToAverage env pindexLast).toNat pindexLast = .ok times ∧
        times.length = (numOfBlocksToAverage env pindexLast).toNat :=
    blockTimes_eq_ok (by omega)
  have hdifferences : 2 ≤ (adjacentDifference (times.insertionSort (· ≤ ·))).length := by
    rw [length_adjacentDifference, length_insertionSort]
    omega
  have hassert : assert _ = .ok () := if_pos hdifferences
  rw [calculateActualBlockSpacingForV3, htimes, ok_bind]
  dsimp only
  rw [hassert, ok_bind]
  exact ⟨_, rfl⟩

/-- The third formula asserts a spacing that is not the configured one. -/
theorem getNextTargetRequiredV3_eq {prev prevPrev : IndexEntry} (hlength : 100 ≤ pindexLast.length)
    (h : lastTwo fProofOfStake pindexLast = some (prev, prevPrev)) :
    getNextTargetRequiredV3 env pindexLast fProofOfStake = .error .assertFailed := by
  obtain ⟨spacing, hspacing⟩ := calculateActualBlockSpacingForV3_eq_ok env hlength
  rw [getNextTargetRequiredV3, h]
  dsimp only
  rw [hspacing, ok_bind, targetSpacing_eq]
  rfl

theorem getNextTargetRequired_of_none (hne : pindexLast ≠ [])
    (h : lastTwo fProofOfStake pindexLast = none) :
    getNextTargetRequired env pindexLast fProofOfStake =
      .ok (encode (targetLimit fProofOfStake)) := by
  rw [getNextTargetRequired, if_neg hne, getNextTargetRequiredV1, getNextTargetRequiredV2,
    getNextTargetRequiredV3, h]
  split
  · rfl
  split
  · rfl
  · rfl

theorem getNextTargetRequired_legal_iff (env : ChainEnv) (pindexLast : IndexEntry)
    (pprev : IndexPtr) (fProofOfStake : Bool) :
    RetargetLegal env (pindexLast :: pprev) fProofOfStake ↔
      RetargetSafe env (pindexLast :: pprev) fProofOfStake := by
  have hne : pindexLast :: pprev ≠ [] := cons_ne_nil _ _
  generalize pindexLast :: pprev = pindex at hne ⊢
  rcases hlast : lastTwo fProofOfStake pindex with _ | ⟨prev, prevPrev⟩
  · -- the genesis block is among the last two of the kind: the limit itself
    constructor
    · intro _ prev prevPrev hsome
      rw [hlast] at hsome
      cases hsome
    intro _
    exact ⟨_, getNextTargetRequired_of_none hne hlast,
      legalTarget_encode (targetLimit_pos _) (Int.le_refl _)⟩
  have hsafe : RetargetSafe env pindex fProofOfStake ↔
      (nHeight pindex < 2000 →
        121 * 60 ≤ decode prev.nBits * (119 * 60 + 2 * actualSpacing prev prevPrev)) ∧
      (2000 ≤ nHeight pindex → env.isForkActivated .retargetCorrection = false) := by
    rw [RetargetSafe, hlast]
    constructor
    · exact fun h => h prev prevPrev rfl
    · rintro h _ _ ⟨rfl, rfl⟩
      exact h
  rw [hsafe, RetargetLegal, getNextTargetRequired, if_neg hne]
  split
  · rename_i hheight
    obtain ⟨bits, hbits, hlegal⟩ := getNextTargetRequiredV1_eq env hlast
    rw [hbits]
    constructor
    · rintro ⟨_, ⟨rfl⟩, hbitsLegal⟩
      exact ⟨fun _ => hlegal.mp hbitsLegal, fun hge => by omega⟩
    · rintro ⟨hfirst, -⟩
      exact ⟨bits, rfl, hlegal.mpr (hfirst hheight)⟩
  rename_i hheight
  split
  · rename_i hfork
    have hlength : 100 ≤ pindex.length := by
      rw [nHeight] at hheight
      omega
    rw [getNextTargetRequiredV3_eq hlength hlast]
    constructor
    · rintro ⟨_, hbits, -⟩
      cases hbits
    rintro ⟨-, hsecond⟩
    rw [hsecond (by omega)] at hfork
    cases hfork
  rename_i hfork
  constructor
  · intro _
    exact ⟨fun hlt => absurd hlt hheight, fun _ => Bool.eq_false_iff.mpr hfork⟩
  · intro _
    exact getNextTargetRequiredV2_legal env pindex fProofOfStake

end Range

/-- Chains whose blocks passed the checks of `AcceptBlock` on their bits and their
time. The best height at that time may have been any. -/
inductive Accepted (env : ChainEnv) : IndexPtr → Prop
  | genesis (entry : IndexEntry) : Accepted env [entry]
  | block {entry parent : IndexEntry} {pprev : IndexPtr} (nBestHeight : Int)
      (hbits : getNextTargetRequired { env with nBestHeight := nBestHeight } (parent :: pprev)
        entry.fProofOfStake = .ok entry.nBits)
      (hmedian : getMedianTimePast (parent :: pprev) < entry.nTime)
      (hdrift : (parent.nTime : Int) ≤ futureDrift entry.nTime)
      (hpprev : Accepted env (parent :: pprev)) : Accepted env (entry :: parent :: pprev)

/-- A proof-of-stake block of the chain that has a block every minute. -/
def minuteBlock (height : Nat) : IndexEntry where
  hashBlock := BitVec.ofNat 256 (height + 1)
  blockKeyInDB := BitVec.ofNat 256 (height + 1)
  nChainTrust := height
  fProofOfStake := true
  nEntropyBit := false
  fGeneratedStakeModifier := true
  nStakeModifier := 0
  prevoutStake := ⟨0, 0⟩
  nStakeTime := 60 * height
  hashProof := 0
  nTime := 60 * height
  nBits := 0x1e0fffff

theorem minuteBlock_nTime (height : Nat) : (minuteBlock height).nTime = 60 * height := rfl

def minuteChain : Nat → IndexPtr
  | 0 => [minuteBlock 0]
  | height + 1 => minuteBlock (height + 1) :: minuteChain height

theorem length_minuteChain (height : Nat) : (minuteChain height).length = height + 1 := by
  induction height with
  | zero => rfl
  | succ height ih => rw [minuteChain, length_cons, ih]

theorem minuteChain_eq_cons (height : Nat) :
    ∃ pprev, minuteChain height = minuteBlock height :: pprev := by
  cases height with
  | zero => exact ⟨[], rfl⟩
  | succ height => exact ⟨minuteChain height, rfl⟩

theorem time_le_of_mem_minuteChain (h : entry ∈ minuteChain height) :
    entry.nTime ≤ 60 * height := by
  induction height with
  | zero =>
    rw [mem_singleton.mp h]
    exact Nat.le_refl _
  | succ height ih =>
    rcases mem_cons.mp h with rfl | h
    · exact Nat.le_refl _
    · have hle := ih h
      omega

theorem getLastBlockIndex_minuteChain (height : Nat) :
    getLastBlockIndex true (minuteChain height) = minuteChain height := by
  cases height with
  | zero => rfl
  | succ height =>
    obtain ⟨pprev, hpprev⟩ := minuteChain_eq_cons height
    rw [minuteChain, hpprev, getLastBlockIndex]
    exact if_pos rfl

theorem lastTwo_minuteChain (height : Nat) :
    lastTwo true (minuteChain (height + 2)) =
      some (minuteBlock (height + 2), minuteBlock (height + 1)) := by
  obtain ⟨pprev, hpprev⟩ := minuteChain_eq_cons height
  rw [lastTwo, getLastBlockIndex_minuteChain]
  dsimp only [minuteChain]
  rw [← minuteChain, getLastBlockIndex_minuteChain, minuteChain, hpprev]

/-- Blocks of one minute keep the target at its limit. -/
theorem getNextTargetRequired_minuteChain (env : ChainEnv) (h : height < 2000) :
    getNextTargetRequired env (minuteChain height) true = .ok 0x1e0fffff := by
  have hne : minuteChain height ≠ [] := by
    obtain ⟨pprev, hpprev⟩ := minuteChain_eq_cons height
    rw [hpprev]
    exact cons_ne_nil _ _
  have hheight : nHeight (minuteChain height) < 2000 := by
    rw [nHeight, length_minuteChain]
    omega
  rcases height with _ | _ | height
  · rfl
  · rfl
  have hspacing : actualSpacing (minuteBlock (height + 2)) (minuteBlock (height + 1)) = 60 := by
    rw [actualSpacing, minuteBlock_nTime, minuteBlock_nTime]
    omega
  rw [getNextTargetRequired, if_neg hne, if_pos hheight, getNextTargetRequiredV1,
    lastTwo_minuteChain]
  dsimp only
  rw [hspacing, targetSpacing_eq, show (minuteBlock (height + 2)).nBits = 0x1e0fffff from rfl]
  decide

theorem accepted_minuteChain (env : ChainEnv) (h : height ≤ 2000) :
    Accepted env (minuteChain height) := by
  induction height with
  | zero => exact .genesis _
  | succ height ih =>
    obtain ⟨pprev, hpprev⟩ := minuteChain_eq_cons height
    have hbits := getNextTargetRequired_minuteChain { env with nBestHeight := 0 }
      (show height < 2000 by omega)
    have hmedian : getMedianTimePast (minuteChain height) < (minuteBlock (height + 1)).nTime := by
      have hle : getMedianTimePast (minuteChain height) ≤ (60 * height : Nat) :=
        getMedianTimePast_le fun _ => time_le_of_mem_minuteChain
      rw [minuteBlock_nTime]
      omega
    have hrest := ih (by omega)
    rw [minuteChain]
    rw [hpprev] at hbits hmedian hrest ⊢
    refine .block 0 hbits hmedian ?_ hrest
    rw [futureDrift, minuteBlock_nTime, minuteBlock_nTime]
    omega

/-- The best chain has reached the fork of the third formula. -/
def retargetEnv : ChainEnv where
  getHash tx := BitVec.ofNat 256 tx.nTime
  sha256 bytes := bytes
  ripemd160 bytes := bytes
  encodeBase58Check _ := ""
  nBestHeight := 1003125
  fTestNet := false
  getAdjustedTime := 0
  getTotalBlocksEstimate := 0
  hashPair left _ := left
  getBlockHash block := BitVec.ofNat 256 block.nTime
  getSerializeSize _ := 100
  txToString _ := ""
  checkProofOfWork _ := true
  checkBlockSignature _ := true
  verifySignature _ _ _ _ := true
  mempoolLookup _ := none
  getAllBFXTInputsOfTx _ _ _ := .ok []
  assertIssuanceUniquenessInBlock symbols _ _ _ := .ok symbols
  writeBFXTBlockTransactionsToDisk _ := .ok ()

/-- The retarget of the block behind height 2000 stops the node. -/
theorem getNextTargetRequired_stops :
    Accepted retargetEnv (minuteChain 2000) ∧
      getNextTargetRequired retargetEnv (minuteChain 2000) true = .error .assertFailed ∧
      ¬ RetargetLegal retargetEnv (minuteChain 2000) true := by
  have hstop : getNextTargetRequired retargetEnv (minuteChain 2000) true =
      .error .assertFailed := by
    decide +kernel
  refine ⟨accepted_minuteChain retargetEnv (Nat.le_refl _), hstop, ?_⟩
  rintro ⟨bits, hbits, -⟩
  rw [hstop] at hbits
  cases hbits

end Bfx.Retarget
