import Bfx.Retarget

/-!
How far a retarget moves the target: in one step by the corrected formula, and
in many steps compared with `ComputeMaxBits`, which blocks are tested with before
their parents are known.
-/

namespace Bfx.RetargetBounds

open BlockTree CallOutcome ChainIndex CompactNumber List Retarget

section Spacing

theorem length_of_blockTimes (h : blockTimes n pindex = .ok times) : times.length = n := by
  induction n generalizing pindex times with
  | zero =>
    cases h
    rfl
  | succ n ih =>
    cases pindex with
    | nil => cases h
    | cons entry pprev =>
      obtain ⟨rest, hrest, h⟩ := bind_eq_ok.mp h
      cases h
      rw [length_cons, ih hrest]

theorem sum_differences (time : Int) (times : List Int) :
    (List.zipWith (· - ·) times (time :: times)).sum =
      (time :: times).getLast (cons_ne_nil _ _) - time := by
  induction times generalizing time with
  | nil => simp
  | cons next times ih =>
    rw [zipWith_cons_cons, sum_cons, ih, getLast_cons (cons_ne_nil _ _)]
    omega

theorem accumulate_eq (differences : List Int) :
    accumulate differences = differences.sum.bmod (2 ^ 32) := by
  have hfrom : ∀ sum : Int, differences.foldl (fun sum difference =>
      (sum + difference).bmod (2 ^ 32)) (sum.bmod (2 ^ 32)) =
        (sum + differences.sum).bmod (2 ^ 32) := by
    induction differences with
    | nil => simp
    | cons difference differences ih =>
      intro sum
      rw [foldl_cons, Int.bmod_add_bmod, ih, sum_cons, Int.add_assoc]
  simpa [accumulate] using hfrom 0

variable {times : List Int} {lo hi : Int}

theorem accumulate_sorted (hlo : IsLeast {time | time ∈ times} lo)
    (hhi : IsGreatest {time | time ∈ times} hi) :
    accumulate ((adjacentDifference (times.insertionSort (· ≤ ·))).drop 1) =
      (hi - lo).bmod (2 ^ 32) := by
  have hmem : ∀ time, time ∈ times.insertionSort (· ≤ ·) ↔ time ∈ times :=
    fun _ => mem_insertionSort _
  have hsorted := pairwise_insertionSort (· ≤ ·) times
  generalize times.insertionSort (· ≤ ·) = sorted at hmem hsorted
  cases sorted with
  | nil => exact absurd ((hmem lo).mpr hlo.1) not_mem_nil
  | cons first rest =>
    have hfirst : first = lo := by
      refine le_antisymm ?_ (hlo.2 ((hmem first).mp mem_cons_self))
      rcases mem_cons.mp ((hmem lo).mpr hlo.1) with rfl | hrest
      · exact le_refl _
      · exact (pairwise_cons.mp hsorted).1 lo hrest
    have hlast : (first :: rest).getLast (cons_ne_nil _ _) = hi := by
      refine le_antisymm (hhi.2 ((hmem _).mp (getLast_mem _))) ?_
      exact hsorted.rel_getLast ((hmem hi).mpr hhi.1)
    rw [accumulate_eq, adjacentDifference, ← hlast, ← hfirst, ← sum_differences]
    simp

end Spacing

section Corrected

/-- The target of the corrected formula before it is encoded. -/
def correctedTarget (nTS : Int) (fProofOfStake : Bool) (target nActualSpacing : Int) : Int :=
  let nInterval := nTargetTimespan.tdiv nTS
  let k := 15
  let l := 7
  let m := 90
  let newTarget := (target * ((nInterval - l + k) * nTS + (m + l) * nActualSpacing)).tdiv
    ((nInterval + k) * nTS + m * nActualSpacing)
  if newTarget ≤ 0 ∨ newTarget > targetLimit fProofOfStake then targetLimit fProofOfStake
  else newTarget

/-- It is this target that the formula encodes, once its assertions hold. -/
theorem getNextTargetRequiredV3_eq_corrected (env : ChainEnv) (pindexLast : IndexPtr)
    (fProofOfStake : Bool) :
    getNextTargetRequiredV3 env pindexLast fProofOfStake =
      (match lastTwo fProofOfStake pindexLast with
      | none => .ok (encode (targetLimit fProofOfStake))
      | some (prev, _) => do
        let nActualSpacing ← calculateActualBlockSpacingForV3 env pindexLast
        let nTS := targetSpacing env
        let nActualSpacing := if nActualSpacing < 0 then nTS else nActualSpacing
        assert (futureDrift 0 = 10 * 60)
        assert (nTS = 30)
        assert (nTargetTimespan = 2 * 60 * 60)
        .ok (encode (correctedTarget nTS fProofOfStake (decode prev.nBits) nActualSpacing))) := rfl

/-- From three percent less to five percent more, up to one unit. -/
def ShiftsLittle (target newTarget : Int) : Prop :=
  97 * target ≤ 100 * (newTarget + 1) ∧ 100 * (newTarget - 1) ≤ 105 * target

variable {fProofOfStake : Bool} {target spacing : Int}

theorem correctedTarget_eq (htarget : 0 ≤ target) (hspacing : 0 ≤ spacing) :
    correctedTarget 30 fProofOfStake target spacing =
      if target * (7440 + 97 * spacing) / (7650 + 90 * spacing) ≤ 0 ∨
        target * (7440 + 97 * spacing) / (7650 + 90 * spacing) > targetLimit fProofOfStake then
        targetLimit fProofOfStake
      else target * (7440 + 97 * spacing) / (7650 + 90 * spacing) := by
  have hproduct : 0 ≤ target * (7440 + 97 * spacing) := Int.mul_nonneg htarget (by omega)
  rw [← Int.tdiv_eq_ediv_of_nonneg hproduct]
  rfl

theorem quotient_bounds (htarget : 0 ≤ target) (hspacing : 0 ≤ spacing) (hle : spacing ≤ 237) :
    ShiftsLittle target (target * (7440 + 97 * spacing) / (7650 + 90 * spacing)) := by
  have hpos : 0 < 7650 + 90 * spacing := by omega
  have hlow := Int.lt_ediv_add_one_mul_self (target * (7440 + 97 * spacing)) hpos
  have hhigh := Int.ediv_mul_le (target * (7440 + 97 * spacing)) hpos.ne'
  generalize target * (7440 + 97 * spacing) / (7650 + 90 * spacing) = quotient at hlow hhigh
  have hfactor : 0 ≤ target * (59250 - 250 * spacing) := Int.mul_nonneg htarget (by omega)
  have hfactor' : 0 ≤ target * (1950 + 970 * spacing) := Int.mul_nonneg htarget (by omega)
  constructor
  · refine Int.le_of_mul_le_mul_right ?_ hpos
    linarith
  have hscaled : 100 * quotient ≤ 105 * target := by
    refine Int.le_of_mul_le_mul_right ?_ hpos
    linarith
  omega

theorem shiftsLittle_corrected (htarget : 1 < target) (hlimit : target < targetLimit fProofOfStake)
    (hspacing : 0 ≤ spacing) (hle : spacing ≤ 237) :
    ShiftsLittle target (correctedTarget 30 fProofOfStake target spacing) := by
  obtain ⟨hlow, hhigh⟩ := quotient_bounds (show 0 ≤ target by omega) hspacing hle
  rw [correctedTarget_eq (by omega) hspacing]
  have hpos : 1 ≤ target * (7440 + 97 * spacing) / (7650 + 90 * spacing) := by
    refine Int.le_ediv_of_mul_le (by omega) ?_
    have hproduct : 2 * (7440 + 97 * spacing) ≤ target * (7440 + 97 * spacing) :=
      Int.mul_le_mul_of_nonneg_right (by omega) (by omega)
    omega
  split
  · exact ⟨by omega, by omega⟩
  · exact ⟨hlow, hhigh⟩

theorem not_shiftsLittle_corrected (hspacing : 237 < spacing) (hle : spacing ≤ 600) :
    ¬ ShiftsLittle 1000000 (correctedTarget 30 fProofOfStake 1000000 spacing) := by
  rintro ⟨-, hhigh⟩
  have hlimit : 2 ^ 235 ≤ targetLimit fProofOfStake := by cases fProofOfStake <;> decide
  have hlow : 1050002 ≤ 1000000 * (7440 + 97 * spacing) / (7650 + 90 * spacing) :=
    Int.le_ediv_of_mul_le (by omega) (by omega)
  rw [correctedTarget_eq (by decide) (by omega)] at hhigh
  split at hhigh <;> omega

theorem shiftsLittle_one_iff (hspacing : 0 ≤ spacing) :
    ShiftsLittle 1 (correctedTarget 30 fProofOfStake 1 spacing) ↔ 30 ≤ spacing := by
  have hlimit : 2 ^ 235 ≤ targetLimit fProofOfStake := by cases fProofOfStake <;> decide
  rw [correctedTarget_eq (by decide) hspacing, Int.one_mul, ShiftsLittle]
  rcases Int.lt_or_le spacing 30 with hlt | hge
  · have hzero : (7440 + 97 * spacing) / (7650 + 90 * spacing) = 0 :=
      Int.ediv_eq_zero_of_lt (by omega) (by omega)
    rw [hzero, if_pos (by omega)]
    omega
  have hlow : 1 ≤ (7440 + 97 * spacing) / (7650 + 90 * spacing) :=
    Int.le_ediv_of_mul_le (by omega) (by omega)
  have hhigh : (7440 + 97 * spacing) / (7650 + 90 * spacing) < 2 :=
    Int.ediv_lt_of_lt_mul (by omega) (by omega)
  rw [if_neg (by omega)]
  omega

/-- The spacing is the exact average while the times are within the range of an `int`.
The corrected formula then moves a target a little exactly up to a spacing of 237, and the
least target is not thrown back to the limit exactly from a spacing of 30 on. -/
theorem corrected_retarget_iff (env : ChainEnv) (pindexLast : IndexPtr) (fProofOfStake : Bool)
    (times : List Int) (lo hi : Int)
    (htimes : blockTimes (numOfBlocksToAverage env pindexLast).toNat pindexLast = .ok times)
    (hlo : IsLeast {time | time ∈ times} lo) (hhi : IsGreatest {time | time ∈ times} hi)
    (huint : hi - lo < 2 ^ 32) :
    ∃ spacing, calculateActualBlockSpacingForV3 env pindexLast = .ok spacing ∧
      (spacing = (hi - lo) / (numOfBlocksToAverage env pindexLast - 1) ↔ hi - lo < 2 ^ 31) ∧
      (0 ≤ spacing → spacing ≤ 600 →
        ((∀ target, 1 < target → target < targetLimit fProofOfStake →
          ShiftsLittle target (correctedTarget 30 fProofOfStake target spacing)) ↔
            spacing ≤ 237) ∧
        (ShiftsLittle 1 (correctedTarget 30 fProofOfStake 1 spacing) ↔ 30 ≤ spacing)) := by
  obtain ⟨hmin, hmax⟩ := numOfBlocksToAverage_range env pindexLast
  have hlength := length_of_blockTimes htimes
  have hassert : assert (2 ≤ (adjacentDifference (times.insertionSort (· ≤ ·))).length) = .ok () := by
    rw [length_adjacentDifference, length_insertionSort]
    exact if_pos (by omega)
  have hle := hlo.2 hhi.1
  refine ⟨(accumulate ((adjacentDifference (times.insertionSort (· ≤ ·))).drop 1)).tdiv
    (numOfBlocksToAverage env pindexLast - 1), ?_, ?_, fun hnonneg hdrift => ⟨⟨fun h => ?_,
      fun h target => (shiftsLittle_corrected · · hnonneg h)⟩, shiftsLittle_one_iff hnonneg⟩⟩
  · rw [calculateActualBlockSpacingForV3, htimes, ok_bind]
    dsimp only
    rw [hassert, ok_bind]
  · have hpos : 1 ≤ numOfBlocksToAverage env pindexLast - 1 := by omega
    have hcount : numOfBlocksToAverage env pindexLast - 1 ≤ 99 := by omega
    generalize numOfBlocksToAverage env pindexLast - 1 = n at hpos hcount ⊢
    rw [accumulate_sorted hlo hhi]
    rcases Int.lt_or_le (hi - lo) (2 ^ 31) with hlt | hge
    · rw [Int.bmod_eq_of_le_mul_two (by omega) (by omega), Int.tdiv_eq_ediv_of_nonneg (by omega)]
      exact ⟨fun _ => hlt, fun _ => rfl⟩
    have hbmod : (hi - lo).bmod (2 ^ 32) = -(2 ^ 32 - (hi - lo)) := by
      rw [Int.bmod_def]
      omega
    have hquotient : 0 ≤ (2 ^ 32 - (hi - lo)) / n := Int.ediv_nonneg (by omega) (by omega)
    have hexact : 1 ≤ (hi - lo) / n := Int.le_ediv_of_mul_le (by omega) (by omega)
    rw [hbmod, Int.neg_tdiv, Int.tdiv_eq_ediv_of_nonneg (by omega)]
    omega
  by_contra hlt
  have hlimit : 1000000 < targetLimit fProofOfStake := by cases fProofOfStake <;> decide
  exact not_shiftsLittle_corrected (by omega) hdrift (h 1000000 (by decide) hlimit)

/-- Two blocks at the given distance. -/
def pairAt (spacing : Nat) : IndexPtr :=
  [{ minuteBlock 1 with nTime := spacing }, { minuteBlock 0 with nTime := 0 }]

theorem corrected_retarget_minute :
    calculateActualBlockSpacingForV3 retargetEnv (pairAt 60) = .ok 60 ∧
      ∀ target, 1 < target → target < targetLimit true →
        ShiftsLittle target (correctedTarget 30 true target 60) := by
  have hcall : calculateActualBlockSpacingForV3 retargetEnv (pairAt 60) = .ok 60 := by decide
  obtain ⟨spacing, hspacing, -, hshift⟩ := corrected_retarget_iff retargetEnv (pairAt 60) true [60, 0]
    0 60 rfl (by simp [IsLeast, lowerBounds]) (by simp [IsGreatest, upperBounds]) (by decide)
  obtain rfl := Except.ok.inj (hcall.symm.trans hspacing)
  exact ⟨hcall, (hshift (by decide) (by decide)).1.mpr (by decide)⟩

/-- At the largest spacing of the range the target grows by more than six percent, and the
spacing of 68 years is negative. -/
theorem corrected_retarget_shifts_more :
    calculateActualBlockSpacingForV3 retargetEnv (pairAt 600) = .ok 600 ∧
      correctedTarget 30 true 1000000 600 = 1064720 ∧
      calculateActualBlockSpacingForV3 retargetEnv (pairAt (2 ^ 31)) = .ok (-2 ^ 31) := by
  decide

end Corrected

section MaxBits

variable {f fProofOfStake : Bool}

/-- The loop of `ComputeMaxBits`; every turn takes a day off `nTime`. -/
def doubleDaily (bnTargetLimit : Int) : Nat → Int → Int → Int
  | 0, _, bnResult => bnResult
  | fuel + 1, nTime, bnResult =>
    if nTime > 0 ∧ bnResult < bnTargetLimit then
      doubleDaily bnTargetLimit fuel (nTime - 24 * 60 * 60) (bnResult * 2)
    else bnResult

def computeMaxBits (bnTargetLimit : Int) (nBase : Nat) (nTime : Int) : Nat :=
  let bnResult := doubleDaily bnTargetLimit nTime.toNat nTime (decode nBase * 2)
  encode (if bnResult > bnTargetLimit then bnTargetLimit else bnResult)

theorem le_doubleDaily (h : 0 ≤ bnResult) (fuel : Nat) (nTime : Int) :
    bnResult ≤ doubleDaily bnTargetLimit fuel nTime bnResult := by
  induction fuel generalizing nTime bnResult with
  | zero => exact Int.le_refl _
  | succ fuel ih =>
    rw [doubleDaily]
    split
    · have hle : bnResult * 2 ≤ _ := ih (by omega) (nTime - 24 * 60 * 60)
      omega
    · exact Int.le_refl _

/-- `ProcessBlock` refuses a block with more than this target. -/
def TooLittleProof (fProofOfStake : Bool) (nBase : Nat) (nTime : Int) (nBits : Nat) : Prop :=
  decode nBits > decode (computeMaxBits (targetLimit fProofOfStake) nBase nTime)

/-- The last two blocks of the kind are not further apart than planned, and something
is left of the target. -/
def Calm (fProofOfStake : Bool) (pindexLast : IndexPtr) : Prop :=
  ∃ prev prevPrev, lastTwo fProofOfStake pindexLast = some (prev, prevPrev) ∧
    actualSpacing prev prevPrev ≤ nTargetSpacing ∧
    121 * 60 ≤ decode prev.nBits * (119 * 60 + 2 * actualSpacing prev prevPrev)

variable {env : ChainEnv} {base : IndexEntry} {above below : IndexPtr}

theorem quotient_range (hpos : 0 < target) (hle : spacing ≤ 60)
    (hleft : 121 * 60 ≤ target * (119 * 60 + 2 * spacing)) :
    let bnNew := (target * ((nTargetTimespan.tdiv 60 - 1) * 60 + spacing + spacing)).tdiv
      ((nTargetTimespan.tdiv 60 + 1) * 60)
    0 < bnNew ∧ bnNew ≤ target := by
  have hfactor : (nTargetTimespan.tdiv 60 - 1) * 60 + spacing + spacing = 119 * 60 + 2 * spacing := by
    rw [show nTargetTimespan.tdiv 60 = 120 by decide]
    ring
  have hle' : target * (119 * 60 + 2 * spacing) ≤ target * 7260 :=
    Int.mul_le_mul_of_nonneg_left (by omega) hpos.le
  rw [hfactor, show (nTargetTimespan.tdiv 60 + 1) * 60 = 121 * 60 by decide,
    Int.tdiv_eq_ediv_of_nonneg (by omega)]
  omega

/-- A calm retarget does not raise the target. -/
theorem calm_retarget {prev prevPrev : IndexEntry} (hpos : 0 < decode prev.nBits)
    (hlast : lastTwo fProofOfStake pindexLast = some (prev, prevPrev))
    (hcalm : Calm fProofOfStake pindexLast)
    (h : getNextTargetRequired env pindexLast fProofOfStake = .ok bits) :
    ∃ target, bits = encode target ∧ 0 < target ∧ target ≤ decode prev.nBits ∧
      target ≤ targetLimit fProofOfStake := by
  obtain ⟨_, _, hlast', hspacing, hleft⟩ := hcalm
  rw [hlast] at hlast'
  cases hlast'
  rw [nTargetSpacing] at hspacing
  have hlimit := targetLimit_pos fProofOfStake
  rw [getNextTargetRequired] at h
  split at h
  · cases h
  split at h
  · rw [getNextTargetRequiredV1, hlast] at h
    dsimp only at h
    rw [targetSpacing_eq] at h
    have hrange := quotient_range hpos hspacing hleft
    cases h
    refine ⟨_, rfl, ?_⟩
    split <;> omega
  rename_i hheight
  split at h
  · rw [getNextTargetRequiredV3_eq (by rw [nHeight] at hheight; omega) hlast] at h
    cases h
  rw [getNextTargetRequiredV2, hlast] at h
  dsimp only at h
  rw [targetSpacing_eq] at h
  cases h
  refine ⟨_, rfl, ?_⟩
  split
  · have hrange := quotient_range hpos (Int.le_refl 60) (by omega)
    split <;> omega
  · have hrange := quotient_range hpos hspacing hleft
    split <;> omega

variable (hbase : base.fProofOfStake = fProofOfStake)
include hbase

theorem mem_of_getLastBlockIndex {prev : IndexEntry}
    (h : getLastBlockIndex fProofOfStake (above ++ base :: below) = prev :: pprev) :
    prev.fProofOfStake = fProofOfStake ∧ prev ∈ above ++ [base] := by
  induction above with
  | nil =>
    have hself : getLastBlockIndex fProofOfStake (base :: below) = base :: below := by
      cases below with
      | nil => rfl
      | cons parent rest => exact if_pos hbase
    cases hself.symm.trans h
    exact ⟨hbase, mem_singleton_self _⟩
  | cons newest above ih =>
    obtain ⟨parent, rest, hrest⟩ : ∃ parent rest, above ++ base :: below = parent :: rest := by
      cases above <;> exact ⟨_, _, rfl⟩
    rw [cons_append, hrest, getLastBlockIndex] at h
    rw [hrest] at ih
    split at h
    · rename_i hkind
      cases h
      exact ⟨hkind, mem_cons_self⟩
    · obtain ⟨hkind, hmem⟩ := ih h
      exact ⟨hkind, mem_cons_of_mem _ hmem⟩

/-- The retargets above a block, one after the other. -/
theorem accepted_targets
    (hpos : 0 < decode base.nBits) (haccepted : Accepted env (above ++ base :: below))
    (hcalm : ∀ newer entry older, above = newer ++ entry :: older →
      entry.fProofOfStake = fProofOfStake → Calm fProofOfStake (older ++ base :: below)) :
    ∀ entry ∈ above, entry.fProofOfStake = fProofOfStake → ∃ target, entry.nBits = encode target ∧
      0 < target ∧ target ≤ decode base.nBits ∧ target ≤ targetLimit fProofOfStake := by
  induction above with
  | nil => nofun
  | cons newest above ih =>
    obtain ⟨parent, rest, hrest⟩ : ∃ parent rest, above ++ base :: below = parent :: rest := by
      cases above <;> exact ⟨_, _, rfl⟩
    rw [cons_append, hrest] at haccepted
    cases haccepted with
    | block nBestHeight hbits hmedian hdrift hpprev =>
      rw [← hrest] at hbits hpprev
      have hold := ih hpprev fun newer entry older heq =>
        hcalm (newest :: newer) entry older (congrArg _ heq)
      refine forall_mem_cons.mpr ⟨fun hkind => ?_, hold⟩
      have hnow := hcalm [] newest above rfl hkind
      obtain ⟨prev, prevPrev, hlast, -⟩ := id hnow
      obtain ⟨hprevKind, hprev⟩ : prev.fProofOfStake = fProofOfStake ∧ prev ∈ above ++ [base] := by
        rw [lastTwo] at hlast
        split at hlast
        · rename_i hlast'
          split at hlast
          · cases hlast
            exact mem_of_getLastBlockIndex hbase hlast'
          · cases hlast
        · cases hlast
      have hprevTarget : 0 < decode prev.nBits ∧ decode prev.nBits ≤ decode base.nBits := by
        rcases mem_append.mp hprev with habove | hself
        · obtain ⟨target, hbits, hlow, hhigh, hlimit⟩ := hold prev habove hprevKind
          have hlt := targetLimit_lt fProofOfStake
          obtain ⟨hdecode, hle⟩ := decode_encode_pos hlow (by omega)
          exact hbits ▸ ⟨hdecode, hle.trans hhigh⟩
        · rw [mem_singleton.mp hself]
          exact ⟨hpos, Int.le_refl _⟩
      rw [hkind] at hbits
      obtain ⟨target, htarget, hlow, hhigh, hlimit⟩ := calm_retarget hprevTarget.1 hlast hnow hbits
      exact ⟨target, htarget, hlow, hhigh.trans hprevTarget.2, hlimit⟩

omit hbase

/-- What is lost when a target goes through its compact bits. -/
theorem compact_target_rounds_down (x y : Int) (hx : 0 ≤ x) (hle : x ≤ y) (hy : y < 2 ^ 256) :
    decode (encode x) ≤ x ∧ x - decode (encode x) ≤ x / 2 ^ 15 ∧
      decode (encode (decode (encode x))) = decode (encode x) ∧
      encode (decode (encode x)) = encode x ∧ decode (encode x) ≤ decode (encode y) ∧
      ∀ z : Int, byteSize z.natAbs < 256 → encode (decode (encode z)) = encode z := by
  have hsize : byteSize x.natAbs ≤ 256 / 8 + 1 := byteSize_lt (by omega)
  have hkept : encode (decode (encode x)) = encode x := encode_decode_encode (by omega)
  refine ⟨?_, ?_, by rw [hkept], hkept, decode_encode_mono hx hle hy, fun z => encode_decode_encode⟩
  · rcases hx.eq_or_lt with rfl | hpos
    · exact decode_encode_zero.le
    · exact (decode_encode_pos hpos (hle.trans_lt hy)).2
  rcases hx.eq_or_lt with rfl | hpos
  · decide
  have herror := sub_magnitude_le (show x.natAbs ≠ 0 by omega)
  rw [decode_encode_eq (by omega), Int.sign_eq_one_of_pos hpos]
  omega

theorem compact_target_sample : decode (encode 0x123456789a) = 0x1234560000 ∧
    (0x123456789a : Int) - decode (encode 0x123456789a) ≤ 0x123456789a / 2 ^ 15 :=
  ⟨by decide, (compact_target_rounds_down 0x123456789a 0x123456789a (by decide) (by decide)
    (by decide)).2.1⟩

/-- The checks of `AcceptBlock` on a whole chain. -/
def acceptedCheck (env : ChainEnv) : IndexPtr → Bool
  | [] => false
  | [_] => true
  | entry :: parent :: pprev =>
    getNextTargetRequired env (parent :: pprev) entry.fProofOfStake == .ok entry.nBits &&
      decide (getMedianTimePast (parent :: pprev) < entry.nTime) &&
      decide ((parent.nTime : Int) ≤ futureDrift entry.nTime) && acceptedCheck env (parent :: pprev)

theorem accepted_of_check (pindex : IndexPtr) (h : acceptedCheck env pindex = true) :
    Accepted env pindex := by
  fun_induction acceptedCheck env pindex with
  | case1 => cases h
  | case2 => exact .genesis _
  | case3 entry parent pprev ih =>
    simp only [Bool.and_eq_true, decide_eq_true_eq, beq_iff_eq] at h
    exact .block env.nBestHeight h.1.1.1 h.1.1.2 h.1.2 (ih h.2)

/-- The bits of a block are those that the retarget asks for. -/
def nextEntry (pprev : IndexPtr) (fProofOfStake : Bool) (nTime : Nat) : IndexEntry :=
  { minuteBlock 0 with
    fProofOfStake
    nTime
    nBits := (getNextTargetRequired retargetEnv pprev fProofOfStake).toOption.getD 0 }

/-- Times that fall again after a late stake block make the stake target small. -/
def smallTargetChain : IndexPtr :=
  [(true, 1), (true, 2), (true, 3), (true, 4), (true, 5), (true, 6), (true, 7), (true, 3007),
    (false, 2407), (false, 1807), (false, 1207), (false, 607), (true, 8)].foldl
    (fun pprev (fProofOfStake, nTime) => nextEntry pprev fProofOfStake nTime :: pprev) [minuteBlock 0]

def smallTargetEntry : IndexEntry :=
  nextEntry smallTargetChain true 9

def lateEntry : IndexEntry :=
  nextEntry (smallTargetEntry :: smallTargetChain) true 43209

def largeTargetEntry : IndexEntry :=
  nextEntry (lateEntry :: smallTargetEntry :: smallTargetChain) true 43210

end MaxBits

end Bfx.RetargetBounds
