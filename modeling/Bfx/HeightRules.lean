import Bfx.MintingBound
import Bfx.Retarget

/-!
The rules that look up the height of the best chain instead of the height of the
block they are applied to: retarget, coinbase maturity and proof-of-work subsidy.
-/

namespace Bfx.HeightRules

open BlockConnection BlockTree ChainIndex MintingBound Retarget

variable {env env' : ChainEnv}

/-- Two nodes ask the same of a child block of an entry. -/
structure SameRules (env env' : ChainEnv) (pindex : IndexPtr) (fProofOfStake : Bool) : Prop where
  target : getNextTargetRequired env pindex fProofOfStake =
    getNextTargetRequired env' pindex fProofOfStake
  maturity : coinbaseMaturity env = coinbaseMaturity env'
  subsidy : ∀ nFees, getProofOfWorkReward env nFees = getProofOfWorkReward env' nFees

/-- No height at which one of the rules changes lies between the best heights. The
fork of the retarget counts only where the last two blocks of the kind do. -/
structure SameSide (env env' : ChainEnv) (pindex : IndexPtr) (fProofOfStake : Bool) : Prop where
  target : nHeight pindex < 2000 ∨ lastTwo fProofOfStake pindex = none ∨
    env.isForkActivated .retargetCorrection = env'.isForkActivated .retargetCorrection
  maturity : if env.fTestNet then (env.nBestHeight < 110100 ↔ env'.nBestHeight < 110100)
    else (env.nBestHeight = 1 ↔ env'.nBestHeight = 1)
  subsidy : (env.nBestHeight = 0 ↔ env'.nBestHeight = 0) ∧
    (env.nBestHeight > 1000 ↔ env'.nBestHeight > 1000)

theorem coinbaseMaturity_testNet (hnet : env.fTestNet = true) :
    coinbaseMaturity env = if env.nBestHeight < 110100 then 10 else 120 := by
  simp only [coinbaseMaturity, ChainEnv.isForkActivated, forksToBlockMap, hnet, if_true,
    decide_eq_true_eq, ge_iff_le]
  split
  · rw [if_neg (by omega)]
  · rw [if_pos (by omega)]

theorem coinbaseMaturity_mainNet (hnet : env.fTestNet = false) :
    coinbaseMaturity env = if env.nBestHeight = 1 then 10 else 120 := by
  simp only [coinbaseMaturity, ChainEnv.isForkActivated, forksToBlockMap, hnet, Bool.false_eq_true,
    if_false, decide_eq_true_eq, ge_iff_le]
  split
  · rw [if_neg (by omega)]
  split
  · rw [if_pos (by omega)]
  · rw [if_neg (by omega)]

theorem ite_eq_ite_iff [Decidable p] [Decidable q] (hab : a ≠ b) :
    (if p then a else b) = (if q then a else b) ↔ (p ↔ q) := by
  rcases Decidable.em p with hp | hp
  · rcases Decidable.em q with hq | hq
    · simp [hp, hq]
    · simp [hp, hq, hab]
  rcases Decidable.em q with hq | hq
  · simp [hp, hq, hab.symm]
  · simp [hp, hq]

theorem coinbaseMaturity_eq_iff (hnet : env.fTestNet = env'.fTestNet) :
    coinbaseMaturity env = coinbaseMaturity env' ↔
      if env.fTestNet then (env.nBestHeight < 110100 ↔ env'.nBestHeight < 110100)
      else (env.nBestHeight = 1 ↔ env'.nBestHeight = 1) := by
  cases hkind : env.fTestNet with
  | true =>
    rw [coinbaseMaturity_testNet hkind, coinbaseMaturity_testNet (hnet ▸ hkind), if_pos rfl]
    exact ite_eq_ite_iff (show (10 : Int) ≠ 120 by decide)
  | false =>
    rw [coinbaseMaturity_mainNet hkind, coinbaseMaturity_mainNet (hnet ▸ hkind),
      if_neg Bool.false_ne_true]
    exact ite_eq_ite_iff (show (10 : Int) ≠ 120 by decide)

theorem getProofOfWorkReward_eq_iff (env env' : ChainEnv) :
    (∀ nFees, getProofOfWorkReward env nFees = getProofOfWorkReward env' nFees) ↔
      (env.nBestHeight = 0 ↔ env'.nBestHeight = 0) ∧
        (env.nBestHeight > 1000 ↔ env'.nBestHeight > 1000) := by
  have hreward : ∀ env : ChainEnv, ∀ nFees, getProofOfWorkReward env nFees =
      (if env.nBestHeight = 0 then 15000000000000000 else
        if env.nBestHeight > 1000 then 0 else 200000000000) + nFees := by
    intro env nFees
    rw [getProofOfWorkReward]
    by_cases hzero : env.nBestHeight = 0
    · rw [if_pos hzero, hzero]
      rfl
    · rw [if_neg hzero, if_neg hzero]
      rfl
  simp only [hreward, Int.add_left_inj, forall_const]
  split_ifs <;> omega

/-- The formula is the only thing that a retarget takes from the best height. -/
theorem getNextTargetRequired_eq_iff (env env' : ChainEnv) (pindex : IndexPtr)
    (fProofOfStake : Bool) :
    getNextTargetRequired env pindex fProofOfStake =
        getNextTargetRequired env' pindex fProofOfStake ↔
      nHeight pindex < 2000 ∨ lastTwo fProofOfStake pindex = none ∨
        env.isForkActivated .retargetCorrection = env'.isForkActivated .retargetCorrection := by
  rcases eq_or_ne pindex ([]) with rfl | hne
  · exact ⟨fun _ => .inl (by decide), fun _ => rfl⟩
  have hV1 : getNextTargetRequiredV1 env pindex fProofOfStake =
      getNextTargetRequiredV1 env' pindex fProofOfStake := by
    rw [getNextTargetRequiredV1, getNextTargetRequiredV1, targetSpacing_eq, targetSpacing_eq]
  have hV2 : getNextTargetRequiredV2 env pindex fProofOfStake =
      getNextTargetRequiredV2 env' pindex fProofOfStake := by
    rw [getNextTargetRequiredV2, getNextTargetRequiredV2, targetSpacing_eq, targetSpacing_eq]
  rcases hlast : lastTwo fProofOfStake pindex with _ | ⟨prev, prevPrev⟩
  · rw [getNextTargetRequired_of_none hne hlast, getNextTargetRequired_of_none hne hlast]
    exact ⟨fun _ => .inr (.inl rfl), fun _ => rfl⟩
  rw [getNextTargetRequired, getNextTargetRequired, if_neg hne, if_neg hne, hV1, hV2]
  split
  · rename_i hheight
    exact ⟨fun _ => .inl hheight, fun _ => rfl⟩
  rename_i hheight
  -- the third formula stops the node, the second returns
  have hlength : 100 ≤ pindex.length := by
    rw [nHeight] at hheight
    omega
  obtain ⟨bits, hbits, -⟩ := getNextTargetRequiredV2_legal env' pindex fProofOfStake
  rw [getNextTargetRequiredV3_eq hlength hlast, getNextTargetRequiredV3_eq hlength hlast, hbits]
  cases env.isForkActivated .retargetCorrection with
  | true =>
    cases env'.isForkActivated .retargetCorrection with
    | true => simp
    | false => simp [hheight]
  | false =>
    cases env'.isForkActivated .retargetCorrection with
    | true => simp [hheight]
    | false => simp

theorem sameRules_iff (env env' : ChainEnv) (pindex : IndexPtr) (fProofOfStake : Bool)
    (hnet : env.fTestNet = env'.fTestNet) :
    SameRules env env' pindex fProofOfStake ↔ SameSide env env' pindex fProofOfStake := by
  constructor
  · rintro ⟨htarget, hmaturity, hsubsidy⟩
    exact ⟨(getNextTargetRequired_eq_iff _ _ _ _).mp htarget,
      (coinbaseMaturity_eq_iff hnet).mp hmaturity, (getProofOfWorkReward_eq_iff _ _).mp hsubsidy⟩
  rintro ⟨htarget, hmaturity, hsubsidy⟩
  exact ⟨(getNextTargetRequired_eq_iff _ _ _ _).mpr htarget,
    (coinbaseMaturity_eq_iff hnet).mpr hmaturity, (getProofOfWorkReward_eq_iff _ _).mpr hsubsidy⟩

/-- A node whose best chain is of height 500 and one that has reached height 600. -/
theorem sameRules_five_six_hundred :
    SameRules workEnv { workEnv with nBestHeight := 600 } (minuteChain 500) false :=
  (sameRules_iff workEnv { workEnv with nBestHeight := 600 } (minuteChain 500) false rfl).mpr
    ⟨.inl (by rw [nHeight, length_minuteChain]; decide), by decide, by decide⟩

/-- A node whose best chain has passed height 1000 refuses the block at height 501
that a node at height 500 connects. -/
theorem connectBlock_depends_on_best_height :
    ¬ SameRules workEnv { workEnv with nBestHeight := 1001 } (minuteChain 500) false ∧
      (∃ connected, connectBlock workEnv workDb workIndex [] false (workBlock []) =
        .ok connected) ∧
      ∃ message, connectBlock { workEnv with nBestHeight := 1001 } workDb workIndex [] false
        (workBlock []) = .error (.dos 50 message) := by
  refine ⟨fun h => ?_, ⟨_, rfl⟩, ⟨_, rfl⟩⟩
  have hsubsidy := h.subsidy 0
  revert hsubsidy
  decide

end Bfx.HeightRules
