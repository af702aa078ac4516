import Bfx.MintingBound

/-!
Amounts in two's-complement `int64_t`. The sums of outputs and inputs are tested
after every addition; the reward of a coinstake is multiplied without a test.
-/

namespace Bfx.MoneySums

open BlockConnection CallOutcome ChainIndex InputConnection List MintingBound TokenReading
  Transaction

section Loops

def addInt64 (a b : Int) : Int := toInt64 (a + b)

def checkOutputs64 (tx : CTransaction) : Int → List CTxOut → Verdict Unit
  | _, [] => .ok ()
  | nValueOut, txout :: vout => do
    ensure (¬ (txout.isEmpty ∧ !isCoinBase tx ∧ !isCoinStake tx))
      (.dos 100 "CTransaction::CheckTransaction() : txout empty for user transaction")
    ensure (0 ≤ txout.nValue) (.dos 100 "CTransaction::CheckTransaction() : txout.nValue negative")
    ensure (txout.nValue ≤ MAX_MONEY)
      (.dos 100 "CTransaction::CheckTransaction() : txout.nValue too high")
    ensure (moneyRange (addInt64 nValueOut txout.nValue))
      (.dos 100 "CTransaction::CheckTransaction() : txout total out of range")
    checkOutputs64 tx (addInt64 nValueOut txout.nValue) vout

def getValueOutFrom64 (nValueOut : Int) : List CTxOut → Outcome Int
  | [] => .ok nValueOut
  | txout :: vout =>
    if !moneyRange txout.nValue || !moneyRange (addInt64 nValueOut txout.nValue) then
      raise "CTransaction::GetValueOut() : value out of range"
    else getValueOutFrom64 (addInt64 nValueOut txout.nValue) vout

def getValueOut64 (tx : CTransaction) : Outcome Int := getValueOutFrom64 0 tx.vout

def checkInputs64 (env : ChainEnv) (pindexBlock : CBlockIndex) (ancestors : List CBlockIndex)
    (tx : CTransaction) (inputs : MapPrevTx) : Int → List CTxIn → Verdict Int
  | nValueIn, [] => .ok nValueIn
  | nValueIn, txin :: vin =>
    match inputs txin.prevout.hash with
    | none => .error .assertFailed
    | some (txindex, txPrev) => do
      ensure (txin.prevout.n < txPrev.vout.length ∧ txin.prevout.n < txindex.vSpent.length)
        (.dos 100 ("ConnectInputs() : " ++ prevoutOutOfRange env tx txin.prevout txindex txPrev))
      ensureMature env pindexBlock ancestors txindex txPrev
      ensure (txPrev.nTime ≤ tx.nTime)
        (.dos 100 "ConnectInputs() : transaction timestamp earlier than input transaction")
      let txout ← ofCall (index .prevVout txPrev.vout txin.prevout.n)
      ensure (moneyRange txout.nValue ∧ moneyRange (addInt64 nValueIn txout.nValue))
        (.dos 100 "ConnectInputs() : txin values out of range")
      checkInputs64 env pindexBlock ancestors tx inputs (addInt64 nValueIn txout.nValue) vin

def ensureFees64 (env : ChainEnv) (fBlock : Bool) (tx : CTransaction) (nValueIn : Int) :
    Verdict Unit := do
  let nValueOut ← ofCall (getValueOut64 tx)
  ensure (nValueOut ≤ nValueIn)
    (.dos 100 ("ConnectInputs() : " ++ (env.getHash tx).toHex ++ " value in < value out"))
  let nTxFee := toInt64 (nValueIn - nValueOut)
  ensure (0 ≤ nTxFee) (.dos 100 ("ConnectInputs() : " ++ (env.getHash tx).toHex ++ " nTxFee < 0"))
  ensure (getMinFee env tx 1 .block 0 ≤ nTxFee) (if fBlock then
      .dos 100 ("ConnectInputs() : " ++ (env.getHash tx).toHex ++ " not paying required fee=" ++
        formatMoney (getMinFee env tx 1 .block 0) ++ ", paid=" ++ formatMoney nTxFee)
    else .silent)
  ensure (moneyRange nTxFee) (.dos 100 "ConnectInputs() : nFees out of range")

def connectInputs64 (env : ChainEnv) (inputs : MapPrevTx) (mapTestPool : UInt256 → Option CTxIndex)
    (posThisTx : CDiskTxPos) (pindexBlock : CBlockIndex) (ancestors : List CBlockIndex)
    (fBlock fMiner : Bool) (tx : CTransaction) : Verdict (UInt256 → Option CTxIndex) :=
  if isCoinBase tx then .ok mapTestPool
  else do
    let nValueIn ← checkInputs64 env pindexBlock ancestors tx inputs 0 tx.vin
    let mapTestPool ← spendInputs env posThisTx fBlock fMiner tx 0 tx.vin inputs mapTestPool
    if isCoinStake tx then .ok mapTestPool
    else do
      ensureFees64 env fBlock tx nValueIn
      .ok mapTestPool

variable {env : ChainEnv} {tx : CTransaction} {n : Int}

theorem moneyRange_iff : moneyRange n = true ↔ 0 ≤ n ∧ n ≤ 2 ^ 63 - 1 := by
  rw [moneyRange, Bool.and_eq_true, decide_eq_true_eq, decide_eq_true_eq, MAX_MONEY]

theorem toInt64_of_moneyRange (hn : moneyRange n = true) : toInt64 n = n := by
  rw [moneyRange_iff] at hn
  exact Int.bmod_eq_of_le_mul_two (by omega) (by omega)

theorem moneyRange_addInt64 (hn : moneyRange n = true) (hv : moneyRange v = true) :
    moneyRange (addInt64 n v) = moneyRange (n + v) := by
  cases hsum : moneyRange (n + v) with
  | true => rw [addInt64, toInt64_of_moneyRange hsum, hsum]
  | false =>
    rw [Bool.eq_false_iff, ne_eq, moneyRange_iff] at hsum ⊢
    rw [moneyRange_iff] at hn hv
    rw [addInt64, toInt64, Int.bmod_def]
    omega

theorem ensure_bind_congr [Decidable c] (h : c → f () = g ()) :
    (ensure c refusal >>= f) = (ensure c refusal >>= g) := by
  rw [ensure]
  split
  · rename_i hc
    exact h hc
  · rfl

/-! The machine's loops are the exact ones. -/

variable (hn : moneyRange n = true)
include hn

theorem checkOutputs64_eq : checkOutputs64 tx n vout = checkOutputs tx n vout := by
  induction vout generalizing n with
  | nil => rfl
  | cons txout vout ih =>
    rw [checkOutputs64, checkOutputs]
    refine ensure_bind_congr fun _ => ensure_bind_congr fun hlow => ensure_bind_congr fun hhigh => ?_
    have hv : moneyRange txout.nValue = true := moneyRange_iff.mpr ⟨hlow, hhigh⟩
    rw [moneyRange_addInt64 hn hv]
    refine ensure_bind_congr fun hsum => ?_
    rw [addInt64, toInt64_of_moneyRange hsum, ih hsum]

theorem getValueOutFrom64_eq : getValueOutFrom64 n vout = getValueOutFrom n vout := by
  induction vout generalizing n with
  | nil => rfl
  | cons txout vout ih =>
    rw [getValueOutFrom64, getValueOutFrom]
    cases hv : moneyRange txout.nValue with
    | false => rfl
    | true =>
      rw [moneyRange_addInt64 hn hv]
      cases hsum : moneyRange (n + txout.nValue) with
      | false => rfl
      | true => rw [addInt64, toInt64_of_moneyRange hsum, ih hsum]

theorem checkInputs64_eq :
    checkInputs64 env pindexBlock ancestors tx inputs n vin =
      checkInputs env pindexBlock ancestors tx inputs n vin := by
  induction vin generalizing n with
  | nil => rfl
  | cons txin vin ih =>
    rw [checkInputs64, checkInputs]
    cases inputs txin.prevout.hash with
    | none => rfl
    | some found =>
      refine ensure_bind_congr fun _ => ?_
      refine bind_congr fun _ => ensure_bind_congr fun _ => bind_congr fun txout => ?_
      cases hvalue : moneyRange txout.nValue with
      | false => simp [ensure]
      | true =>
        rw [moneyRange_addInt64 hn hvalue]
        refine ensure_bind_congr fun hsum => ?_
        rw [addInt64, toInt64_of_moneyRange hsum.2]
        exact ih hsum.2

theorem ensureFees64_eq : ensureFees64 env fBlock tx n = ensureFees env fBlock tx n := by
  have hout : getValueOut64 tx = getValueOut tx := getValueOutFrom64_eq (by decide)
  rw [ensureFees64, ensureFees, hout]
  cases hvalue : getValueOut tx with
  | error fault => cases fault <;> rfl
  | ok nValueOut =>
    refine ensure_bind_congr fun hle => ?_
    have hrange := (getValueOut_eq_ok hvalue).2
    rw [moneyRange_iff] at hn hrange
    rw [toInt64_of_moneyRange (n := n - nValueOut) (moneyRange_iff.mpr (by omega))]

omit hn

def inputValue (inputs : MapPrevTx) (prevout : COutPoint) : Int :=
  (((inputs prevout.hash).bind fun found => found.2.vout[prevout.n]?).map (·.nValue)).getD 0

theorem checkInputs_eq_ok (hn : moneyRange n = true)
    (h : checkInputs env pindexBlock ancestors tx inputs n vin = .ok nValueIn) :
    nValueIn = n + (vin.map fun txin => inputValue inputs txin.prevout).sum ∧
      moneyRange nValueIn = true := by
  induction vin generalizing n with
  | nil =>
    obtain rfl := Except.ok.inj h
    exact ⟨by simp, hn⟩
  | cons txin vin ih =>
    rw [checkInputs] at h
    cases hfound : inputs txin.prevout.hash with
    | none => simp [hfound] at h
    | some found =>
      simp only [hfound, bind_eq_ok, ensure_eq_ok, ofCall_eq_ok, index_eq_ok] at h
      obtain ⟨_, -, _, -, _, -, txout, htxout, _, ⟨-, hsum⟩, h⟩ := h
      obtain ⟨rfl, hrange⟩ := ih hsum h
      have hvalue : inputValue inputs txin.prevout = txout.nValue := by
        simp [inputValue, hfound, htxout]
      refine ⟨?_, hrange⟩
      rw [map_cons, sum_cons, hvalue, Int.add_assoc]

theorem checkOutputs_eq_ok_iff (hn : moneyRange n = true) :
    checkOutputs tx n vout = .ok () ↔
      (∀ txout ∈ vout, ¬ (txout.isEmpty ∧ !isCoinBase tx ∧ !isCoinStake tx)) ∧
        (∀ txout ∈ vout, 0 ≤ txout.nValue) ∧ n + (vout.map (·.nValue)).sum ≤ 2 ^ 63 - 1 := by
  induction vout generalizing n with
  | nil => simpa [checkOutputs] using (moneyRange_iff.mp hn).2
  | cons txout vout ih =>
    simp only [checkOutputs, bind_eq_ok, ensure_eq_ok, forall_mem_cons, map_cons,
      sum_cons, ← Int.add_assoc]
    constructor
    · rintro ⟨_, huser, _, hlow, _, -, _, hsum, h⟩
      obtain ⟨hempty, hnonneg, hle⟩ := (ih hsum).mp h
      exact ⟨⟨huser, hempty⟩, ⟨hlow, hnonneg⟩, hle⟩
    rintro ⟨⟨huser, hempty⟩, ⟨hlow, hnonneg⟩, hle⟩
    have hrest : 0 ≤ (vout.map (·.nValue)).sum :=
      sum_nonneg (by simpa using fun txout htxout => hnonneg txout htxout)
    have hsum : moneyRange (n + txout.nValue) = true := by
      rw [moneyRange_iff] at hn ⊢
      omega
    have hhigh : txout.nValue ≤ MAX_MONEY := by
      rw [moneyRange_iff] at hn hsum
      rw [MAX_MONEY]
      omega
    exact ⟨(), huser, (), hlow, (), hhigh, (), hsum, (ih hsum).mpr ⟨hempty, hnonneg, hle⟩⟩

/-- What `CheckTransaction` lets pass, `GetValueOut` adds up. -/
theorem getValueOutFrom_of_checkOutputs (h : checkOutputs tx n vout = .ok ()) :
    getValueOutFrom n vout = .ok (n + (vout.map (·.nValue)).sum) := by
  induction vout generalizing n with
  | nil => simp [getValueOutFrom]
  | cons txout vout ih =>
    simp only [checkOutputs, bind_eq_ok, ensure_eq_ok] at h
    obtain ⟨_, -, _, hlow, _, hhigh, _, hsum, h⟩ := h
    have hv : moneyRange txout.nValue = true := moneyRange_iff.mpr ⟨hlow, hhigh⟩
    rw [getValueOutFrom, hv, hsum, ih h, map_cons, sum_cons, Int.add_assoc]
    rfl

theorem connectInputs64_eq (env : ChainEnv) (inputs : MapPrevTx)
    (mapTestPool : UInt256 → Option CTxIndex) (posThisTx : CDiskTxPos) (pindexBlock : CBlockIndex)
    (ancestors : List CBlockIndex) (fBlock fMiner : Bool) (tx : CTransaction) :
    connectInputs64 env inputs mapTestPool posThisTx pindexBlock ancestors fBlock fMiner tx =
      connectInputs env inputs mapTestPool posThisTx pindexBlock ancestors fBlock fMiner tx := by
  rw [connectInputs64, connectInputs, checkInputs64_eq (by decide)]
  cases hsum : checkInputs env pindexBlock ancestors tx inputs 0 tx.vin with
  | error refusal => rfl
  | ok nValueIn => simp only [ok_bind, ensureFees64_eq (checkInputs_eq_ok (by decide) hsum).2]

/-- The sums of the node are the exact ones, as long as no transaction is refused. -/
theorem money_sums_exact (env : ChainEnv) (tx : CTransaction) :
    (checkOutputs64 tx 0 tx.vout = .ok () ↔
      (∀ txout ∈ tx.vout, ¬ (txout.isEmpty ∧ !isCoinBase tx ∧ !isCoinStake tx)) ∧
        (∀ txout ∈ tx.vout, 0 ≤ txout.nValue) ∧ (tx.vout.map (·.nValue)).sum ≤ 2 ^ 63 - 1) ∧
    (checkOutputs64 tx 0 tx.vout = .ok () → getValueOut64 tx = .ok (tx.vout.map (·.nValue)).sum) ∧
    ∀ inputs mapTestPool posThisTx pindexBlock ancestors fBlock fMiner queued,
      isCoinBase tx = false →
      connectInputs64 env inputs mapTestPool posThisTx pindexBlock ancestors fBlock fMiner tx =
        .ok queued →
      (tx.vin.map fun txin => inputValue inputs txin.prevout).sum ≤ 2 ^ 63 - 1 ∧
        (isCoinStake tx = false → (tx.vout.map (·.nValue)).sum + getMinFee env tx 1 .block 0 ≤
            (tx.vin.map fun txin => inputValue inputs txin.prevout).sum) := by
  refine ⟨?_, fun h => ?_, fun inputs _ _ pindexBlock ancestors _ _ _ htx h => ?_⟩
  · rw [checkOutputs64_eq (by decide), checkOutputs_eq_ok_iff (by decide), Int.zero_add]
  · rw [checkOutputs64_eq (by decide)] at h
    rw [getValueOut64, getValueOutFrom64_eq (by decide), getValueOutFrom_of_checkOutputs h,
      Int.zero_add]
  rw [connectInputs64_eq, connectInputs, htx, if_neg Bool.false_ne_true] at h
  simp only [bind_eq_ok] at h
  obtain ⟨nValueIn, hsum, _, -, h⟩ := h
  obtain ⟨rfl, hrange⟩ := checkInputs_eq_ok (by decide) hsum
  rw [Int.zero_add] at hrange h
  refine ⟨(moneyRange_iff.mp hrange).2, fun hstake => ?_⟩
  simp only [hstake, Bool.false_eq_true, if_false, ensureFees, bind_eq_ok, ensure_eq_ok,
    ofCall_eq_ok] at h
  obtain ⟨_, ⟨nValueOut, hout, _, -, _, -, _, hfee, -⟩, -⟩ := h
  rw [(getValueOut_eq_ok hout).1] at hfee
  omega

def paymentTx : CTransaction := ⟨11, [⟨⟨1, 0⟩, []⟩], [⟨COIN - MIN_TX_FEE, [0x51]⟩], 0⟩

def paymentInputs : MapPrevTx :=
  fun hash => if hash = 1 then some (CTxIndex.new storedPos 2, storedTx) else none

theorem money_sums_payment : checkOutputs64 paymentTx 0 paymentTx.vout = .ok () ∧
      getValueOut64 paymentTx = .ok (paymentTx.vout.map (·.nValue)).sum ∧
      (paymentTx.vout.map (·.nValue)).sum + getMinFee workEnv paymentTx 1 .block 0 ≤
        (paymentTx.vin.map fun txin => inputValue paymentInputs txin.prevout).sum := by
  obtain ⟨hiff, hvalue, hinputs⟩ := money_sums_exact workEnv paymentTx
  have hcheck : checkOutputs64 paymentTx 0 paymentTx.vout = .ok () := hiff.mpr (by decide)
  exact ⟨hcheck, hvalue hcheck, (hinputs paymentInputs (fun _ => none) ⟨200, 81⟩ workIndex [] true
    false _ (by decide) rfl).2 (by decide)⟩

end Loops

section Reward

/-- `CBigNum::getuint64`. -/
def getUint64 (z : Int) : Int := z.natAbs % 2 ^ 64

def getCoinAge64 (env : ChainEnv) (txdb : CTxDB) (tx : CTransaction) : Option Int :=
  (getCoinAge env txdb tx).map getUint64

def getProofOfStakeReward64 (nCoinAge nFees : Int) : Int := let nRewardCoinYear := COIN_YEAR_REWARD
  let nSubsidy := (toInt64 (toInt64 (nCoinAge * nRewardCoinYear) * 33)).tdiv (365 * 33 + 8)
  addInt64 nSubsidy nFees

def diskValue (txdb : CTxDB) (prevout : COutPoint) : Int :=
  ((readOutputFromDisk txdb prevout).map (·.2.2.nValue)).getD 0

variable {env : ChainEnv} {txdb : CTxDB} {tx : CTransaction}

/-- No coin is older than an `unsigned int` of seconds. -/
theorem centSeconds_bounds (htime : tx.nTime < 2 ^ 32)
    (hvalues : ∀ txin ∈ vin, 0 ≤ diskValue txdb txin.prevout)
    (h : centSeconds env txdb tx bnCentSecond vin = some total) :
    bnCentSecond ≤ total ∧ (total - bnCentSecond) * CENT ≤
      (vin.map fun txin => diskValue txdb txin.prevout).sum * 2 ^ 32 := by
  induction vin generalizing bnCentSecond with
  | nil =>
    obtain rfl := Option.some.inj h
    simp
  | cons txin vin ih =>
    obtain ⟨hvalue, hvalues⟩ := forall_mem_cons.mp hvalues
    rw [map_cons, sum_cons, Int.add_mul]
    rw [centSeconds] at h
    split at h
    · obtain ⟨hle, hbound⟩ := ih hvalues h
      exact ⟨hle, by omega⟩
    rename_i txindex txPrev txout hread
    have hout : diskValue txdb txin.prevout = txout.nValue := by simp [diskValue, hread]
    rw [hout] at hvalue ⊢
    split at h
    · cases h
    split at h
    · cases h
    split at h
    · obtain ⟨hle, hbound⟩ := ih hvalues h
      exact ⟨hle, by omega⟩
    rename_i hlate _ _ _ _
    obtain ⟨hle, hbound⟩ := ih hvalues h
    have hage : (0 : Int) ≤ (tx.nTime : Int) - txPrev.nTime := by omega
    have hproduct := Int.mul_nonneg hvalue hage
    have hmax : txout.nValue * ((tx.nTime : Int) - txPrev.nTime) ≤ txout.nValue * 2 ^ 32 :=
      Int.mul_le_mul_of_nonneg_left (by omega) hvalue
    rw [Int.tdiv_eq_ediv_of_nonneg hproduct, CENT] at hle hbound
    rw [CENT]
    omega

theorem toInt64_spec (n : Int) :
    ∃ k, n = toInt64 n + k * 2 ^ 64 ∧ -2 ^ 63 ≤ toInt64 n ∧ toInt64 n < 2 ^ 63 := by
  refine ⟨(n - toInt64 n) / 2 ^ 64, ?_⟩
  rw [toInt64, Int.bmod_def]
  split <;> omega

/-- The coin age reaches the reward unchanged, and the reward is exact up to the coin age
at which the product wraps. -/
theorem stakeReward_exact_iff (env : ChainEnv) (txdb : CTxDB) (tx : CTransaction)
    (nCoinAge nFees : Int) (htime : tx.nTime < 2 ^ 32)
    (hvalues : ∀ txin ∈ tx.vin, 0 ≤ diskValue txdb txin.prevout)
    (hsupply : (tx.vin.map fun txin => diskValue txdb txin.prevout).sum ≤ MAX_MONEY)
    (hfees : moneyRange nFees = true) (hage : getCoinAge env txdb tx = some nCoinAge) :
    (getCoinAge64 env txdb tx).map toInt64 = some nCoinAge ∧ 0 ≤ nCoinAge ∧
      (getProofOfStakeReward64 nCoinAge nFees =
          nCoinAge * COIN_YEAR_REWARD * 33 / (365 * 33 + 8) + nFees ↔
        nCoinAge ≤ 23291343527 ∧
          nCoinAge * COIN_YEAR_REWARD * 33 / (365 * 33 + 8) + nFees ≤ MAX_MONEY) := by
  obtain ⟨hlow, hhigh⟩ : 0 ≤ nCoinAge ∧ nCoinAge < 2 ^ 53 := by
    rw [getCoinAge] at hage
    split at hage
    · obtain rfl := Option.some.inj hage
      decide
    obtain ⟨total, htotal, rfl⟩ := Option.map_eq_some_iff.mp hage
    obtain ⟨hle, hbound⟩ := centSeconds_bounds htime hvalues htotal
    rw [MAX_MONEY] at hsupply
    rw [CENT] at hbound ⊢
    have hcoins : (total * 1000000).tdiv COIN = total * 1000000 / 100000000 :=
      Int.tdiv_eq_ediv_of_nonneg (by omega)
    rw [hcoins, Int.tdiv_eq_ediv_of_nonneg (by omega)]
    omega
  refine ⟨?_, hlow, ?_⟩
  · have huint : getUint64 nCoinAge = nCoinAge := by
      rw [getUint64]
      omega
    rw [getCoinAge64, hage, Option.map_some, Option.map_some, huint,
      toInt64_of_moneyRange (moneyRange_iff.mpr (by omega))]
  -- the product does not wrap up to 23291343527 coin-days
  have hproduct : toInt64 (toInt64 (nCoinAge * COIN_YEAR_REWARD) * 33) =
      toInt64 (nCoinAge * COIN_YEAR_REWARD * 33) := Int.bmod_mul_bmod
  rw [moneyRange_iff] at hfees
  rw [getProofOfStakeReward64, hproduct, COIN_YEAR_REWARD, CENT, MAX_MONEY]
  generalize hp : nCoinAge * (12 * 1000000) * 33 = p
  constructor
  · intro h
    rw [addInt64] at h
    obtain ⟨k, hk, hlow, hhigh⟩ := toInt64_spec p
    obtain ⟨k', hk', hlow', hhigh'⟩ := toInt64_spec ((toInt64 p).tdiv (365 * 33 + 8) + nFees)
    rcases Int.le_total 0 (toInt64 p) with hsign | hsign
    · rw [Int.tdiv_eq_ediv_of_nonneg hsign] at h hk' hlow' hhigh'
      omega
    have hneg : (toInt64 p).tdiv (365 * 33 + 8) = -(-(toInt64 p) / (365 * 33 + 8)) := by
      rw [← Int.tdiv_eq_ediv_of_nonneg (by omega), Int.neg_tdiv, Int.neg_neg]
    rw [hneg] at h hk' hlow' hhigh'
    omega
  rintro ⟨hsmall, hsum⟩
  have hrange : moneyRange p = true := moneyRange_iff.mpr (by omega)
  rw [toInt64_of_moneyRange hrange, Int.tdiv_eq_ediv_of_nonneg (by omega), addInt64]
  exact toInt64_of_moneyRange (moneyRange_iff.mpr (by omega))

def stakeTx : CTransaction := ⟨200 * 24 * 60 * 60 + 1, [⟨⟨1, 0⟩, []⟩], [⟨0, []⟩, ⟨0, [0x51]⟩], 0⟩

theorem stakeReward_one_coin : getCoinAge workEnv workDb stakeTx = some 200 ∧
      getProofOfStakeReward64 200 0 = 200 * COIN_YEAR_REWARD * 33 / (365 * 33 + 8) + 0 := by
  have hage : getCoinAge workEnv workDb stakeTx = some 200 := by decide +kernel
  exact ⟨hage, (stakeReward_exact_iff workEnv workDb stakeTx 200 0 (by decide) (by decide +kernel)
    (by decide +kernel) (by decide) hage).2.2.mpr (by decide)⟩

def premineDb : CTxDB :=
  { workDb with readTx := fun _ => some { storedTx with vout := [⟨150000000 * COIN, [0x51]⟩] } }

theorem premine_reward_negative : getCoinAge workEnv premineDb stakeTx = some 30000000000 ∧
      getProofOfStakeReward64 30000000000 0 < 0 ∧
      0 < 30000000000 * COIN_YEAR_REWARD * 33 / (365 * 33 + 8) + 0 := by
  decide +kernel

end Reward

end Bfx.MoneySums
