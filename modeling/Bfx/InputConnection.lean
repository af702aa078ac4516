import Bfx.ChainIndex
import Bfx.CoinSpending

/-!
The checks of one transaction: `CheckTransaction`, `FetchInputs`, and
`ConnectInputs`, which marks the outputs it spends in the queued index.
-/

namespace Bfx.InputConnection

open CallOutcome ChainIndex CoinSpending Function Transaction

def checkOutputs (tx : CTransaction) : Int → List CTxOut → Verdict Unit
  | _, [] => .ok ()
  | nValueOut, txout :: vout => do
    ensure (¬ (txout.isEmpty ∧ !isCoinBase tx ∧ !isCoinStake tx))
      (.dos 100 "CTransaction::CheckTransaction() : txout empty for user transaction")
    ensure (0 ≤ txout.nValue)
      (.dos 100 "CTransaction::CheckTransaction() : txout.nValue negative")
    ensure (txout.nValue ≤ MAX_MONEY)
      (.dos 100 "CTransaction::CheckTransaction() : txout.nValue too high")
    ensure (moneyRange (nValueOut + txout.nValue))
      (.dos 100 "CTransaction::CheckTransaction() : txout total out of range")
    checkOutputs tx (nValueOut + txout.nValue) vout

def checkTransaction (env : ChainEnv) (tx : CTransaction) : Verdict Unit := do
  ensure (tx.vin ≠ []) (.dos 10 "CTransaction::CheckTransaction() : vin empty")
  ensure (tx.vout ≠ []) (.dos 10 "CTransaction::CheckTransaction() : vout empty")
  ensure (env.getSerializeSize tx ≤ maxBlockSize env)
    (.dos 100 "CTransaction::CheckTransaction() : size limits failed")
  checkOutputs tx 0 tx.vout
  ensure (tx.vin.map (·.prevout)).Nodup .silent
  if isCoinBase tx then
    ensure (∀ txin ∈ tx.vin.head?, 2 ≤ txin.scriptSig.length ∧ txin.scriptSig.length ≤ 100)
      (.dos 100 "CTransaction::CheckTransaction() : coinbase script size is invalid")
  else
    ensure (∀ txin ∈ tx.vin, txin.prevout.isNull = false)
      (.dos 10 "CTransaction::CheckTransaction() : prevout is null")

/-- An `unsigned int` that is printed as an `int`. -/
def signedText (n : Nat) : String := toString (if n < 2 ^ 31 then (n : Int) else (n : Int) - 2 ^ 32)

/-- The text behind the name of the function that finds an input out of range. -/
def prevoutOutOfRange (env : ChainEnv) (tx : CTransaction) (prevout : COutPoint)
    (txindex : CTxIndex) (txPrev : CTransaction) : String :=
  (env.getHash tx).toHex ++ " prevout.n out of range " ++ signedText prevout.n ++ " " ++
    toString txPrev.vout.length ++ " " ++ toString txindex.vSpent.length ++ " prev tx " ++
    prevout.hash.toHex ++ "\n" ++ env.txToString txPrev

/-- The previous transaction of an index entry: from the memory pool if the
position is the mark for it, else from disk. -/
def readPrev (env : ChainEnv) (txdb : CTxDB) (hash : UInt256) (pos : CDiskTxPos) :
    Option CTransaction :=
  if pos = ⟨1, 1⟩ then env.mempoolLookup hash else txdb.readTx pos

/-- The index entry of a transaction: queued changes go before the database. -/
def currentIndex (txdb : CTxDB) (mapTestPool : UInt256 → Option CTxIndex) (hash : UInt256) :
    Option CTxIndex :=
  match mapTestPool hash with
  | some txindex => some txindex
  | none => txdb.readTxIndex hash

def fetchInput (env : ChainEnv) (txdb : CTxDB) (mapTestPool : UInt256 → Option CTxIndex)
    (fBlock fMiner : Bool) (tx : CTransaction) (inputsRet : MapPrevTx) (prevout : COutPoint) :
    Verdict MapPrevTx :=
  match inputsRet prevout.hash with
  | some _ => .ok inputsRet
  | none =>
    match if fBlock || fMiner then currentIndex txdb mapTestPool prevout.hash
      else txdb.readTxIndex prevout.hash with
    | none =>
      if fMiner then .error .silent
      else if fBlock then
        .error (.logged ("FetchInputs() : " ++ (env.getHash tx).toHex ++ " prev tx " ++
          prevout.hash.toHex ++ " index entry not found"))
      else
        match env.mempoolLookup prevout.hash with
        | none =>
          .error (.logged ("FetchInputs() : " ++ (env.getHash tx).toHex ++
            " mempool Tx prev not found " ++ prevout.hash.toHex))
        | some txPrev =>
          .ok (update inputsRet prevout.hash
            (some (CTxIndex.new .null txPrev.vout.length, txPrev)))
    | some txindex =>
      match readPrev env txdb prevout.hash txindex.pos with
      | none =>
        .error (.logged ("FetchInputs() : " ++ (env.getHash tx).toHex ++
          (if txindex.pos = ⟨1, 1⟩ then " mempool Tx prev not found " ++ prevout.hash.toHex
          else " ReadFromDisk prev tx " ++ prevout.hash.toHex ++ " failed")))
      | some txPrev =>
        .ok (update inputsRet prevout.hash (some (txindex, txPrev)))

def fetchEach (env : ChainEnv) (txdb : CTxDB) (mapTestPool : UInt256 → Option CTxIndex)
    (fBlock fMiner : Bool) (tx : CTransaction) : List CTxIn → MapPrevTx → Verdict MapPrevTx
  | [], inputsRet => .ok inputsRet
  | txin :: vin, inputsRet => do
    let inputsRet ← fetchInput env txdb mapTestPool fBlock fMiner tx inputsRet txin.prevout
    fetchEach env txdb mapTestPool fBlock fMiner tx vin inputsRet

/-- The loop that makes sure that all indexes are valid. -/
def ensureFetched (env : ChainEnv) (tx : CTransaction) (inputsRet : MapPrevTx) :
    List CTxIn → Verdict Unit
  | [] => .ok ()
  | txin :: vin =>
    match inputsRet txin.prevout.hash with
    | none => .error .assertFailed
    | some (txindex, txPrev) => do
      ensure (txin.prevout.n < txPrev.vout.length ∧ txin.prevout.n < txindex.vSpent.length)
        (.dos 100 ("FetchInputs() : " ++ prevoutOutOfRange env tx txin.prevout txindex txPrev))
      ensureFetched env tx inputsRet vin

def fetchInputs (env : ChainEnv) (txdb : CTxDB) (mapTestPool : UInt256 → Option CTxIndex)
    (fBlock fMiner : Bool) (tx : CTransaction) (inputsRet : MapPrevTx) : Verdict MapPrevTx :=
  if isCoinBase tx then .ok inputsRet
  else do
    let inputsRet ← fetchEach env txdb mapTestPool fBlock fMiner tx tx.vin inputsRet
    ensureFetched env tx inputsRet tx.vin
    .ok inputsRet

def getOutputFor (inputs : MapPrevTx) (prevout : COutPoint) : Outcome CTxOut :=
  match inputs prevout.hash with
  | none => raise "CTransaction::GetOutputFor() : prevout.hash not found"
  | some (_, txPrev) =>
    match txPrev.vout[prevout.n]? with
    | none => raise "CTransaction::GetOutputFor() : prevout.n out of range"
    | some txout => .ok txout

def sumValueIn (inputs : MapPrevTx) : Int → List CTxIn → Outcome Int
  | nResult, [] => .ok nResult
  | nResult, txin :: vin =>
    getOutputFor inputs txin.prevout >>= fun txout => sumValueIn inputs (nResult + txout.nValue) vin

def getValueIn (tx : CTransaction) (inputs : MapPrevTx) : Outcome Int :=
  if isCoinBase tx then .ok 0 else sumValueIn inputs 0 tx.vin

def sumP2SHSigOps (inputs : MapPrevTx) : Nat → List CTxIn → Outcome Nat
  | nSigOps, [] => .ok nSigOps
  | nSigOps, txin :: vin =>
    getOutputFor inputs txin.prevout >>= fun txout =>
      sumP2SHSigOps inputs
        (if isPayToScriptHash txout.scriptPubKey then
          nSigOps + getSigOpCountOf txout.scriptPubKey txin.scriptSig else nSigOps) vin

def getP2SHSigOpCount (tx : CTransaction) (inputs : MapPrevTx) : Outcome Nat :=
  if isCoinBase tx then .ok 0 else sumP2SHSigOps inputs 0 tx.vin

inductive GetMinFeeMode where
  | block
  | relay
  | send
  deriving DecidableEq, Repr

def MIN_TX_FEE : Int := 10000

def MIN_RELAY_TX_FEE : Int := MIN_TX_FEE

def getMinFee (env : ChainEnv) (tx : CTransaction) (nBlockSize : Nat) (mode : GetMinFeeMode)
    (nBytes : Nat) : Int :=
  let nBaseFee := if mode = .relay then MIN_RELAY_TX_FEE else MIN_TX_FEE
  let nNewBlockSize := (nBlockSize + nBytes) % 2 ^ 32
  let nMinFee := (1 + (nBytes : Int) / 1000) * nBaseFee
  let nMinFee :=
    if nMinFee < nBaseFee ∧ tx.vout.any (fun txout => txout.nValue < CENT) then nBaseFee else nMinFee
  let nSizeLimit := maxBlockSize env
  if nBlockSize ≠ 1 ∧ nNewBlockSize ≥ nSizeLimit / 2 ∧ nNewBlockSize ≥ nSizeLimit then MAX_MONEY
  else
    let nMinFee :=
      if nBlockSize ≠ 1 ∧ nNewBlockSize ≥ nSizeLimit / 2 then
        nMinFee * ((nSizeLimit / (nSizeLimit - nNewBlockSize) : Nat) : Int)
      else nMinFee
    if !moneyRange nMinFee then MAX_MONEY else nMinFee

/-- The loop over the ancestors that finds the block of a transaction that is
not matured. -/
def immatureDepth (nHeight nCbM : Int) (nBlockPos : UInt256) : List CBlockIndex → Option Int
  | [] => none
  | pindex :: ancestors =>
    if nHeight - pindex.nHeight < nCbM then
      if pindex.blockKeyInDB = nBlockPos then some (nHeight - pindex.nHeight)
      else immatureDepth nHeight nCbM nBlockPos ancestors
    else none

def ensureMature (env : ChainEnv) (pindexBlock : CBlockIndex) (ancestors : List CBlockIndex)
    (txindex : CTxIndex) (txPrev : CTransaction) : Verdict Unit :=
  if isCoinBase txPrev || isCoinStake txPrev then
    match immatureDepth pindexBlock.nHeight (coinbaseMaturity env) txindex.pos.nBlockPos
        (pindexBlock :: ancestors) with
    | none => .ok ()
    | some depth =>
      .error (.logged ("ConnectInputs() : tried to spend " ++
        (if isCoinBase txPrev then "coinbase" else "coinstake") ++ " at depth " ++ toString depth))
  else .ok ()

/-- The first loop: the checks that need no signature. -/
def checkInputs (env : ChainEnv) (pindexBlock : CBlockIndex) (ancestors : List CBlockIndex)
    (tx : CTransaction) (inputs : MapPrevTx) : Int → List CTxIn → Verdict Int
  | nValueIn, [] => .ok nValueIn
  | nValueIn, txin :: vin =>
    match inputs txin.prevout.hash with
    | none => .error .assertFailed
    | some (txindex, txPrev) => do
      ensure (txin.prevout.n < txPrev.vout.length ∧ txin.prevout.n < txindex.vSpent.length)
        (.dos 100 ("ConnectInputs() : " ++ prevoutOutOfRange env tx txin.prevout txindex txPrev))
      ensureMature env pindexBlock ancestors txindex txPrev
      ensure (txPrev.nTime ≤ tx.nTime)
        (.dos 100 "ConnectInputs() : transaction timestamp earlier than input transaction")
      let txout ← ofCall (index .prevVout txPrev.vout txin.prevout.n)
      ensure (moneyRange txout.nValue ∧ moneyRange (nValueIn + txout.nValue))
        (.dos 100 "ConnectInputs() : txin values out of range")
      checkInputs env pindexBlock ancestors tx inputs (nValueIn + txout.nValue) vin

def ensureSigned (env : ChainEnv) (fBlock : Bool) (tx txPrev : CTransaction) (i : Nat) :
    Verdict Unit :=
  if fBlock && env.nBestHeight < env.getTotalBlocksEstimate then .ok ()
  else if env.verifySignature txPrev tx i true then .ok ()
  else if env.verifySignature txPrev tx i false then
    .error (.logged ("ConnectInputs() : " ++ (env.getHash tx).toHex ++
      " P2SH VerifySignature failed"))
  else
    .error (.dos 100 ("ConnectInputs() : " ++ (env.getHash tx).toHex ++ " VerifySignature failed"))

/-- The second loop: every input is checked against double spends and marks its
output as spent. -/
def spendInputs (env : ChainEnv) (posThisTx : CDiskTxPos) (fBlock fMiner : Bool)
    (tx : CTransaction) :
    Nat → List CTxIn → MapPrevTx → (UInt256 → Option CTxIndex) → Verdict (UInt256 → Option CTxIndex)
  | _, [], _, mapTestPool => .ok mapTestPool
  | i, txin :: vin, inputs, mapTestPool =>
    match inputs txin.prevout.hash with
    | none => .error .assertFailed
    | some (txindex, txPrev) => do
      let spent ← ofCall (index .vSpent txindex.vSpent txin.prevout.n)
      ensure (spent.isNull = true)
        (if fMiner then .silent
        else .logged ("ConnectInputs() : " ++ (env.getHash tx).toHex ++
          " prev tx already used at " ++ spent.toText))
      ensureSigned env fBlock tx txPrev i
      let txindex := { txindex with vSpent := txindex.vSpent.set txin.prevout.n posThisTx }
      spendInputs env posThisTx fBlock fMiner tx (i + 1) vin
        (update inputs txin.prevout.hash (some (txindex, txPrev)))
        (if fBlock || fMiner then update mapTestPool txin.prevout.hash (some txindex)
        else mapTestPool)

/-- The value rules of a transaction that is not a coinstake. -/
def ensureFees (env : ChainEnv) (fBlock : Bool) (tx : CTransaction) (nValueIn : Int) :
    Verdict Unit := do
  let nValueOut ← ofCall (getValueOut tx)
  ensure (nValueOut ≤ nValueIn)
    (.dos 100 ("ConnectInputs() : " ++ (env.getHash tx).toHex ++ " value in < value out"))
  let nTxFee := nValueIn - nValueOut
  ensure (0 ≤ nTxFee) (.dos 100 ("ConnectInputs() : " ++ (env.getHash tx).toHex ++ " nTxFee < 0"))
  ensure (getMinFee env tx 1 .block 0 ≤ nTxFee)
    (if fBlock then
      .dos 100 ("ConnectInputs() : " ++ (env.getHash tx).toHex ++ " not paying required fee=" ++
        formatMoney (getMinFee env tx 1 .block 0) ++ ", paid=" ++ formatMoney nTxFee)
    else .silent)
  ensure (moneyRange nTxFee) (.dos 100 "ConnectInputs() : nFees out of range")

/-- The queued changes are returned. -/
def connectInputs (env : ChainEnv) (inputs : MapPrevTx) (mapTestPool : UInt256 → Option CTxIndex)
    (posThisTx : CDiskTxPos) (pindexBlock : CBlockIndex) (ancestors : List CBlockIndex)
    (fBlock fMiner : Bool) (tx : CTransaction) : Verdict (UInt256 → Option CTxIndex) :=
  if isCoinBase tx then .ok mapTestPool
  else do
    let nValueIn ← checkInputs env pindexBlock ancestors tx inputs 0 tx.vin
    let mapTestPool ← spendInputs env posThisTx fBlock fMiner tx 0 tx.vin inputs mapTestPool
    if isCoinStake tx then .ok mapTestPool
    else do
      ensureFees env fBlock tx nValueIn
      .ok mapTestPool

section Coins

def unspentCoins (view : UInt256 → Option CTxIndex) : Set COutPoint :=
  {coin | ∃ txindex spent, view coin.hash = some txindex ∧ txindex.vSpent[coin.n]? = some spent ∧
    spent.isNull = true}

variable {coin : COutPoint} {pos : CDiskTxPos} {env : ChainEnv} {txdb : CTxDB}
  {mapTestPool : UInt256 → Option CTxIndex}

theorem mem_unspentCoins :
    coin ∈ unspentCoins view ↔ ∃ txindex spent, view coin.hash = some txindex ∧
      txindex.vSpent[coin.n]? = some spent ∧ spent.isNull = true :=
  Iff.rfl

def positions (view : UInt256 → Option CTxIndex) (hash : UInt256) : Option CDiskTxPos :=
  (view hash).map (·.pos)

def outputAt (env : ChainEnv) (txdb : CTxDB) (position : UInt256 → Option CDiskTxPos)
    (coin : COutPoint) : Option CTxOut := do
  let pos ← position coin.hash
  let txPrev ← readPrev env txdb coin.hash pos
  txPrev.vout[coin.n]?

def coinValue (env : ChainEnv) (txdb : CTxDB) (position : UInt256 → Option CDiskTxPos)
    (coin : COutPoint) : Int :=
  match outputAt env txdb position coin with
  | none => 0
  | some txout => txout.nValue

theorem currentIndex_update (txdb : CTxDB) (mapTestPool : UInt256 → Option CTxIndex)
    (hash : UInt256) (txindex : CTxIndex) :
    currentIndex txdb (update mapTestPool hash (some txindex)) =
      update (currentIndex txdb mapTestPool) hash (some txindex) := by
  funext other
  rcases eq_or_ne other hash with rfl | hne
  · rw [currentIndex, update_self, update_self]
  · rw [currentIndex, update_of_ne hne, update_of_ne hne, ← currentIndex]

theorem positions_update (view : UInt256 → Option CTxIndex) (hash : UInt256) (txindex : CTxIndex) :
    positions (update view hash (some txindex)) =
      update (positions view) hash (some txindex.pos) :=
  comp_update (Option.map CTxIndex.pos) view hash (some txindex)

theorem unspentCoins_mark (hview : view coin.hash = some txindex) (hpos : pos.isNull = false) :
    unspentCoins (update view coin.hash
        (some { txindex with vSpent := txindex.vSpent.set coin.n pos })) =
      unspentCoins view \ {coin} := by
  ext other
  by_cases hhash : other.hash = coin.hash
  · by_cases hn : other.n = coin.n
    · have hother : other = coin := by
        rcases other with ⟨_, _⟩
        rcases coin with ⟨_, _⟩
        exact congr (congrArg _ hhash) hn
      subst hother
      simp only [mem_unspentCoins, update_self, Option.some.injEq,
        Set.mem_sdiff, Set.mem_singleton_iff, not_true_eq_false, and_false, iff_false]
      rintro ⟨_, spent, rfl, hspent, hnull⟩
      rw [List.getElem?_set_self'] at hspent
      obtain ⟨_, -, hset⟩ := Option.map_eq_some_iff.mp hspent
      rw [← hset, const_apply, hpos] at hnull
      cases hnull
    have hother : other ≠ coin := fun h => hn (congrArg COutPoint.n h)
    simp only [mem_unspentCoins, hhash, update_self, Option.some.injEq,
      hview, Set.mem_sdiff, Set.mem_singleton_iff, hother, not_false_eq_true, and_true]
    constructor
    · rintro ⟨_, spent, rfl, hspent, hnull⟩
      rw [List.getElem?_set_ne (Ne.symm hn)] at hspent
      exact ⟨txindex, spent, rfl, hspent, hnull⟩
    rintro ⟨_, spent, rfl, hspent, hnull⟩
    refine ⟨_, spent, rfl, ?_, hnull⟩
    rw [List.getElem?_set_ne (Ne.symm hn)]
    exact hspent
  have hother : other ≠ coin := fun h => hhash (congrArg COutPoint.hash h)
  simp only [mem_unspentCoins, update_of_ne hhash, Set.mem_sdiff,
    Set.mem_singleton_iff, hother, not_false_eq_true, and_true]

def Fetched (env : ChainEnv) (txdb : CTxDB) (mapTestPool : UInt256 → Option CTxIndex)
    (inputs : MapPrevTx) : Prop :=
  ∀ hash txindex txPrev, inputs hash = some (txindex, txPrev) →
    currentIndex txdb mapTestPool hash = some txindex ∧
      readPrev env txdb hash txindex.pos = some txPrev

theorem fetchEach_fetched (hinputs : Fetched env txdb mapTestPool inputs)
    (h : fetchEach env txdb mapTestPool true false tx vin inputs = .ok inputs') :
    Fetched env txdb mapTestPool inputs' := by
  induction vin generalizing inputs with
  | nil =>
    cases h
    exact hinputs
  | cons txin vin ih =>
    obtain ⟨next, hnext, h⟩ := bind_eq_ok.mp h
    refine ih ?_ h
    rw [fetchInput] at hnext
    split at hnext
    · cases hnext
      exact hinputs
    split at hnext
    · cases hnext
    rename_i txindex hindex
    split at hnext
    · cases hnext
    rename_i txPrev hprev
    cases hnext
    intro hash txindex' txPrev' hhash
    rcases eq_or_ne hash txin.prevout.hash with rfl | hne
    · rw [update_self] at hhash
      obtain ⟨rfl, rfl⟩ : txindex = txindex' ∧ txPrev = txPrev' := by simpa using hhash
      exact ⟨hindex, hprev⟩
    · rw [update_of_ne hne] at hhash
      exact hinputs hash txindex' txPrev' hhash

theorem fetchInputs_fetched (htx : isCoinBase tx = false)
    (h : fetchInputs env txdb mapTestPool true false tx (fun _ => none) = .ok inputs) :
    Fetched env txdb mapTestPool inputs := by
  rw [fetchInputs, if_neg (by simp [htx])] at h
  obtain ⟨fetched, hfetched, h⟩ := bind_eq_ok.mp h
  obtain ⟨-, -, h⟩ := bind_eq_ok.mp h
  cases h
  exact fetchEach_fetched (fun _ _ _ hhash => by cases hhash) hfetched

theorem getValueIn_eq_ok (htx : isCoinBase tx = false)
    (hinputs : Fetched env txdb mapTestPool inputs) (h : getValueIn tx inputs = .ok nValueIn) :
    nValueIn = ((tx.vin.map (·.prevout)).map
      (coinValue env txdb (positions (currentIndex txdb mapTestPool)))).sum := by
  have hsum : ∀ (vin : List CTxIn) (n : Int), sumValueIn inputs n vin = .ok nValueIn →
      nValueIn = n + ((vin.map (·.prevout)).map
        (coinValue env txdb (positions (currentIndex txdb mapTestPool)))).sum := by
    intro vin
    induction vin with
    | nil =>
      intro n h
      cases h
      simp
    | cons txin vin ih =>
      intro n h
      obtain ⟨txout, htxout, h⟩ := bind_eq_ok.mp h
      rw [ih _ h, List.map_cons, List.map_cons, List.sum_cons, ← Int.add_assoc]
      rw [getOutputFor] at htxout
      split at htxout
      · cases htxout
      rename_i txindex txPrev hfound
      obtain ⟨hindex, hprev⟩ := hinputs _ _ _ hfound
      split at htxout
      · cases htxout
      rename_i txout' hvout
      cases htxout
      simp [coinValue, outputAt, positions, hindex, hprev, hvout]
  rw [getValueIn, if_neg (by simp [htx])] at h
  rw [hsum _ _ h, Int.zero_add]

/-- The inputs have the entries of the current index. -/
def FromIndex (txdb : CTxDB) (mapTestPool : UInt256 → Option CTxIndex) (inputs : MapPrevTx) : Prop :=
  ∀ hash txindex txPrev, inputs hash = some (txindex, txPrev) →
    currentIndex txdb mapTestPool hash = some txindex

theorem FromIndex.update (h : FromIndex txdb mapTestPool inputs) (hash : UInt256)
    (txindex : CTxIndex) (txPrev : CTransaction) :
    FromIndex txdb (update mapTestPool hash (some txindex))
      (update inputs hash (some (txindex, txPrev))) := by
  intro other txindex' txPrev' hother
  rw [currentIndex_update]
  rcases eq_or_ne other hash with rfl | hne
  · rw [update_self] at hother ⊢
    rw [(Prod.mk.inj (Option.some.inj hother)).1]
  · rw [update_of_ne hne] at hother ⊢
    exact h _ _ _ hother

theorem spendInputs_takes (hpos : pos.isNull = false) (hinputs : FromIndex txdb mapTestPool inputs)
    (h : spendInputs env pos true false tx i vin inputs mapTestPool = .ok mapTestPool') :
    Takes (unspentCoins (currentIndex txdb mapTestPool)) (vin.map (·.prevout))
        (unspentCoins (currentIndex txdb mapTestPool')) ∧
      positions (currentIndex txdb mapTestPool') = positions (currentIndex txdb mapTestPool) := by
  induction vin generalizing i inputs mapTestPool with
  | nil =>
    cases h
    exact ⟨.nil, rfl⟩
  | cons txin vin ih =>
    rw [spendInputs] at h
    split at h
    · cases h
    rename_i txindex txPrev hfound
    have hview := hinputs _ _ _ hfound
    simp only [bind_eq_ok] at h
    obtain ⟨spent, hspent, _, hnull, _, -, h⟩ := h
    rw [ofCall_eq_ok, index_eq_ok] at hspent
    rw [ensure_eq_ok] at hnull
    obtain ⟨htakes, hpositions⟩ := ih (FromIndex.update hinputs _ _ _) h
    rw [currentIndex_update] at htakes hpositions
    rw [unspentCoins_mark hview hpos] at htakes
    refine ⟨.cons ⟨txindex, spent, hview, hspent, hnull⟩ htakes, ?_⟩
    rw [hpositions, positions_update]
    refine Function.update_eq_self_iff.mpr ?_
    rw [positions, hview, Option.map_some]

theorem spendInputs_of_connectInputs (htx : isCoinBase tx = false)
    (h : connectInputs env inputs mapTestPool pos pindexBlock ancestors fBlock fMiner tx =
      .ok mapTestPool') :
    spendInputs env pos fBlock fMiner tx 0 tx.vin inputs mapTestPool = .ok mapTestPool' := by
  rw [connectInputs, if_neg (by simp [htx])] at h
  obtain ⟨nValueIn, -, h⟩ := bind_eq_ok.mp h
  obtain ⟨queued, hspend, h⟩ := bind_eq_ok.mp h
  split at h
  · rwa [← Except.ok.inj h]
  · obtain ⟨-, -, h⟩ := bind_eq_ok.mp h
    rwa [← Except.ok.inj h]

end Coins

end Bfx.InputConnection
