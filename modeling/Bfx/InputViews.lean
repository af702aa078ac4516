import Bfx.BlockTree
import Bfx.TokenInputs

/-!
The calls on the inputs of a transaction, made twice: by the miner, for whom the
transactions of the new block are in the memory pool, and by `ConnectBlock`, for whom
they are in the stored block. What the miner can do, `ConnectBlock` can do.
-/

namespace Bfx.InputViews

open BlockTree CallOutcome ChainIndex Function InputConnection List TokenInputs TokenReading
  TokenTransaction Transaction

section Options

variable {α β : Type}

theorem rel_none (hx : x = none) (h : Option.Rel r x y) : y = none := by
  cases h with
  | some _ => cases hx
  | none => rfl

theorem rel_some (hx : x = some a) (h : Option.Rel r x y) : ∃ b, y = some b ∧ r a b := by
  cases h with
  | some hab =>
    cases hx
    exact ⟨_, rfl, hab⟩
  | none => cases hx

theorem rel_mono (hrq : ∀ a b, r a b → q a b) (h : Option.Rel r x y) : Option.Rel q x y := by
  cases h with
  | some hab => exact .some (hrq _ _ hab)
  | none => exact .none

end Options

section Views

/-- What the two calls read; `key` is the key of the new block and `coinbase` the hash
of its coinbase, which the miner does not see. -/
structure Views where
  env : ChainEnv
  miner : CTxDB
  node : CTxDB
  key : UInt256
  coinbase : UInt256

variable (v : Views)

/-- An entry of the miner's index and the entry of the node's index for it. -/
structure Mirror (hash : UInt256) (txindex txindex' : CTxIndex) : Prop where
  length_eq : txindex'.vSpent.length = txindex.vSpent.length
  null : ∀ (n : Nat) (spent : CDiskTxPos), txindex.vSpent[n]? = some spent → spent.isNull = true →
    ∃ spent', txindex'.vSpent[n]? = some spent' ∧ spent'.isNull = true
  read_eq : readPrev v.env v.node hash txindex'.pos = readPrev v.env v.miner hash txindex.pos
  mature : (txindex'.pos = txindex.pos ∧ txindex.pos.nBlockPos ≠ v.key) ∨
    ∀ txPrev, readPrev v.env v.miner hash txindex.pos = some txPrev →
      isCoinBase txPrev = false ∧ isCoinStake txPrev = false

/-- The queued changes of the two calls. -/
structure Mirrors (queue queue' : UInt256 → Option CTxIndex) : Prop where
  index : ∀ hash, hash ≠ v.coinbase →
    Option.Rel (Mirror v hash) (currentIndex v.miner queue hash) (currentIndex v.node queue' hash)
  queued : ∀ hash, hash ≠ v.coinbase → (queue' hash).isSome = (queue hash).isSome

/-- An input that has been fetched twice. -/
structure SameInput (hash : UInt256) (input input' : CTxIndex × CTransaction) : Prop where
  mirror : Mirror v hash input.1 input'.1
  tx_eq : input'.2 = input.2
  read : readPrev v.env v.miner hash input.1.pos = some input.2

def SameInputs (inputs inputs' : MapPrevTx) : Prop :=
  ∀ hash, hash ≠ v.coinbase → Option.Rel (SameInput v hash) (inputs hash) (inputs' hash)

/-- The transaction does not refer to the new coinbase. -/
def Apart (vin : List CTxIn) : Prop := ∀ txin ∈ vin, txin.prevout.hash ≠ v.coinbase

variable {v}

theorem sameInputs_empty : SameInputs v (fun _ => none) (fun _ => none) := fun _ _ => .none

theorem rel_update {f g : UInt256 → Option α} {R : UInt256 → α → α → Prop}
    (h : ∀ hash, hash ≠ v.coinbase → Option.Rel (R hash) (f hash) (g hash)) (hnew : R key a b) :
    ∀ hash, hash ≠ v.coinbase →
      Option.Rel (R hash) (update f key (some a) hash) (update g key (some b) hash) := by
  intro other hother
  rcases eq_or_ne other key with rfl | hne
  · rw [update_self, update_self]
    exact .some hnew
  · rw [update_of_ne hne, update_of_ne hne]
    exact h other hother

theorem Mirrors.update (h : Mirrors v queue queue') {hash : UInt256}
    (hmirror : Mirror v hash txindex txindex') :
    Mirrors v (update queue hash (some txindex))
      (update queue' hash (some txindex')) := by
  constructor
  · rw [currentIndex_update, currentIndex_update]
    exact rel_update h.index hmirror
  intro other hother
  rcases eq_or_ne other hash with rfl | hne
  · rw [update_self, update_self]
    rfl
  · rw [update_of_ne hne, update_of_ne hne]
    exact h.queued other hother

end Views

section Fetch

variable {v : Views} {queue queue' : UInt256 → Option CTxIndex} {inputs inputs' : MapPrevTx}
  {tx : CTransaction} {fBlock fMiner fBlock' fMiner' : Bool}

variable (hflags : (fBlock || fMiner) = true)
include hflags

/-- Neither the miner nor `ConnectBlock` looks for the transaction in the pool. -/
theorem fetchInput_missing (hinput : inputs prevout.hash = none)
    (hindex : currentIndex txdb queue prevout.hash = none) :
    ∃ refusal, fetchInput env txdb queue fBlock fMiner tx inputs prevout = .error refusal := by
  rw [fetchInput, hinput, if_pos hflags, hindex]
  rcases fMiner with _ | _
  · rw [Bool.or_false] at hflags
    rw [hflags]
    exact ⟨_, rfl⟩
  · exact ⟨_, rfl⟩

theorem alike_fetchInput (hflags' : (fBlock' || fMiner') = true)
    (hqueue : Mirrors v queue queue') (hinputs : SameInputs v inputs inputs') {prevout : COutPoint}
    (hprevout : prevout.hash ≠ v.coinbase) :
    Alike (SameInputs v) (fetchInput v.env v.miner queue fBlock fMiner tx inputs prevout)
      (fetchInput v.env v.node queue' fBlock' fMiner' tx inputs' prevout) := by
  cases hinput : inputs prevout.hash with
  | some input =>
    obtain ⟨input', hinput', -⟩ := rel_some hinput (hinputs _ hprevout)
    rw [fetchInput, fetchInput, hinput, hinput']
    exact .ok hinputs
  | none =>
    have hinput' := rel_none hinput (hinputs _ hprevout)
    cases hindex : currentIndex v.miner queue prevout.hash with
    | none =>
      obtain ⟨refusal, hfail⟩ := fetchInput_missing hflags hinput hindex
      obtain ⟨refusal', hfail'⟩ :=
        fetchInput_missing hflags' hinput' (rel_none hindex (hqueue.index _ hprevout))
      rw [hfail, hfail']
      exact .error _ _
    | some txindex =>
      obtain ⟨txindex', hindex', hmirror⟩ := rel_some hindex (hqueue.index _ hprevout)
      rw [fetchInput, fetchInput, hinput, hinput', if_pos hflags, if_pos hflags', hindex, hindex']
      dsimp only
      rw [hmirror.read_eq]
      cases hread : readPrev v.env v.miner prevout.hash txindex.pos with
      | none => exact .error _ _
      | some txPrev => exact .ok (rel_update hinputs ⟨hmirror, rfl, hread⟩)

theorem alike_fetchEach (hflags' : (fBlock' || fMiner') = true)
    (hqueue : Mirrors v queue queue') (hinputs : SameInputs v inputs inputs') {vin : List CTxIn}
    (hvin : Apart v vin) :
    Alike (SameInputs v) (fetchEach v.env v.miner queue fBlock fMiner tx vin inputs)
      (fetchEach v.env v.node queue' fBlock' fMiner' tx vin inputs') := by
  induction vin generalizing inputs inputs' with
  | nil => exact .ok hinputs
  | cons txin vin ih =>
    obtain ⟨hfirst, hrest⟩ := forall_mem_cons.mp hvin
    exact (alike_fetchInput hflags hflags' hqueue hinputs hfirst).bind
      fun _ _ hnext => ih hnext hrest

omit hflags

theorem alike_ensureFetched (hinputs : SameInputs v inputs inputs') {vin : List CTxIn}
    (hvin : Apart v vin) :
    Alike (fun _ _ => True) (ensureFetched v.env tx inputs vin)
      (ensureFetched v.env tx inputs' vin) := by
  induction vin with
  | nil => exact .ok trivial
  | cons txin vin ih =>
    obtain ⟨hfirst, hrest⟩ := forall_mem_cons.mp hvin
    rw [ensureFetched, ensureFetched]
    cases hinput : inputs txin.prevout.hash with
    | none =>
      rw [rel_none hinput (hinputs _ hfirst)]
      exact .error _ _
    | some input =>
      obtain ⟨⟨txindex', txPrev'⟩, hinput', hsame⟩ := rel_some hinput (hinputs _ hfirst)
      obtain ⟨txindex, txPrev⟩ := input
      obtain rfl := hsame.tx_eq
      rw [hinput']
      dsimp only
      rw [hsame.mirror.length_eq]
      rw [ensure, ensure]
      split
      · exact ih hrest
      · exact .error _ _

theorem alike_fetchInputs (hflags : (fBlock || fMiner) = true)
    (hflags' : (fBlock' || fMiner') = true) (hqueue : Mirrors v queue queue')
    (hvin : Apart v tx.vin) :
    Alike (SameInputs v) (fetchInputs v.env v.miner queue fBlock fMiner tx fun _ => none)
      (fetchInputs v.env v.node queue' fBlock' fMiner' tx fun _ => none) := by
  rw [fetchInputs, fetchInputs]
  split
  · exact .ok sameInputs_empty
  refine (alike_fetchEach hflags hflags' hqueue sameInputs_empty hvin).bind ?_
  intro fetched fetched' hfetched
  exact (alike_ensureFetched hfetched hvin).bind fun _ _ _ => .ok hfetched

end Fetch

section Values

variable {v : Views} {inputs inputs' : MapPrevTx}

variable (hinputs : SameInputs v inputs inputs')
include hinputs

theorem getOutputFor_eq (hprevout : prevout.hash ≠ v.coinbase) :
    getOutputFor inputs' prevout = getOutputFor inputs prevout := by
  rw [getOutputFor, getOutputFor]
  cases hinput : inputs prevout.hash with
  | none => rw [rel_none hinput (hinputs _ hprevout)]
  | some input =>
    obtain ⟨input', hinput', hsame⟩ := rel_some hinput (hinputs _ hprevout)
    rw [hinput']
    dsimp only
    rw [hsame.tx_eq]

theorem getValueIn_eq (hvin : Apart v tx.vin) :
    getValueIn tx inputs' = getValueIn tx inputs := by
  have hsum : ∀ (vin : List CTxIn) (nResult : Int), Apart v vin →
      sumValueIn inputs' nResult vin = sumValueIn inputs nResult vin := by
    intro vin
    induction vin with
    | nil => exact fun _ _ => rfl
    | cons txin vin ih =>
      intro nResult hvin
      obtain ⟨hfirst, hrest⟩ := forall_mem_cons.mp hvin
      rw [sumValueIn, sumValueIn, getOutputFor_eq hinputs hfirst]
      simp only [ih _ hrest]
  rw [getValueIn, getValueIn, hsum _ _ hvin]

theorem getP2SHSigOpCount_eq (hvin : Apart v tx.vin) :
    getP2SHSigOpCount tx inputs' = getP2SHSigOpCount tx inputs := by
  have hsum : ∀ (vin : List CTxIn) (nSigOps : Nat), Apart v vin →
      sumP2SHSigOps inputs' nSigOps vin = sumP2SHSigOps inputs nSigOps vin := by
    intro vin
    induction vin with
    | nil => exact fun _ _ => rfl
    | cons txin vin ih =>
      intro nSigOps hvin
      obtain ⟨hfirst, hrest⟩ := forall_mem_cons.mp hvin
      rw [sumP2SHSigOps, sumP2SHSigOps, getOutputFor_eq hinputs hfirst]
      simp only [ih _ hrest]
  rw [getP2SHSigOpCount, getP2SHSigOpCount, hsum _ _ hvin]

omit hinputs

end Values

section Connect

variable {v : Views} {pindexPrev pindex : CBlockIndex} {ancestors ancestors' : List CBlockIndex}

/-- What is mature at the tip is mature one block above it. -/
def StaysMature (v : Views) (pindexPrev pindex : CBlockIndex)
    (ancestors ancestors' : List CBlockIndex) : Prop :=
  ∀ nBlockPos, nBlockPos ≠ v.key →
    immatureDepth pindexPrev.nHeight (coinbaseMaturity v.env) nBlockPos (pindexPrev :: ancestors) =
      none →
    immatureDepth pindex.nHeight (coinbaseMaturity v.env) nBlockPos (pindex :: ancestors') = none

theorem immatureDepth_succ (amounts amounts' : UInt256 → Amounts) (nCbM height : Int)
    (nBlockPos : UInt256) (pindex : IndexPtr)
    (h : immatureDepth height nCbM nBlockPos (toCBlockIndexes amounts pindex) = none) :
    immatureDepth (height + 1) nCbM nBlockPos (toCBlockIndexes amounts' pindex) = none := by
  induction pindex with
  | nil => rfl
  | cons entry pprev ih =>
    rw [toCBlockIndexes, immatureDepth] at h ⊢
    split
    · rename_i hdepth
      have hbelow : height - (toCBlockIndex amounts entry pprev.length).nHeight < nCbM := by
        have : height + 1 - (pprev.length : Int) < nCbM := hdepth
        show height - (pprev.length : Int) < nCbM
        omega
      rw [if_pos hbelow] at h
      split at h
      · cases h
      rename_i hkey
      rw [if_neg (by exact hkey)]
      exact ih h
    · rfl

theorem staysMature_next (amounts amounts' : UInt256 → Amounts) (tip entry : IndexEntry)
    (pprev : IndexPtr) (hkey : entry.blockKeyInDB = v.key) :
    StaysMature v (toCBlockIndex amounts tip pprev.length)
      (toCBlockIndex amounts' entry (tip :: pprev).length) (toCBlockIndexes amounts pprev)
      (toCBlockIndexes amounts' (tip :: pprev)) := by
  intro nBlockPos hne hnone
  rw [immatureDepth]
  split
  · rw [if_neg]
    · have hsucc := immatureDepth_succ amounts amounts' _ _ nBlockPos (tip :: pprev) hnone
      exact hsucc
    · intro heq
      exact hne (heq.symm.trans hkey)
  · rfl

variable (hstays : StaysMature v pindexPrev pindex ancestors ancestors')
include hstays

theorem follows_ensureMature {hash : UInt256} (hmirror : Mirror v hash txindex txindex')
    (hread : readPrev v.env v.miner hash txindex.pos = some txPrev) :
    Follows (fun _ _ => True) (ensureMature v.env pindexPrev ancestors txindex txPrev)
      (ensureMature v.env pindex ancestors' txindex' txPrev) := by
  intro _ h
  rw [ensureMature] at h ⊢
  split
  · rename_i hminted
    rw [if_pos hminted] at h
    rcases hmirror.mature with ⟨hpos, hkey⟩ | hspending
    · split at h
      · rename_i hnone
        rw [hpos, hstays _ hkey hnone]
        exact returns_ok trivial
      · cases h
    obtain ⟨hcoinBase, hcoinStake⟩ := hspending _ hread
    rw [hcoinBase, hcoinStake] at hminted
    cases hminted
  · exact returns_ok trivial

theorem follows_checkInputs (hinputs : SameInputs v inputs inputs') (hvin : Apart v vin)
    (nValueIn : Int) :
    Follows Eq (checkInputs v.env pindexPrev ancestors tx inputs nValueIn vin)
      (checkInputs v.env pindex ancestors' tx inputs' nValueIn vin) := by
  induction vin generalizing nValueIn with
  | nil => exact fun _ h => ⟨_, rfl, (Except.ok.inj h).symm⟩
  | cons txin vin ih =>
    obtain ⟨hfirst, hrest⟩ := forall_mem_cons.mp hvin
    intro result h
    rw [checkInputs] at h ⊢
    split at h
    · cases h
    rename_i txindex txPrev hinput
    obtain ⟨⟨txindex', txPrev'⟩, hinput', hsame⟩ := rel_some hinput (hinputs _ hfirst)
    obtain rfl : txPrev' = txPrev := hsame.tx_eq
    rw [hinput']
    simp only [bind_eq_ok] at h
    obtain ⟨_, hrange, _, hmature, _, htime, txout, htxout, _, hmoney, h⟩ := h
    obtain ⟨_, hmature', -⟩ := follows_ensureMature hstays hsame.mirror hsame.read _ hmature
    have hrange' : ensure (txin.prevout.n < txPrev'.vout.length ∧
        txin.prevout.n < txindex'.vSpent.length)
        (.dos 100 ("ConnectInputs() : " ++ prevoutOutOfRange v.env tx txin.prevout txindex'
          txPrev')) = .ok () := by
      rw [ensure_eq_ok, hsame.mirror.length_eq]
      exact ensure_eq_ok.mp hrange
    dsimp only
    rw [hrange', ok_bind, hmature', ok_bind, htime, ok_bind, htxout, ok_bind, hmoney, ok_bind]
    exact ih hrest _ _ h

omit hstays

theorem Mirror.mark {hash : UInt256} (hmirror : Mirror v hash txindex txindex') (n : Nat)
    (hpos : pos.isNull = false) (pos' : CDiskTxPos) :
    Mirror v hash { txindex with vSpent := txindex.vSpent.set n pos }
      { txindex' with vSpent := txindex'.vSpent.set n pos' } := by
  refine ⟨?_, ?_, hmirror.read_eq, hmirror.mature⟩
  · rw [length_set, length_set]
    exact hmirror.length_eq
  intro m spent hspent hnull
  rcases eq_or_ne n m with rfl | hne
  · rw [List.getElem?_set_self'] at hspent
    obtain ⟨_, -, hset⟩ := Option.map_eq_some_iff.mp hspent
    rw [← hset, const_apply, hpos] at hnull
    cases hnull
  · rw [List.getElem?_set_ne hne] at hspent ⊢
    exact hmirror.null m spent hspent hnull

theorem follows_spendInputs (hqueue : Mirrors v queue queue')
    (hinputs : SameInputs v inputs inputs') (hvin : Apart v vin) (i : Nat)
    (hpos : pos.isNull = false) (pos' : CDiskTxPos) :
    Follows (Mirrors v) (spendInputs v.env pos false true tx i vin inputs queue)
      (spendInputs v.env pos' true false tx i vin inputs' queue') := by
  induction vin generalizing i inputs inputs' queue queue' with
  | nil =>
    intro _ h
    cases h
    exact returns_ok hqueue
  | cons txin vin ih =>
    obtain ⟨hfirst, hrest⟩ := forall_mem_cons.mp hvin
    intro result h
    rw [spendInputs] at h ⊢
    split at h
    · cases h
    rename_i txindex txPrev hinput
    obtain ⟨⟨txindex', txPrev'⟩, hinput', hsame⟩ := rel_some hinput (hinputs _ hfirst)
    obtain rfl : txPrev' = txPrev := hsame.tx_eq
    rw [hinput']
    simp only [bind_eq_ok] at h
    obtain ⟨spent, hspent, _, hnull, _, hsigned, h⟩ := h
    rw [ofCall_eq_ok, index_eq_ok] at hspent
    obtain ⟨spent', hspent', hnull'⟩ :=
      hsame.mirror.null _ _ hspent (ensure_eq_ok.mp hnull)
    have hmark := hsame.mirror.mark txin.prevout.n hpos pos'
    have hmarked : SameInput v txin.prevout.hash
        ({ txindex with vSpent := txindex.vSpent.set txin.prevout.n pos }, txPrev')
        ({ txindex' with vSpent := txindex'.vSpent.set txin.prevout.n pos' }, txPrev') :=
      ⟨hmark, rfl, hsame.read⟩
    obtain ⟨result', hrun, hresult⟩ :=
      ih (hqueue.update hmark) (rel_update hinputs hmarked) hrest _ _ h
    -- `ConnectBlock` leaves signatures out below the last checkpoint
    have hsigned' : ensureSigned v.env true tx txPrev' i = .ok () := by
      rw [ensureSigned, Bool.false_and, if_neg Bool.false_ne_true] at hsigned
      rw [ensureSigned, hsigned, ite_self]
    exact ⟨result', bind_eq_ok.mpr ⟨spent', ofCall_eq_ok.mpr (index_eq_ok.mpr hspent'),
      bind_eq_ok.mpr ⟨(), ensure_eq_ok.mpr hnull', bind_eq_ok.mpr ⟨(), hsigned', hrun⟩⟩⟩, hresult⟩

theorem ensureFees_of_miner (h : ensureFees v.env false tx nValueIn = .ok ()) :
    ensureFees v.env true tx nValueIn = .ok () := by
  simp only [ensureFees, bind_eq_ok] at h
  obtain ⟨nValueOut, hvalue, _, hin, _, hfee, _, hmin, h⟩ := h
  rw [ensure_eq_ok] at hmin
  exact bind_eq_ok.mpr ⟨_, hvalue, bind_eq_ok.mpr ⟨_, hin, bind_eq_ok.mpr ⟨_, hfee,
    bind_eq_ok.mpr ⟨(), ensure_eq_ok.mpr hmin, h⟩⟩⟩⟩

theorem follows_connectInputs (hstays : StaysMature v pindexPrev pindex ancestors ancestors')
    (hqueue : Mirrors v queue queue') (hinputs : SameInputs v inputs inputs')
    (hvin : Apart v tx.vin) (hpos : pos.isNull = false) (pos' : CDiskTxPos) :
    Follows (Mirrors v) (connectInputs v.env inputs queue pos pindexPrev ancestors false true tx)
      (connectInputs v.env inputs' queue' pos' pindex ancestors' true false tx) := by
  rw [connectInputs, connectInputs]
  split
  · intro _ h
    cases h
    exact returns_ok hqueue
  refine (follows_checkInputs hstays hinputs hvin 0).bind ?_
  rintro nValueIn _ rfl
  refine (follows_spendInputs hqueue hinputs hvin 0 hpos pos').bind ?_
  intro spent spent' hspent
  split
  · intro _ h
    cases h
    exact returns_ok hspent
  intro _ h
  obtain ⟨_, hfees, h⟩ := bind_eq_ok.mp h
  cases h
  rw [ensureFees_of_miner hfees, ok_bind]
  exact returns_ok hspent

end Connect

section Tokens

variable {v : Views} {inputs inputs' : MapPrevTx} {tx : CTransaction}
  {tokens tokens' : UInt256 → Option (List InputPair)}

/-- A transaction that spends, and that is not the new coinbase or spends from it. -/
structure Known (v : Views) (tx : CTransaction) : Prop where
  vin_ne : tx.vin ≠ []
  hash_ne : v.env.getHash tx ≠ v.coinbase
  apart : Apart v tx.vin

/-- Every transaction that is read is known. -/
def ReadsKnown (v : Views) : Prop :=
  ∀ hash pos txPrev, readPrev v.env v.miner hash pos = some txPrev → Known v txPrev

/-- The previous transactions are the same, and those with tokens are known. -/
def SamePrev (v : Views) (inputs inputs' : MapPrevTx) : Prop :=
  ∀ hash, hash ≠ v.coinbase →
    Option.Rel (fun input input' => input'.2 = input.2 ∧
      ((isTxBFXT v.env.toNodeEnv input.2).isSome → Known v input.2)) (inputs hash) (inputs' hash)

theorem SameInputs.samePrev (hknown : ReadsKnown v) (h : SameInputs v inputs inputs') :
    SamePrev v inputs inputs' := by
  intro hash hhash
  refine rel_mono ?_ (h hash hhash)
  intro input input' hsame
  exact ⟨hsame.tx_eq, fun _ => hknown _ _ _ hsame.read⟩

/-- The lists of token inputs that are queued: the miner queues none for a transaction
that is not an issuance. -/
def TokensMirror (v : Views) (tokens tokens' : UInt256 → Option (List InputPair)) : Prop :=
  ∀ hash, hash ≠ v.coinbase →
    Option.Rel (fun queued queued' => queued' = queued ∨ queued = []) (tokens hash) (tokens' hash)

theorem samePrev_fetchedUntilFailure (hknown : ReadsKnown v) (hqueue : Mirrors v queue queue')
    (hinputs : SameInputs v inputs inputs') (hvin : Apart v vin) :
    SamePrev v (fetchedUntilFailure v.env v.miner queue tx vin inputs)
      (fetchedUntilFailure v.env v.node queue' tx vin inputs') := by
  induction vin generalizing inputs inputs' with
  | nil => exact hinputs.samePrev hknown
  | cons txin vin ih =>
    obtain ⟨hfirst, hrest⟩ := forall_mem_cons.mp hvin
    have halike := @alike_fetchInput v queue queue' inputs inputs' tx true false true false rfl rfl
      hqueue hinputs txin.prevout hfirst
    rw [fetchedUntilFailure, fetchedUntilFailure]
    generalize fetchInput v.env v.miner queue true false tx inputs txin.prevout = fetched at halike
    generalize fetchInput v.env v.node queue' true false tx inputs' txin.prevout = fetched'
      at halike
    cases halike with
    | ok hnext => exact ih hnext hrest
    | error _ _ =>
      dsimp only
      intro other hother
      rcases eq_or_ne other txin.prevout.hash with rfl | hne
      · rw [update_self, update_self]
        refine .some ⟨rfl, fun htoken => ?_⟩
        rw [isTxBFXT] at htoken
        split at htoken <;> cases htoken
      · rw [update_of_ne hne, update_of_ne hne]
        exact hinputs.samePrev hknown other hother

theorem alike_fetchInputsForTokens (hknown : ReadsKnown v) (hqueue : Mirrors v queue queue')
    (hvin : Apart v tx.vin) :
    Alike (SamePrev v) (fetchInputsForTokens v.env v.miner queue tx)
      (fetchInputsForTokens v.env v.node queue' tx) := by
  have heach := @alike_fetchEach v queue queue' _ _ tx true false true false rfl rfl hqueue
    sameInputs_empty tx.vin hvin
  rw [fetchInputsForTokens, fetchInputsForTokens]
  split
  · exact .ok (sameInputs_empty.samePrev hknown)
  generalize fetchEach v.env v.miner queue true false tx tx.vin (fun _ => none) = fetched at heach
  generalize fetchEach v.env v.node queue' true false tx tx.vin (fun _ => none) = fetched' at heach
  cases heach with
  | error _ _ => exact .ok (samePrev_fetchedUntilFailure hknown hqueue sameInputs_empty hvin)
  | @ok inputs inputs' hinputs =>
    have hensure := @alike_ensureFetched v inputs inputs' tx hinputs tx.vin hvin
    dsimp only
    generalize ensureFetched v.env tx inputs tx.vin = ensured at hensure
    generalize ensureFetched v.env tx inputs' tx.vin = ensured' at hensure
    cases hensure with
    | error _ _ => exact .error _ _
    | ok _ => exact .ok (hinputs.samePrev hknown)

theorem inputPair_eq (hinputs : SamePrev v inputs inputs') (htxin : txin.prevout.hash ≠ v.coinbase)
    :
    inputPair v.env tx inputs' txin = inputPair v.env tx inputs txin := by
  rw [inputPair, inputPair]
  cases hinput : inputs txin.prevout.hash with
  | none => rw [rel_none hinput (hinputs _ htxin)]
  | some input =>
    obtain ⟨input', hinput', hsame, -⟩ := rel_some hinput (hinputs _ htxin)
    rw [hinput']
    dsimp only
    rw [hsame]

/-- Token data is not read from an empty list of inputs. -/
theorem ne_nil_of_readBFXTDataFromTx (htoken : (isTxBFXT env tx).isSome) (hvin : tx.vin ≠ [])
    (h : readBFXTDataFromTx env self tx inputsTxs = .ok bfxttx) : inputsTxs ≠ [] := by
  rintro rfl
  obtain ⟨opReturnArg, hscript⟩ := Option.isSome_iff_exists.mp htoken
  rw [readBFXTDataFromTx_of_token self [] hscript, readTokenScript, if_pos] at h
  · exact raise_ne_ok _ _ h
  · exact fun hlength => hvin (eq_nil_of_length_eq_zero hlength)

theorem tokenData_of_miner (hqueue : Mirrors v queue queue')
    (hknown : (isTxBFXT v.env.toNodeEnv inTx.1).isSome → Known v inTx.1) (hinputsOf : ∀ parent,
      Known v parent → Follows (fun queued queued' => queued' = queued ∨ queued = []) (inputsOf
      parent) (inputsOf' parent)) (h : tokenData v.env bfxtTxs queue inputsOf inTx = .ok input) :
    tokenData v.env bfxtTxs queue' inputsOf' inTx = .ok input := by
  rw [tokenData] at h ⊢
  split
  · rename_i htoken
    have hparent := hknown htoken
    rw [if_pos htoken] at h
    split
    · rename_i hrecord
      rwa [if_pos hrecord] at h
    rename_i hrecord
    rw [if_neg hrecord] at h
    rw [hqueue.queued _ hparent.hash_ne]
    split
    · rename_i hqueued
      rw [if_pos hqueued] at h
      obtain ⟨inputsOfInput, hinputs, hdata⟩ := bind_eq_ok.mp h
      obtain ⟨bfxttx, hread, -⟩ := bind_eq_ok.mp hdata
      obtain ⟨found, hfound, hsame⟩ := hinputsOf _ hparent _ hinputs
      have hne := ne_nil_of_readBFXTDataFromTx htoken hparent.vin_ne hread
      rw [hsame.resolve_right hne] at hfound
      exact bind_eq_ok.mpr ⟨_, hfound, hdata⟩
    · rename_i hqueued
      rwa [if_neg hqueued] at h
  · rename_i htoken
    rwa [if_neg htoken] at h

theorem follows_stdFetchedInputTxsToBFXT (hknown : ReadsKnown v) (hqueue : Mirrors v queue queue')
    (htokens : TokensMirror v tokens tokens') (left : Nat) (htx : Known v tx)
    (hinputs : SamePrev v inputs inputs') :
    Follows (fun queued queued' => queued' = queued ∨ queued = [])
      (stdFetchedInputTxsToBFXT v.env v.miner bfxtTxs tokens queue left tx inputs)
      (stdFetchedInputTxsToBFXT v.env v.node bfxtTxs tokens' queue' left tx inputs') := by
  induction left generalizing tx inputs inputs' with
  | zero => exact fun _ h => absurd h (raise_ne_ok _ _)
  | succ left ih =>
    intro result h
    rw [stdFetchedInputTxsToBFXT] at h ⊢
    obtain ⟨pairs, hpairs, h⟩ := bind_eq_ok.mp h
    have hpairs' : tx.vin.mapM (inputPair v.env tx inputs') = .ok pairs := by
      refine mapM_of_imp (fun txin htxin inTx hpair => ?_) hpairs
      rwa [inputPair_eq hinputs (htx.apart txin htxin)]
    rw [hpairs', ok_bind]
    split at h
    · rename_i queued hqueued
      obtain ⟨queued', hqueued', hsame⟩ := rel_some hqueued (htokens _ htx.hash_ne)
      rw [hqueued', ← Except.ok.inj h]
      exact returns_ok hsame
    rename_i hnone
    rw [rel_none hnone (htokens _ htx.hash_ne)]
    refine ⟨result, mapM_of_imp (fun inTx hinTx input hdata => ?_) h, .inl rfl⟩
    obtain ⟨txin, htxin, hpair⟩ := exists_of_forall₂ (mapM_eq_ok.mp hpairs).flip hinTx
    refine tokenData_of_miner hqueue (fun htoken => ?_) (fun parent hparent => ?_) hdata
    · rw [inputPair] at hpair
      split at hpair
      · cases hpair
      rename_i txindex txPrev hinput
      cases hpair
      obtain ⟨_, -, -, hknown⟩ := rel_some hinput (hinputs _ (htx.apart txin htxin))
      exact hknown htoken
    exact (alike_fetchInputsForTokens hknown hqueue hparent.apart).follows.bind
      fun _ _ hprev => ih hparent hprev

end Tokens

end Bfx.InputViews
