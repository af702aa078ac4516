import Bfx.KeyTable
import Bfx.TokenSymbols

/-!
The memory pool: `AcceptToMemoryPool`, and the pools that it fills. Which
transactions are standard and how many free ones are let in are parameters.
-/

namespace Bfx.MemoryPool

open BestChain BlockTree CallOutcome ChainIndex InputConnection KeyTable NodeState TokenInputs
  TokenReading TokenSymbols TransferInterpreter Transaction

abbrev CTxMemPool := List (UInt256 × CTransaction)

/-- `mapNextTx` has the inputs of all transactions of the pool. -/
def isSpentInPool (pool : CTxMemPool) (outpoint : COutPoint) : Bool :=
  pool.any fun entry => entry.2.vin.any fun txin => txin.prevout == outpoint

structure RelayPolicy where
  /-- The reason if a transaction is not standard. -/
  isStandardTx : CTransaction → Option String
  areInputsStandard : CTransaction → MapPrevTx → Outcome Bool
  /-- The rate limiter lets a free transaction pass. -/
  passesRateLimiter : CTransaction → Bool

def withPool (env : ChainEnv) (memory : Memory) (pool : CTxMemPool) : ChainEnv :=
  { env with
    nBestHeight := memory.nBestHeight
    mempoolLookup := fun hash => find hash pool }

def opened (state : State TokenTables) : State TokenTables := { state with txdb := state.committed }

/-- The best block and its ancestors; without one a null pointer is used. -/
def bestIndex (memory : Memory) : Verdict (CBlockIndex × List CBlockIndex) :=
  match memory.pindexBest with
  | [] => .error .assertFailed
  | entry :: pprev =>
    .ok (toCBlockIndex memory.amounts entry pprev.length, toCBlockIndexes memory.amounts pprev)

/-- `hash.ToString().substr(0, 10)`. -/
def shortHash (hash : UInt256) : String := String.ofList (hash.toHex.toList.take 10)

/-- `return error(message)` after a call that has set the penalty. -/
def orReject {α : Type} (message : String) : Verdict α → Verdict α
  | .error (.returned nDoS _) => .error (.dos nDoS message)
  | verdict => verdict

/-- The exceptions of a call are printed, and false is returned. -/
def orFalse {α : Type} : Outcome α → Verdict α
  | .ok a => .ok a
  | .error (.thrown _) => .error .silent
  | .error (.outOfBounds storage) => .error (.outOfBounds storage)

/-- Only an input out of range makes a transaction invalid; the others are missing. -/
def fetchLoose (env : ChainEnv) (txdb : CTxDB) (tx : CTransaction) : Verdict MapPrevTx :=
  match fetchInputs env txdb (fun _ => none) false false tx fun _ => none with
  | .error (.returned 0 _) => .error .silent
  | verdict =>
    orReject ("AcceptToMemoryPool : FetchInputs found invalid tx " ++
      shortHash (env.getHash tx)) verdict

def ensureStandard (env : ChainEnv) (policy : RelayPolicy) (tx : CTransaction) : Verdict Unit :=
  match env.fTestNet, policy.isStandardTx tx with
  | false, some reason =>
    .error (.logged ("AcceptToMemoryPool : nonstandard transaction: " ++ reason))
  | _, _ => .ok ()

/-- The token check; symbols are unique from the same fork on. -/
def checkLooseTokens (env : ChainEnv) (state : State TokenTables) (mapInputs : MapPrevTx)
    (tx : CTransaction) : Verdict Unit :=
  if passedFirstValidBFXTTx env && env.isForkActivated .tachyon then
    orFalse do
      let inputsTxs ← stdFetchedInputTxsToBFXT env (toReader env state.committed)
        state.committed.tokens.bfxtTxs (fun _ => none) (fun _ => none) maxRecursion tx mapInputs
      let bfxttx ← readBFXTDataFromTx env.toNodeEnv emptyBFXTTransaction tx inputsTxs
      assertBFXTTokenNameIsNotAlreadyInMainChain env (opened state) bfxttx
  else .ok ()

/-- The checks that need the inputs. -/
def checkLooseInputs (env : ChainEnv) (policy : RelayPolicy) (state : State TokenTables)
    (tx : CTransaction) : Verdict Unit := do
  let txdb := toReader env state.committed
  let hash := env.getHash tx
  let mapInputs ← fetchLoose env txdb tx
  let standard ← ofCall (policy.areInputsStandard tx mapInputs)
  ensure (standard = true ∨ env.fTestNet = true)
    (.logged "AcceptToMemoryPool : nonstandard transaction input")
  let nValueIn ← ofCall (getValueIn tx mapInputs)
  let nValueOut ← ofCall (getValueOut tx)
  let nFees := nValueIn - nValueOut
  let txMinFee := getMinFee env tx 1000 .relay (env.getSerializeSize tx)
  ensure (txMinFee ≤ nFees)
    (.logged ("AcceptToMemoryPool : not enough fees " ++ hash.toHex ++ ", " ++ toString nFees ++
      " < " ++ toString txMinFee))
  ensure (MIN_RELAY_TX_FEE ≤ nFees ∨ policy.passesRateLimiter tx = true)
    (.logged "AcceptToMemoryPool : free transaction rejected by rate limiter")
  let (pindexBest, ancestors) ← bestIndex state.memory
  let _ ← orReject ("AcceptToMemoryPool : ConnectInputs failed " ++ shortHash hash)
    (connectInputs env mapInputs (fun _ => none) ⟨1, 1⟩ pindexBest ancestors false false tx)
  checkLooseTokens env state mapInputs tx

/-- The pool after the call, if it returns true. Transactions are not replaced. -/
def acceptToMemoryPool (base : ChainEnv) (policy : RelayPolicy) (state : State TokenTables)
    (pool : CTxMemPool) (tx : CTransaction) : Verdict CTxMemPool := do
  let env := withPool base state.memory pool
  let hash := env.getHash tx
  orReject "AcceptToMemoryPool : CheckTransaction failed" (checkTransaction env tx)
  ensure (isCoinBase tx = false) (.dos 100 "AcceptToMemoryPool : coinbase as individual tx")
  ensure (isCoinStake tx = false) (.dos 100 "AcceptToMemoryPool : coinstake as individual tx")
  ensureStandard env policy tx
  ensure (find hash pool = none) .silent
  ensure (∀ txin ∈ tx.vin, isSpentInPool pool txin.prevout = false) .silent
  ensure (state.committed.txIndex hash = none) .silent
  checkLooseInputs env policy state tx
  .ok (insertNew hash tx pool)

/-- A pool that has been filled since the node is in a state. Time goes on, and the
policy may change. -/
inductive Filled (base : ChainEnv) (state : State TokenTables) : CTxMemPool → Prop
  | empty : Filled base state []
  | accept {pool pool' : CTxMemPool} {policy : RelayPolicy} {now : Int} {tx : CTransaction}
      (hpool : Filled base state pool)
      (haccept : acceptToMemoryPool { base with getAdjustedTime := now } policy state pool tx =
        .ok pool') : Filled base state pool'

section Pools

variable {base : ChainEnv} {state : State TokenTables} {pool pool' : CTxMemPool}
  {policy : RelayPolicy} {tx : CTransaction}

/-- A transaction that can be in a pool: it spends, is not a part of a block only, and
is not in the chain. -/
structure Loose (getHash : CTransaction → UInt256) (state : State TokenTables)
    (tx : CTransaction) : Prop where
  vin_ne : tx.vin ≠ []
  not_coinBase : isCoinBase tx = false
  not_coinStake : isCoinStake tx = false
  unindexed : state.committed.txIndex (getHash tx) = none

theorem orReject_eq_ok : orReject message x = .ok a ↔ x = .ok a := by
  rcases x with (_ | _ | _ | _) | _
  all_goals simp [orReject]

theorem acceptToMemoryPool_eq_ok (h : acceptToMemoryPool base policy state pool tx = .ok pool') :
    Loose base.getHash state tx ∧ find (base.getHash tx) pool = none ∧
      pool' = insertNew (base.getHash tx) tx pool := by
  simp only [acceptToMemoryPool, bind_eq_ok] at h
  obtain ⟨_, hcheck, _, hcoinBase, _, hcoinStake, _, -, _, hnew, _, -, _, hindex, _, -, h⟩ := h
  rw [orReject_eq_ok] at hcheck
  rw [ensure_eq_ok] at hcoinBase hcoinStake hnew hindex
  obtain ⟨_, hvin, -⟩ := bind_eq_ok.mp hcheck
  exact ⟨⟨ensure_eq_ok.mp hvin, hcoinBase, hcoinStake, hindex⟩, hnew, (Except.ok.inj h).symm⟩

/-- Every transaction of the pool is loose and found under its hash. -/
def PoolOk (getHash : CTransaction → UInt256) (state : State TokenTables) (pool : CTxMemPool) :
    Prop :=
  ∀ entry ∈ pool, find entry.1 pool = some entry.2 ∧ getHash entry.2 = entry.1 ∧
    Loose getHash state entry.2

theorem PoolOk.accept (hpool : PoolOk base.getHash state pool)
    (h : acceptToMemoryPool base policy state pool tx = .ok pool') :
    PoolOk base.getHash state pool' := by
  obtain ⟨hloose, hnew, rfl⟩ := acceptToMemoryPool_eq_ok h
  rintro ⟨key, value⟩ hentry
  rw [find_insertNew_of_none hnew]
  rw [insertNew, hnew, List.mem_orderedInsert] at hentry
  rcases hentry with hentry | hentry
  · cases hentry
    exact ⟨if_pos rfl, rfl, hloose⟩
  obtain ⟨hfind, hrest⟩ := hpool _ hentry
  refine ⟨?_, hrest⟩
  rw [if_neg, hfind]
  rintro rfl
  cases hnew.symm.trans hfind

theorem poolOk_of_filled (h : Filled base state pool) : PoolOk base.getHash state pool := by
  induction h with
  | empty => exact nofun
  | @accept _ _ _ now _ _ haccept ih =>
    exact @PoolOk.accept { base with getAdjustedTime := now } _ _ _ _ _ ih haccept

theorem PoolOk.found (hpool : PoolOk getHash state pool) {hash : UInt256}
    (hfind : find hash pool = some tx) : getHash tx = hash ∧ Loose getHash state tx :=
  (hpool _ (mem_of_find hfind)).2

end Pools

end Bfx.MemoryPool
