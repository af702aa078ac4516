import Bfx.BlockAcceptance
import Bfx.MemoryPool
import Bfx.ScriptTemplates

/-!
`CreateNewBlock`: the transactions that a new block takes out of the memory pool.
Priorities are floating-point numbers; the order in which they put the transactions,
and which free transactions they leave out, are parameters.
-/

namespace Bfx.BlockTemplate

open BestChain BlockAcceptance BlockConnection CallOutcome ChainIndex HexText InputConnection
  KeyTable MemoryPool ScriptTemplates TokenInputs TokenReading TokenScript TokenSymbols
  TokenTransaction TransferInterpreter Transaction List Function

/-- What the priorities decide in one turn: which of the transactions is at the front
of the heap, and whether it is skipped as a free transaction. -/
structure Pick where
  place : Nat
  skipped : Bool

structure MinerSettings where
  fProofOfStake : Bool
  blockMaxSize : Nat
  /-- The key id of the reserved key, if there is one. -/
  reservedKey : Option Bytes
  /-- The sequence numbers of all inputs are maximal. -/
  inputsFinal : CTransaction → Bool
  picks : Nat → Pick

structure Queue where
  ready : List CTransaction
  waiting : List (CTransaction × List UInt256)

def Queue.size (queue : Queue) : Nat := queue.ready.length + queue.waiting.length

/-- The transactions of the pool that a transaction waits for; nothing if an input is
missing. -/
def dependsOn (txdb : CTxDB) (pool : CTxMemPool) : List CTxIn → Verdict (Option (List UInt256))
  | [] => .ok (some [])
  | txin :: vin =>
    match readOutputFromDisk txdb txin.prevout, find txin.prevout.hash pool with
    | some _, _ => dependsOn txdb pool vin
    | none, none => .ok none
    | none, some txPrev => do
      let _ ← ofCall (index .vout txPrev.vout txin.prevout.n)
      let hashes ← dependsOn txdb pool vin
      .ok (hashes.map (txin.prevout.hash :: ·))

def Queue.add (tx : CTransaction) (hashes : List UInt256) (queue : Queue) : Queue :=
  if hashes = [] then { queue with ready := tx :: queue.ready }
  else { queue with waiting := (tx, hashes) :: queue.waiting }

def collect (env : ChainEnv) (settings : MinerSettings) (txdb : CTxDB) (pool : CTxMemPool)
    (nHeight : Int) : CTxMemPool → Verdict Queue
  | [] => .ok ⟨[], []⟩
  | (_, tx) :: rest =>
    if isCoinBase tx || isCoinStake tx || !isFinalTx env settings.inputsFinal tx (nHeight + 1) 0
    then collect env settings txdb pool nHeight rest
    else do
      match ← dependsOn txdb pool tx.vin with
      | none => collect env settings txdb pool nHeight rest
      | some hashes => do
        let _ ← ofCall (getValueOut tx)
        let queue ← collect env settings txdb pool nHeight rest
        .ok (queue.add tx hashes)

def Queue.pop (place : Nat) (queue : Queue) : Option (CTransaction × Queue) :=
  queue.ready[place % queue.ready.length]?.map fun tx =>
    (tx, { queue with ready := queue.ready.eraseIdx (place % queue.ready.length) })

/-- The transactions that have waited only for this one are ready now. -/
def Queue.release (hash : UInt256) (queue : Queue) : Queue :=
  let waiting := queue.waiting.map fun orphan => (orphan.1, orphan.2.filter (· != hash))
  { ready := queue.ready ++ (waiting.filter (·.2.isEmpty)).map Prod.fst
    waiting := waiting.filter (!·.2.isEmpty) }

section Turns

structure TemplateState where
  mapTestPool : UInt256 → Option CTxIndex
  mapQueuedBFXTInputs : UInt256 → Option (List InputPair)
  issuedTokensSymbolsInThisBlock : Bytes → Option UInt256
  nBlockSize : Nat
  nBlockSigOps : Nat
  nFees : Int

/-- The ways to leave a turn of the loop before its end: `continue`, or out of the
whole call. -/
inductive Leaving where
  | next (state : TemplateState)
  | stop (refusal : Refusal)

abbrev Turn (α : Type) := Except Leaving α

variable {α : Type}

def skipIf (condition : Prop) [Decidable condition] (state : TemplateState) : Turn Unit :=
  if condition then .error (.next state) else .ok ()

def orSkip (state : TemplateState) : Verdict α → Turn α
  | .ok a => .ok a
  | .error (.returned _ _) => .error (.next state)
  | .error refusal => .error (.stop refusal)

/-- An exception is printed, and the transaction is skipped. -/
def caught (state : TemplateState) : Outcome α → Turn α
  | .ok a => .ok a
  | .error (.thrown _) => .error (.next state)
  | .error (.outOfBounds storage) => .error (.stop (.outOfBounds storage))

def uncaught (x : Outcome α) : Turn α :=
  match ofCall x with
  | .ok a => .ok a
  | .error refusal => .error (.stop refusal)

variable (env : ChainEnv) (settings : MinerSettings) (node : State TokenTables)

/-- The token check, which is made for issuances only: the token inputs and the symbols
of the block. What an exception says is only printed. -/
def checkIssuance (mapInputs : MapPrevTx) (state : TemplateState) (tx : CTransaction) :
    Outcome (List InputPair × (Bytes → Option UInt256)) :=
  match isTxBFXT env.toNodeEnv tx with
  | none => .ok ([], state.issuedTokensSymbolsInThisBlock)
  | some opRet => do
    let script ← parseScript opRet
    if script.txType = .issuance then do
      let inputsTxs ← stdFetchedInputTxsToBFXT env (toReader env node.txdb)
        node.txdb.tokens.bfxtTxs state.mapQueuedBFXTInputs state.mapTestPool maxRecursion tx
        mapInputs
      let bfxttx ← readBFXTDataFromTx env.toNodeEnv emptyBFXTTransaction tx inputsTxs
      assertBFXTTokenNameIsNotAlreadyInMainChain env node bfxttx
      let symbols ← noteSymbol state.issuedTokensSymbolsInThisBlock bfxttx
      .ok (inputsTxs, symbols)
    else .ok ([], state.issuedTokensSymbolsInThisBlock)

def nBlockMaxSize : Nat := max 1000 (min (maxBlockSize env - 1000) settings.blockMaxSize)

/-- One turn of the loop; a turn that is not left early takes the transaction. The
symbols stay noted if the inputs cannot be connected. -/
def takeTransaction (coinbaseTime : Nat) (pindexPrev : CBlockIndex) (ancestors : List CBlockIndex)
    (skipped : Bool) (tx : CTransaction) (state : TemplateState) : Turn TemplateState := do
  let nTxSize := env.getSerializeSize tx
  skipIf (nBlockMaxSize env settings ≤ state.nBlockSize + nTxSize) state
  skipIf (MAX_BLOCK_SIGOPS ≤ state.nBlockSigOps + getLegacySigOpCount tx) state
  skipIf (env.getAdjustedTime < tx.nTime ∨ (settings.fProofOfStake = true ∧ coinbaseTime < tx.nTime))
    state
  let nMinFee := getMinFee env tx state.nBlockSize .block 0
  skipIf (skipped = true) state
  let mapInputs ← orSkip state
    (fetchInputs env (toReader env node.txdb) state.mapTestPool false true tx fun _ => none)
  let nValueIn ← uncaught (getValueIn tx mapInputs)
  let nValueOut ← uncaught (getValueOut tx)
  let nTxFees := nValueIn - nValueOut
  skipIf (nTxFees < nMinFee) state
  let nP2SHSigOps ← uncaught (getP2SHSigOpCount tx mapInputs)
  let nTxSigOps := getLegacySigOpCount tx + nP2SHSigOps
  skipIf (MAX_BLOCK_SIGOPS ≤ state.nBlockSigOps + nTxSigOps) state
  let (inputsTxs, symbols) ← caught state (checkIssuance env node mapInputs state tx)
  let mapTestPool ← orSkip { state with issuedTokensSymbolsInThisBlock := symbols }
    (connectInputs env mapInputs state.mapTestPool ⟨1, 1⟩ pindexPrev ancestors false true tx)
  .ok {
    mapTestPool := update mapTestPool (env.getHash tx)
      (some (CTxIndex.new ⟨1, 1⟩ tx.vout.length))
    mapQueuedBFXTInputs :=
      update state.mapQueuedBFXTInputs (env.getHash tx) (some inputsTxs)
    issuedTokensSymbolsInThisBlock := symbols
    nBlockSize := state.nBlockSize + nTxSize
    nBlockSigOps := state.nBlockSigOps + nTxSigOps
    nFees := state.nFees + nTxFees }

/-- The loop after one turn: the transactions that are taken, and the state at the end. -/
def goOn (turn : Turn TemplateState) (tx : CTransaction)
    (skip take : TemplateState → Verdict (List CTransaction × TemplateState)) :
    Verdict (List CTransaction × TemplateState) :=
  match turn with
  | .error (.stop refusal) => .error refusal
  | .error (.next state) => skip state
  | .ok state => take state >>= fun (vtx, final) => .ok (tx :: vtx, final)

/-- The loop over the heap. Every turn takes a transaction off the queue, so its size is
fuel enough. -/
def fillBlock (coinbaseTime : Nat) (pindexPrev : CBlockIndex) (ancestors : List CBlockIndex) :
    Nat → Nat → Queue → TemplateState → Verdict (List CTransaction × TemplateState)
  | 0, _, _, state => .ok ([], state)
  | fuel + 1, turn, queue, state =>
    match queue.pop (settings.picks turn).place with
    | none => .ok ([], state)
    | some (tx, queue) =>
      goOn (takeTransaction env settings node coinbaseTime pindexPrev ancestors
          (settings.picks turn).skipped tx state) tx
        (fillBlock coinbaseTime pindexPrev ancestors fuel (turn + 1) queue)
        (fillBlock coinbaseTime pindexPrev ancestors fuel (turn + 1)
          (queue.release (env.getHash tx)))

end Turns

def emptyTemplate : TemplateState where
  mapTestPool := fun _ => none
  mapQueuedBFXTInputs := fun _ => none
  issuedTokensSymbolsInThisBlock := fun _ => none
  nBlockSize := 1000
  nBlockSigOps := 100
  nFees := 0

/-- The coinbase before its reward is known; there is none without a key to pay to. -/
def newCoinBase (env : ChainEnv) (settings : MinerSettings) (nHeight : Int) : Option CTransaction :=
  if settings.fProofOfStake then
    some ⟨env.getAdjustedTime.toNat, [⟨⟨0, 2 ^ 32 - 1⟩, pushHeight (nHeight + 1).toNat⟩],
      [⟨0, []⟩], 0⟩
  else
    settings.reservedKey.map fun keyID =>
      ⟨env.getAdjustedTime.toNat, [⟨⟨0, 2 ^ 32 - 1⟩, []⟩], [⟨-1, setDestination (.keyID keyID)⟩], 0⟩

def payReward (env : ChainEnv) (settings : MinerSettings) (nFees : Int) (coinbase : CTransaction) :
    CTransaction :=
  if settings.fProofOfStake then coinbase
  else
    { coinbase with
      vout := coinbase.vout.modify 0 fun txout =>
        { txout with nValue := getProofOfWorkReward env nFees } }

/-- The transactions of the new block, the coinbase apart. -/
def createNewBlock (base : ChainEnv) (settings : MinerSettings) (state : State TokenTables)
    (pool : CTxMemPool) : Verdict (Option (CTransaction × List CTransaction)) := do
  let env := withPool base state.memory pool
  let (pindexPrev, ancestors) ← bestIndex state.memory
  match newCoinBase env settings pindexPrev.nHeight with
  | none => .ok none
  | some coinbase => do
    let queue ← collect env settings (toReader env state.committed) pool pindexPrev.nHeight pool
    let (vtx, final) ← fillBlock env settings (opened state) coinbase.nTime pindexPrev ancestors
      queue.size 0 queue emptyTemplate
    .ok (some (payReward env settings final.nFees coinbase, vtx))

theorem skipIf_eq_ok [Decidable condition] : skipIf condition state = .ok u ↔ ¬ condition := by
  rw [skipIf]
  split
  · rename_i h
    exact ⟨fun hok => (nomatch hok), fun hnot => absurd h hnot⟩
  · rename_i h
    exact ⟨fun _ => h, fun _ => rfl⟩

theorem orSkip_eq_ok : orSkip state x = .ok a ↔ x = .ok a := by
  rcases x with (_ | _ | _ | _) | _
  all_goals simp [orSkip]

theorem caught_eq_ok : caught state x = .ok a ↔ x = .ok a := by
  rcases x with (_ | _) | _
  all_goals simp [caught]

theorem uncaught_eq_ok : uncaught x = .ok a ↔ x = .ok a := by
  rcases x with (_ | _) | _
  all_goals simp [uncaught, ofCall]

theorem takeTransaction_eq_ok {next : TemplateState}
    (h : takeTransaction env settings node coinbaseTime pindexPrev ancestors skipped tx state =
      .ok next) :
    ∃ mapInputs nValueIn nValueOut nP2SHSigOps inputsTxs symbols mapTestPool,
      fetchInputs env (toReader env node.txdb) state.mapTestPool false true tx (fun _ => none) =
        .ok mapInputs ∧
      getValueIn tx mapInputs = .ok nValueIn ∧ getValueOut tx = .ok nValueOut ∧
      getP2SHSigOpCount tx mapInputs = .ok nP2SHSigOps ∧
      next.nBlockSigOps = state.nBlockSigOps + (getLegacySigOpCount tx + nP2SHSigOps) ∧
      next.nBlockSigOps < MAX_BLOCK_SIGOPS ∧
      checkIssuance env node mapInputs state tx = .ok (inputsTxs, symbols) ∧
      connectInputs env mapInputs state.mapTestPool ⟨1, 1⟩ pindexPrev ancestors false true tx =
        .ok mapTestPool ∧
      next.mapTestPool = update mapTestPool (env.getHash tx)
        (some (CTxIndex.new ⟨1, 1⟩ tx.vout.length)) ∧
      next.mapQueuedBFXTInputs =
        update state.mapQueuedBFXTInputs (env.getHash tx) (some inputsTxs) ∧
      next.issuedTokensSymbolsInThisBlock = symbols := by
  simp only [takeTransaction, bind_eq_ok] at h
  obtain ⟨_, -, _, -, _, -, _, -, mapInputs, hfetch, nValueIn, hvalueIn, nValueOut, hvalueOut, _, -,
    nP2SHSigOps, hp2sh, _, hsigOps, ⟨inputsTxs, symbols⟩, hissuance, mapTestPool, hconnect, h⟩ := h
  cases h
  rw [orSkip_eq_ok] at hfetch hconnect
  rw [uncaught_eq_ok] at hvalueIn hvalueOut hp2sh
  rw [caught_eq_ok] at hissuance
  rw [skipIf_eq_ok, Nat.not_le] at hsigOps
  exact ⟨mapInputs, nValueIn, nValueOut, nP2SHSigOps, inputsTxs, symbols, mapTestPool, hfetch,
    hvalueIn, hvalueOut, hp2sh, rfl, hsigOps, hissuance, hconnect, rfl, rfl, rfl⟩

section Skipped

variable {α : Type} {state : TemplateState} {P : TemplateState → Prop}

/-- A turn that goes on with the next transaction does so in a state with a property. -/
def Leaves (x : Turn α) (P : TemplateState → Prop) : Prop :=
  ∀ state, x = .error (.next state) → P state

theorem Leaves.bind (hx : Leaves x P) (hf : ∀ a, x = .ok a → Leaves (f a) P) :
    Leaves (x >>= f) P := by
  cases x with
  | error leaving =>
    intro state h
    cases h
    exact hx state rfl
  | ok a => exact hf a rfl

theorem leaves_skipIf [Decidable condition] (hstate : P state) :
    Leaves (skipIf condition state) P := by
  intro left h
  rw [skipIf] at h
  split at h
  · cases h
    exact hstate
  · cases h

theorem leaves_orSkip (hstate : P state) (x : Verdict α) : Leaves (orSkip state x) P := by
  intro left h
  rcases x with (_ | _ | _ | _) | _
  · cases h
    exact hstate
  all_goals cases h

theorem leaves_caught (hstate : P state) (x : Outcome α) : Leaves (caught state x) P := by
  intro left h
  rcases x with (_ | _) | _
  · cases h
    exact hstate
  all_goals cases h

theorem leaves_uncaught (x : Outcome α) : Leaves (uncaught x) P := by
  intro left h
  rcases x with (_ | _) | _
  all_goals cases h

def AddsSymbols (state state' : TemplateState) : Prop :=
  ∃ symbols, state' = { state with issuedTokensSymbolsInThisBlock := symbols } ∧
    ∀ key, (state.issuedTokensSymbolsInThisBlock key).isSome → (symbols key).isSome

theorem checkIssuance_eq_ok
    (h : checkIssuance env node mapInputs state tx = .ok (inputsTxs, symbols)) :
    (inputsTxs = [] ∧ symbols = state.issuedTokensSymbolsInThisBlock ∧
        ∀ opRet, isTxBFXT env.toNodeEnv tx = some opRet →
          ∃ script, parseScript opRet = .ok script ∧ script.txType ≠ .issuance) ∨
      ∃ opRet script bfxttx, isTxBFXT env.toNodeEnv tx = some opRet ∧
        parseScript opRet = .ok script ∧ script.txType = .issuance ∧
        stdFetchedInputTxsToBFXT env (toReader env node.txdb) node.txdb.tokens.bfxtTxs
          state.mapQueuedBFXTInputs state.mapTestPool maxRecursion tx mapInputs = .ok inputsTxs ∧
        readBFXTDataFromTx env.toNodeEnv emptyBFXTTransaction tx inputsTxs = .ok bfxttx ∧
        assertBFXTTokenNameIsNotAlreadyInMainChain env node bfxttx = .ok () ∧
        noteSymbol state.issuedTokensSymbolsInThisBlock bfxttx = .ok symbols := by
  rw [checkIssuance] at h
  split at h
  · rename_i hplain
    cases h
    refine .inl ⟨rfl, rfl, fun opRet hopRet => ?_⟩
    rw [hplain] at hopRet
    cases hopRet
  rename_i opRet htoken
  obtain ⟨script, hscript, h⟩ := bind_eq_ok.mp h
  split at h
  · rename_i htype
    simp only [bind_eq_ok] at h
    obtain ⟨inputs, hinputs, bfxttx, hread, _, hassert, noted, hnote, h⟩ := h
    cases h
    exact .inr ⟨opRet, script, bfxttx, htoken, hscript, htype, hinputs, hread, hassert, hnote⟩
  rename_i htype
  cases h
  refine .inl ⟨rfl, rfl, fun other hother => ?_⟩
  obtain rfl := Option.mem_unique htoken hother
  exact ⟨script, hscript, htype⟩

theorem takeTransaction_next (h : takeTransaction env settings node coinbaseTime pindexPrev
      ancestors skipped tx state = .error (.next left)) : AddsSymbols state left := by
  have hself : AddsSymbols state state := ⟨_, rfl, fun _ hkey => hkey⟩
  revert h
  revert left
  show Leaves _ (AddsSymbols state)
  refine (leaves_skipIf hself).bind fun _ _ => ?_
  refine (leaves_skipIf hself).bind fun _ _ => ?_
  refine (leaves_skipIf hself).bind fun _ _ => ?_
  refine (leaves_skipIf hself).bind fun _ _ => ?_
  refine (leaves_orSkip hself _).bind fun mapInputs _ => ?_
  refine (leaves_uncaught _).bind fun _ _ => ?_
  refine (leaves_uncaught _).bind fun _ _ => ?_
  refine (leaves_skipIf hself).bind fun _ _ => ?_
  refine (leaves_uncaught _).bind fun _ _ => ?_
  refine (leaves_skipIf hself).bind fun _ _ => ?_
  refine (leaves_caught hself _).bind ?_
  rintro ⟨inputsTxs, symbols⟩ hissuance
  have hnoted : AddsSymbols state { state with issuedTokensSymbolsInThisBlock := symbols } := by
    refine ⟨symbols, rfl, fun key hkey => ?_⟩
    rcases checkIssuance_eq_ok (caught_eq_ok.mp hissuance) with
      ⟨-, rfl, -⟩ | ⟨_, _, _, -, -, -, -, -, -, hnote⟩
    · exact hkey
    · exact noteSymbol_eq_ok hnote hkey
  refine (leaves_orSkip hnoted _).bind fun _ _ => ?_
  intro left h
  cases h

end Skipped

section Queues

variable {pool : CTxMemPool} {queue queue' : Queue} {tx : CTransaction}

structure FromPool (pool : CTxMemPool) (queue : Queue) : Prop where
  ready : ∀ tx ∈ queue.ready, ∃ hash, (hash, tx) ∈ pool
  waiting : ∀ orphan ∈ queue.waiting, ∃ hash, (hash, orphan.1) ∈ pool

variable (h : FromPool pool queue)
include h

theorem FromPool.add (htx : ∃ hash, (hash, tx) ∈ pool)
    (hashes : List UInt256) : FromPool pool (queue.add tx hashes) := by
  rw [Queue.add]
  split
  · exact ⟨forall_mem_cons.mpr ⟨htx, h.ready⟩, h.waiting⟩
  · exact ⟨h.ready, forall_mem_cons.mpr ⟨htx, h.waiting⟩⟩

theorem FromPool.pop {place : Nat}
    (hpop : queue.pop place = some (tx, queue')) :
    (∃ hash, (hash, tx) ∈ pool) ∧ FromPool pool queue' := by
  obtain ⟨front, hfront, hpair⟩ := Option.map_eq_some_iff.mp hpop
  cases hpair
  refine ⟨h.ready _ (mem_of_getElem? hfront), fun other hother => ?_, h.waiting⟩
  exact h.ready other (mem_of_mem_eraseIdx hother)

theorem FromPool.release (hash : UInt256) :
    FromPool pool (queue.release hash) := by
  have herased : ∀ orphan ∈ queue.waiting.map fun orphan => (orphan.1, orphan.2.filter (· != hash)),
      ∃ hash, (hash, orphan.1) ∈ pool := by
    intro orphan horphan
    obtain ⟨waiting, hwaiting, rfl⟩ := mem_map.mp horphan
    exact h.waiting waiting hwaiting
  constructor
  · intro tx htx
    rcases mem_append.mp htx with htx | htx
    · exact h.ready tx htx
    · obtain ⟨orphan, horphan, rfl⟩ := mem_map.mp htx
      exact herased orphan (mem_filter.mp horphan).1
  · intro orphan horphan
    exact herased orphan (mem_filter.mp horphan).1

omit h

theorem fromPool_collect (hrest : rest ⊆ pool)
    (h : collect env settings txdb pool nHeight rest = .ok queue) : FromPool pool queue := by
  induction rest generalizing queue with
  | nil =>
    cases h
    exact ⟨nofun, nofun⟩
  | cons entry rest ih =>
    obtain ⟨hash, tx⟩ := entry
    obtain ⟨hentry, hrest⟩ := cons_subset.mp hrest
    rw [collect] at h
    split at h
    · exact ih hrest h
    obtain ⟨found, -, h⟩ := bind_eq_ok.mp h
    cases found with
    | none => exact ih hrest h
    | some hashes =>
      obtain ⟨_, -, h⟩ := bind_eq_ok.mp h
      obtain ⟨collected, hcollected, h⟩ := bind_eq_ok.mp h
      cases h
      exact (ih hrest hcollected).add ⟨hash, hentry⟩ hashes

theorem size_of_pop (hpop : queue.pop place = some (tx, queue')) :
    queue'.size + 1 = queue.size := by
  obtain ⟨front, hfront, hpair⟩ := Option.map_eq_some_iff.mp hpop
  cases hpair
  have hlt := (List.getElem?_eq_some_iff.mp hfront).1
  have hlength := length_eraseIdx_of_lt hlt
  rw [Queue.size, Queue.size, hlength]
  dsimp only
  omega

theorem size_release (hash : UInt256) : (queue.release hash).size = queue.size := by
  rw [Queue.size, Queue.size, Queue.release]
  dsimp only
  generalize hwaiting : queue.waiting.map (fun orphan => (orphan.1, orphan.2.filter (· != hash))) =
    waiting
  have hsplit := length_eq_length_filter_add (l := waiting) (·.2.isEmpty)
  have hlength : waiting.length = queue.waiting.length := by rw [← hwaiting, length_map]
  rw [length_append, length_map]
  omega

section Fuel

theorem fillBlock_of_empty (hready : queue.ready = []) (turn : Nat) (state : TemplateState) :
    fillBlock env settings node coinbaseTime pindexPrev ancestors fuel turn queue state =
      .ok ([], state) := by
  have hpop : ∀ place, queue.pop place = none := by
    intro place
    rw [Queue.pop, hready, List.getElem?_nil, Option.map_none]
  cases fuel with
  | zero => rw [fillBlock]
  | succ fuel => rw [fillBlock, hpop]

/-- The loop ends because the queue is empty: more fuel changes nothing. -/
theorem fillBlock_size_add (more turn : Nat) :
    fillBlock env settings node coinbaseTime pindexPrev ancestors (queue.size + more) turn queue =
      fillBlock env settings node coinbaseTime pindexPrev ancestors queue.size turn queue := by
  induction hsize : queue.size generalizing queue turn with
  | zero =>
    have hready : queue.ready = [] := by
      rw [Queue.size] at hsize
      exact eq_nil_of_length_eq_zero (by omega)
    funext state
    rw [fillBlock_of_empty hready, fillBlock_of_empty hready]
  | succ size ih =>
    funext state
    rw [Nat.succ_add, fillBlock, fillBlock]
    cases hpop : queue.pop (settings.picks turn).place with
    | none => rfl
    | some popped =>
      obtain ⟨tx, rest⟩ := popped
      have hrest : rest.size = size := by
        have := size_of_pop hpop
        omega
      have hreleased : (rest.release (env.getHash tx)).size = size := by
        rw [size_release, hrest]
      dsimp only
      rw [ih (turn + 1) hrest, ih (turn + 1) hreleased]

theorem goOn_eq_ok {skip take : TemplateState → Verdict (List CTransaction × TemplateState)}
    (h : goOn turn tx skip take = .ok (taken, final)) :
    (∃ left, turn = .error (.next left) ∧ skip left = .ok (taken, final)) ∨
      ∃ next later, turn = .ok next ∧ take next = .ok (later, final) ∧ taken = tx :: later := by
  rcases turn with (left | refusal) | next
  · exact .inl ⟨left, rfl, h⟩
  · cases h
  obtain ⟨⟨later, final'⟩, hlater, h⟩ := bind_eq_ok.mp h
  cases h
  exact .inr ⟨next, later, rfl, hlater, rfl⟩

theorem fillBlock_eq_ok (h : fillBlock env settings node coinbaseTime pindexPrev ancestors (fuel +
      1) turn queue state = .ok (taken, final)) :
    taken = [] ∨
      ∃ tx rest, queue.pop (settings.picks turn).place = some (tx, rest) ∧
        goOn (takeTransaction env settings node coinbaseTime pindexPrev ancestors
            (settings.picks turn).skipped tx state) tx
          (fillBlock env settings node coinbaseTime pindexPrev ancestors fuel (turn + 1) rest)
          (fillBlock env settings node coinbaseTime pindexPrev ancestors fuel (turn + 1)
            (rest.release (env.getHash tx))) = .ok (taken, final) := by
  rw [fillBlock] at h
  cases hpop : queue.pop (settings.picks turn).place with
  | none =>
    rw [hpop] at h
    cases h
    exact .inl rfl
  | some front =>
    rw [hpop] at h
    exact .inr ⟨front.1, front.2, rfl, h⟩

theorem mem_of_fillBlock (hqueue : FromPool pool queue) (h : fillBlock env settings node
      coinbaseTime pindexPrev ancestors fuel turn queue state = .ok (taken, final)) :
    ∀ tx ∈ taken, ∃ hash, (hash, tx) ∈ pool := by
  induction fuel generalizing turn queue state taken with
  | zero =>
    cases h
    exact nofun
  | succ fuel ih =>
    rcases fillBlock_eq_ok h with rfl | ⟨tx, rest, hpop, h⟩
    · exact nofun
    obtain ⟨htx, hrest⟩ := hqueue.pop hpop
    rcases goOn_eq_ok h with ⟨left, -, hleft⟩ | ⟨next, later, -, hlater, rfl⟩
    · exact ih hrest hleft
    · exact forall_mem_cons.mpr ⟨htx, ih (hrest.release _) hlater⟩

end Fuel

end Queues

end Bfx.BlockTemplate
