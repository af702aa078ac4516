import Bfx.NodeState

/-!
The protection against fake stakes, `VerifyInputsUnspent`: the main chain above
the common ancestor is taken back and the fork is replayed, both on a copy of the
entries of the transaction index that the fork and the block refer to.
-/

namespace Bfx.ForkVerification

open BlockTree CallOutcome ChainIndex Function List MintingBound NodeState Transaction

variable {tx : CTransaction} {prevouts : List COutPoint} {vtx : List CTransaction} {block : CBlock}
  {hash : UInt256}

section Model

variable {τ : Type} (env : ChainEnv) (memory : Memory) (txdb : NodeDb τ)

/-- The hashes of the blocks in the fork, the oldest first, and the common
ancestor. -/
def forkPart : IndexPtr → List UInt256 × IndexPtr
  | [] => ([], [])
  | entry :: pprev =>
    if isInMainChain memory (entry :: pprev) then ([], entry :: pprev)
    else ((forkPart pprev).1 ++ [entry.hashBlock], (forkPart pprev).2)

def getBlocksUpToCommonAncestorInMainChain (block : CBlock) :
    Outcome (List UInt256 × IndexPtr) :=
  match memory.mapBlockIndex block.hashPrevBlock with
  | some T => .ok (forkPart memory T)
  | none =>
    raise ("Failed to find target block " ++ block.hashPrevBlock.toHex ++ "in block index in " ++
      "CBlock::CommonAncestorSuccessorBlocks CBlock::GetBlocksUpToCommonAncestorInMainChain() const")

/-- The value of `__PRETTY_FUNCTION__`. -/
def inAlternateChain : String :=
  "CBlock::ChainReplaceTxs CBlock::GetAlternateChainTxsUpToCommonAncestor(CTxDB&) const"

def readForkBlock (bh : UInt256) : Outcome CBlock :=
  match txdb.blocks bh with
  | some blk => .ok blk
  | none =>
    raise ("In fork chain search, block " ++ bh.toHex ++ " was not found in the database")

/-- An entry that has been modified, or the one in the database. -/
def lookUp (modifiedOutputsTxs : UInt256 → Option CTxIndex) (hash : UInt256) : Option CTxIndex :=
  match modifiedOutputsTxs hash with
  | some txindex => some txindex
  | none => txdb.txIndex hash

def notInFork (hash : UInt256) (pass : String) : String :=
  inAlternateChain ++ ": ReadTxIndex failed for transaction " ++ hash.toHex ++
    " and the transaction was not found in the fork itself (" ++ pass ++ ")"

def spenderText (tx : CTransaction) (prevout : COutPoint) (spender : UInt256) : String :=
  inAlternateChain ++ ": The input of transaction " ++ (env.getHash tx).toHex ++ " whose index " ++
    toString prevout.n ++ " and hash " ++ prevout.hash.toHex ++ "is found to be in block " ++
    spender.toHex

/-- One input of the first pass: an output that is spent in the main chain above
the common ancestor is unspent. -/
def unspendInput (commonAncestor : IndexPtr) (forkTxs : UInt256 → Option CTransaction)
    (tx : CTransaction) (prevout : COutPoint) (modifiedOutputsTxs : UInt256 → Option CTxIndex) :
    Outcome (UInt256 → Option CTxIndex) :=
  match lookUp txdb modifiedOutputsTxs prevout.hash with
  | none =>
    if (forkTxs prevout.hash).isSome then .ok modifiedOutputsTxs
    else raise (notInFork prevout.hash "1")
  | some txindex =>
    match txindex.vSpent[prevout.n]? with
    | none =>
      raise (inAlternateChain ++ ": prevout.n out of range for transaction " ++
        prevout.hash.toHex ++ " and output " ++ toString prevout.n ++ " (1)")
    | some pos =>
      if pos.isNull then .ok modifiedOutputsTxs
      else
        match memory.mapBlockIndex pos.nBlockPos with
        | none =>
          raise (spenderText env tx prevout pos.nBlockPos ++
            " but that block is not found in the block index. This should never happen.")
        | some pindex =>
          if !isInMainChain memory pindex then
            raise (spenderText env tx prevout pos.nBlockPos ++
              " but while that block was found, it's not in the main chain")
          else if nHeight pindex > nHeight commonAncestor then
            .ok (update modifiedOutputsTxs prevout.hash
              (some { txindex with vSpent := txindex.vSpent.set prevout.n .null }))
          else .ok modifiedOutputsTxs

def unspendInputs (commonAncestor : IndexPtr) (forkTxs : UInt256 → Option CTransaction)
    (tx : CTransaction) :
    List COutPoint → (UInt256 → Option CTxIndex) → Outcome (UInt256 → Option CTxIndex)
  | [], modifiedOutputsTxs => .ok modifiedOutputsTxs
  | prevout :: prevouts, modifiedOutputsTxs =>
    unspendInput env memory txdb commonAncestor forkTxs tx prevout modifiedOutputsTxs >>=
      unspendInputs commonAncestor forkTxs tx prevouts

def unspendTxs (commonAncestor : IndexPtr) (forkTxs : UInt256 → Option CTransaction) :
    List CTransaction → (UInt256 → Option CTxIndex) → Outcome (UInt256 → Option CTxIndex)
  | [], modifiedOutputsTxs => .ok modifiedOutputsTxs
  | tx :: vtx, modifiedOutputsTxs =>
    unspendInputs env memory txdb commonAncestor forkTxs tx (spentBy tx) modifiedOutputsTxs >>=
      unspendTxs commonAncestor forkTxs vtx

def addForkTxs (forkTxs : UInt256 → Option CTransaction) (vtx : List CTransaction) :
    UInt256 → Option CTransaction :=
  vtx.foldl (fun forkTxs tx => update forkTxs (env.getHash tx) (some tx)) forkTxs

def unspendBlocks (commonAncestor : IndexPtr) :
    List CBlock → (UInt256 → Option CTransaction) → (UInt256 → Option CTxIndex) →
      Outcome ((UInt256 → Option CTransaction) × (UInt256 → Option CTxIndex))
  | [], forkTxs, modifiedOutputsTxs => .ok (forkTxs, modifiedOutputsTxs)
  | blk :: blocks, forkTxs, modifiedOutputsTxs =>
    unspendTxs env memory txdb commonAncestor (addForkTxs env forkTxs blk.vtx) blk.vtx
        modifiedOutputsTxs >>= fun modifiedOutputsTxs =>
      unspendBlocks commonAncestor blocks (addForkTxs env forkTxs blk.vtx) modifiedOutputsTxs

def createFakeSpentTxPos (blockhash : UInt256) : CDiskTxPos := ⟨blockhash, 1⟩

/-- The entry that an input of the second pass is spent in. -/
def forkIndex (blk : CBlock) (forkTxs : UInt256 → Option CTransaction)
    (modifiedOutputsTxs : UInt256 → Option CTxIndex) (hash : UInt256) : Outcome CTxIndex :=
  match lookUp txdb modifiedOutputsTxs hash with
  | some txindex => .ok txindex
  | none =>
    match forkTxs hash with
    | some txInFork => .ok (CTxIndex.new ⟨env.getBlockHash blk, 42⟩ txInFork.vout.length)
    | none => raise (notInFork hash "2")

/-- One input of the second pass. Whether the output is spent is not looked at. -/
def respendInput (blk : CBlock) (forkTxs : UInt256 → Option CTransaction) (prevout : COutPoint)
    (modifiedOutputsTxs : UInt256 → Option CTxIndex) : Outcome (UInt256 → Option CTxIndex) := do
  let txindex ← forkIndex env txdb blk forkTxs modifiedOutputsTxs prevout.hash
  if prevout.n ≥ txindex.vSpent.length then
    raise (inAlternateChain ++ ": prevout.n out of range for transaction " ++ prevout.hash.toHex ++
      " and output " ++ toString prevout.n)
  else
    .ok (update modifiedOutputsTxs prevout.hash
      (some { txindex with
        vSpent := txindex.vSpent.set prevout.n (createFakeSpentTxPos txindex.pos.nBlockPos) }))

def respendInputs (blk : CBlock) (forkTxs : UInt256 → Option CTransaction) :
    List COutPoint → (UInt256 → Option CTxIndex) → Outcome (UInt256 → Option CTxIndex)
  | [], modifiedOutputsTxs => .ok modifiedOutputsTxs
  | prevout :: prevouts, modifiedOutputsTxs =>
    respendInput env txdb blk forkTxs prevout modifiedOutputsTxs >>=
      respendInputs blk forkTxs prevouts

/-- The entry of a transaction is added if there is none yet. -/
def addEntry (tx : CTransaction) (pos : CDiskTxPos)
    (modifiedOutputsTxs : UInt256 → Option CTxIndex) : UInt256 → Option CTxIndex :=
  if (modifiedOutputsTxs (env.getHash tx)).isSome then modifiedOutputsTxs
  else update modifiedOutputsTxs (env.getHash tx) (some (CTxIndex.new pos tx.vout.length))

/-- A coinbase is passed over before its entry would be added. -/
def respendTxs (block blk : CBlock) (forkTxs : UInt256 → Option CTransaction) :
    List CTransaction → (UInt256 → Option CTxIndex) → Outcome (UInt256 → Option CTxIndex)
  | [], modifiedOutputsTxs => .ok modifiedOutputsTxs
  | tx :: vtx, modifiedOutputsTxs =>
    if isCoinBase tx then respendTxs block blk forkTxs vtx modifiedOutputsTxs
    else
      respendInputs env txdb blk forkTxs (spentBy tx) modifiedOutputsTxs >>=
        fun modifiedOutputsTxs =>
          respendTxs block blk forkTxs vtx
            (addEntry env tx ⟨env.getBlockHash block, 3⟩ modifiedOutputsTxs)

def respendBlocks (block : CBlock) (forkTxs : UInt256 → Option CTransaction) :
    List CBlock → (UInt256 → Option CTxIndex) → Outcome (UInt256 → Option CTxIndex)
  | [], modifiedOutputsTxs => .ok modifiedOutputsTxs
  | blk :: blocks, modifiedOutputsTxs =>
    respendTxs env txdb block blk forkTxs blk.vtx modifiedOutputsTxs >>=
      respendBlocks block forkTxs blocks

def getAlternateChainTxsUpToCommonAncestor (block : CBlock) :
    Outcome (UInt256 → Option CTxIndex) := do
  let (inFork, commonAncestor) ← getBlocksUpToCommonAncestorInMainChain memory block
  let forkChainBlocks ← inFork.mapM (readForkBlock txdb)
  let (forkTxs, modifiedOutputsTxs) ← unspendBlocks env memory txdb commonAncestor
    (forkChainBlocks ++ [block]) (fun _ => none) fun _ => none
  respendBlocks env txdb block forkTxs forkChainBlocks modifiedOutputsTxs

/-- The first words of the messages of the third pass. -/
def outputText (tx : CTransaction) (prevout : COutPoint) : String :=
  "Output number " ++ toString prevout.n ++ " in tx " ++ prevout.hash.toHex ++
    " which is an input to tx " ++ (env.getHash tx).toHex

def verifyInput (block : CBlock) (tx : CTransaction) (prevout : COutPoint)
    (queuedTxs : UInt256 → Option CTxIndex) : Verdict (UInt256 → Option CTxIndex) :=
  let spend (txindex : CTxIndex) := update queuedTxs prevout.hash
    (some { txindex with
      vSpent := txindex.vSpent.set prevout.n (createFakeSpentTxPos (env.getBlockHash block)) })
  match queuedTxs prevout.hash with
  | some txindex =>
    match txindex.vSpent[prevout.n]? with
    | none =>
      .error (.logged (outputText env tx prevout ++ " has an invalid input index in block " ++
        (env.getBlockHash block).toHex ++ " (1)"))
    | some pos =>
      if pos.isNull then .ok (spend txindex)
      else
        .error (.logged (outputText env tx prevout ++
          " is attempting to double-spend in the same block " ++
          (env.getBlockHash block).toHex))
  | none =>
    match txdb.txIndex prevout.hash with
    | some txindex =>
      match txindex.vSpent[prevout.n]? with
      | none =>
        .error (.logged (outputText env tx prevout ++
          " has an invalid input index in block " ++ (env.getBlockHash block).toHex ++ " (2)"))
      | some pos =>
        if pos.isNull then .ok (spend txindex)
        else
          .error (.logged (outputText env tx prevout ++ " is being spent it in block " ++
            (env.getBlockHash block).toHex ++ " +++++ it was already spent in block " ++
            pos.nBlockPos.toHex ++ ", this is a double-spend attempt"))
    | none =>
      .error (.logged (outputText env tx prevout ++
        " and is being attempted to spend it in block " ++ prevout.hash.toHex ++
        ". it's an invalid tx"))

def verifyInputs (block : CBlock) (tx : CTransaction) :
    List COutPoint → (UInt256 → Option CTxIndex) → Verdict (UInt256 → Option CTxIndex)
  | [], queuedTxs => .ok queuedTxs
  | prevout :: prevouts, queuedTxs =>
    verifyInput env txdb block tx prevout queuedTxs >>= verifyInputs block tx prevouts

def verifyTxs (block : CBlock) :
    List CTransaction → (UInt256 → Option CTxIndex) → Verdict (UInt256 → Option CTxIndex)
  | [], queuedTxs => .ok queuedTxs
  | tx :: vtx, queuedTxs =>
    verifyInputs env txdb block tx (spentBy tx)
        (addEntry env tx ⟨env.getBlockHash block, 2⟩ queuedTxs) >>=
      verifyTxs block vtx

def verifyInputsUnspent (block : CBlock) : Verdict Unit :=
  match getAlternateChainTxsUpToCommonAncestor env memory txdb block with
  | .error (.thrown what) =>
    .error (.logged ("Failed to verify unspent inputs for block " ++
      (env.getBlockHash block).toHex ++ "; error: " ++ what))
  | .error (.outOfBounds storage) => .error (.outOfBounds storage)
  | .ok queuedTxs => do
    let _ ← verifyTxs env txdb block block.vtx queuedTxs
    .ok ()

end Model

def inputsOf (vtx : List CTransaction) : List COutPoint := vtx.flatMap spentBy

section FirstPass

variable {τ : Type} {env : ChainEnv} {memory : Memory} {txdb : NodeDb τ}

def isAbove (memory : Memory) (commonAncestor : IndexPtr) (pos : CDiskTxPos) : Bool :=
  !pos.isNull && (memory.mapBlockIndex pos.nBlockPos).any fun pindex =>
    nHeight pindex > nHeight commonAncestor

/-- The spent positions of an entry, where those of some outputs are cleared if
they are above the common ancestor. -/
def clearAbove (memory : Memory) (commonAncestor : IndexPtr) (cleared : List COutPoint)
    (hash : UInt256) (vSpent : List CDiskTxPos) : List CDiskTxPos :=
  vSpent.mapIdx fun n pos =>
    if ⟨hash, n⟩ ∈ cleared ∧ isAbove memory commonAncestor pos then .null else pos

/-- What the first pass has made of the index. -/
structure Unspends (memory : Memory) (txdb : NodeDb τ) (commonAncestor : IndexPtr)
    (cleared : List COutPoint) (modifiedOutputsTxs : UInt256 → Option CTxIndex) : Prop where
  eq_clear : ∀ hash, lookUp txdb modifiedOutputsTxs hash = (txdb.txIndex hash).map fun txindex =>
    { txindex with vSpent := clearAbove memory commonAncestor cleared hash txindex.vSpent }
  unmodified : ∀ hash, modifiedOutputsTxs hash = none → ∀ txindex, txdb.txIndex hash = some txindex →
    clearAbove memory commonAncestor cleared hash txindex.vSpent = txindex.vSpent

/-- Every spent position in the index is in a block of the main chain. -/
def SpentInMainChain (memory : Memory) (txdb : NodeDb τ) : Prop :=
  ∀ hash txindex, txdb.txIndex hash = some txindex → ∀ pos ∈ txindex.vSpent, pos.isNull = false →
    ∃ pindex, memory.mapBlockIndex pos.nBlockPos = some pindex ∧ isInMainChain memory pindex = true

variable (lca : IndexPtr)
include lca

theorem getElem?_clearAbove (cleared : List COutPoint) (hash : UInt256)
    (vSpent : List CDiskTxPos) (n : Nat) :
    (clearAbove memory lca cleared hash vSpent)[n]? = vSpent[n]?.map fun pos =>
      if ⟨hash, n⟩ ∈ cleared ∧ isAbove memory lca pos then .null else pos :=
  List.getElem?_mapIdx

theorem Unspends.nil : Unspends memory txdb lca [] fun _ => none := by
  have hclear : ∀ hash vSpent, clearAbove memory lca [] hash vSpent = vSpent := by
    intro hash vSpent
    apply ext_getElem?
    intro n
    rw [getElem?_clearAbove]
    simp
  refine ⟨fun hash => ?_, fun hash _ txindex _ => hclear _ _⟩
  simp only [hclear]
  exact Option.map_id'.symm

theorem isAbove_null :
    isAbove memory lca .null = false := rfl

omit lca

section Concat

variable {lca : IndexPtr} {cleared : List COutPoint}

theorem clearAbove_concat_of_ne (hne : hash ≠ prevout.hash)
    (vSpent : List CDiskTxPos) :
    clearAbove memory lca (cleared ++ [prevout]) hash vSpent =
      clearAbove memory lca cleared hash vSpent := by
  apply ext_getElem?
  intro n
  have hcoin : (⟨hash, n⟩ : COutPoint) ≠ prevout := by
    rintro rfl
    exact hne rfl
  rw [getElem?_clearAbove, getElem?_clearAbove]
  simp only [mem_append, mem_singleton, or_iff_left hcoin]

/-- An output that is not spent above the common ancestor is left as it is. -/
theorem clearAbove_concat_of_not_above (hpos : ∀ pos, (clearAbove memory lca cleared
      prevout.hash vSpent)[prevout.n]? = some pos → isAbove memory lca pos = false) :
    clearAbove memory lca (cleared ++ [prevout]) prevout.hash vSpent =
      clearAbove memory lca cleared prevout.hash vSpent := by
  apply ext_getElem?
  intro n
  rw [getElem?_clearAbove, getElem?_clearAbove]
  rcases eq_or_ne (⟨prevout.hash, n⟩ : COutPoint) prevout with heq | hne
  · rw [getElem?_clearAbove] at hpos
    cases hslot : vSpent[n]? with
    | none => rfl
    | some pos =>
      have hn : n = prevout.n := congrArg COutPoint.n heq
      rw [← hn, hslot, heq] at hpos
      have hpos := hpos _ rfl
      dsimp only at hpos
      rw [Option.map_some, Option.map_some, heq]
      split at hpos
      · rename_i hcleared
        rw [if_pos hcleared, if_pos ⟨mem_append_left _ hcleared.1, hcleared.2⟩]
      rename_i hcleared
      rw [if_neg hcleared, if_neg]
      rintro ⟨-, habove⟩
      rw [hpos] at habove
      cases habove
  · simp only [mem_append, mem_singleton, or_iff_left hne]

theorem clearAbove_concat_of_above (hslot : (clearAbove memory lca cleared prevout.hash
      vSpent)[prevout.n]? = some pos) (habove : isAbove memory lca pos = true) :
    clearAbove memory lca (cleared ++ [prevout]) prevout.hash vSpent =
      (clearAbove memory lca cleared prevout.hash vSpent).set prevout.n .null := by
  apply ext_getElem?
  intro n
  rcases eq_or_ne prevout.n n with rfl | hne
  · have hlt := (List.getElem?_eq_some_iff.mp hslot).1
    rw [List.getElem?_set_self hlt, getElem?_clearAbove]
    rw [getElem?_clearAbove] at hslot
    obtain ⟨old, hold, hvalue⟩ := Option.map_eq_some_iff.mp hslot
    split at hvalue
    · rw [← hvalue, isAbove_null] at habove
      cases habove
    · rw [hold, Option.map_some, hvalue, if_pos ⟨mem_append_right _ mem_cons_self, habove⟩]
  have hcoin : (⟨prevout.hash, n⟩ : COutPoint) ≠ prevout := by
    intro heq
    exact hne (congrArg COutPoint.n heq).symm
  rw [List.getElem?_set_ne hne, getElem?_clearAbove, getElem?_clearAbove]
  simp only [mem_append, mem_singleton, or_iff_left hcoin]

variable {copy : UInt256 → Option CTxIndex}

variable (h : Unspends memory txdb lca cleared copy)
include h

theorem Unspends.concat_of_not_above
    (hpos : ∀ txindex, lookUp txdb copy prevout.hash = some txindex →
      ∀ pos, txindex.vSpent[prevout.n]? = some pos → isAbove memory lca pos = false) :
    Unspends memory txdb lca (cleared ++ [prevout]) copy := by
  have hsame : ∀ hash txindex, txdb.txIndex hash = some txindex →
      clearAbove memory lca (cleared ++ [prevout]) hash txindex.vSpent =
        clearAbove memory lca cleared hash txindex.vSpent := by
    intro hash txindex hindex
    rcases eq_or_ne hash prevout.hash with rfl | hne
    · refine clearAbove_concat_of_not_above ?_
      have hlookup := h.eq_clear prevout.hash
      rw [hindex, Option.map_some] at hlookup
      exact hpos _ hlookup
    · exact clearAbove_concat_of_ne hne _
  constructor
  · intro hash
    rw [h.eq_clear hash]
    cases hindex : txdb.txIndex hash with
    | none => rfl
    | some txindex => rw [Option.map_some, Option.map_some, hsame hash txindex hindex]
  intro hash hnone txindex hindex
  rw [hsame hash txindex hindex]
  exact h.unmodified hash hnone txindex hindex

/-- The output is cleared in a copy of the entry. -/
theorem Unspends.concat_of_above (hlookup : lookUp txdb copy prevout.hash = some txindex)
    (hslot : txindex.vSpent[prevout.n]? = some pos) (habove : isAbove memory lca pos = true) :
    Unspends memory txdb lca (cleared ++ [prevout])
      (update copy prevout.hash
        (some { txindex with vSpent := txindex.vSpent.set prevout.n .null })) := by
  have hlookup' := h.eq_clear prevout.hash
  rw [hlookup] at hlookup'
  obtain ⟨old, hold, hcopy⟩ := Option.map_eq_some_iff.mp hlookup'.symm
  constructor
  · intro hash
    rcases eq_or_ne hash prevout.hash with rfl | hne
    · rw [lookUp, update_self, hold, Option.map_some, ← hcopy]
      rw [← hcopy] at hslot
      rw [clearAbove_concat_of_above hslot habove]
    have hsame := h.eq_clear hash
    rw [lookUp, update_of_ne hne]
    rw [lookUp] at hsame
    rw [hsame]
    simp only [clearAbove_concat_of_ne hne]
  intro hash hnone other hother
  rcases eq_or_ne hash prevout.hash with rfl | hne
  · rw [update_self] at hnone
    cases hnone
  rw [update_of_ne hne] at hnone
  rw [clearAbove_concat_of_ne hne]
  exact h.unmodified hash hnone other hother

omit h

end Concat

section Steps

variable {lca : IndexPtr} {cleared : List COutPoint}
  {forkTxs : UInt256 → Option CTransaction} {copy modified : UInt256 → Option CTxIndex}

theorem isAbove_of_main {pos : CDiskTxPos} {pindex : IndexPtr} (hpos : pos.isNull = false)
    (hpindex : memory.mapBlockIndex pos.nBlockPos = some pindex) :
    isAbove memory lca pos = decide (nHeight pindex > nHeight lca) := by
  rw [isAbove, hpos, hpindex]
  rfl

/-- The output is there, in the index or in the fork. -/
def Resolves (txdb : NodeDb τ) (forkTxs : UInt256 → Option CTransaction) (prevout : COutPoint) :
    Prop :=
  match txdb.txIndex prevout.hash with
  | some txindex => prevout.n < txindex.vSpent.length
  | none => (forkTxs prevout.hash).isSome

/-- The inputs of every block resolve when its own transactions have been added
to the fork. -/
def BlocksResolve (env : ChainEnv) (txdb : NodeDb τ) :
    (UInt256 → Option CTransaction) → List CBlock → Prop
  | _, [] => True
  | forkTxs, blk :: blocks =>
    (∀ prevout ∈ inputsOf blk.vtx, Resolves txdb (addForkTxs env forkTxs blk.vtx) prevout) ∧
      BlocksResolve env txdb (addForkTxs env forkTxs blk.vtx) blocks

variable (hmain : SpentInMainChain memory txdb) (h : Unspends memory txdb lca cleared copy)
include hmain h

theorem Unspends.input (tx : CTransaction) (prevout : COutPoint) :
    ReturnsWhen (Resolves txdb forkTxs prevout)
      (unspendInput env memory txdb lca forkTxs tx prevout copy)
      (Unspends memory txdb lca (cleared ++ [prevout])) := by
  have hclear := h.eq_clear prevout.hash
  rw [unspendInput, Resolves]
  cases hlookup : lookUp txdb copy prevout.hash with
  | none =>
    rw [hlookup] at hclear
    rw [Option.map_eq_none_iff.mp hclear.symm]
    dsimp only
    split
    · refine h.concat_of_not_above fun txindex hsome => ?_
      rw [hlookup] at hsome
      cases hsome
    · assumption
  | some txindex =>
    rw [hlookup] at hclear
    obtain ⟨old, hold, rfl⟩ := Option.map_eq_some_iff.mp hclear.symm
    rw [hold]
    dsimp only
    cases hslot : (clearAbove memory lca cleared prevout.hash old.vSpent)[prevout.n]? with
    | none =>
      have hlength := List.getElem?_eq_none_iff.mp hslot
      rw [clearAbove, length_mapIdx] at hlength
      exact Nat.not_lt.mpr hlength
    | some pos =>
      have hnotAbove : isAbove memory lca pos = false →
          Unspends memory txdb lca (cleared ++ [prevout]) copy := by
        intro hpos
        refine h.concat_of_not_above fun txindex hsome pos' hslot' => ?_
        obtain rfl := Option.mem_unique hlookup hsome
        obtain rfl := Option.mem_unique hslot hslot'
        exact hpos
      dsimp only
      split
      · rename_i hnull
        refine hnotAbove ?_
        rw [isAbove, hnull]
        rfl
      rename_i hspent
      rw [Bool.not_eq_true] at hspent
      have hpos : pos ∈ old.vSpent := by
        rw [getElem?_clearAbove] at hslot
        obtain ⟨oldPos, holdPos, hvalue⟩ := Option.map_eq_some_iff.mp hslot
        split at hvalue
        · rw [← hvalue] at hspent
          cases hspent
        · exact hvalue ▸ mem_of_getElem? holdPos
      obtain ⟨pindex, hpindex, hchain⟩ := hmain _ _ hold _ hpos hspent
      have habove := @isAbove_of_main memory lca pos pindex hspent hpindex
      rw [hpindex]
      dsimp only
      rw [hchain, Bool.not_true, if_neg Bool.false_ne_true]
      split
      · rename_i hheight
        exact h.concat_of_above hlookup hslot (habove.trans (decide_eq_true hheight))
      · rename_i hheight
        exact hnotAbove (habove.trans (decide_eq_false hheight))

theorem Unspends.inputs (tx : CTransaction) (prevouts : List COutPoint) :
    ReturnsWhen (∀ prevout ∈ prevouts, Resolves txdb forkTxs prevout)
      (unspendInputs env memory txdb lca forkTxs tx prevouts copy)
      (Unspends memory txdb lca (cleared ++ prevouts)) := by
  induction prevouts generalizing cleared copy with
  | nil =>
    rw [append_nil]
    exact h
  | cons prevout prevouts ih =>
    rw [forall_mem_cons, append_cons]
    exact (h.input hmain tx prevout).bind fun next => ih

theorem Unspends.txs (vtx : List CTransaction) :
    ReturnsWhen (∀ prevout ∈ inputsOf vtx, Resolves txdb forkTxs prevout)
      (unspendTxs env memory txdb lca forkTxs vtx copy)
      (Unspends memory txdb lca (cleared ++ inputsOf vtx)) := by
  induction vtx generalizing cleared copy with
  | nil =>
    rw [inputsOf, flatMap_nil, append_nil]
    exact h
  | cons tx vtx ih =>
    rw [inputsOf, flatMap_cons, forall_mem_append, ← append_assoc]
    exact (h.inputs hmain tx _).bind fun next => ih

theorem Unspends.blocks (blocks : List CBlock) :
    ReturnsWhen (BlocksResolve env txdb forkTxs blocks)
      (unspendBlocks env memory txdb lca blocks forkTxs copy) fun result =>
        result.1 = addForkTxs env forkTxs (blocks.flatMap (·.vtx)) ∧
          Unspends memory txdb lca (cleared ++ inputsOf (blocks.flatMap (·.vtx))) result.2 := by
  induction blocks generalizing cleared forkTxs copy with
  | nil =>
    rw [flatMap_nil, inputsOf, flatMap_nil, append_nil]
    exact ⟨rfl, h⟩
  | cons blk blocks ih =>
    rw [flatMap_cons, inputsOf, flatMap_append, ← append_assoc, addForkTxs, foldl_append]
    exact (h.txs hmain blk.vtx).bind fun next => ih

omit hmain h

theorem addForkTxs_eq_some (h : addForkTxs env forkTxs vtx hash = some tx) :
    (tx ∈ vtx ∧ env.getHash tx = hash) ∨ forkTxs hash = some tx := by
  induction vtx generalizing forkTxs with
  | nil => exact .inr h
  | cons first vtx ih =>
    rcases ih h with ⟨hmem, hhash⟩ | hold
    · exact .inl ⟨mem_cons_of_mem _ hmem, hhash⟩
    dsimp only at hold
    rcases eq_or_ne hash (env.getHash first) with rfl | hne
    · rw [update_self] at hold
      cases hold
      exact .inl ⟨mem_cons_self, rfl⟩
    · rw [update_of_ne hne] at hold
      exact .inr hold

theorem addForkTxs_isSome
    (h : (∃ tx ∈ vtx, env.getHash tx = hash) ∨ (forkTxs hash).isSome) :
    (addForkTxs env forkTxs vtx hash).isSome := by
  induction vtx generalizing forkTxs with
  | nil =>
    rcases h with ⟨tx, hmem, -⟩ | h
    · cases hmem
    · exact h
  | cons first vtx ih =>
    refine ih ?_
    dsimp only
    rcases eq_or_ne hash (env.getHash first) with rfl | hne
    · right
      rw [update_self]
      rfl
    rw [update_of_ne hne]
    refine h.imp ?_ id
    rintro ⟨tx, hmem, rfl⟩
    rcases mem_cons.mp hmem with rfl | hmem
    · exact absurd rfl hne
    · exact ⟨tx, hmem, rfl⟩

end Steps

end FirstPass

section Replay

variable {τ : Type} {env : ChainEnv} {txdb : NodeDb τ}

/-- The copy of the index while the fork and then the block are replayed.
`transactions` are all those of the two chains, `common` the outputs that are
spent up to the common ancestor, `referenced` those that the fork and the block
spend, and `spent` those that they have spent so far. -/
structure Replays (env : ChainEnv) (txdb : NodeDb τ) (transactions : List CTransaction)
    (common referenced spent : List COutPoint)
    (modifiedOutputsTxs : UInt256 → Option CTxIndex) : Prop where
  size : ∀ hash txindex, lookUp txdb modifiedOutputsTxs hash = some txindex →
    ∀ tx ∈ transactions, env.getHash tx = hash → txindex.vSpent.length = tx.vout.length
  free : ∀ prevout ∈ referenced, ∀ txindex pos,
    lookUp txdb modifiedOutputsTxs prevout.hash = some txindex →
      txindex.vSpent[prevout.n]? = some pos →
        (pos.isNull = true ↔ prevout ∉ common ∧ prevout ∉ spent)
  touched : ∀ prevout ∈ spent, (modifiedOutputsTxs prevout.hash).isSome

variable {transactions : List CTransaction} {common referenced spent : List COutPoint}
  {copy : UInt256 → Option CTxIndex}

theorem lookUp_update_self (hash : UInt256) (txindex : CTxIndex) :
    lookUp txdb (update copy hash (some txindex)) hash = some txindex := by
  rw [lookUp, update_self]

theorem lookUp_update_of_ne {hash other : UInt256} (hne : other ≠ hash)
    (txindex : Option CTxIndex) :
    lookUp txdb (update copy hash txindex) other =
      lookUp txdb copy other := by
  rw [lookUp, lookUp, update_of_ne hne]

theorem lookUp_update_eq_some {hash other : UInt256}
    (h : lookUp txdb (update copy hash (some txindex)) other = some found) :
    (other = hash ∧ txindex = found) ∨ (other ≠ hash ∧ lookUp txdb copy other = some found) := by
  rcases eq_or_ne other hash with rfl | hne
  · exact .inl ⟨rfl, Option.mem_unique (lookUp_update_self _ _) h⟩
  · exact .inr ⟨hne, (lookUp_update_of_ne hne _).symm.trans h⟩

theorem isSome_update {hash other : UInt256} (h : (copy other).isSome) :
    (update copy hash (some txindex) other).isSome := by
  rcases eq_or_ne other hash with rfl | hne
  · rw [update_self]
    rfl
  · rwa [update_of_ne hne]

variable (h : Replays env txdb transactions common referenced spent copy)
include h

theorem Replays.add
    (hcollision : ∀ tx ∈ transactions, ∀ tx' ∈ transactions, env.getHash tx = env.getHash tx' →
      tx = tx') (htx : tx ∈ transactions) (hnone : copy (env.getHash tx) = none)
    (hcommon : ∀ prevout ∈ common, prevout.hash ≠ env.getHash tx) (pos : CDiskTxPos) :
    Replays env txdb transactions common referenced spent
      (update copy (env.getHash tx)
        (some (CTxIndex.new pos tx.vout.length))) := by
  constructor
  · intro hash txindex hlookup other hother hhash
    rcases lookUp_update_eq_some hlookup with ⟨rfl, rfl⟩ | ⟨-, hlookup⟩
    · rw [hcollision other hother tx htx hhash]
      exact length_replicate
    · exact h.size hash txindex hlookup other hother hhash
  · intro prevout hprevout txindex slot hlookup hslot
    rcases lookUp_update_eq_some hlookup with ⟨heq, rfl⟩ | ⟨-, hlookup⟩
    · obtain ⟨hlt, hslot⟩ := List.getElem?_eq_some_iff.mp hslot
      rw [← hslot]
      refine iff_of_true ?_ ⟨fun hmem => hcommon prevout hmem heq, fun hmem => ?_⟩
      · simp [CTxIndex.new, CDiskTxPos.null, CDiskTxPos.isNull]
      have hsome := h.touched prevout hmem
      rw [heq, hnone] at hsome
      cases hsome
    · exact h.free prevout hprevout txindex slot hlookup hslot
  · intro prevout hprevout
    exact isSome_update (h.touched prevout hprevout)

theorem Replays.spend {prevout : COutPoint} {txindex : CTxIndex} {pos : CDiskTxPos}
    (hpos : pos.isNull = false) (hlookup : lookUp txdb copy prevout.hash = some txindex) :
    Replays env txdb transactions common referenced (spent ++ [prevout])
      (update copy prevout.hash
        (some { txindex with vSpent := txindex.vSpent.set prevout.n pos })) := by
  constructor
  · intro hash other hother tx htx hhash
    rcases lookUp_update_eq_some hother with ⟨rfl, rfl⟩ | ⟨-, hother⟩
    · rw [← h.size _ txindex hlookup tx htx hhash]
      exact length_set
    · exact h.size hash other hother tx htx hhash
  · intro coin hcoin other slot hother hslot
    have hmem : coin ≠ prevout → (coin ∈ spent ++ [prevout] ↔ coin ∈ spent) := by
      intro hne
      rw [mem_append, mem_singleton]
      exact or_iff_left hne
    rcases lookUp_update_eq_some hother with ⟨heq, rfl⟩ | ⟨hne, hother⟩
    · dsimp only at hslot
      by_cases hn : prevout.n = coin.n
      · have hsame : coin = prevout := by
          cases coin
          cases prevout
          cases heq
          cases hn
          rfl
        rw [hn] at hslot
        obtain ⟨hlt, hslot⟩ := List.getElem?_eq_some_iff.mp hslot
        rw [getElem_set_self] at hslot
        rw [← hslot, hpos, hsame]
        refine iff_of_false Bool.false_ne_true ?_
        rintro ⟨-, hnot⟩
        exact hnot (mem_append_right _ mem_cons_self)
      rw [List.getElem?_set_ne hn] at hslot
      rw [hmem fun h => hn (h ▸ rfl)]
      exact h.free coin hcoin txindex slot (heq ▸ hlookup) hslot
    · rw [hmem fun h => hne (h ▸ rfl)]
      exact h.free coin hcoin other slot hother hslot
  intro coin hcoin
  rcases mem_append.mp hcoin with hcoin | hcoin
  · exact isSome_update (h.touched coin hcoin)
  · rw [mem_singleton.mp hcoin, update_self]
    rfl

omit h

section Passes

def Creates (env : ChainEnv) (tx : CTransaction) (prevout : COutPoint) : Prop :=
  env.getHash tx = prevout.hash ∧ prevout.n < tx.vout.length

/-- A transaction none of whose outputs is spent up to the common ancestor. -/
def IsNew (env : ChainEnv) (transactions : List CTransaction) (common : List COutPoint)
    (tx : CTransaction) : Prop :=
  tx ∈ transactions ∧ ∀ prevout ∈ common, prevout.hash ≠ env.getHash tx

/-- One id, one transaction. -/
def NoCollision (env : ChainEnv) (transactions : List CTransaction) : Prop :=
  ∀ tx ∈ transactions, ∀ tx' ∈ transactions, env.getHash tx = env.getHash tx' → tx = tx'

variable {forkTxs : UInt256 → Option CTransaction}

theorem lookUp_eq_none : lookUp txdb copy hash = none ↔
    copy hash = none ∧ txdb.txIndex hash = none := by
  rw [lookUp]
  cases copy hash <;> simp

theorem isSome_lookUp_update {hash other : UInt256} :
    (lookUp txdb (update copy hash (some txindex)) other).isSome ↔
      (lookUp txdb copy other).isSome ∨ other = hash := by
  rcases eq_or_ne other hash with rfl | hne
  · rw [lookUp_update_self]
    exact iff_of_true rfl (.inr rfl)
  · rw [lookUp_update_of_ne hne]
    exact (or_iff_left hne).symm

theorem Replays.addEntry (h : Replays env txdb transactions common referenced spent copy)
    (hcollision : NoCollision env transactions) (hnew : IsNew env transactions common tx)
    (pos : CDiskTxPos) :
    Replays env txdb transactions common referenced spent
        (addEntry env tx pos copy) ∧
      ∀ hash, (lookUp txdb (addEntry env tx pos copy) hash).isSome ↔
        (lookUp txdb copy hash).isSome ∨ hash = env.getHash tx := by
  unfold ForkVerification.addEntry
  split
  · rename_i hsome
    refine ⟨h, fun hash => (or_iff_left_of_imp ?_).symm⟩
    rintro rfl
    obtain ⟨txindex, htxindex⟩ := Option.isSome_iff_exists.mp hsome
    rw [lookUp, htxindex]
    rfl
  rename_i hnone
  rw [Bool.not_eq_true, Option.isSome_eq_false_iff, Option.isNone_iff_eq_none] at hnone
  exact ⟨h.add hcollision hnew.1 hnone hnew.2 pos, fun hash => isSome_lookUp_update⟩

/-- An output that is in the index or in the fork, of a known transaction. -/
def Reaches (env : ChainEnv) (txdb : NodeDb τ) (transactions : List CTransaction)
    (forkTxs : UInt256 → Option CTransaction) (prevout : COutPoint) : Prop :=
  ((txdb.txIndex prevout.hash).isSome ∨ (forkTxs prevout.hash).isSome) ∧
    ∃ tx ∈ transactions, Creates env tx prevout

def ForkIsNew (env : ChainEnv) (transactions : List CTransaction) (common : List COutPoint)
    (forkTxs : UInt256 → Option CTransaction) : Prop :=
  ∀ hash tx, forkTxs hash = some tx → IsNew env transactions common tx ∧ env.getHash tx = hash

/-- The hashes for which the second pass has an entry: those of the transactions
that are not coinbases, and those of the outputs that are spent. -/
def Stored (env : ChainEnv) (vtx : List CTransaction) (hash : UInt256) : Prop :=
  (∃ tx ∈ vtx, isCoinBase tx = false ∧ env.getHash tx = hash) ∨
    ∃ prevout ∈ inputsOf vtx, prevout.hash = hash

theorem stored_append (vtx vtx' : List CTransaction) (hash : UInt256) :
    Stored env (vtx ++ vtx') hash ↔ Stored env vtx hash ∨ Stored env vtx' hash := by
  simp only [Stored, inputsOf, flatMap_append, mem_append, or_and_right, exists_or]
  exact or_or_or_comm

variable (h : Replays env txdb transactions common referenced spent copy)
  (hcollision : NoCollision env transactions)
  (hfork : ForkIsNew env transactions common forkTxs)
include h hcollision hfork

theorem Replays.respendInput (blk : CBlock)
    (hreaches : Reaches env txdb transactions forkTxs prevout) :
    Returns (respendInput env txdb blk forkTxs prevout copy) fun modified =>
      Replays env txdb transactions common referenced (spent ++ [prevout]) modified ∧
        ∀ hash, (lookUp txdb modified hash).isSome ↔
          (lookUp txdb copy hash).isSome ∨ hash = prevout.hash := by
  obtain ⟨hfound, tx, htx, hhash, hlt⟩ := hreaches
  rw [ForkVerification.respendInput, forkIndex]
  cases hlookup : lookUp txdb copy prevout.hash with
  | some txindex =>
    rw [← h.size _ _ hlookup tx htx hhash] at hlt
    rw [ok_bind, if_neg (Nat.not_le.mpr hlt)]
    exact returns_ok ⟨h.spend rfl hlookup, fun hash => isSome_lookUp_update⟩
  | none =>
    have hnone := lookUp_eq_none.mp hlookup
    rw [hnone.2] at hfound
    obtain ⟨tx', htx'⟩ := Option.isSome_iff_exists.mp (hfound.resolve_left Bool.false_ne_true)
    obtain ⟨hnew, hhash'⟩ := hfork _ _ htx'
    have hadd := h.add hcollision hnew.1 (hhash'.symm ▸ hnone.1) hnew.2 ⟨env.getBlockHash blk, 42⟩
    rw [hhash'] at hadd
    have hspend := @Replays.spend τ env txdb _ _ _ _ _ hadd prevout _
      (createFakeSpentTxPos (env.getBlockHash blk)) rfl (lookUp_update_self _ _)
    rw [update_idem] at hspend
    rw [← hcollision tx' hnew.1 tx htx (hhash'.trans hhash.symm)] at hlt
    have hrange : prevout.n <
        (CTxIndex.new ⟨env.getBlockHash blk, 42⟩ tx'.vout.length).vSpent.length :=
      hlt.trans_eq length_replicate.symm
    rw [htx', ok_bind, if_neg (Nat.not_le.mpr hrange)]
    exact returns_ok ⟨hspend, fun hash => isSome_lookUp_update⟩

theorem Replays.respendInputs (blk : CBlock)
    (hreaches : ∀ prevout ∈ prevouts, Reaches env txdb transactions forkTxs prevout) :
    Returns (respendInputs env txdb blk forkTxs prevouts copy) fun modified =>
      Replays env txdb transactions common referenced (spent ++ prevouts) modified ∧
        ∀ hash, (lookUp txdb modified hash).isSome ↔
          (lookUp txdb copy hash).isSome ∨
            ∃ prevout ∈ prevouts, prevout.hash = hash := by
  induction prevouts generalizing spent copy with
  | nil =>
    rw [append_nil]
    exact returns_ok ⟨h, by simp⟩
  | cons prevout prevouts ih =>
    obtain ⟨hfirst, hrest⟩ := forall_mem_cons.mp hreaches
    refine (h.respendInput hcollision hfork blk hfirst).bind fun next ⟨hinput, hfound⟩ => ?_
    refine (ih hinput hrest).mono fun modified ⟨hreplays, hfounds⟩ => ?_
    rw [append_assoc] at hreplays
    refine ⟨hreplays, fun hash => ?_⟩
    rw [hfounds, hfound, or_assoc, exists_mem_cons_iff, @eq_comm _ prevout.hash hash]

theorem Replays.respendTxs (block blk : CBlock)
    (hnew : ∀ tx ∈ vtx, IsNew env transactions common tx)
    (hreaches : ∀ prevout ∈ inputsOf vtx, Reaches env txdb transactions forkTxs prevout) :
    Returns (respendTxs env txdb block blk forkTxs vtx copy) fun modified =>
      Replays env txdb transactions common referenced (spent ++ inputsOf vtx) modified ∧
        ∀ hash, (lookUp txdb modified hash).isSome ↔
          (lookUp txdb copy hash).isSome ∨ Stored env vtx hash := by
  induction vtx generalizing spent copy with
  | nil =>
    rw [inputsOf, flatMap_nil, append_nil]
    exact returns_ok ⟨h, by simp [Stored, inputsOf]⟩
  | cons tx vtx ih =>
    obtain ⟨hfirst, hrest⟩ := forall_mem_cons.mp hnew
    obtain ⟨hinputs, hlater⟩ := forall_mem_append.mp hreaches
    have happend : tx :: vtx = [tx] ++ vtx := rfl
    rw [ForkVerification.respendTxs]
    split
    · rename_i hcoinbase
      have hspent : spentBy tx = [] := if_pos hcoinbase
      rw [inputsOf, flatMap_cons, hspent, nil_append]
      refine (ih h hrest hlater).mono fun modified ⟨hreplays, hfounds⟩ => ⟨hreplays, fun hash => ?_⟩
      have hnothing : ¬ Stored env [tx] hash := by simp [Stored, inputsOf, hspent, hcoinbase]
      rw [hfounds, happend, stored_append, or_iff_right hnothing]
    rename_i hcoinbase
    rw [Bool.not_eq_true] at hcoinbase
    refine (h.respendInputs hcollision hfork blk hinputs).bind fun next ⟨hinputs, hfound⟩ => ?_
    obtain ⟨hadd, hadded⟩ := hinputs.addEntry hcollision hfirst ⟨env.getBlockHash block, 3⟩
    refine (ih hadd hrest hlater).mono fun modified ⟨hreplays, hfounds⟩ => ?_
    rw [append_assoc] at hreplays
    refine ⟨hreplays, fun hash => ?_⟩
    have hstored : Stored env [tx] hash ↔
        (∃ prevout ∈ spentBy tx, prevout.hash = hash) ∨ hash = env.getHash tx := by
      simp only [Stored, inputsOf, flatMap_singleton, mem_singleton, exists_eq_left,
        hcoinbase, true_and, eq_comm (b := hash)]
      exact or_comm
    rw [hfounds, hadded, hfound, happend, stored_append, hstored, or_assoc, or_assoc, or_assoc]

theorem Replays.respendBlocks (block : CBlock)
    (hnew : ∀ tx ∈ blocks.flatMap (·.vtx), IsNew env transactions common tx)
    (hreaches : ∀ prevout ∈ inputsOf (blocks.flatMap (·.vtx)),
      Reaches env txdb transactions forkTxs prevout) :
    Returns (respendBlocks env txdb block forkTxs blocks copy) fun modified =>
      Replays env txdb transactions common referenced
          (spent ++ inputsOf (blocks.flatMap (·.vtx))) modified ∧
        ∀ hash, (lookUp txdb modified hash).isSome ↔
          (lookUp txdb copy hash).isSome ∨
            Stored env (blocks.flatMap (·.vtx)) hash := by
  induction blocks generalizing spent copy with
  | nil =>
    rw [flatMap_nil, inputsOf, flatMap_nil, append_nil]
    exact returns_ok ⟨h, by simp [Stored, inputsOf]⟩
  | cons blk blocks ih =>
    obtain ⟨hfirst, hrest⟩ := forall_mem_append.mp hnew
    rw [flatMap_cons, inputsOf, flatMap_append] at hreaches
    obtain ⟨hinputs, hlater⟩ := forall_mem_append.mp hreaches
    refine (h.respendTxs hcollision hfork block blk hfirst hinputs).bind
      fun next ⟨htxs, hfound⟩ => ?_
    refine (ih htxs hrest hlater).mono fun modified ⟨hreplays, hfounds⟩ => ?_
    rw [append_assoc, inputsOf, inputsOf, ← flatMap_append] at hreplays
    refine ⟨hreplays, fun hash => ?_⟩
    rw [hfounds, hfound, flatMap_cons, stored_append, or_assoc]

omit h hcollision hfork

end Passes

section ThirdPass

/-- An input of a block with what comes before it in the block: the transactions
and the outputs that are spent. -/
structure Spending where
  earlier : List CTransaction
  tx : CTransaction
  spent : List COutPoint
  prevout : COutPoint

def inputSpendings (earlier : List CTransaction) (tx : CTransaction) :
    List COutPoint → List COutPoint → List Spending
  | _, [] => []
  | spent, prevout :: prevouts =>
    ⟨earlier, tx, spent, prevout⟩ :: inputSpendings earlier tx (spent ++ [prevout]) prevouts

def spendingsFrom : List CTransaction → List COutPoint → List CTransaction → List Spending
  | _, _, [] => []
  | earlier, spent, tx :: vtx =>
    inputSpendings earlier tx spent (spentBy tx) ++
      spendingsFrom (earlier ++ [tx]) (spent ++ spentBy tx) vtx

def spendings (vtx : List CTransaction) : List Spending := spendingsFrom [] [] vtx

/-- The output is there and not spent, as far as the copy of the index goes. -/
def Accepts (env : ChainEnv) (transactions : List CTransaction) (common base : List COutPoint)
    (found : UInt256 → Prop) (s : Spending) : Prop :=
  found s.prevout.hash ∧ (∃ tx ∈ transactions, Creates env tx s.prevout) ∧ s.prevout ∉ common ∧
    s.prevout ∉ base ∧ s.prevout ∉ s.spent

variable {base : List COutPoint} {found : UInt256 → Prop} {queuedTxs queued : UInt256 → Option CTxIndex}

theorem spendSlot_eq_ok {txindex : CTxIndex} {n : Nat} {refusal : Refusal}
    {refusal' : CDiskTxPos → Refusal} :
    (match txindex.vSpent[n]? with
      | none => (.error refusal : Verdict (UInt256 → Option CTxIndex))
      | some pos => if pos.isNull then .ok queuedTxs else .error (refusal' pos)) = .ok queued ↔
      ∃ pos, txindex.vSpent[n]? = some pos ∧ pos.isNull = true ∧ queued = queuedTxs := by
  cases txindex.vSpent[n]? with
  | none =>
    constructor
    · intro h
      cases h
    · rintro ⟨pos, h, -⟩
      cases h
  | some pos =>
    dsimp only
    constructor
    · intro h
      split at h
      · rename_i hnull
        exact ⟨pos, rfl, hnull, (Except.ok.inj h).symm⟩
      · cases h
    rintro ⟨pos', heq, hnull, rfl⟩
    cases heq
    exact if_pos hnull

variable {prevout : COutPoint}

/-- An entry of the queue and one of the database are treated alike. -/
theorem verifyInput_eq_ok :
    verifyInput env txdb block tx prevout queuedTxs = .ok queued ↔
      ∃ txindex, lookUp txdb queuedTxs prevout.hash = some txindex ∧
        ∃ pos, txindex.vSpent[prevout.n]? = some pos ∧ pos.isNull = true ∧
        queued = update queuedTxs prevout.hash
          (some { txindex with
            vSpent := txindex.vSpent.set prevout.n
              (createFakeSpentTxPos (env.getBlockHash block)) }) := by
  rw [verifyInput, lookUp]
  cases queuedTxs prevout.hash with
  | some txindex =>
    dsimp only
    rw [spendSlot_eq_ok]
    exact ⟨fun h => ⟨txindex, rfl, h⟩, fun ⟨_, heq, h⟩ => Option.some.inj heq ▸ h⟩
  | none =>
    dsimp only
    cases txdb.txIndex prevout.hash with
    | some txindex =>
      dsimp only
      rw [@spendSlot_eq_ok _ _ _ _ _ fun pos => _]
      exact ⟨fun h => ⟨txindex, rfl, h⟩, fun ⟨_, heq, h⟩ => Option.some.inj heq ▸ h⟩
    | none =>
      constructor
      · intro h
        cases h
      · rintro ⟨_, h, -⟩
        cases h

theorem Replays.verifyInput (h : Replays env txdb transactions common referenced spent queuedTxs)
    (hok : verifyInput env txdb block tx prevout queuedTxs = .ok queued) :
    Replays env txdb transactions common referenced (spent ++ [prevout]) queued ∧
      ∀ hash, (lookUp txdb queued hash).isSome ↔ (lookUp txdb queuedTxs hash).isSome := by
  obtain ⟨txindex, hlookup, pos, -, -, rfl⟩ := verifyInput_eq_ok.mp hok
  refine ⟨h.spend rfl hlookup, fun hash => ?_⟩
  rw [isSome_lookUp_update]
  refine or_iff_left_of_imp ?_
  rintro rfl
  exact Option.isSome_iff_exists.mpr ⟨txindex, hlookup⟩

theorem verifyInput_iff
    (h : Replays env txdb transactions common referenced (base ++ spent) queuedTxs)
    (hfound : ∀ hash, (lookUp txdb queuedTxs hash).isSome ↔ found hash)
    (hknown : ∀ hash, found hash → ∃ tx ∈ transactions, env.getHash tx = hash)
    (hprevout : prevout ∈ referenced) (block : CBlock) (earlier : List CTransaction)
    (tx : CTransaction) :
    (∃ queued, verifyInput env txdb block tx prevout queuedTxs = .ok queued) ↔
      Accepts env transactions common base found ⟨earlier, tx, spent, prevout⟩ := by
  constructor
  · rintro ⟨queued, hok⟩
    obtain ⟨txindex, hlookup, pos, hslot, hnull, -⟩ := verifyInput_eq_ok.mp hok
    have hhash := (hfound prevout.hash).mp (Option.isSome_iff_exists.mpr ⟨txindex, hlookup⟩)
    obtain ⟨other, hother, hsame⟩ := hknown _ hhash
    obtain ⟨hcommon, hspent⟩ := (h.free prevout hprevout txindex pos hlookup hslot).mp hnull
    have hlt := (List.getElem?_eq_some_iff.mp hslot).1
    rw [h.size _ _ hlookup other hother hsame] at hlt
    exact ⟨hhash, ⟨other, hother, hsame, hlt⟩, hcommon, fun hmem => hspent (mem_append_left _ hmem),
      fun hmem => hspent (mem_append_right _ hmem)⟩
  rintro ⟨hhash, ⟨other, hother, hsame, hlt⟩, hcommon, hbase, hspent⟩
  obtain ⟨txindex, hlookup⟩ := Option.isSome_iff_exists.mp ((hfound prevout.hash).mpr hhash)
  have hsize := h.size _ _ hlookup other hother hsame
  have hslot : txindex.vSpent[prevout.n]? = some txindex.vSpent[prevout.n] :=
    List.getElem?_eq_getElem (hsize ▸ hlt)
  have hnull := (h.free prevout hprevout txindex _ hlookup hslot).mpr
    ⟨hcommon, fun hmem => (mem_append.mp hmem).elim hbase hspent⟩
  exact ⟨_, verifyInput_eq_ok.mpr ⟨txindex, hlookup, _, hslot, hnull, rfl⟩⟩

theorem Replays.verifyInputs (h : Replays env txdb transactions common referenced spent queuedTxs)
    (hok : verifyInputs env txdb block tx prevouts queuedTxs = .ok queued) :
    Replays env txdb transactions common referenced (spent ++ prevouts) queued ∧
      ∀ hash, (lookUp txdb queued hash).isSome ↔ (lookUp txdb queuedTxs hash).isSome := by
  induction prevouts generalizing spent queuedTxs with
  | nil =>
    cases hok
    rw [append_nil]
    exact ⟨h, fun hash => Iff.rfl⟩
  | cons prevout prevouts ih =>
    obtain ⟨next, hnext, hok⟩ := bind_eq_ok.mp hok
    obtain ⟨hinput, hsame⟩ := h.verifyInput hnext
    obtain ⟨hreplays, hsames⟩ := ih hinput hok
    rw [append_assoc] at hreplays
    exact ⟨hreplays, fun hash => (hsames hash).trans (hsame hash)⟩

theorem verifyInputs_iff
    (h : Replays env txdb transactions common referenced (base ++ spent) queuedTxs)
    (hfound : ∀ hash, (lookUp txdb queuedTxs hash).isSome ↔ found hash)
    (hknown : ∀ hash, found hash → ∃ tx ∈ transactions, env.getHash tx = hash)
    {prevouts : List COutPoint} (hprevouts : ∀ prevout ∈ prevouts, prevout ∈ referenced)
    (block : CBlock) (earlier : List CTransaction) (tx : CTransaction) :
    (∃ queued, verifyInputs env txdb block tx prevouts queuedTxs = .ok queued) ↔
      ∀ s ∈ inputSpendings earlier tx spent prevouts,
        Accepts env transactions common base found s := by
  induction prevouts generalizing spent queuedTxs with
  | nil => exact iff_of_true ⟨_, rfl⟩ nofun
  | cons prevout prevouts ih =>
    obtain ⟨hfirst, hrest⟩ := forall_mem_cons.mp hprevouts
    rw [inputSpendings, forall_mem_cons, ← verifyInput_iff h hfound hknown hfirst block earlier tx]
    refine exists_bind_iff fun next hinput => ?_
    obtain ⟨hreplays, hsame⟩ := h.verifyInput hinput
    rw [append_assoc] at hreplays
    exact ih hreplays (fun hash => (hsame hash).trans (hfound hash)) hrest

/-- The hashes that have an entry when an input is verified. -/
def FoundAt (env : ChainEnv) (found : UInt256 → Prop) (s : Spending) (hash : UInt256) : Prop :=
  found hash ∨ ∃ tx ∈ s.earlier ++ [s.tx], env.getHash tx = hash

theorem mem_inputSpendings (hs : s ∈ inputSpendings earlier tx spent prevouts) :
    s.earlier = earlier ∧ s.tx = tx := by
  induction prevouts generalizing spent with
  | nil => cases hs
  | cons prevout prevouts ih =>
    rcases mem_cons.mp hs with rfl | hs
    · exact ⟨rfl, rfl⟩
    · exact ih hs

/-- The third pass accepts a block exactly if it accepts every input. -/
theorem verifyTxs_iff (hcollision : NoCollision env transactions)
    (h : Replays env txdb transactions common referenced (base ++ spent) queuedTxs) (hfound : ∀
      hash, (lookUp txdb queuedTxs hash).isSome ↔ found hash ∨ ∃ tx ∈ earlier, env.getHash tx =
      hash) (hknown : ∀ hash, found hash → ∃ tx ∈ transactions, env.getHash tx = hash)
    (hearlier : ∀ tx ∈ earlier, tx ∈ transactions)
    (hnew : ∀ tx ∈ vtx, IsNew env transactions common tx)
    (hprevouts : ∀ prevout ∈ inputsOf vtx, prevout ∈ referenced) (block : CBlock) :
    (∃ queued, verifyTxs env txdb block vtx queuedTxs = .ok queued) ↔
      ∀ s ∈ spendingsFrom earlier spent vtx,
        Accepts env transactions common base (FoundAt env found s) s := by
  induction vtx generalizing spent earlier queuedTxs with
  | nil => exact iff_of_true ⟨_, rfl⟩ nofun
  | cons tx vtx ih =>
    obtain ⟨hfirst, hrest⟩ := forall_mem_cons.mp hnew
    obtain ⟨hinputs, hlater⟩ := forall_mem_append.mp hprevouts
    obtain ⟨hadd, hadded⟩ := h.addEntry hcollision hfirst ⟨env.getBlockHash block, 2⟩
    have hfoundTx : ∀ hash, (lookUp txdb (ForkVerification.addEntry env tx
        ⟨env.getBlockHash block, 2⟩ queuedTxs) hash).isSome ↔
          found hash ∨ ∃ tx' ∈ earlier ++ [tx], env.getHash tx' = hash := by
      intro hash
      rw [hadded, hfound, or_assoc]
      simp only [mem_append, mem_singleton, or_and_right, exists_or, exists_eq_left,
        eq_comm (b := hash)]
    have hknownTx : ∀ hash, (found hash ∨ ∃ tx' ∈ earlier ++ [tx], env.getHash tx' = hash) →
        ∃ tx ∈ transactions, env.getHash tx = hash := by
      rintro hash (hhash | ⟨tx', htx', rfl⟩)
      · exact hknown hash hhash
      rcases mem_append.mp htx' with htx' | htx'
      · exact ⟨tx', hearlier tx' htx', rfl⟩
      · rw [mem_singleton.mp htx']
        exact ⟨tx, hfirst.1, rfl⟩
    have hearlierTx : ∀ tx' ∈ earlier ++ [tx], tx' ∈ transactions := by
      refine forall_mem_append.mpr ⟨hearlier, fun tx' htx' => ?_⟩
      rw [mem_singleton.mp htx']
      exact hfirst.1
    have hinput := @verifyInputs_iff τ env txdb transactions common referenced spent base _ _ hadd
      hfoundTx hknownTx (spentBy tx) hinputs block earlier tx
    have hinput' : (∀ s ∈ inputSpendings earlier tx spent (spentBy tx),
        Accepts env transactions common base (FoundAt env found s) s) ↔
        ∃ next, ForkVerification.verifyInputs env txdb block tx (spentBy tx)
          (ForkVerification.addEntry env tx ⟨env.getBlockHash block, 2⟩ queuedTxs) = .ok next := by
      rw [hinput]
      refine forall₂_congr fun s hs => ?_
      obtain ⟨hearlier, htx⟩ := mem_inputSpendings hs
      rw [Accepts, Accepts, FoundAt, hearlier, htx]
    rw [spendingsFrom, forall_mem_append, hinput']
    refine exists_bind_iff fun next hverify => ?_
    obtain ⟨hreplays, hsame⟩ := hadd.verifyInputs hverify
    rw [append_assoc] at hreplays
    exact ih hreplays (fun hash => (hsame hash).trans (hfoundTx hash)) hearlierTx hrest hlater

end ThirdPass

end Replay

end Bfx.ForkVerification
