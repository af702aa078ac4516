import Bfx.BestChain
import Bfx.TokenInputs

/-!
The tables of the token layer: the records of token transactions, and the table
from token symbols to the transactions that issue them, which is written when a
block is connected and searched before.
-/

namespace Bfx.TokenSymbols

open BestChain BlockConnection CallOutcome ChainIndex HexText NodeState ScriptText TokenInputs
  TokenReading TokenScript TokenTransaction TransferInterpreter Transaction List Function

variable {symbol : Bytes}

def getBFXTOpReturnScriptHex (self : BFXTTransaction) : Outcome String :=
  match self.vout.findSome? fun txout => matchBFXTOpReturn txout.scriptPubKeyAsm with
  | some opReturnArg => .ok opReturnArg
  | none =>
    raise ("Could not extract BFXT script from OP_RETURN for transaction " ++ self.txHash.toHex)

/-- The number of an enumerator. -/
def txTypeText : TxType → String
  | .none => "0"
  | .issuance => "1"
  | .transfer => "2"
  | .burn => "3"

/-- The symbol and the flags of the script of an issuance; the text says what is
asked for. -/
def issuanceScript (what : String) (self : BFXTTransaction) : Outcome (Bytes × IssuanceFlags) := do
  let opReturnArg ← getBFXTOpReturnScriptHex self
  let script ← parseScript opReturnArg
  match script.txType, script.kind with
  | .issuance, .issuance tokenSymbol _ issuanceFlags => .ok (tokenSymbol, issuanceFlags)
  | .issuance, _ =>
    raise ("While getting " ++ what ++ " for issuance tx, casting script pointer to " ++
      "transfer type failed: " ++ opReturnArg)
  | txType, _ =>
    raise ("Attempted to get the " ++ what ++ " of a non-issuance transaction. Txid: " ++
      self.txHash.toHex ++ "; and current tx type: " ++ txTypeText txType)

def getTokenSymbolIfIssuance (self : BFXTTransaction) : Outcome Bytes :=
  issuanceScript "token symbol" self >>= fun script => .ok script.1

def getTokenIdIfIssuance (env : NodeEnv) (self : BFXTTransaction) (input0txid : String)
    (input0index : Nat) : Outcome String :=
  issuanceScript "token id" self >>= fun script =>
    getTokenID env script.1 script.2 input0txid input0index

def isIssuedTokenBlacklisted (env : NodeEnv) (txPair : InputPair) : Outcome Bool :=
  match txPair.1.vin with
  | [] => .error (.outOfBounds .vin)
  | txin :: _ =>
    getTokenIdIfIssuance env txPair.2 txin.prevout.hash.toHex txin.prevout.n >>= fun tokenId =>
      .ok (isBFXTTokenBlacklisted tokenId).isSome

/-- `std::transform(.., ::toupper)`. -/
def toUpper (symbol : Bytes) : Bytes :=
  symbol.map fun c => if 97 ≤ c ∧ c ≤ 122 then c - 32 else c

/-- The names are sorted by symbol and hash, as the cursor of the database sees
them. -/
structure TokenTables where
  bfxtTxs : UInt256 → Option BFXTTransaction
  bfxttokenNames : List (Bytes × UInt256)

/-- A pair as it is compared: symbols are shorter than 253 bytes. -/
def pairBytes (pair : Bytes × UInt256) : Bytes :=
  UInt8.ofNat pair.1.length :: pair.1 ++
    (List.range 32).map fun i => UInt8.ofNat (pair.2.toNat / 256 ^ i % 256)

def PairLe (pair pair' : Bytes × UInt256) : Prop := pairBytes pair ≤ pairBytes pair'

instance : DecidableRel PairLe :=
  fun pair pair' => inferInstanceAs (Decidable (pairBytes pair ≤ pairBytes pair'))

/-- The cursor starts at the symbol and runs to the end of the table. A symbol
without entries gives an empty list. -/
def readBFXTTxsWithTokenSymbol (tables : TokenTables) (tokenName : Bytes) : List UInt256 :=
  (tables.bfxttokenNames.dropWhile fun pair => pair.1 != tokenName).map Prod.snd

def writeBFXTTx (hash : UInt256) (bfxttx : BFXTTransaction) (tables : TokenTables) : TokenTables :=
  { tables with bfxtTxs := update tables.bfxtTxs hash (some bfxttx) }

/-- No result means that the function returns false. -/
def writeBFXTTxWithTokenSymbol (tokenSymbol : Bytes) (bfxttx : BFXTTransaction)
    (tables : TokenTables) : Option TokenTables :=
  if bfxttx.isNull then none
  else
    match getTokenSymbolIfIssuance bfxttx with
    | .error _ => none
    | .ok symbol =>
      if symbol ≠ tokenSymbol then none
      else if (tokenSymbol, bfxttx.txHash) ∈ tables.bfxttokenNames then some tables
      else
        some { tables with
          bfxttokenNames := tables.bfxttokenNames.orderedInsert PairLe
            (tokenSymbol, bfxttx.txHash) }

/-- The tables are those after the call, also if it throws. The assertion on the
first input cannot fail: only a coinbase has a null input, and its inputs are not
found. -/
def writeBFXTTxToDbAndDisk (env : NodeEnv) (bfxttx : BFXTTransaction) (tables : TokenTables) :
    Outcome Unit × TokenTables :=
  if bfxttx.bfxtTransactionType = .unknown then
    (raise "Attempted to write an BFXT transaction to database with unknown type.", tables)
  else
    let written := writeBFXTTx bfxttx.txHash bfxttx tables
    if bfxttx.bfxtTransactionType = .issuance then
      match bfxttx.vin with
      | [] =>
        (raise ("Unable to check for token id blacklisting because the size of the input " ++
          "is zero."), written)
      | txin :: _ =>
        match getTokenIdIfIssuance env bfxttx txin.prevout.hash.toHex txin.prevout.n with
        | .error fault => (.error fault, written)
        | .ok tokenId =>
          if (isBFXTTokenBlacklisted tokenId).isSome then (.ok (), written)
          else
            match getTokenSymbolIfIssuance bfxttx with
            | .error fault => (.error fault, written)
            | .ok symbol =>
              match writeBFXTTxWithTokenSymbol symbol bfxttx written with
              | none =>
                (raise ("Unable to write BFXT transaction to database: " ++
                  bfxttx.txHash.toHex), written)
              | some tables => (.ok (), tables)
    else (.ok (), written)

section Search

variable (env : ChainEnv)

/-- The reads through a handle. -/
def toReader {τ : Type} (txdb : NodeDb τ) : CTxDB where
  readTxIndex := txdb.txIndex
  readTx := readTx env txdb
  readBlockTime key := (txdb.blocks key).map fun block => (block.nTime : Int)
  writeBlockIndex _ := true
  updateTxIndex _ := true

/-- The hash of the block that has the transaction. It stays zero for a transaction
of the memory pool. The handle is a new one. -/
def getTransaction {τ : Type} (committed : NodeDb τ) (hash : UInt256) : Option UInt256 :=
  if (env.mempoolLookup hash).isSome then some 0
  else
    match readOutputFromDisk (toReader env committed) ⟨hash, 0⟩ with
    | none => none
    | some (txindex, _, _) =>
      match committed.blocks txindex.pos.nBlockPos with
      | none => some 0
      | some block => some (env.getBlockHash block)

def isTxInMainChain {τ : Type} (memory : Memory) (committed : NodeDb τ) (txHash : UInt256) :
    Outcome Bool :=
  match getTransaction env committed txHash with
  | none => raise ("Unable to retrieve the transaction " ++ txHash.toHex)
  | some hashBlock =>
    match memory.mapBlockIndex hashBlock with
    | none => raise ("Unable to find the block that has the transaction " ++ txHash.toHex)
    | some pindex => .ok (isInMainChain memory pindex)

def fetchTxFromDisk {τ : Type} (txdb : NodeDb τ) (txid : UInt256) : Outcome CTransaction :=
  match txdb.txIndex txid with
  | none => raise ("Unable to read standard transaction from db: " ++ txid.toHex)
  | some txPos =>
    match readTx env txdb txPos.pos with
    | none => raise ("Unable to read standard transaction from db: " ++ txid.toHex)
    | some tx => .ok tx

/-- A transaction without a script keeps the empty record. -/
def fetchStored (bfxtTxs : UInt256 → Option BFXTTransaction) (tx : CTransaction) : InputPair :=
  if (isTxBFXT env.toNodeEnv tx).isSome then
    fetchBFXTTxFromDisk env bfxtTxs (tx, emptyBFXTTransaction)
  else (tx, emptyBFXTTransaction)

def alreadyExists (sym : Bytes) (txHash h : UInt256) : String :=
  "Failed to accept issuance of token " ++ rawText sym ++ " from transaction " ++ txHash.toHex ++
    "; this token symbol already exists in transaction: " ++ h.toHex

/-- One stored transaction against the symbol, which is in upper case. -/
def assertOtherSymbol (state : State TokenTables) (sym : Bytes) (txHash h : UInt256) :
    Outcome Unit := do
  let inMainChain ← isTxInMainChain env state.memory state.committed h
  if inMainChain then do
    let tx ← fetchTxFromDisk env state.committed h
    let pair := fetchStored env state.txdb.tokens.bfxtTxs tx
    let storedSymbol ← getTokenSymbolIfIssuance pair.2
    let blacklisted ← isIssuedTokenBlacklisted env.toNodeEnv pair
    if blacklisted = false ∧ sym = toUpper storedSymbol ∧ txHash ≠ h then
      raise (alreadyExists sym txHash h)
    else .ok ()
  else .ok ()

def assertOtherSymbols (state : State TokenTables) (sym : Bytes) (txHash : UInt256) :
    List UInt256 → Outcome Unit
  | [] => .ok ()
  | h :: storedSymbolsTxHashes => do
    assertOtherSymbol env state sym txHash h
    assertOtherSymbols state sym txHash storedSymbolsTxHashes

def assertBFXTTokenNameIsNotAlreadyInMainChain (state : State TokenTables)
    (bfxttx : BFXTTransaction) : Outcome Unit :=
  match bfxttx.bfxtTransactionType with
  | .issuance => do
    let sym ← getTokenSymbolIfIssuance bfxttx
    assertOtherSymbols env state (toUpper sym) bfxttx.txHash
      (readBFXTTxsWithTokenSymbol state.txdb.tokens (toUpper sym))
  | .unknown =>
    raise ("Attempted to AssertBFXTTokenNameIsNotAlreadyInMainChain on an uninitialized " ++
      "BFXT transaction")
  | _ => .ok ()

/-- The symbols of the block, in upper case. -/
def noteSymbol (issuedTokensSymbolsInThisBlock : Bytes → Option UInt256)
    (bfxttx : BFXTTransaction) : Outcome (Bytes → Option UInt256) :=
  if bfxttx.bfxtTransactionType = .issuance then do
    let sym ← getTokenSymbolIfIssuance bfxttx
    if (issuedTokensSymbolsInThisBlock (toUpper sym)).isSome then
      raise ("The token name " ++ rawText (toUpper sym) ++ " already exists in the block: ")
    else
      .ok (update issuedTokensSymbolsInThisBlock (toUpper sym) (some bfxttx.txHash))
  else .ok issuedTokensSymbolsInThisBlock

def assertIssuanceUniquenessInBlock (state : State TokenTables)
    (issuedTokensSymbolsInThisBlock : Bytes → Option UInt256) (tx : CTransaction)
    (mapQueuedBFXTInputs : UInt256 → Option (List InputPair))
    (queuedAcceptedTxs : UInt256 → Option CTxIndex) : Outcome (Bytes → Option UInt256) :=
  match isTxBFXT env.toNodeEnv tx with
  | none => .ok issuedTokensSymbolsInThisBlock
  | some opRet => do
    let script ← parseScript opRet
    if script.txType = .issuance then do
      let inputsTxs ← getAllBFXTInputsOfTx env (toReader env state.txdb)
        state.txdb.tokens.bfxtTxs mapQueuedBFXTInputs queuedAcceptedTxs tx
      let bfxttx ← readBFXTDataFromTx env.toNodeEnv emptyBFXTTransaction tx inputsTxs
      assertBFXTTokenNameIsNotAlreadyInMainChain env state bfxttx
      noteSymbol issuedTokensSymbolsInThisBlock bfxttx
    else .ok issuedTokensSymbolsInThisBlock

end Search

section Writing

variable (env : ChainEnv)

def passedFirstValidBFXTTx : Bool :=
  if env.fTestNet then env.nBestHeight ≥ 10313 else env.nBestHeight ≥ 157528

/-- The tables change while the block is written, the index does not. -/
def writeBFXTTxToDiskFromRawTx (txdb : NodeDb TokenTables) (tx : CTransaction)
    (tables : TokenTables) : Outcome Unit × TokenTables :=
  if passedFirstValidBFXTTx env = true ∧ (isTxBFXT env.toNodeEnv tx).isSome then
    match getAllBFXTInputsOfTx env (toReader env txdb) tables.bfxtTxs (fun _ => none)
      (fun _ => none) tx >>= readBFXTDataFromTx env.toNodeEnv emptyBFXTTransaction tx with
    | .error fault => (.error fault, tables)
    | .ok bfxttx => writeBFXTTxToDbAndDisk env.toNodeEnv bfxttx tables
  else (.ok (), tables)

/-- As long as a transaction of the list is spent by the one that was taken out, the
two are swapped. Transactions cannot spend each other in a circle, so there are at
most as many swaps as transactions. -/
def swapToLeaf : Nat → CTransaction → List CTransaction → CTransaction × List CTransaction
  | 0, result, vtx => (result, vtx)
  | swaps + 1, result, vtx =>
    match vtx.findIdx? fun tx => result.vin.any (·.prevout.hash == env.getHash tx) with
    | none => (result, vtx)
    | some i =>
      match vtx[i]? with
      | none => (result, vtx)
      | some tx => swapToLeaf swaps tx (vtx.set i result)

/-- There is no result for an empty list. -/
def popLeafTransaction (vtx : List CTransaction) : Option (CTransaction × List CTransaction) :=
  vtx.getLast?.map fun result => swapToLeaf env vtx.length result vtx.dropLast

/-- The loop over the transactions that are left. -/
def writeLeaves (txdb : NodeDb TokenTables) :
    Nat → List CTransaction → TokenTables → Outcome Unit × TokenTables
  | 0, _, tables => (.ok (), tables)
  | left + 1, transactions, tables =>
    match popLeafTransaction env transactions with
    | none => (.ok (), tables)
    | some (tx, transactions) =>
      match writeBFXTTxToDiskFromRawTx env txdb tx tables with
      | (.ok (), tables) => writeLeaves txdb left transactions tables
      | failed => failed

def writeBFXTBlockTransactionsToDisk (txdb : NodeDb TokenTables) (vtx : List CTransaction) :
    Outcome Unit × TokenTables :=
  if passedFirstValidBFXTTx env then writeLeaves env txdb vtx.length vtx txdb.tokens
  else (.ok (), txdb.tokens)

end Writing

/-- The token layer as `ConnectBlock` calls it. -/
def tokenLayer : TokenLayer TokenTables where
  getAllBFXTInputsOfTx env txdb tx mapQueuedBFXTInputs queuedAcceptedTxs :=
    getAllBFXTInputsOfTx env (toReader env txdb) txdb.tokens.bfxtTxs mapQueuedBFXTInputs
      queuedAcceptedTxs tx
  assertIssuanceUniquenessInBlock := assertIssuanceUniquenessInBlock
  writeBFXTBlockTransactionsToDisk := writeBFXTBlockTransactionsToDisk

section Issuances

variable {env : NodeEnv} {tx : CTransaction} {opReturnArg : String} {bfxttx : BFXTTransaction}

/-- The symbol and the flags of an issuance. -/
def issuanceOf (env : NodeEnv) (tx : CTransaction) : Option (Bytes × IssuanceFlags) :=
  (isTxBFXT env tx).bind fun opReturnArg =>
    match parseScript opReturnArg with
    | .error _ => none
    | .ok script =>
      match script.txType, script.kind with
      | .issuance, .issuance tokenSymbol _ issuanceFlags => some (tokenSymbol, issuanceFlags)
      | _, _ => none

def isBlacklisted (env : NodeEnv) (tx : CTransaction) (script : Bytes × IssuanceFlags) : Bool :=
  match tx.vin with
  | [] => false
  | txin :: _ =>
    match getTokenID env script.1 script.2 txin.prevout.hash.toHex txin.prevout.n with
    | .error _ => false
    | .ok tokenId => (isBFXTTokenBlacklisted tokenId).isSome

/-- An issuance whose token id is not blacklisted. -/
def Issues (env : NodeEnv) (tx : CTransaction) (symbol : Bytes) : Prop :=
  ∃ issuanceFlags, issuanceOf env tx = some (symbol, issuanceFlags) ∧
    isBlacklisted env tx (symbol, issuanceFlags) = false

theorem getTokenID_withHeight (env : NodeEnv) (nBestHeight : Int) :
    getTokenID { env with nBestHeight := nBestHeight } = getTokenID env := rfl

theorem isTxBFXT_withHeight (env : NodeEnv) (nBestHeight : Int) :
    isTxBFXT { env with nBestHeight := nBestHeight } = isTxBFXT env := rfl

theorem issues_withHeight (env : NodeEnv) (nBestHeight : Int) :
    Issues { env with nBestHeight := nBestHeight } = Issues env := by
  funext tx symbol
  simp only [Issues, issuanceOf, isBlacklisted, getTokenID_withHeight, isTxBFXT_withHeight]

variable {script : Bytes × IssuanceFlags}

theorem issuanceOf_eq_some (h : issuanceOf env tx = some script) :
    ∃ opReturnArg parsed amount, isTxBFXT env tx = some opReturnArg ∧
      parseScript opReturnArg = .ok parsed ∧ parsed.txType = .issuance ∧
      parsed.kind = .issuance script.1 amount script.2 := by
  obtain ⟨opReturnArg, htoken, h⟩ := Option.bind_eq_some_iff.mp h
  split at h
  · cases h
  rename_i parsed hparsed
  split at h
  · rename_i symbol amount flags htype hkind
    cases h
    exact ⟨opReturnArg, parsed, amount, htoken, hparsed, htype, hkind⟩
  · cases h

theorem getBFXTOpReturnScriptHex_of_readFrom (htoken : isTxBFXT env tx = some opReturnArg)
    (h : ReadFrom (env.getHash tx) tx opReturnArg bfxttx) :
    getBFXTOpReturnScriptHex bfxttx = .ok opReturnArg := by
  have hasm : bfxttx.vout.findSome? (fun txout => matchBFXTOpReturn txout.scriptPubKeyAsm) =
      some opReturnArg := by
    calc
      _ = (withoutTokens bfxttx.vout).findSome?
          (fun txout => matchBFXTOpReturn txout.scriptPubKeyAsm) := (List.findSome?_map ..).symm
      _ = (tx.vout.map readTxOut).findSome?
          (fun txout => matchBFXTOpReturn txout.scriptPubKeyAsm) := by rw [h.vout_eq]
      _ = tx.vout.findSome? (fun txout => matchBFXTOpReturn (scriptToString txout.scriptPubKey)) :=
          List.findSome?_map ..
      _ = some opReturnArg := by
          rw [isTxBFXT] at htoken
          split at htoken
          · cases htoken
          · exact htoken
  rw [getBFXTOpReturnScriptHex, hasm]

variable (hissuance : issuanceOf env tx = some script)
include hissuance

variable (htoken : isTxBFXT env tx = some opReturnArg)
include htoken

variable (h : ReadFrom (env.getHash tx) tx opReturnArg bfxttx)
include h

theorem issuanceScript_of_readFrom (what : String) :
    issuanceScript what bfxttx = .ok script := by
  obtain ⟨opReturnArg', parsed, amount, htoken', hparsed, htype, hkind⟩ :=
    issuanceOf_eq_some hissuance
  obtain rfl := Option.mem_unique htoken htoken'
  rw [issuanceScript, getBFXTOpReturnScriptHex_of_readFrom htoken h, ok_bind, hparsed, ok_bind,
    htype, hkind]

theorem getTokenSymbolIfIssuance_of_readFrom :
    getTokenSymbolIfIssuance bfxttx = .ok script.1 := by
  rw [getTokenSymbolIfIssuance, issuanceScript_of_readFrom hissuance htoken h, ok_bind]

theorem type_of_readFrom :
    bfxttx.bfxtTransactionType = .issuance := by
  obtain ⟨opReturnArg', parsed, amount, htoken', hparsed, htype, hkind⟩ :=
    issuanceOf_eq_some hissuance
  obtain rfl := Option.mem_unique htoken htoken'
  obtain ⟨parsed', hparsed', hissue⟩ := h.parsed
  obtain rfl := Except.ok.inj (hparsed.symm.trans hparsed')
  exact hissue htype

omit h

omit htoken

omit hissuance

end Issuances

section Noted

variable {env : ChainEnv} {tables tables' : TokenTables}

/-- An issuance is in the tables, under its symbol and with its record. -/
def Noted (env : NodeEnv) (tables : TokenTables) (tx : CTransaction) : Prop :=
  ∀ symbol, Issues env tx symbol → (symbol, env.getHash tx) ∈ tables.bfxttokenNames ∧
    ∃ opReturnArg bfxttx, isTxBFXT env tx = some opReturnArg ∧
      tables.bfxtTxs (env.getHash tx) = some bfxttx ∧
      ReadFrom (env.getHash tx) tx opReturnArg bfxttx

theorem noted_withHeight (env : NodeEnv) (nBestHeight : Int) :
    Noted { env with nBestHeight := nBestHeight } = Noted env := by
  funext tables tx
  simp only [Noted, issues_withHeight, isTxBFXT_withHeight]

theorem mem_readBFXTTxsWithTokenSymbol {hash : UInt256}
    (h : (symbol, hash) ∈ tables.bfxttokenNames) :
    hash ∈ readBFXTTxsWithTokenSymbol tables symbol := by
  rw [readBFXTTxsWithTokenSymbol, mem_map]
  refine ⟨(symbol, hash), ?_, rfl⟩
  rw [← takeWhile_append_dropWhile (p := fun pair => pair.1 != symbol)
    (l := tables.bfxttokenNames), mem_append] at h
  refine h.resolve_left fun hbefore => ?_
  have hne := mem_takeWhile_imp hbefore
  simp at hne

/-- What a write that succeeds has done. -/
structure Writes (env : NodeEnv) (tx : CTransaction) (tables tables' : TokenTables) : Prop where
  names : tables.bfxttokenNames ⊆ tables'.bfxttokenNames
  records : ∀ hash, hash ≠ env.getHash tx → tables'.bfxtTxs hash = tables.bfxtTxs hash
  noted : Noted env tables' tx

variable {tx : CTransaction}

theorem writeBFXTTxWithTokenSymbol_eq_some
    (h : writeBFXTTxWithTokenSymbol symbol bfxttx tables = some tables') :
    tables'.bfxtTxs = tables.bfxtTxs ∧ ∀ pair, pair ∈ tables'.bfxttokenNames ↔
      pair = (symbol, bfxttx.txHash) ∨ pair ∈ tables.bfxttokenNames := by
  rw [writeBFXTTxWithTokenSymbol] at h
  split at h
  · cases h
  split at h
  · cases h
  split at h
  · cases h
  split at h
  · rename_i hmem
    cases h
    refine ⟨rfl, fun pair => (or_iff_right_of_imp ?_).symm⟩
    rintro rfl
    exact hmem
  cases h
  exact ⟨rfl, fun pair => mem_orderedInsert ..⟩

theorem prevout_of_readFrom {env : NodeEnv} {opReturnArg : String}
    (h : ReadFrom (env.getHash tx) tx opReturnArg bfxttx) {txin : BFXTTxIn} {vin : List BFXTTxIn}
    (hvin : bfxttx.vin = txin :: vin) :
    ∃ first rest, tx.vin = first :: rest ∧ first.prevout = txin.prevout := by
  have hprevouts := h.prevouts_eq
  rw [hvin, map_cons] at hprevouts
  cases hfirst : tx.vin with
  | nil =>
    rw [hfirst] at hprevouts
    cases hprevouts
  | cons first rest =>
    rw [hfirst, map_cons] at hprevouts
    exact ⟨first, rest, rfl, (List.cons.inj hprevouts).1.symm⟩

theorem writeBFXTTxToDbAndDisk_eq_ok {env : NodeEnv} {opReturnArg : String}
    (htoken : isTxBFXT env tx = some opReturnArg)
    (hread : ReadFrom (env.getHash tx) tx opReturnArg bfxttx)
    (h : writeBFXTTxToDbAndDisk env bfxttx tables = (.ok (), tables')) :
    Writes env tx tables tables' := by
  rw [writeBFXTTxToDbAndDisk, if_neg hread.type_ne] at h
  dsimp only at h
  have hrecords : ∀ hash, hash ≠ env.getHash tx →
      (writeBFXTTx bfxttx.txHash bfxttx tables).bfxtTxs hash = tables.bfxtTxs hash := by
    intro hash hne
    rw [writeBFXTTx, hread.txHash_eq]
    exact update_of_ne hne _ _
  have hrecord : (writeBFXTTx bfxttx.txHash bfxttx tables).bfxtTxs (env.getHash tx) =
      some bfxttx := by
    rw [writeBFXTTx, hread.txHash_eq]
    exact update_self _ _ _
  split at h
  · split at h
    · exact absurd (Prod.mk.inj h).1 (raise_ne_ok _ _)
    rename_i txin vin hvin
    obtain ⟨first, rest, hfirst, hprevout⟩ := prevout_of_readFrom hread hvin
    split at h
    · cases (Prod.mk.inj h).1
    rename_i tokenId hid
    split at h
    · -- a blacklisted token is not noted under its symbol
      rename_i hblacklisted
      obtain rfl := (Prod.mk.inj h).2
      refine ⟨List.Subset.refl _, hrecords, ?_⟩
      rintro symbol ⟨flags, hissuance, hallowed⟩
      rw [getTokenIdIfIssuance, issuanceScript_of_readFrom hissuance htoken hread, ok_bind] at hid
      rw [isBlacklisted, hfirst] at hallowed
      dsimp only at hallowed
      rw [hprevout, hid] at hallowed
      exact absurd hblacklisted (Bool.eq_false_iff.mp hallowed)
    split at h
    · cases (Prod.mk.inj h).1
    rename_i symbol hsymbol
    split at h
    · exact absurd (Prod.mk.inj h).1 (raise_ne_ok _ _)
    rename_i written hwritten
    obtain rfl := (Prod.mk.inj h).2
    obtain ⟨hsame, hnames⟩ := writeBFXTTxWithTokenSymbol_eq_some hwritten
    have hmem := (hnames _).mpr (.inl rfl)
    refine ⟨fun pair hpair => (hnames pair).mpr (.inr hpair), fun hash hne => (congrFun hsame hash).trans (hrecords hash hne), ?_⟩
    rintro symbol' ⟨flags, hissuance, -⟩
    rw [getTokenSymbolIfIssuance_of_readFrom hissuance htoken hread] at hsymbol
    cases hsymbol
    rw [hread.txHash_eq] at hmem
    exact ⟨hmem, opReturnArg, bfxttx, htoken, (congrFun hsame _).trans hrecord, hread⟩
  rename_i htype
  obtain rfl := (Prod.mk.inj h).2
  refine ⟨List.Subset.refl _, hrecords, ?_⟩
  rintro symbol ⟨flags, hissuance, -⟩
  exact absurd (type_of_readFrom hissuance htoken hread) htype

theorem writeBFXTTxToDiskFromRawTx_eq_ok {txdb : NodeDb TokenTables}
    (hpassed : passedFirstValidBFXTTx env = true)
    (h : writeBFXTTxToDiskFromRawTx env txdb tx tables = (.ok (), tables')) :
    Writes env.toNodeEnv tx tables tables' ∧
      ((isTxBFXT env.toNodeEnv tx).isSome → isCoinBase tx = false) := by
  rw [writeBFXTTxToDiskFromRawTx] at h
  cases htoken : isTxBFXT env.toNodeEnv tx with
  | none =>
    rw [htoken, if_neg (by simp)] at h
    obtain rfl := (Prod.mk.inj h).2
    refine ⟨⟨List.Subset.refl _, fun _ _ => rfl, ?_⟩, by simp⟩
    rintro symbol ⟨flags, hissuance, -⟩
    obtain ⟨opReturnArg, -, -, htoken', -⟩ := issuanceOf_eq_some hissuance
    cases htoken.symm.trans htoken'
  | some opReturnArg =>
    rw [htoken, if_pos ⟨hpassed, rfl⟩] at h
    split at h
    · cases (Prod.mk.inj h).1
    rename_i bfxttx hread
    obtain ⟨inputsTxs, hinputs, hread⟩ := bind_eq_ok.mp hread
    refine ⟨writeBFXTTxToDbAndDisk_eq_ok htoken
      (readFrom_of_readBFXTDataFromTx htoken hread) h, fun _ => ?_⟩
    by_contra hcoinbase
    rw [Bool.not_eq_false] at hcoinbase
    rw [getAllBFXTInputsOfTx, fetchInputsForTokens, if_pos hcoinbase, ok_bind] at hinputs
    obtain ⟨pairs, hpairs, -⟩ := bind_eq_ok.mp hinputs
    obtain ⟨txin, hvin⟩ : ∃ txin, tx.vin = [txin] := by
      rw [isCoinBase] at hcoinbase
      split at hcoinbase
      · exact ⟨_, by assumption⟩
      · cases hcoinbase
    rw [hvin, mapM_cons] at hpairs
    obtain ⟨pair, hpair, -⟩ := bind_eq_ok.mp hpairs
    exact raise_ne_ok _ _ hpair

/-- Another write keeps what is noted, unless it is of a transaction with the same
hash. -/
theorem Noted.writes {env : NodeEnv} {other : CTransaction} (h : Noted env tables tx)
    (hwrites : Writes env other tables tables')
    (hcollision : env.getHash other = env.getHash tx → other = tx) : Noted env tables' tx := by
  rcases eq_or_ne (env.getHash other) (env.getHash tx) with heq | hne
  · rw [← hcollision heq]
    exact hwrites.noted
  intro symbol hissues
  obtain ⟨hname, opReturnArg, bfxttx, htoken, hrecord, hread⟩ := h symbol hissues
  refine ⟨hwrites.names hname, opReturnArg, bfxttx, htoken, ?_, hread⟩
  rw [hwrites.records _ (Ne.symm hne)]
  exact hrecord

theorem perm_set (hlt : i < l.length) (a : α) :
    (l[i] :: l.set i a).Perm (a :: l) := by
  rw [set_eq_take_append_cons_drop, if_pos hlt]
  have hsplit : l = l.take i ++ l[i] :: l.drop (i + 1) := by
    rw [cons_getElem_drop_succ, take_append_drop]
  calc
    (l[i] :: (l.take i ++ a :: l.drop (i + 1))).Perm (l[i] :: a :: (l.take i ++ l.drop (i + 1))) :=
      perm_middle.cons _
    List.Perm _ (a :: l[i] :: (l.take i ++ l.drop (i + 1))) := .swap ..
    List.Perm _ (a :: (l.take i ++ l[i] :: l.drop (i + 1))) := perm_middle.symm.cons _
    _ = a :: l := by rw [← hsplit]

theorem swapToLeaf_perm (swaps : Nat) (result : CTransaction) (vtx : List CTransaction) :
    ((swapToLeaf env swaps result vtx).1 :: (swapToLeaf env swaps result vtx).2).Perm
      (result :: vtx) := by
  induction swaps generalizing result vtx with
  | zero => exact .refl _
  | succ swaps ih =>
    rw [swapToLeaf]
    split
    · exact .refl _
    rename_i i hi
    split
    · exact .refl _
    rename_i tx htx
    obtain ⟨hlt, rfl⟩ := List.getElem?_eq_some_iff.mp htx
    exact (ih _ _).trans (perm_set hlt result)

theorem popLeafTransaction_eq_some
    (h : popLeafTransaction env vtx = some (tx, rest)) : (tx :: rest).Perm vtx := by
  obtain ⟨result, hlast, h⟩ := Option.map_eq_some_iff.mp h
  obtain ⟨front, rfl⟩ := List.getLast?_eq_some_iff.mp hlast
  have hperm : (tx :: rest).Perm (result :: front) := by
    have hswaps := @swapToLeaf_perm env (front ++ [result]).length result
      (front ++ [result]).dropLast
    rwa [h, dropLast_concat] at hswaps
  exact hperm.trans (perm_append_singleton result front).symm

/-- After a block has been written its issuances are noted, and so are the others as
before. -/
theorem writeLeaves_eq_ok (hpassed : passedFirstValidBFXTTx env = true) (hleft : vtx.length ≤ left)
    (h : writeLeaves env txdb left vtx tables = (.ok (), tables')) :
    (∀ tx ∈ vtx, (isTxBFXT env.toNodeEnv tx).isSome → isCoinBase tx = false) ∧
      ∀ stored : CTransaction → Prop,
        (∀ tx tx', stored tx → stored tx' → env.getHash tx = env.getHash tx' → tx = tx') →
        (∀ tx ∈ vtx, stored tx) →
        ∀ tx, stored tx → (Noted env.toNodeEnv tables tx ∨ tx ∈ vtx) →
          Noted env.toNodeEnv tables' tx := by
  induction left generalizing vtx tables with
  | zero =>
    obtain rfl := eq_nil_of_length_eq_zero (Nat.le_zero.mp hleft)
    obtain rfl := (Prod.mk.inj h).2
    refine ⟨nofun, fun stored _ _ tx _ hnoted => ?_⟩
    exact hnoted.resolve_right not_mem_nil
  | succ left ih =>
    rw [writeLeaves] at h
    split at h
    · rename_i hempty
      obtain rfl := (Prod.mk.inj h).2
      have hnil : vtx = [] := by
        rw [popLeafTransaction, Option.map_eq_none_iff, List.getLast?_eq_none_iff] at hempty
        exact hempty
      refine ⟨fun tx htx => ?_, fun stored _ _ tx _ hnoted => ?_⟩
      · rw [hnil] at htx
        cases htx
      · rw [hnil] at hnoted
        exact hnoted.resolve_right not_mem_nil
    rename_i leaf rest hpop
    have hperm := popLeafTransaction_eq_some hpop
    split at h
    · rename_i next hwrite
      obtain ⟨hwrites, hleaf⟩ := writeBFXTTxToDiskFromRawTx_eq_ok hpassed hwrite
      have hlength : rest.length ≤ left := by
        have heq := hperm.length_eq
        rw [length_cons] at heq
        omega
      obtain ⟨hrest, hnoted⟩ := ih hlength h
      constructor
      · intro tx htx
        rcases mem_cons.mp (hperm.mem_iff.mpr htx) with rfl | htx
        · exact hleaf
        · exact hrest tx htx
      intro stored hcollision hstored tx htx hbefore
      have hleafStored := hstored leaf (hperm.mem_iff.mp mem_cons_self)
      refine hnoted stored hcollision
        (fun tx htx => hstored tx (hperm.mem_iff.mp (mem_cons_of_mem _ htx))) tx htx ?_
      rcases hbefore with hbefore | hmem
      · exact .inl (hbefore.writes hwrites (hcollision _ _ hleafStored htx))
      rcases mem_cons.mp (hperm.mem_iff.mpr hmem) with rfl | hmem
      · exact .inl hwrites.noted
      · exact .inr hmem
    · rename_i hfailed
      exact absurd h (hfailed tables')

end Noted

section Search

variable {env : ChainEnv}

theorem assertOtherSymbols_eq_ok :
    assertOtherSymbols env state sym txHash hashes = .ok () ↔
      ∀ hash ∈ hashes, assertOtherSymbol env state sym txHash hash = .ok () := by
  induction hashes with
  | nil => exact iff_of_true rfl nofun
  | cons first hashes ih =>
    rw [forall_mem_cons, ← ih, assertOtherSymbols, bind_eq_ok]
    exact ⟨fun ⟨_, h⟩ => h, fun h => ⟨(), h⟩⟩

variable {tx : CTransaction}

theorem noteSymbol_eq_ok
    (h : noteSymbol symbols bfxttx = .ok symbols') (hkey : (symbols key).isSome) :
    (symbols' key).isSome := by
  rw [noteSymbol] at h
  split at h
  · obtain ⟨sym, -, h⟩ := bind_eq_ok.mp h
    split at h
    · cases h
    cases h
    rcases eq_or_ne key (toUpper sym) with rfl | hne
    · rw [update_self]
      rfl
    · rwa [update_of_ne hne]
  · cases h
    exact hkey

theorem assertIssuanceUniquenessInBlock_mono
    (h : assertIssuanceUniquenessInBlock env state symbols tx mapQueuedBFXTInputs
      queuedAcceptedTxs = .ok symbols') (hkey : (symbols key).isSome) :
    (symbols' key).isSome := by
  rw [assertIssuanceUniquenessInBlock] at h
  split at h
  · cases h
    exact hkey
  obtain ⟨script, -, h⟩ := bind_eq_ok.mp h
  split at h
  · simp only [bind_eq_ok] at h
    obtain ⟨inputsTxs, -, bfxttx, -, _, -, h⟩ := h
    exact noteSymbol_eq_ok h hkey
  · cases h
    exact hkey

variable (hissues : Issues env.toNodeEnv tx symbol)
include hissues

theorem assertIssuanceUniquenessInBlock_issues
    (h : assertIssuanceUniquenessInBlock env state symbols tx mapQueuedBFXTInputs
      queuedAcceptedTxs = .ok symbols') :
    symbols (toUpper symbol) = none ∧ (symbols' (toUpper symbol)).isSome ∧
      ∀ hash, (toUpper symbol, hash) ∈ state.txdb.tokens.bfxttokenNames →
        assertOtherSymbol env state (toUpper symbol) (env.getHash tx) hash = .ok () := by
  obtain ⟨flags, hissuance, -⟩ := hissues
  obtain ⟨opReturnArg, parsed, amount, htoken, hparsed, htype, hkind⟩ :=
    issuanceOf_eq_some hissuance
  rw [assertIssuanceUniquenessInBlock, htoken] at h
  dsimp only at h
  rw [hparsed, ok_bind, if_pos htype] at h
  simp only [bind_eq_ok] at h
  obtain ⟨inputsTxs, -, bfxttx, hread, _, hsearch, h⟩ := h
  have hfrom := readFrom_of_readBFXTDataFromTx htoken hread
  have hsymbol := getTokenSymbolIfIssuance_of_readFrom hissuance htoken hfrom
  have hissuanceType := type_of_readFrom hissuance htoken hfrom
  rw [noteSymbol, if_pos hissuanceType, hsymbol, ok_bind] at h
  rw [assertBFXTTokenNameIsNotAlreadyInMainChain, hissuanceType] at hsearch
  dsimp only at hsearch
  rw [hsymbol, ok_bind, hfrom.txHash_eq] at hsearch
  dsimp only at h hsearch
  split at h
  · cases h
  rename_i hnew
  cases h
  refine ⟨Option.not_isSome_iff_eq_none.mp hnew, ?_, fun hash hmem => ?_⟩
  · rw [update_self]
    rfl
  · exact assertOtherSymbols_eq_ok.mp hsearch hash (mem_readBFXTTxsWithTokenSymbol hmem)

/-- A noted issuance with the symbol passes the search only if its block does not
count as one of the main chain. -/
theorem isTxInMainChain_of_assertOtherSymbol (hnoted : Noted env.toNodeEnv state.txdb.tokens tx)
    (hne : txHash ≠ env.getHash tx)
    (hfetch : ∀ stored, fetchTxFromDisk env state.committed (env.getHash tx) = .ok stored →
      stored = tx)
    (h : assertOtherSymbol env state (toUpper symbol) txHash (env.getHash tx) = .ok ()) :
    isTxInMainChain env state.memory state.committed (env.getHash tx) = .ok false := by
  obtain ⟨inMainChain, hmain, h⟩ := bind_eq_ok.mp h
  cases inMainChain with
  | false => exact hmain
  | true =>
    rw [if_pos rfl] at h
    obtain ⟨stored, hstored, h⟩ := bind_eq_ok.mp h
    obtain rfl := hfetch stored hstored
    obtain ⟨-, opReturnArg, bfxttx, htoken, hrecord, hread⟩ := hnoted symbol hissues
    obtain ⟨flags, hissuance, hallowed⟩ := hissues
    have hpair : fetchStored env state.txdb.tokens.bfxtTxs stored = (stored, bfxttx) := by
      rw [fetchStored, htoken, Option.isSome_some, if_pos rfl, fetchBFXTTxFromDisk, hrecord]
    rw [hpair] at h
    dsimp only at h
    rw [getTokenSymbolIfIssuance_of_readFrom hissuance htoken hread, ok_bind] at h
    obtain ⟨blacklisted, hblacklisted, h⟩ := bind_eq_ok.mp h
    have hfalse : blacklisted = false := by
      rw [isIssuedTokenBlacklisted] at hblacklisted
      rw [isBlacklisted] at hallowed
      dsimp only at hblacklisted
      split at hblacklisted
      · cases hblacklisted
      rename_i txin vin hvin
      rw [hvin] at hallowed
      dsimp only at hallowed
      rw [getTokenIdIfIssuance, issuanceScript_of_readFrom hissuance htoken hread,
        ok_bind] at hblacklisted
      obtain ⟨tokenId, hid, hblacklisted⟩ := bind_eq_ok.mp hblacklisted
      rw [hid] at hallowed
      rw [← Except.ok.inj hblacklisted]
      exact hallowed
    rw [if_pos ⟨hfalse, rfl, hne⟩] at h
    cases h

omit hissues

end Search

end Bfx.TokenSymbols
