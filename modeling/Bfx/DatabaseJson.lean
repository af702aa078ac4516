import Bfx.MessageDecryption
import Bfx.TokenInputs

/-!
The database form of token transactions: `exportDatabaseJsonData` writes a transaction as a JSON
value and `importDatabaseJsonData` reads it back. Each of the classes of a transaction lists its
own fields in both.
-/

namespace Bfx.DatabaseJson

open CallOutcome HexText List MessageDecryption TokenInputs TokenReading TokenTransaction
  Transaction TransferInterpreter

/-- `uint256::GetHex`, which `ToString` is another name for. -/
def getHex (hash : UInt256) : String :=
  String.ofList ((List.range 64).reverse.map fun i => Nat.digitChar (hash.toNat / 16 ^ i % 16))

def hexNumber (digits : List Char) : Nat :=
  digits.foldl (fun n c => 16 * n + (hexValue c).getD 0) 0

def isSpace (c : Char) : Bool := c = ' ' || (9 ≤ c.toNat && c.toNat ≤ 13)

def skipHexMark : List Char → List Char
  | '0' :: c :: rest => if c.toLower = 'x' then rest else '0' :: c :: rest
  | text => text

/-- `uint256::SetHex`: of a longer text the last digits are kept. -/
def setHex (text : String) : UInt256 :=
  BitVec.ofNat 256
    (hexNumber ((skipHexMark (text.toList.dropWhile isSpace)).takeWhile isHexDigit))

/-- `FromString<BFXTInt>` on a text that starts with its digits. -/
def bfxtIntFromString (text : String) : Nat :=
  Nat.ofDigitChars 10 (text.toList.takeWhile Char.isDigit) 0

theorem bfxtIntFromString_toString (n : Nat) : bfxtIntFromString (toString n) = n := by
  rw [bfxtIntFromString, Nat.toString_eq_ofList_toDigits, String.toList_ofList,
    takeWhile_eq_self_iff.mpr fun c hc =>
      Nat.isDigit_of_mem_toDigits (by decide) (by decide) hc]
  exact Nat.ofDigitChars_ten_toDigits

private theorem digitChar_table :
    ∀ d : Fin 16, hexValue (Nat.digitChar d.val) = some d.val := by
  decide

private theorem mark_table :
    ∀ n : Fin 103, isHexDigit (Char.ofNat n.val) = true →
      isSpace (Char.ofNat n.val) = false ∧ (Char.ofNat n.val).toLower ≠ 'x' := by
  decide

private theorem toNat_lt_of_isHexDigit (hc : isHexDigit c = true) : c.toNat < 103 := by
  have hle : ∀ bound : Char, c ≤ bound → c.toNat ≤ bound.toNat := fun _ h => h
  rw [isHexDigit, hexValue] at hc
  split at hc
  · exact (hle _ ‹_ ∧ _›.2).trans_lt (by decide)
  split at hc
  · exact (hle _ ‹_ ∧ _›.2).trans_lt (by decide)
  split at hc
  · exact (hle _ ‹_ ∧ _›.2).trans_lt (by decide)
  · cases hc

private theorem not_mark_of_isHexDigit (hc : isHexDigit c = true) :
    isSpace c = false ∧ c.toLower ≠ 'x' := by
  have htable := mark_table ⟨c.toNat, toNat_lt_of_isHexDigit hc⟩
  rw [Char.ofNat_toNat] at htable
  exact htable hc

theorem setHex_ofList (hdigits : ∀ c ∈ digits, isHexDigit c = true) :
    setHex (String.ofList digits) = BitVec.ofNat 256 (hexNumber digits) := by
  have hspaces : digits.dropWhile isSpace = digits := by
    cases digits with
    | nil => rfl
    | cons c rest =>
      exact dropWhile_cons_of_neg
        (Bool.eq_false_iff.mp (not_mark_of_isHexDigit (hdigits c mem_cons_self)).1)
  have hmark : skipHexMark digits = digits := by
    fun_cases skipHexMark digits with
    | case1 c rest hx =>
      have hc := hdigits c (mem_cons_of_mem _ mem_cons_self)
      exact absurd hx (not_mark_of_isHexDigit hc).2
    | case2 => rfl
    | case3 => rfl
  rw [setHex, String.toList_ofList, hspaces, hmark, takeWhile_eq_self_iff.mpr hdigits]

theorem hexNumber_digits (n k : Nat) :
    hexNumber ((List.range k).reverse.map fun i => Nat.digitChar (n / 16 ^ i % 16)) =
      n % 16 ^ k := by
  have hfold : ∀ start, ((List.range k).reverse.map fun i =>
      Nat.digitChar (n / 16 ^ i % 16)).foldl (fun n c => 16 * n + (hexValue c).getD 0) start =
        start * 16 ^ k + n % 16 ^ k := by
    induction k with
    | zero => intro start; simp [Nat.mod_one]
    | succ k ih =>
      intro start
      have hdigit : n / 16 ^ k % 16 < 16 := Nat.mod_lt _ (by decide)
      rw [range_succ, reverse_append, reverse_singleton, singleton_append,
        map_cons, foldl_cons, ih, digitChar_table ⟨_, hdigit⟩, Option.getD_some,
        Nat.mod_pow_succ, Nat.pow_succ]
      ring
  rw [hexNumber, hfold, Nat.zero_mul, Nat.zero_add]

theorem setHex_getHex (hash : UInt256) : setHex (getHex hash) = hash := by
  rw [getHex, setHex_ofList, hexNumber_digits]
  · rw [Nat.mod_eq_of_lt (hash.isLt.trans_le (by decide)), BitVec.ofNat_toNat, BitVec.setWidth_eq]
  intro c hc
  obtain ⟨i, -, rfl⟩ := mem_map.mp hc
  rw [isHexDigit, digitChar_table ⟨_, Nat.mod_lt _ (by decide)⟩]
  rfl

def typeName : JsonValue → String
  | .obj _ => "obj"
  | .array _ => "array"
  | .str _ => "str"
  | .bool _ => "bool"
  | .int _ => "int"
  | .real => "real"
  | .null => "null"

def wrongType {α : Type} (value : JsonValue) (expected : String) : Outcome α :=
  raise ("value is type " ++ typeName value ++ ", expected " ++ expected)

def getObj : JsonValue → Outcome JsonObject
  | .obj object => .ok object
  | value => wrongType value "obj"

def getArray : JsonValue → Outcome (List JsonValue)
  | .array values => .ok values
  | value => wrongType value "array"

def getStr : JsonValue → Outcome String
  | .str text => .ok text
  | value => wrongType value "str"

def getBool : JsonValue → Outcome Bool
  | .bool b => .ok b
  | value => wrongType value "bool"

/-- A number is held as an `int64_t`, whichever type it was made from. -/
def getUint64 : JsonValue → Outcome Nat
  | .int n => .ok (n % 2 ^ 64).toNat
  | value => wrongType value "int"

def getStrField (object : JsonObject) (name : String) : Outcome String :=
  getStr (findValue object name)

def getBoolField (object : JsonObject) (name : String) : Outcome Bool :=
  getBool (findValue object name)

def getUint64Field (object : JsonObject) (name : String) : Outcome Nat :=
  getUint64 (findValue object name)

def getBFXTIntField (object : JsonObject) (name : String) : Outcome Nat := do
  let text ← getStr (findValue object name)
  .ok (bfxtIntFromString text)

def getArrayField (object : JsonObject) (name : String) : Outcome (List JsonValue) :=
  getArray (findValue object name)

def getObjectField (object : JsonObject) (name : String) : Outcome JsonObject :=
  getObj (findValue object name)

/-- The value made from an `uint64_t`. -/
def uint64Value (n : Nat) : JsonValue := .int (toInt64 n)

/-- `BFXTTxIn` with the member that only its database form and its comparison read. -/
structure WholeTxIn extends BFXTTxIn where
  nSequence : Nat

structure WholeTxOut extends BFXTTxOut where
  address : String

structure WholeTransaction where
  nVersion : Int
  txHash : UInt256
  txSerialized : Bytes
  vin : List WholeTxIn
  vout : List WholeTxOut
  nLockTime : Nat
  nTime : Nat
  bfxtTransactionType : BFXTTransactionType

def WholeTransaction.toBFXTTransaction (self : WholeTransaction) : BFXTTransaction :=
  ⟨self.txHash, self.vin.map (·.toBFXTTxIn), self.vout.map (·.toBFXTTxOut), self.nLockTime,
    self.nTime, self.bfxtTransactionType⟩

/-- The transaction of the default constructor, where `time` is what the clock gives. -/
def newTransaction (time : Nat) : WholeTransaction := ⟨1, 0, [], [], [], 0, time, .notBFXT⟩

/-- `readBFXTDataFromTx` with the other members: the inputs are made by `setNull`, and the address
of an output is what `addressOf` finds in its script. -/
def readWholeTransaction (env : NodeEnv) (addressOf : Bytes → String) (self : WholeTransaction)
    (tx : CTransaction) (inputsTxs : List InputPair) : Outcome WholeTransaction :=
  if isBFXTTxExcluded (env.getHash tx) then .ok self
  else do
    let read ← readBFXTDataFromTx env self.toBFXTTransaction tx inputsTxs
    .ok { self with
      txHash := read.txHash
      vin := read.vin.map fun txin => ⟨txin, 0⟩
      vout := List.zipWith (fun txout source => ⟨txout, addressOf source.scriptPubKey⟩)
        read.vout tx.vout
      nLockTime := read.nLockTime
      nTime := read.nTime
      bfxtTransactionType := read.bfxtTransactionType }

def exportToken (self : BFXTTokenTxData) : JsonValue :=
  .obj [("tokenId", .str self.tokenId), ("issueTxid", .str (getHex self.issueTxId)),
    ("amount", .str (toString self.amount)),
    ("divisibility", uint64Value self.divisibility),
    ("lockStatus", .bool self.lockStatus),
    ("aggregationPolicy", .str self.aggregationPolicy)]

def exportOutPoint (self : COutPoint) : JsonObject :=
  [("hash", .str (getHex self.hash)), ("index", uint64Value self.n)]

def WholeTxIn.exportDatabaseJsonData (self : WholeTxIn) : JsonValue :=
  .obj [("prevout", .obj (exportOutPoint self.prevout)), ("scriptSig", .str self.scriptSigHex),
    ("sequence", uint64Value self.nSequence),
    ("tokens", .array (self.tokens.map exportToken))]

def WholeTxOut.exportDatabaseJsonData (self : WholeTxOut) : JsonValue :=
  .obj [("value", .int self.nValue), ("scriptPubKey", .str self.scriptPubKeyHex),
    ("scriptPubKeyAsm", .str self.scriptPubKeyAsm),
    ("address", .str self.address),
    ("tokens", .array (self.tokens.map exportToken))]

def WholeTransaction.exportDatabaseJsonData (self : WholeTransaction) : JsonValue :=
  .obj [("version", .int self.nVersion), ("txid", .str (getHex self.txHash)),
    ("locktime", uint64Value self.nLockTime),
    ("time", uint64Value self.nTime),
    ("hex", .str (hex self.txSerialized)),
    ("vin", .array (self.vin.map (·.exportDatabaseJsonData))),
    ("vout", .array (self.vout.map (·.exportDatabaseJsonData)))]

/-- A token that `resize` makes. -/
def newToken : BFXTTokenTxData := ⟨"", 0, 0, 0, false, "", []⟩

def importToken (self : BFXTTokenTxData) (data : JsonValue) : Outcome BFXTTokenTxData := do
  let object ← getObj data
  let tokenId ← getStrField object "tokenId"
  let issueTxId ← getStrField object "issueTxid"
  let amount ← getBFXTIntField object "amount"
  let divisibility ← getUint64Field object "divisibility"
  let lockStatus ← getBoolField object "lockStatus"
  let aggregationPolicy ← getStrField object "aggregationPolicy"
  .ok ⟨tokenId, amount, setHex issueTxId, divisibility, lockStatus, aggregationPolicy,
    self.tokenSymbol⟩

def importOutPoint (object : JsonObject) : Outcome COutPoint := do
  let index ← getUint64Field object "index"
  let hash ← getStrField object "hash"
  .ok ⟨setHex hash, index % 2 ^ 32⟩

def importTxIn (data : JsonValue) : Outcome WholeTxIn := do
  let object ← getObj data
  let prevout ← getObjectField object "prevout" >>= importOutPoint
  let scriptSigHex ← getStrField object "scriptSig"
  let nSequence ← getUint64Field object "sequence"
  let tokensList ← getArrayField object "tokens"
  let tokens ← tokensList.mapM (importToken newToken)
  .ok ⟨⟨prevout, scriptSigHex, tokens⟩, nSequence⟩

def importTxOut (data : JsonValue) : Outcome WholeTxOut := do
  let object ← getObj data
  let nValue ← getUint64Field object "value"
  let scriptPubKeyHex ← getStrField object "scriptPubKey"
  let scriptPubKeyAsm ← getStrField object "scriptPubKeyAsm"
  let address ← getStrField object "address"
  let tokensList ← getArrayField object "tokens"
  let tokens ← tokensList.mapM (importToken newToken)
  .ok ⟨⟨toInt64 nValue, scriptPubKeyHex, scriptPubKeyAsm, tokens⟩, address⟩

def WholeTransaction.importDatabaseJsonData (self : WholeTransaction) (data : JsonValue) :
    Outcome WholeTransaction := do
  let object ← getObj data
  let nVersion ← getUint64Field object "version"
  let txHash ← getStrField object "txid"
  let nLockTime ← getUint64Field object "locktime"
  let nTime ← getUint64Field object "time"
  let txSerialized ← getStrField object "hex" >>= unhex
  let vinList ← getArrayField object "vin"
  let vin ← vinList.mapM importTxIn
  let voutList ← getArrayField object "vout"
  let vout ← voutList.mapM importTxOut
  -- neither `setNull` nor a field of the object sets the type
  .ok { self with
    nVersion := Int.bmod nVersion (2 ^ 32)
    txHash := setHex txHash
    nLockTime := nLockTime
    nTime := nTime
    txSerialized := txSerialized
    vin := vin
    vout := vout }

/-- The comparison of tokens, which leaves the symbol out. -/
def equalTokens (lhs rhs : BFXTTokenTxData) : Bool :=
  lhs.tokenId == rhs.tokenId && lhs.amount == rhs.amount && lhs.issueTxId == rhs.issueTxId &&
    lhs.divisibility == rhs.divisibility && lhs.lockStatus == rhs.lockStatus &&
    lhs.aggregationPolicy == rhs.aggregationPolicy

def equalTxIns (lhs rhs : WholeTxIn) : Bool :=
  lhs.prevout == rhs.prevout && lhs.scriptSigHex == rhs.scriptSigHex &&
    lhs.nSequence == rhs.nSequence && lhs.tokens.isEqv rhs.tokens equalTokens

def equalTxOuts (lhs rhs : WholeTxOut) : Bool :=
  lhs.nValue == rhs.nValue && lhs.scriptPubKeyHex == rhs.scriptPubKeyHex &&
    lhs.scriptPubKeyAsm == rhs.scriptPubKeyAsm && lhs.tokens.isEqv rhs.tokens equalTokens &&
    lhs.address == rhs.address

/-- `operator==`. -/
def WholeTransaction.equals (lhs rhs : WholeTransaction) : Bool :=
  lhs.nVersion == rhs.nVersion && lhs.txHash == rhs.txHash &&
    lhs.txSerialized == rhs.txSerialized && lhs.vin.isEqv rhs.vin equalTxIns &&
    lhs.vout.isEqv rhs.vout equalTxOuts && lhs.nLockTime == rhs.nLockTime &&
    lhs.nTime == rhs.nTime && lhs.bfxtTransactionType == rhs.bfxtTransactionType

/-- The symbols of the tokens, input by input and output by output. -/
def WholeTransaction.symbols (self : WholeTransaction) : List (List Bytes) :=
  self.vin.map (fun txin => txin.tokens.map (·.tokenSymbol)) ++
    self.vout.map (fun txout => txout.tokens.map (·.tokenSymbol))

theorem getUint64Field_of_uint64 (hfield : findValue object name = uint64Value n) (hn : n < 2 ^ 64)
    :
    getUint64Field object name = .ok n := by
  have hvalue : toInt64 n % 2 ^ 64 = n :=
    Int.bmod_emod.trans (Int.emod_eq_of_lt (Int.natCast_nonneg n) (by exact_mod_cast hn))
  rw [getUint64Field, hfield, uint64Value, getUint64, hvalue, Int.toNat_natCast]

theorem getUint64Field_of_int (hfield : findValue object name = .int n) :
    getUint64Field object name = .ok (n % 2 ^ 64).toNat := by
  rw [getUint64Field, hfield, getUint64]

theorem bmod_of_uint64 {n : Int} {m : Nat} (hm : m ∣ 2 ^ 64) (hlow : -m ≤ n * 2)
    (hhigh : n * 2 < m) : Int.bmod (n % 2 ^ 64).toNat m = n := by
  have hdvd : (m : Int) ∣ 2 ^ 64 := by exact_mod_cast hm
  rw [Int.toNat_of_nonneg (Int.emod_nonneg _ (by decide)), ← Int.emod_bmod,
    Int.emod_emod_of_dvd _ hdvd, Int.emod_bmod]
  exact Int.bmod_eq_of_le_mul_two hlow hhigh

def FitsToken (token : BFXTTokenTxData) : Prop := token.divisibility < 2 ^ 64

/-- What the database form keeps of a token. -/
def withoutSymbol (token : BFXTTokenTxData) : BFXTTokenTxData :=
  { token with tokenSymbol := newToken.tokenSymbol }

theorem importToken_exportToken (hfits : FitsToken token) :
    importToken newToken (exportToken token) = .ok (withoutSymbol token) := by
  refine bind_eq_ok.mpr ⟨_, rfl, ?_⟩
  refine bind_eq_ok.mpr ⟨token.tokenId, rfl, ?_⟩
  refine bind_eq_ok.mpr ⟨getHex token.issueTxId, rfl, ?_⟩
  refine bind_eq_ok.mpr ⟨token.amount, ?_, ?_⟩
  · refine bind_eq_ok.mpr ⟨toString token.amount, rfl, ?_⟩
    rw [bfxtIntFromString_toString]
  refine bind_eq_ok.mpr ⟨token.divisibility, getUint64Field_of_uint64 rfl hfits, ?_⟩
  refine bind_eq_ok.mpr ⟨token.lockStatus, rfl, ?_⟩
  refine bind_eq_ok.mpr ⟨token.aggregationPolicy, rfl, ?_⟩
  rw [setHex_getHex]
  rfl

theorem importTokens_exportTokens {tokens : List BFXTTokenTxData}
    (hfits : ∀ token ∈ tokens, FitsToken token) :
    (tokens.map exportToken).mapM (importToken newToken) = .ok (tokens.map withoutSymbol) :=
  mapM_eq_ok.mpr <| forall₂_map_left_iff.mpr <| forall₂_map_right_iff.mpr <|
    forall₂_same.mpr fun token htoken => importToken_exportToken (hfits token htoken)

structure WholeTxIn.Fits (txin : WholeTxIn) : Prop where
  index : txin.prevout.n < 2 ^ 32
  sequence : txin.nSequence < 2 ^ 64
  tokens : ∀ token ∈ txin.tokens, FitsToken token

def WholeTxIn.withoutSymbols (txin : WholeTxIn) : WholeTxIn :=
  { txin with tokens := txin.tokens.map withoutSymbol }

theorem importOutPoint_exportOutPoint (hindex : prevout.n < 2 ^ 32) :
    importOutPoint (exportOutPoint prevout) = .ok prevout := by
  have hindex' : prevout.n < 2 ^ 64 := hindex.trans (by decide)
  refine bind_eq_ok.mpr ⟨prevout.n, getUint64Field_of_uint64 rfl hindex', ?_⟩
  refine bind_eq_ok.mpr ⟨getHex prevout.hash, rfl, ?_⟩
  rw [setHex_getHex, Nat.mod_eq_of_lt hindex]

theorem importTxIn_export {txin : WholeTxIn} (hfits : txin.Fits) :
    importTxIn txin.exportDatabaseJsonData = .ok txin.withoutSymbols := by
  refine bind_eq_ok.mpr ⟨_, rfl, ?_⟩
  refine bind_eq_ok.mpr ⟨txin.prevout, bind_eq_ok.mpr ⟨exportOutPoint txin.prevout, rfl,
    importOutPoint_exportOutPoint hfits.index⟩, ?_⟩
  refine bind_eq_ok.mpr ⟨txin.scriptSigHex, rfl, ?_⟩
  refine bind_eq_ok.mpr ⟨txin.nSequence, getUint64Field_of_uint64 rfl hfits.sequence, ?_⟩
  refine bind_eq_ok.mpr ⟨_, rfl, ?_⟩
  exact bind_eq_ok.mpr ⟨_, importTokens_exportTokens hfits.tokens, rfl⟩

structure WholeTxOut.Fits (txout : WholeTxOut) : Prop where
  value_ge : -2 ^ 63 ≤ txout.nValue
  value_lt : txout.nValue < 2 ^ 63
  tokens : ∀ token ∈ txout.tokens, FitsToken token

def WholeTxOut.withoutSymbols (txout : WholeTxOut) : WholeTxOut :=
  { txout with tokens := txout.tokens.map withoutSymbol }

theorem importTxOut_export {txout : WholeTxOut} (hfits : txout.Fits) :
    importTxOut txout.exportDatabaseJsonData = .ok txout.withoutSymbols := by
  refine bind_eq_ok.mpr ⟨_, rfl, ?_⟩
  refine bind_eq_ok.mpr ⟨_, getUint64Field_of_int rfl, ?_⟩
  refine bind_eq_ok.mpr ⟨txout.scriptPubKeyHex, rfl, ?_⟩
  refine bind_eq_ok.mpr ⟨txout.scriptPubKeyAsm, rfl, ?_⟩
  refine bind_eq_ok.mpr ⟨txout.address, rfl, ?_⟩
  refine bind_eq_ok.mpr ⟨_, rfl, ?_⟩
  refine bind_eq_ok.mpr ⟨_, importTokens_exportTokens hfits.tokens, ?_⟩
  have hvalue : toInt64 (txout.nValue % 2 ^ 64).toNat = txout.nValue :=
    bmod_of_uint64 (dvd_refl _) (by have := hfits.value_ge; omega)
      (by have := hfits.value_lt; omega)
  rw [hvalue]
  rfl

structure WholeTransaction.Fits (x : WholeTransaction) : Prop where
  version_ge : -2 ^ 31 ≤ x.nVersion
  version_lt : x.nVersion < 2 ^ 31
  lockTime : x.nLockTime < 2 ^ 64
  time : x.nTime < 2 ^ 64
  vin : ∀ txin ∈ x.vin, txin.Fits
  vout : ∀ txout ∈ x.vout, txout.Fits

/-- What comes back from the database form: all but the symbols of the tokens and the type of the
transaction, which stays that of the object. -/
theorem importDatabaseJsonData_export (self : WholeTransaction) {x : WholeTransaction}
    (hfits : x.Fits) :
    self.importDatabaseJsonData x.exportDatabaseJsonData =
      .ok { x with
        vin := x.vin.map WholeTxIn.withoutSymbols
        vout := x.vout.map WholeTxOut.withoutSymbols
        bfxtTransactionType := self.bfxtTransactionType } := by
  have hvin : (x.vin.map (·.exportDatabaseJsonData)).mapM importTxIn =
      .ok (x.vin.map WholeTxIn.withoutSymbols) :=
    mapM_eq_ok.mpr <| forall₂_map_left_iff.mpr <| forall₂_map_right_iff.mpr <|
      forall₂_same.mpr fun txin htxin => importTxIn_export (hfits.vin txin htxin)
  have hvout : (x.vout.map (·.exportDatabaseJsonData)).mapM importTxOut =
      .ok (x.vout.map WholeTxOut.withoutSymbols) :=
    mapM_eq_ok.mpr <| forall₂_map_left_iff.mpr <| forall₂_map_right_iff.mpr <|
      forall₂_same.mpr fun txout htxout => importTxOut_export (hfits.vout txout htxout)
  refine bind_eq_ok.mpr ⟨_, rfl, ?_⟩
  refine bind_eq_ok.mpr ⟨_, getUint64Field_of_int rfl, ?_⟩
  refine bind_eq_ok.mpr ⟨getHex x.txHash, rfl, ?_⟩
  refine bind_eq_ok.mpr ⟨x.nLockTime, getUint64Field_of_uint64 rfl hfits.lockTime, ?_⟩
  refine bind_eq_ok.mpr ⟨x.nTime, getUint64Field_of_uint64 rfl hfits.time, ?_⟩
  refine bind_eq_ok.mpr ⟨x.txSerialized, unhex_hex _, ?_⟩
  refine bind_eq_ok.mpr ⟨_, rfl, ?_⟩
  refine bind_eq_ok.mpr ⟨_, hvin, ?_⟩
  refine bind_eq_ok.mpr ⟨_, rfl, ?_⟩
  refine bind_eq_ok.mpr ⟨_, hvout, ?_⟩
  have hversion : Int.bmod (x.nVersion % 2 ^ 64).toNat (2 ^ 32) = x.nVersion :=
    bmod_of_uint64 (by decide) (by have := hfits.version_ge; omega)
      (by have := hfits.version_lt; omega)
  rw [hversion, setHex_getHex]

section Restoring

variable {env : NodeEnv} {tx : CTransaction} {inputsTxs : List InputPair} {x : WholeTransaction}
  {addressOf : Bytes → String}

theorem isEqv_refl {eqv : α → α → Bool} (heqv : ∀ a, eqv a a = true) (l : List α) :
    l.isEqv l eqv = true := by
  induction l with
  | nil => rfl
  | cons a l ih => rw [List.isEqv, heqv, ih, Bool.true_and]

theorem equals_refl (x : WholeTransaction) : x.equals x = true := by
  have htokens : ∀ tokens : List BFXTTokenTxData, tokens.isEqv tokens equalTokens = true :=
    isEqv_refl fun token => by simp [equalTokens]
  have hvin : x.vin.isEqv x.vin equalTxIns = true :=
    isEqv_refl (fun txin => by simp [equalTxIns, htokens]) _
  have hvout : x.vout.isEqv x.vout equalTxOuts = true :=
    isEqv_refl (fun txout => by simp [equalTxOuts, htokens]) _
  simp [WholeTransaction.equals, hvin, hvout]

structure WholeTransaction.Plain (x : WholeTransaction) : Prop where
  vin : ∀ txin ∈ x.vin, txin.tokens = []
  vout : ∀ txout ∈ x.vout, txout.tokens = []
  type : x.bfxtTransactionType = .notBFXT

theorem WholeTransaction.Plain.restored (hplain : x.Plain) (hfits : x.Fits) (time : Nat) :
    (newTransaction time).importDatabaseJsonData x.exportDatabaseJsonData = .ok x := by
  have hvin : x.vin.map WholeTxIn.withoutSymbols = x.vin := by
    refine (map_congr_left fun txin htxin => ?_).trans (map_id _)
    rw [WholeTxIn.withoutSymbols, hplain.vin txin htxin, map_nil, ← hplain.vin txin htxin]
    rfl
  have hvout : x.vout.map WholeTxOut.withoutSymbols = x.vout := by
    refine (map_congr_left fun txout htxout => ?_).trans (map_id _)
    rw [WholeTxOut.withoutSymbols, hplain.vout txout htxout, map_nil, ← hplain.vout txout htxout]
    rfl
  rw [importDatabaseJsonData_export _ hfits, hvin, hvout]
  show Except.ok { x with bfxtTransactionType := .notBFXT } = _
  rw [← hplain.type]

/-- The widths of the members of a transaction. -/
structure InWidths (tx : CTransaction) : Prop where
  index : ∀ txin ∈ tx.vin, txin.prevout.n < 2 ^ 32
  value_ge : ∀ txout ∈ tx.vout, -2 ^ 63 ≤ txout.nValue
  value_lt : ∀ txout ∈ tx.vout, txout.nValue < 2 ^ 63

structure ReadsPlain (addressOf : Bytes → String) (time : Nat) (tx : CTransaction)
    (x : WholeTransaction) : Prop where
  version : x.nVersion = 1
  lockTime : x.nLockTime = 0
  time : x.nTime = time
  type : x.bfxtTransactionType = .notBFXT
  vin : ∀ txin ∈ x.vin, ∃ source ∈ tx.vin, txin = ⟨readTxIn source, 0⟩
  vout : ∀ txout ∈ x.vout, ∃ source ∈ tx.vout,
    txout = ⟨readTxOut source, addressOf source.scriptPubKey⟩

theorem readsPlain (hnone : isTxBFXT env tx = none)
    (hread : readWholeTransaction env addressOf (newTransaction time) tx inputsTxs = .ok x) :
    ReadsPlain addressOf time tx x := by
  rw [readWholeTransaction] at hread
  split at hread
  · cases hread
    exact ⟨rfl, rfl, rfl, rfl, nofun, nofun⟩
  rename_i hincluded
  rw [readBFXTDataFromTx, if_neg hincluded, hnone] at hread
  cases hread
  refine ⟨rfl, rfl, rfl, rfl, fun txin htxin => ?_, fun txout htxout => ?_⟩
  · obtain ⟨_, hmem, rfl⟩ := mem_map.mp htxin
    obtain ⟨source, hsource, rfl⟩ := mem_map.mp hmem
    exact ⟨source, hsource, rfl⟩
  dsimp only [readBFXTDataFromTxMinimal] at htxout
  rw [zipWith_map_left, zipWith_self] at htxout
  obtain ⟨source, hsource, rfl⟩ := mem_map.mp htxout
  exact ⟨source, hsource, rfl⟩

theorem ReadsPlain.fits {time : Nat} (hreads : ReadsPlain addressOf time tx x)
    (htime : time < 2 ^ 64) (hwidths : InWidths tx) : x.Fits where
  version_ge := by rw [hreads.version]; decide
  version_lt := by rw [hreads.version]; decide
  lockTime := by rw [hreads.lockTime]; decide
  time := by rwa [hreads.time]
  vin txin htxin := by
    obtain ⟨source, hsource, rfl⟩ := hreads.vin txin htxin
    exact ⟨hwidths.index source hsource, Nat.two_pow_pos 64, nofun⟩
  vout txout htxout := by
    obtain ⟨source, hsource, rfl⟩ := hreads.vout txout htxout
    exact ⟨hwidths.value_ge source hsource, hwidths.value_lt source hsource, nofun⟩

theorem ReadsPlain.plain {time : Nat} (hreads : ReadsPlain addressOf time tx x) : x.Plain where
  vin txin htxin := by
    obtain ⟨_, -, rfl⟩ := hreads.vin txin htxin
    rfl
  vout txout htxout := by
    obtain ⟨_, -, rfl⟩ := hreads.vout txout htxout
    rfl
  type := hreads.type

/-- The database form gives back what was read exactly for the transactions that carry no token
script: of the others the type and the symbols of the tokens are lost. -/
theorem importDatabaseJsonData_restores_iff (env : NodeEnv) (addressOf : Bytes → String)
    (time time' : Nat) (htime : time < 2 ^ 64) (tx : CTransaction) (hwidths : InWidths tx)
    (inputsTxs : List InputPair) (x : WholeTransaction)
    (hread : readWholeTransaction env addressOf (newTransaction time) tx inputsTxs = .ok x) :
    (∃ y, (newTransaction time').importDatabaseJsonData x.exportDatabaseJsonData = .ok y ∧
      y.equals x = true ∧ y.symbols = x.symbols) ↔ isTxBFXT env tx = none := by
  constructor
  · rintro ⟨y, himport, hequals, -⟩
    by_contra htoken
    have htype : y.bfxtTransactionType = x.bfxtTransactionType := by
      simp only [WholeTransaction.equals, Bool.and_eq_true, beq_iff_eq] at hequals
      exact hequals.2
    iterate 10 obtain ⟨_, -, himport⟩ := bind_eq_ok.mp himport
    obtain rfl := Except.ok.inj himport
    rw [readWholeTransaction] at hread
    split at hread
    · rename_i hexcluded
      exact htoken (if_pos hexcluded)
    obtain ⟨result, hresult, hx⟩ := bind_eq_ok.mp hread
    cases hx
    obtain ⟨opReturnArg, harg⟩ := Option.ne_none_iff_exists'.mp htoken
    rw [readBFXTDataFromTx_of_token _ inputsTxs harg] at hresult
    obtain ⟨_, _, _, _, -, -, -, hexecute⟩ := readTokenScript_eq_ok hresult
    obtain ⟨-, -, hkept, -⟩ := executeScript_keeps hexecute
    have hkind : result.bfxtTransactionType = .notBFXT := htype.symm
    simp [hkind] at hkept
  intro hnone
  have hreads := readsPlain hnone hread
  exact ⟨x, hreads.plain.restored (hreads.fits htime hwidths) time', equals_refl x, rfl⟩

def copied (env : NodeEnv) (tx : CTransaction) (inputsTxs : List InputPair) :
    Outcome (WholeTransaction × WholeTransaction) := do
  let x ← readWholeTransaction env (fun _ => "") (newTransaction 0) tx inputsTxs
  let y ← (newTransaction 0).importDatabaseJsonData x.exportDatabaseJsonData
  .ok (x, y)

/-- An issuance loses its type and the symbols of its tokens. -/
theorem importDatabaseJsonData_loses_issuance :
    ∃ x y, copied timeEnv (issuingTx 3 0) [fundingTx] = .ok (x, y) ∧ y.equals x = false ∧
      x.symbols = [[], [[0x41, 0x42, 0x43, 0x44, 0x45]], [[0x41, 0x42, 0x43, 0x44, 0x45]]] ∧
      y.symbols = [[], [[]], [[]]] := by
  obtain ⟨⟨x, y⟩, hcopied, hx, hy, hsymbols⟩ :=
    @exists_of_toOption _ _ (copied timeEnv (issuingTx 3 0) [fundingTx])
      (fun pair => pair.1.bfxtTransactionType = .issuance ∧
        pair.2.bfxtTransactionType = .notBFXT ∧
        pair.1.symbols = [[], [[0x41, 0x42, 0x43, 0x44, 0x45]],
          [[0x41, 0x42, 0x43, 0x44, 0x45]]] ∧ pair.2.symbols = [[], [[]], [[]]])
      inferInstance (by decide +kernel)
  refine ⟨x, y, hcopied, ?_, hsymbols⟩
  rw [WholeTransaction.equals, hx, hy]
  exact Bool.and_false _

theorem importDatabaseJsonData_restores_fundingTx :
    ∃ x, readWholeTransaction timeEnv (fun _ => "") (newTransaction 0) fundingTx.1 [] = .ok x ∧
      isTxBFXT timeEnv fundingTx.1 = none ∧
      ((∃ y, (newTransaction 0).importDatabaseJsonData x.exportDatabaseJsonData = .ok y ∧
        y.equals x = true ∧ y.symbols = x.symbols) ↔ isTxBFXT timeEnv fundingTx.1 = none) := by
  obtain ⟨x, hread⟩ : ∃ x, readWholeTransaction timeEnv (fun _ => "") (newTransaction 0)
      fundingTx.1 [] = .ok x := ⟨_, rfl⟩
  have hwidths : InWidths fundingTx.1 := ⟨by decide, by decide, by decide⟩
  exact ⟨x, hread, by decide, importDatabaseJsonData_restores_iff timeEnv _ 0 0 (by decide) _
    hwidths [] x hread⟩

end Restoring

end Bfx.DatabaseJson
