import Bfx.AmountCodec

/-!
Token scripts and their parser. Every parser receives the bytes still to be
read; the callers drop what has been parsed with an unchecked `erase`. Running
totals of parsed bytes are natural numbers.
-/

namespace Bfx.TokenScript

open AmountCodec BitWords CallOutcome HexText

inductive TxType where
  | none
  | issuance
  | transfer
  | burn
  deriving DecidableEq, Repr

inductive AggregationPolicy where
  | aggregatable
  | nonAggregatable
  | unknown
  deriving DecidableEq, Repr

structure TransferInstruction where
  firstRawByte : UInt8
  skipInput : Bool
  outputIndex : Nat
  rawAmount : Bytes
  amount : Nat
  deriving DecidableEq, Repr

structure IssuanceFlags where
  divisibility : Nat
  locked : Bool
  aggregationPolicy : AggregationPolicy
  deriving DecidableEq, Repr

/-- The subclass of a script object with the members the others lack. -/
inductive ScriptKind where
  | issuance (tokenSymbol : Bytes) (amount : Nat) (issuanceFlags : IssuanceFlags)
  | transfer
  | burn
  deriving DecidableEq, Repr

structure ScriptData where
  metadata : Bytes
  transferInstructions : List TransferInstruction
  kind : ScriptKind
  deriving DecidableEq, Repr

structure BFXTScript extends ScriptData where
  parsedScriptHex : String
  headerBin : Bytes
  protocolVersion : Nat
  opCodeBin : Bytes
  txType : TxType
  enableOpReturnSizeCheck : Bool
  deriving DecidableEq, Repr

/-- `s.erase(s.begin(), s.begin() + n)`. -/
def eraseFront (n : Nat) (s : Bytes) : Outcome Bytes :=
  if n ≤ s.length then .ok (s.drop n) else .error (.outOfBounds .scriptBin)

/-- `s.substr(pos, n)`: the position is checked, the count is cut off. -/
def substr (s : Bytes) (pos n : Nat) : Outcome Bytes :=
  if pos ≤ s.length then .ok ((s.drop pos).take n) else raise "basic_string::substr"

/-- `s[i]`: position `s.size()` holds the terminating zero. -/
def charAt (s : Bytes) (i : Nat) : Outcome UInt8 :=
  if i = s.length then .ok 0 else index .scriptBin s i

/-- The conversion `(int)size`. -/
def asInt (size : Nat) : Int := (size : Int).bmod (2 ^ 32)

/-- The bytes of a string put into a message. -/
def rawText (s : Bytes) : String := String.ofList (s.map fun b => Char.ofNat b.toNat)

def isalnum (c : UInt8) : Bool :=
  (48 ≤ c && c ≤ 57) || (65 ≤ c && c ≤ 90) || (97 ≤ c && c ≤ 122)

def isTokenSymbolCharValid (c : UInt8) : Bool := isalnum c

def metadataSizeTable : List (UInt8 × Nat) :=
  [(0x01, 52), (0x02, 20), (0x03, 0), (0x04, 20), (0x05, 0), (0x06, 0),
    (0x10, 52), (0x11, 20), (0x12, 0), (0x13, 20), (0x14, 20), (0x15, 0),
    (0x20, 52), (0x21, 20), (0x22, 0), (0x23, 20), (0x24, 20), (0x25, 0)]

def calculateMetadataSize (opCodeBin : Bytes) : Outcome Nat := do
  if opCodeBin.length > 1 then raise "Too large op_code"
  else
    let char1 ← charAt opCodeBin 0
    match metadataSizeTable.lookup char1 with
    | some size => .ok size
    | none => raise ("Unknown OP_CODE (in hex): " ++ hex opCodeBin)

def calculateTxType (opCodeBin : Bytes) : Outcome TxType := do
  let char1 ← charAt opCodeBin 0
  if char1 ≤ 0x0F then .ok .issuance
  else if char1 ≤ 0x1F then .ok .transfer
  else if char1 ≤ 0x2F then .ok .burn
  else raise ("Unable to parse transaction type with unknown opcode (in hex): " ++ hex opCodeBin)

def calculateTxTypeBFXTv3 (opCodeBin : Bytes) : Outcome TxType := do
  let char1 ← charAt opCodeBin 0
  if char1 = 0x01 then .ok .issuance
  else if char1 = 0x10 then .ok .transfer
  else if char1 = 0x20 then .ok .burn
  else raise ("Unable to parse transaction type (BFXTv3) with unknown opcode (in hex): " ++
    hex opCodeBin)

/-- The amount and the number of bytes it takes. -/
def parseAmountFromLongEnoughString (bin : Bytes) : Outcome (Nat × Nat) := do
  if bin.length < 2 then raise ("Too short a string to be parsed " ++ hex bin)
  else
    let amountSize := calculateAmountSize (← charAt bin 0)
    if asInt bin.length < amountSize then
      raise ("Error parsing script: " ++ rawText bin ++
        "; the amount size is longer than what is available in the script")
    else
      let amount ← bfxtAmountHexToNumber (hex (← substr bin 0 amountSize))
      .ok (amount, amountSize)

/-- A byte `0xFF` says that the opcode goes on. -/
def parseOpCodeFromLongEnoughString : Bytes → Outcome Bytes
  | [] => .ok []
  | c :: rest =>
    if c ≠ 255 then .ok [c]
    else if rest = [] then
      raise ("OpCode's last byte 0xFF indicates that there's more, but " ++
        "there's no more characters in the string.")
    else parseOpCodeFromLongEnoughString rest >>= fun result => .ok (c :: result)

def parseMetadataFromLongEnoughString (bin opCodeBin : Bytes) (wholeScriptHex : String) :
    Outcome Bytes := do
  let metadataSize ← calculateMetadataSize opCodeBin
  if asInt bin.length < metadataSize then
    raise ("Error parsing script" ++
      (if wholeScriptHex.length > 0 then ": " ++ wholeScriptHex else "") ++
      "; the metadata size is longer than what is available in the script")
  else substr bin 0 metadataSize

/-- Value of a four-byte big-endian field. -/
def bigEndianValue (field : Bytes) : Nat := bitsValue (unpack field)

def parseBFXTv3MetadataFromLongEnoughString (bin : Bytes) (wholeScriptHex : String) :
    Outcome Bytes := do
  if bin.length = 0 then .ok []
  else if bin.length < 4 then
    raise ("The data remaining cannot fit metadata start flag, which is 4 bytes: " ++
      hex bin ++ ", starting from " ++ hex bin)
  else
    let metadataSizeStr ← substr bin 0 4
    let scriptBin ← eraseFront metadataSizeStr.length bin
    if scriptBin.length ≠ bigEndianValue metadataSizeStr then
      raise ("The size of the metadata found is not equal to the available size of the data left: "
        ++ wholeScriptHex)
    else .ok scriptBin

def parseTokenSymbolFromLongEnoughString (bin : Bytes) : Outcome Bytes := do
  if asInt bin.length < 0 then
    raise ("Error parsing script (starting at this point a symbol is expected). " ++
      (if bin.length > 0 then ": " ++ rawText bin else "") ++
      "; the token symbol size is longer than what is available in the script")
  else
    let result := (← substr bin 0 5).filter (· != 0x20)
    match result.find? (fun c => !isTokenSymbolCharValid c) with
    | some c =>
      raise ("Invalid token symbol. Token symbols can only contain English letters " ++
        "and numbers. The current name \"" ++ rawText result ++
        "\", has an invalid character: \"" ++ rawText [c] ++ "\"")
    | none =>
      if result.length = 0 then raise "Invalid token symbol; it cannot be empty."
      else .ok result

def instructionFromRaw (firstRawByte : UInt8) (rawAmount : Bytes) (amount : Nat) :
    TransferInstruction :=
  let rawByte := byteBits firstRawByte
  ⟨firstRawByte, rawByte.headD false, bitsValue (rawByte.drop 3), rawAmount, amount⟩

/-- The body of the loops over transfer instructions: the instruction, its size
in bytes and the bytes behind it. -/
def parseTransferInstruction (toParse : Bytes) : Outcome (TransferInstruction × Nat × Bytes) := do
  let firstRawByte ← charAt toParse 0
  let rawAmount ← substr toParse 1 (calculateAmountSize (← charAt toParse 1))
  let rest ← eraseFront (1 + rawAmount.length) toParse
  let amount ← bfxtAmountHexToNumber (hex rawAmount)
  .ok (instructionFromRaw firstRawByte rawAmount amount, 1 + rawAmount.length, rest)

/-- The version-1 loop: it goes on while more than one byte is left. An
instruction has at least two bytes, so the length of the string is fuel enough. -/
def parseInstructionsWhile : Nat → Bytes → Outcome (List TransferInstruction × Nat)
  | 0, _ => .ok ([], 0)
  | fuel + 1, toParse =>
    if toParse.length ≤ 1 then .ok ([], 0)
    else do
      let (transferInst, currentSize, rest) ← parseTransferInstruction toParse
      let (result, totalRawSize) ← parseInstructionsWhile fuel rest
      .ok (transferInst :: result, currentSize + totalRawSize)

def parseTransferInstructionsFromLongEnoughString (bin : Bytes) :
    Outcome (List TransferInstruction × Nat) :=
  parseInstructionsWhile bin.length bin

/-- The version-3 loop, at instruction `i` with `count` instructions to go. -/
def parseInstructionsCounted (i : Nat) : Nat → Bytes → Outcome (List TransferInstruction × Nat)
  | 0, _ => .ok ([], 0)
  | count + 1, toParse =>
    if toParse.length ≤ 1 then
      raise ("Transfer instruction number " ++ toString i ++ " has a size <= 1")
    else do
      let (transferInst, currentSize, rest) ← parseTransferInstruction toParse
      let (result, totalRawSize) ← parseInstructionsCounted (i + 1) count rest
      .ok (transferInst :: result, currentSize + totalRawSize)

def parseBFXTv3TransferInstructionsFromLongEnoughString (bin : Bytes) :
    Outcome (List TransferInstruction × Nat) := do
  if bin.length < 1 then
    raise ("Transfer instructions do not contain the number of transfer " ++
      "instructions in their first byte")
  else
    let numOfTIs := (← charAt bin 0).toNat
    let toParse ← eraseFront 1 bin
    if numOfTIs ≤ 0 then raise "The number of transfer instructions cannot be zero."
    else
      let (result, totalRawSize) ← parseInstructionsCounted 0 numOfTIs toParse
      .ok (result, 1 + totalRawSize)

def parseIssuanceFlag (flags : UInt8) : Outcome IssuanceFlags :=
  let bits := byteBits flags
  let divisibility := bitsValue (bits.take 3)
  let locked := bits.getD 3 false
  match bitsValue ((bits.drop 4).take 2) with
  | 0 => .ok ⟨divisibility, locked, .aggregatable⟩
  | 2 => .ok ⟨divisibility, locked, .nonAggregatable⟩
  | aggrPolicy => raise ("Unknown aggregation policy: " ++ toString aggrPolicy)

/-- No skip instruction is allowed in an issuance script. -/
def ensureNoSkip (transferInstructions : List TransferInstruction) (scriptBin : Bytes) :
    Outcome Unit :=
  if transferInstructions.any (·.skipInput) then
    raise ("An issuance script contained a skip transfer instruction: " ++ hex scriptBin)
  else .ok ()

def parseIssuancePostHeaderData (scriptBin opCodeBin : Bytes) : Outcome ScriptData := do
  let tokenSymbol ← parseTokenSymbolFromLongEnoughString scriptBin
  let scriptBin ← eraseFront 5 scriptBin
  let metadata ← parseMetadataFromLongEnoughString scriptBin opCodeBin ""
  let scriptBin ← eraseFront metadata.length scriptBin
  let (amount, amountRawSize) ← parseAmountFromLongEnoughString scriptBin
  let scriptBin ← eraseFront amountRawSize scriptBin
  let (transferInstructions, totalTransferInstructionsSize) ←
    parseTransferInstructionsFromLongEnoughString scriptBin
  let scriptBin ← eraseFront totalTransferInstructionsSize scriptBin
  ensureNoSkip transferInstructions scriptBin
  if scriptBin.length ≠ 1 then
    raise ("Last expected byte is the issuance flag, but the remaining bytes are: " ++
      hex scriptBin ++ ", starting from " ++ hex scriptBin)
  else
    let issuanceFlags ← parseIssuanceFlag (← checkedAt scriptBin 0)
    .ok ⟨metadata, transferInstructions, .issuance tokenSymbol amount issuanceFlags⟩

/-- The optional metadata at the end of a version-3 script, and the check that
nothing follows it. -/
def parseTrailingMetadata (scriptBin : Bytes) : Outcome Bytes := do
  let metadata ← parseBFXTv3MetadataFromLongEnoughString scriptBin ""
  let scriptBin ← eraseFront (if metadata.length > 0 then metadata.length + 4 else 0) scriptBin
  if scriptBin.length ≠ 0 then
    raise "Garbage data after the metadata (unaccounted for in size)."
  else .ok metadata

def parseBFXTv3IssuancePostHeaderData (scriptBin : Bytes) : Outcome ScriptData := do
  let tokenSymbol ← parseTokenSymbolFromLongEnoughString scriptBin
  let scriptBin ← eraseFront 5 scriptBin
  let (amount, amountRawSize) ← parseAmountFromLongEnoughString scriptBin
  let scriptBin ← eraseFront amountRawSize scriptBin
  let (transferInstructions, totalTransferInstructionsSize) ←
    parseBFXTv3TransferInstructionsFromLongEnoughString scriptBin
  let scriptBin ← eraseFront totalTransferInstructionsSize scriptBin
  ensureNoSkip transferInstructions scriptBin
  if scriptBin.length < 1 then
    raise "The data remaining cannot fit the issuance flags. It is empty."
  else
    let issuanceFlags ← parseIssuanceFlag (← checkedAt scriptBin 0)
    let scriptBin ← eraseFront 1 scriptBin
    let metadata ← parseTrailingMetadata scriptBin
    .ok ⟨metadata, transferInstructions, .issuance tokenSymbol amount issuanceFlags⟩

def parseTransferPostHeaderData (scriptBin opCodeBin : Bytes) : Outcome ScriptData := do
  let metadata ← parseMetadataFromLongEnoughString scriptBin opCodeBin ""
  let scriptBin ← eraseFront metadata.length scriptBin
  let (transferInstructions, totalTransferInstructionsSize) ←
    parseTransferInstructionsFromLongEnoughString scriptBin
  let _ ← eraseFront totalTransferInstructionsSize scriptBin
  .ok ⟨metadata, transferInstructions, .transfer⟩

def parseBFXTv3TransferPostHeaderData (scriptBin : Bytes) : Outcome ScriptData := do
  let (transferInstructions, totalTransferInstructionsSize) ←
    parseBFXTv3TransferInstructionsFromLongEnoughString scriptBin
  let scriptBin ← eraseFront totalTransferInstructionsSize scriptBin
  let metadata ← parseTrailingMetadata scriptBin
  .ok ⟨metadata, transferInstructions, .transfer⟩

/-- The output index that stands for burning. -/
def burnOutputIndex : Nat := 31

/-- The check that closes both burn parsers. -/
def ensureBurns (script : ScriptData) : Outcome ScriptData :=
  if script.transferInstructions.any (·.outputIndex == burnOutputIndex) then
    .ok ⟨script.metadata, script.transferInstructions, .burn⟩
  else
    raise ("A burn transaction was created, but transfer instructions had invalid " ++
      "outputs. At least one of the outputs should have the index 31, " ++
      "indicating the amount to burn.")

def parseBurnPostHeaderData (scriptBin opCodeBin : Bytes) : Outcome ScriptData :=
  parseTransferPostHeaderData scriptBin opCodeBin >>= ensureBurns

def parseBFXTv3BurnPostHeaderData (scriptBin : Bytes) : Outcome ScriptData :=
  parseBFXTv3TransferPostHeaderData scriptBin >>= ensureBurns

def BFXTHexPrefix : String := "4e54"

def parseTxType (protocolVersion : Nat) (opCodeBin : Bytes) (scriptHex : String) :
    Outcome TxType :=
  if protocolVersion = 1 then calculateTxType opCodeBin
  else if protocolVersion = 3 then calculateTxTypeBFXTv3 opCodeBin
  else
    raise ("Unknown protocol version " ++ toString protocolVersion ++ " in script: " ++ scriptHex)

def parsePostHeaderData (txType : TxType) (protocolVersion : Nat)
    (scriptBin opCodeBin : Bytes) (scriptHex : String) : Outcome ScriptData :=
  let unknownVersion : Outcome ScriptData :=
    raise ("Unknown protocol version " ++ toString protocolVersion ++ " in script: " ++ scriptHex)
  match txType with
  | .issuance =>
    if protocolVersion = 1 then parseIssuancePostHeaderData scriptBin opCodeBin
    else if protocolVersion = 3 then parseBFXTv3IssuancePostHeaderData scriptBin
    else unknownVersion
  | .transfer =>
    if protocolVersion = 1 then parseTransferPostHeaderData scriptBin opCodeBin
    else if protocolVersion = 3 then parseBFXTv3TransferPostHeaderData scriptBin
    else unknownVersion
  | .burn =>
    if protocolVersion = 1 then parseBurnPostHeaderData scriptBin opCodeBin
    else if protocolVersion = 3 then parseBFXTv3BurnPostHeaderData scriptBin
    else unknownVersion
  | .none => raise ("Unknown transaction type to parse in script: " ++ scriptHex)

def setCommonParams (script : ScriptData) (header : Bytes) (protocolVersion : Nat)
    (opCodeBin : Bytes) (scriptHex : String) : Outcome BFXTScript :=
  calculateTxType opCodeBin >>= fun txType =>
    .ok ⟨script, scriptHex, header, protocolVersion, opCodeBin, txType, true⟩

/-- The `try` block of `ParseScript`, from the decoded bytes on. -/
def parseScriptBin (scriptBin : Bytes) (scriptHex : String) : Outcome BFXTScript := do
  if scriptBin.length < 3 then raise "Too short script"
  else
    let header ← substr scriptBin 0 3
    let magic ← unhex BFXTHexPrefix
    if (← substr header 0 2) ≠ magic then
      raise ("BFXT script prefix is invalid for " ++ scriptHex)
    else
      let protocolVersion := (← charAt header 2).toNat
      let scriptBin ← eraseFront 3 scriptBin
      let opCodeBin ← parseOpCodeFromLongEnoughString scriptBin
      let txType ← parseTxType protocolVersion opCodeBin scriptHex
      let scriptBin ← eraseFront opCodeBin.length scriptBin
      let script ← parsePostHeaderData txType protocolVersion scriptBin opCodeBin scriptHex
      setCommonParams script header protocolVersion opCodeBin scriptHex

def rethrow (scriptHex : String) : Outcome BFXTScript → Outcome BFXTScript
  | .error (.thrown what) =>
    raise ("Unable to parse hex script: " ++ scriptHex ++ "; reason: " ++ what)
  | result => result

def parseScript (scriptHex : String) : Outcome BFXTScript :=
  rethrow scriptHex (unhex scriptHex >>= fun scriptBin => parseScriptBin scriptBin scriptHex)

end Bfx.TokenScript
