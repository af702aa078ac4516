import Bfx.ParserSafety

/-!
Construction of token scripts, and what the parser makes of the result.
Compression of the metadata is a parameter.
-/

namespace Bfx.ScriptCreation

open AmountCodec BitWords CallOutcome HexText List ParserSafety TokenScript

variable {amount : Nat} {bytes metadata symbol : Bytes}
  {instrs : List TransferInstruction}

def transferInstructionToBinScript (inst : TransferInstruction) : Outcome Bytes := do
  let amountStr ← numberToHexBFXTAmount inst.amount false
  let outputIndexBits := (byteBits (UInt8.ofNat inst.outputIndex)).drop 3
  let allStr := inst.skipInput :: false :: false :: outputIndexBits
  let amount ← unhex amountStr
  .ok (bitsByte allStr :: amount)

def transferInstructionsToBin : List TransferInstruction → Outcome Bytes
  | [] => .ok []
  | ti :: tis => do
    let front ← transferInstructionToBinScript ti
    let back ← transferInstructionsToBin tis
    .ok (front ++ back)

def countedInstructionsToBin (transferInstructions : List TransferInstruction) :
    Outcome Bytes := do
  if transferInstructions.length > 0xff then
    raise "The number of transfer instructions exceeded the allowed maximum, 255"
  else
    let instructions ← transferInstructionsToBin transferInstructions
    .ok (UInt8.ofNat transferInstructions.length :: instructions)

def bigEndianField (n : Nat) : Bytes :=
  [UInt8.ofNat (n / 2 ^ 24), UInt8.ofNat (n / 2 ^ 16), UInt8.ofNat (n / 2 ^ 8), UInt8.ofNat n]

def metadataField (metadata : Bytes) : Bytes :=
  if metadata.length > 0 then bigEndianField metadata.length ++ metadata else []

def createProcessTokenSymbol (symbol : Bytes) : Outcome Bytes :=
  if symbol.length > 5 then raise "Symbol cannot be more than 5 characters"
  else .ok (symbol ++ List.replicate (5 - symbol.length) 0x20)

def convertToByte (flags : IssuanceFlags) : Outcome UInt8 :=
  if flags.divisibility > 7 then raise "Divisibility cannot be larger than 7"
  else
    let divisibilityBits := (byteBits (UInt8.ofNat flags.divisibility)).drop 5
    match flags.aggregationPolicy with
    | .aggregatable =>
      .ok (bitsByte (divisibilityBits ++ [flags.locked, false, false, false, false]))
    | .nonAggregatable =>
      .ok (bitsByte (divisibilityBits ++ [flags.locked, true, false, false, false]))
    | .unknown => raise "Unknown aggregation policy:2"

/-- The check against `DataSize()` that closes every version-3 script. -/
def ensureDataSize (dataSize : Nat) (script : BFXTScript) (result : Bytes) : Outcome Bytes :=
  if script.enableOpReturnSizeCheck ∧ result.length > dataSize then
    raise ("Calculated script size (" ++ toString result.length ++
      " bytes) is larger than the maximum allowed (" ++ toString dataSize ++ " bytes)")
  else .ok result

def calculateIssuanceScriptBin (dataSize : Nat) (script : BFXTScript)
    (tokenSymbol : Bytes) (amount : Nat) (issuanceFlags : IssuanceFlags) : Outcome Bytes := do
  if script.protocolVersion = 1 then
    let symbol ← createProcessTokenSymbol tokenSymbol
    let amount ← unhex (← numberToHexBFXTAmount amount false)
    let instructions ← transferInstructionsToBin script.transferInstructions
    let flags ← convertToByte issuanceFlags
    .ok (script.headerBin ++ script.opCodeBin ++ symbol ++ script.metadata ++ amount ++
      instructions ++ [flags])
  else if script.protocolVersion = 3 then
    let symbol ← createProcessTokenSymbol tokenSymbol
    let amount ← unhex (← numberToHexBFXTAmount amount false)
    let instructions ← countedInstructionsToBin script.transferInstructions
    let flags ← convertToByte issuanceFlags
    ensureDataSize dataSize script (script.headerBin ++ script.opCodeBin ++ symbol ++ amount ++
      instructions ++ [flags] ++ metadataField script.metadata)
  else
    raise ("While creating issuance transcation, unknown protocol version + " ++
      toString script.protocolVersion)

def unknownVersion : Outcome Bytes :=
  raise "While calculating/constructing BFXTScript, an unknown protocol version was found"

def calculateTransferScriptBin (dataSize : Nat) (script : BFXTScript) : Outcome Bytes := do
  if script.protocolVersion = 1 then
    let instructions ← transferInstructionsToBin script.transferInstructions
    .ok (script.headerBin ++ script.opCodeBin ++ script.metadata ++ instructions)
  else if script.protocolVersion = 3 then
    let instructions ← countedInstructionsToBin script.transferInstructions
    ensureDataSize dataSize script (script.headerBin ++ script.opCodeBin ++ instructions ++
      metadataField script.metadata)
  else unknownVersion

def calculateBurnScriptBin (dataSize : Nat) (script : BFXTScript) : Outcome Bytes := do
  if script.protocolVersion = 1 then
    let instructions ← transferInstructionsToBin script.transferInstructions
    .ok (script.headerBin ++ script.opCodeBin ++ script.metadata ++ instructions)
  else if script.protocolVersion = 3 then
    let instructions ← countedInstructionsToBin script.transferInstructions
    if script.transferInstructions.any (·.outputIndex == burnOutputIndex) then
      ensureDataSize dataSize script (script.headerBin ++ script.opCodeBin ++ instructions ++
        metadataField script.metadata)
    else raise "Attempted to create a burn instruction that does not burn anything"
  else unknownVersion

def calculateScriptBin (dataSize : Nat) (script : BFXTScript) : Outcome Bytes :=
  match script.kind with
  | .issuance tokenSymbol amount issuanceFlags =>
    calculateIssuanceScriptBin dataSize script tokenSymbol amount issuanceFlags
  | .transfer => calculateTransferScriptBin dataSize script
  | .burn => calculateBurnScriptBin dataSize script

def setEnableOpReturnSizeCheck (script : BFXTScript) (value : Bool) : BFXTScript :=
  { script with enableOpReturnSizeCheck := value }

section Creation

variable (zlibCompress : Bytes → Bytes)

def compressedMetadata (metadata : Bytes) : Bytes :=
  if metadata.isEmpty then [] else zlibCompress metadata

def createTransferScript (transferInstructions : List TransferInstruction) (metadata : Bytes) :
    Outcome BFXTScript := do
  let headerBin ← unhex "4e5403"
  let opCodeBin ← unhex "10"
  .ok ⟨⟨compressedMetadata zlibCompress metadata, transferInstructions, .transfer⟩,
    "", headerBin, 3, opCodeBin, .transfer, true⟩

def createIssuanceScript (symbol : Bytes) (amount : Nat)
    (transferInstructions : List TransferInstruction) (metadata : Bytes) (locked : Bool)
    (divisibility : Nat) (aggrPolicy : AggregationPolicy) : Outcome BFXTScript := do
  let opCodeBin ← unhex "01"
  let headerBin ← unhex "4e5403"
  .ok ⟨⟨compressedMetadata zlibCompress metadata, transferInstructions,
      .issuance symbol amount ⟨divisibility, locked, aggrPolicy⟩⟩,
    "", headerBin, 3, opCodeBin, .issuance, true⟩

def textBytes (text : String) : Bytes := text.toList.map fun c => UInt8.ofNat c.toNat

/-- The sibling of `createTransferScript` that neither compresses the metadata
nor decodes its opcode: `boost::algorithm::hex` turns the text `20` into four
characters. -/
def createBurnScript (transferInstructions : List TransferInstruction) (metadata : Bytes) :
    Outcome BFXTScript := do
  let headerBin ← unhex "4e5403"
  .ok ⟨⟨metadata, transferInstructions, .burn⟩,
    "", headerBin, 3, textBytes (hex (textBytes "20")), .burn, true⟩

end Creation

def instructionFields (inst : TransferInstruction) : Bool × Nat × Nat :=
  (inst.skipInput, inst.outputIndex, inst.amount)

def Encodable (amount : Nat) : Prop :=
  ∃ amountStr, numberToHexBFXTAmount amount false = .ok amountStr

theorem unhex_numberToHexBFXTAmount_bind (num : Nat) (f : Bytes → Outcome β) :
    (numberToHexBFXTAmount num false >>= fun amountStr => unhex amountStr >>= f) =
      encodeAmount num >>= f := by
  rw [← unhex_numberToHexBFXTAmount num false, bind_assoc]

theorem exists_encodeAmount (hamount : Encodable amount) :
    ∃ bytes, encodeAmount amount = .ok bytes := by
  obtain ⟨amountStr, hstr⟩ := hamount
  obtain ⟨bytes, hbytes, -⟩ := bind_eq_ok.mp hstr
  exact ⟨bytes, hbytes⟩

theorem bfxtAmountHexToNumber_encodeAmount (hbytes : encodeAmount amount = .ok (first :: more)) :
    bfxtAmountHexToNumber (hex (first :: more)) = .ok amount := by
  rw [hex, bfxtAmountHexToNumber_ofList (unhexChars_hexChars _) (cons_ne_nil _ _)]
  exact decodeAmount_encodeAmount hbytes

private theorem outputIndexBits_value :
    ∀ n : Fin 32, bitsValue ((byteBits (UInt8.ofNat n.val)).drop 3) = n.val := by
  decide

theorem transferInstructionToBinScript_eq (inst : TransferInstruction) :
    transferInstructionToBinScript inst = encodeAmount inst.amount >>= fun amount =>
      .ok (bitsByte (inst.skipInput :: false :: false ::
        (byteBits (UInt8.ofNat inst.outputIndex)).drop 3) :: amount) :=
  unhex_numberToHexBFXTAmount_bind _ _

theorem parseTransferInstruction_toBin (hindex : inst.outputIndex ≤ 31)
    (hbytes : transferInstructionToBinScript inst = .ok bytes) (rest : Bytes) :
    1 < bytes.length ∧ ∃ parsed,
      parseTransferInstruction (bytes ++ rest) = .ok (parsed, bytes.length, rest) ∧
        instructionFields parsed = instructionFields inst := by
  rw [transferInstructionToBinScript_eq] at hbytes
  obtain ⟨amount, hamount, hok⟩ := bind_eq_ok.mp hbytes
  obtain ⟨first, more, rfl, hsize⟩ := calculateAmountSize_encodeAmount hamount
  cases hok
  generalize hbits : inst.skipInput :: false :: false ::
    (byteBits (UInt8.ofNat inst.outputIndex)).drop 3 = bits
  refine ⟨by simp, instructionFromRaw (bitsByte bits) (first :: more) inst.amount, ?_, ?_⟩
  · rw [cons_append, cons_append, parseTransferInstruction_cons_cons, hsize,
      ← cons_append, take_left, drop_left,
      bfxtAmountHexToNumber_encodeAmount hamount, ok_bind]
    simp [Nat.add_comm]
  · have hvalue := outputIndexBits_value ⟨inst.outputIndex, by omega⟩
    have hbyte : byteBits (bitsByte bits) = bits := byteBits_bitsByte (by rw [← hbits]; rfl)
    simp only [instructionFields, instructionFromRaw, hbyte]
    subst hbits
    simpa using hvalue

theorem parseInstructionsCounted_toBin (hindices : ∀ ti ∈ instrs, ti.outputIndex ≤ 31)
    (hbytes : transferInstructionsToBin instrs = .ok bytes) (i : Nat) (rest : Bytes) :
    ∃ parsed, parseInstructionsCounted i instrs.length (bytes ++ rest) =
        .ok (parsed, bytes.length) ∧
      parsed.map instructionFields = instrs.map instructionFields := by
  induction instrs generalizing bytes i with
  | nil =>
    cases hbytes
    exact ⟨[], rfl, rfl⟩
  | cons ti tis ih =>
    obtain ⟨front, hfront, hrest⟩ := bind_eq_ok.mp hbytes
    obtain ⟨back, hback, hok⟩ := bind_eq_ok.mp hrest
    cases hok
    obtain ⟨hlong, first, hfirst, hfields⟩ := parseTransferInstruction_toBin
      (hindices ti (by simp)) hfront (back ++ rest)
    obtain ⟨others, hothers, hmap⟩ := ih
      (fun other hother => hindices other (mem_cons_of_mem _ hother)) hback (i + 1)
    refine ⟨first :: others, ?_, by rw [map_cons, map_cons, hfields, hmap]⟩
    rw [length_cons, parseInstructionsCounted, if_neg, append_assoc, hfirst, ok_bind]
    · change (parseInstructionsCounted (i + 1) tis.length (back ++ rest) >>= _) = _
      rw [hothers, ok_bind, length_append]
    · rw [append_assoc, length_append]
      omega

theorem encodable_of_toBin (hbytes : transferInstructionsToBin tis = .ok bytes) :
    ∀ ti ∈ tis, Encodable ti.amount := by
  induction tis generalizing bytes with
  | nil => exact nofun
  | cons ti tis ih =>
    obtain ⟨front, hfront, hbytes⟩ := bind_eq_ok.mp hbytes
    obtain ⟨back, hback, -⟩ := bind_eq_ok.mp hbytes
    obtain ⟨amountStr, hamount, -⟩ := bind_eq_ok.mp hfront
    exact forall_mem_cons.mpr ⟨⟨amountStr, hamount⟩, ih hback⟩

theorem exists_transferInstructionsToBin (hamounts : ∀ ti ∈ instrs, Encodable ti.amount) :
    ∃ bytes, transferInstructionsToBin instrs = .ok bytes := by
  induction instrs with
  | nil => exact ⟨[], rfl⟩
  | cons ti tis ih =>
    obtain ⟨back, hback⟩ := ih fun other hother => hamounts other (mem_cons_of_mem _ hother)
    obtain ⟨amount, hamount⟩ := exists_encodeAmount (hamounts ti (by simp))
    rw [transferInstructionsToBin, transferInstructionToBinScript_eq, hamount, ok_bind,
      ok_bind, hback, ok_bind]
    exact ⟨_, rfl⟩

/-- A list of instructions that a version-3 script can carry. -/
structure Sendable (transferInstructions : List TransferInstruction) : Prop where
  nonempty : transferInstructions ≠ []
  length_le : transferInstructions.length ≤ 255
  indices : ∀ ti ∈ transferInstructions, ti.outputIndex ≤ 31
  amounts : ∀ ti ∈ transferInstructions, Encodable ti.amount

theorem parseBFXTv3TransferInstructions_toBin (hsendable : Sendable instrs) :
    ∃ bytes, countedInstructionsToBin instrs = .ok bytes ∧ bytes ≠ [] ∧
      ∀ rest, ∃ parsed,
        parseBFXTv3TransferInstructionsFromLongEnoughString (bytes ++ rest) =
            .ok (parsed, bytes.length) ∧
          parsed.map instructionFields = instrs.map instructionFields := by
  obtain ⟨bytes, hbytes⟩ := exists_transferInstructionsToBin hsendable.amounts
  have hlength := hsendable.length_le
  have hpos := length_pos_iff.mpr hsendable.nonempty
  have hcount : (UInt8.ofNat instrs.length).toNat = instrs.length := by
    rw [UInt8.toNat_ofNat']
    exact Nat.mod_eq_of_lt (by omega)
  refine ⟨UInt8.ofNat instrs.length :: bytes, ?_, by simp, ?_⟩
  · rw [countedInstructionsToBin, if_neg (by omega), hbytes, ok_bind]
  intro rest
  obtain ⟨parsed, hparsed, hfields⟩ :=
    parseInstructionsCounted_toBin hsendable.indices hbytes 0 rest
  refine ⟨parsed, ?_, hfields⟩
  unfold parseBFXTv3TransferInstructionsFromLongEnoughString
  rw [if_neg (by simp), cons_append, charAt_cons_zero, ok_bind,
    eraseFront_of_le (by simp), ok_bind, hcount, if_neg (by omega)]
  simp only [drop_succ_cons, drop_zero]
  rw [hparsed, ok_bind, length_cons, Nat.add_comm]

theorem bigEndianValue_bigEndianField (n : Nat) :
    bigEndianValue (bigEndianField n) = n % 2 ^ 32 := by
  simp only [bigEndianValue, bigEndianField, unpack_cons, unpack_nil, append_nil,
    bitsValue_append, bitsValue_byteBits, length_append, length_byteBits,
    UInt8.toNat_ofNat']
  omega

theorem parseBFXTv3Metadata_bigEndianField (metadata : Bytes) (wholeScriptHex : String) :
    parseBFXTv3MetadataFromLongEnoughString (bigEndianField metadata.length ++ metadata)
        wholeScriptHex =
      if metadata.length < 2 ^ 32 then .ok metadata
      else raise ("The size of the metadata found is not equal to the available size of the " ++
        "data left: " ++ wholeScriptHex) := by
  have htake : (bigEndianField metadata.length ++ metadata).take 4 =
      bigEndianField metadata.length := take_left' rfl
  have hdrop : (bigEndianField metadata.length ++ metadata).drop 4 = metadata :=
    drop_left' rfl
  have hlength : (bigEndianField metadata.length ++ metadata).length = 4 + metadata.length := by
    rw [length_append]
    rfl
  unfold parseBFXTv3MetadataFromLongEnoughString
  rw [if_neg (by omega), if_neg (by omega), substr_zero, ok_bind, htake,
    eraseFront_of_le (by rw [hlength]; exact Nat.le_add_right 4 _), ok_bind,
    bigEndianValue_bigEndianField]
  change (if (List.drop 4 _).length ≠ _ then _ else _) = _
  rw [hdrop]
  split_ifs with hne hlt hlt
  · omega
  · rfl
  · rfl
  · omega

theorem parseTrailingMetadata_metadataField (hsize : metadata.length < 2 ^ 32) :
    parseTrailingMetadata (metadataField metadata) = .ok metadata := by
  unfold metadataField parseTrailingMetadata
  split
  · rename_i hpos
    rw [parseBFXTv3Metadata_bigEndianField, if_pos hsize, ok_bind, if_pos hpos,
      eraseFront_of_le, ok_bind]
    · simp [bigEndianField]
    · rw [length_append, Nat.add_comm]
      exact le_refl _
  rename_i hempty
  have hnil : metadata = [] := eq_nil_of_length_eq_zero (by omega)
  subst hnil
  rfl

theorem parseTrailingMetadata_of_le (hsize : 2 ^ 32 ≤ metadata.length) :
    ∃ what, parseTrailingMetadata (metadataField metadata) = raise what := by
  unfold metadataField parseTrailingMetadata
  rw [if_pos (by omega), parseBFXTv3Metadata_bigEndianField, if_neg (by omega), raise_bind]
  exact ⟨_, rfl⟩

private theorem space_not_alnum : isalnum 0x20 = false := by decide

theorem length_createProcessTokenSymbol (hlength : symbol.length ≤ 5) :
    ∃ padded, createProcessTokenSymbol symbol = .ok padded ∧ padded.length = 5 ∧
      padded = symbol ++ List.replicate (5 - symbol.length) 0x20 := by
  refine ⟨symbol ++ List.replicate (5 - symbol.length) 0x20, ?_, ?_, rfl⟩
  · rw [createProcessTokenSymbol, if_neg (by omega)]
  · rw [length_append, length_replicate]
    omega

theorem parseTokenSymbol_padded (hnonempty : symbol ≠ []) (halnum : ∀ c ∈ symbol, isalnum c = true)
    (hlength : padded.length = 5)
    (hpadded : padded = symbol ++ List.replicate (5 - symbol.length) 0x20)
    (hsize : (padded ++ rest).length < 2 ^ 31) :
    parseTokenSymbolFromLongEnoughString (padded ++ rest) = .ok symbol := by
  have hsymbol : symbol.filter (· != 0x20) = symbol := by
    apply filter_eq_self.mpr
    intro c hc
    simp only [bne_iff_ne, ne_eq]
    rintro rfl
    simpa [space_not_alnum] using halnum _ hc
  rw [parseTokenSymbol_eq_ok]
  refine ⟨by rw [asInt_of_lt hsize]; omega, ?_, hnonempty, halnum⟩
  rw [take_left' hlength, hpadded, filter_append]
  simp [hsymbol]

theorem parseIssuanceFlag_convertToByte (hdivisibility : flags.divisibility ≤ 7)
    (hpolicy : flags.aggregationPolicy ≠ .unknown) :
    ∃ byte, convertToByte flags = .ok byte ∧ parseIssuanceFlag byte = .ok flags := by
  apply bind_eq_ok.mp
  obtain ⟨divisibility, locked, policy⟩ := flags
  obtain ⟨divisibility, rfl⟩ : ∃ d : Fin 8, d.val = divisibility :=
    ⟨⟨divisibility, Nat.lt_succ_of_le hdivisibility⟩, rfl⟩
  clear hdivisibility
  cases policy with
  | unknown => exact absurd rfl hpolicy
  | _ =>
    clear hpolicy
    revert divisibility locked
    decide

theorem parseAmount_encodeAmount (hbytes : encodeAmount amount = .ok bytes) (hrest : rest ≠ [])
    (hshort : (bytes ++ rest).length < 2 ^ 31) :
    parseAmountFromLongEnoughString (bytes ++ rest) = .ok (amount, bytes.length) := by
  obtain ⟨first, more, rfl, hsize⟩ := calculateAmountSize_encodeAmount hbytes
  have hpos := length_pos_iff.mpr hrest
  unfold parseAmountFromLongEnoughString
  rw [if_neg, cons_append, charAt_cons_zero, ok_bind, hsize, ← cons_append]
  · dsimp only
    rw [asInt_of_lt hshort, if_neg, substr_zero, ok_bind, take_left,
      bfxtAmountHexToNumber_encodeAmount hbytes, ok_bind]
    simp only [length_cons, length_append]
    omega
  · simp only [cons_append, length_cons, length_append]
    omega

section RoundTrip

variable (zlibCompress : Bytes → Bytes)

theorem ensureDataSize_disabled (dataSize : Nat) (script : BFXTScript) (result : Bytes) :
    ensureDataSize dataSize (setEnableOpReturnSizeCheck script false) result = .ok result := by
  simp [ensureDataSize, setEnableOpReturnSizeCheck]

theorem parseScript_header (version : UInt8) (hop : op ≠ 255) (rest : Bytes)
    (hunhex : unhex scriptHex = .ok (0x4e :: 0x54 :: version :: op :: rest)) :
    parseScript scriptHex = rethrow scriptHex
      (parseTxType version.toNat [op] scriptHex >>= fun txType =>
        parsePostHeaderData txType version.toNat rest [op] scriptHex >>= fun script =>
          setCommonParams script [0x4e, 0x54, version] version.toNat [op] scriptHex) := by
  rw [parseScript, hunhex, ok_bind, parseScriptBin_header, parseOpCode_cons_of_ne hop, ok_bind]
  rfl

/-- The parser reads `bin` as a version-3 script with the given contents. -/
def ReadsBack (bin : Bytes) (txType : TxType) (kind : ScriptKind)
    (transferInstructions : List TransferInstruction) (rawMetadata : Bytes) : Prop :=
  ∃ parsed, parseScript (hex bin) = .ok parsed ∧ parsed.protocolVersion = 3 ∧
    parsed.txType = txType ∧ parsed.kind = kind ∧
    parsed.transferInstructions.map instructionFields =
      transferInstructions.map instructionFields ∧
    parsed.metadata = rawMetadata

theorem parseScript_of_parsePostHeaderData
    (hunhex : unhex scriptHex = .ok (0x4e :: 0x54 :: 0x03 :: op :: rest)) (hop : op ≠ 255)
    (hv3 : ∀ scriptHex, parseTxType 3 [op] scriptHex = .ok txType)
    (htype : calculateTxType [op] = .ok txType)
    (hdata : ∀ scriptHex, parsePostHeaderData txType 3 rest [op] scriptHex = .ok script) :
    parseScript scriptHex = .ok ⟨script, scriptHex, [0x4e, 0x54, 0x03], 3, [op], txType, true⟩ := by
  rw [parseScript_header 3 hop rest hunhex, show UInt8.toNat 3 = 3 from rfl, hv3, ok_bind, hdata,
    ok_bind, setCommonParams, htype, ok_bind]
  rfl

theorem readsBack_of_parsePostHeaderData (op : UInt8) (rest : Bytes) (script : ScriptData)
    (hop : op ≠ 255) (hv3 : ∀ scriptHex, parseTxType 3 [op] scriptHex = .ok txType)
    (htype : calculateTxType [op] = .ok txType)
    (hdata : ∀ scriptHex, parsePostHeaderData txType 3 rest [op] scriptHex = .ok script)
    (hfields : script.transferInstructions.map instructionFields = instrs.map instructionFields) :
    ReadsBack (0x4e :: 0x54 :: 0x03 :: op :: rest) txType script.kind instrs script.metadata :=
  ⟨_, parseScript_of_parsePostHeaderData (unhex_hex _) hop hv3 htype hdata, rfl, rfl, rfl,
    hfields, rfl⟩

theorem parseBFXTv3TransferPostHeaderData_toBin (hsendable : Sendable instrs) :
    ∃ bytes, countedInstructionsToBin instrs = .ok bytes ∧
      ∀ metadata, ∃ parsed, parsed.map instructionFields =
          instrs.map instructionFields ∧
        parseBFXTv3TransferPostHeaderData (bytes ++ metadataField metadata) =
          parseTrailingMetadata (metadataField metadata) >>= fun metadata =>
            .ok ⟨metadata, parsed, .transfer⟩ := by
  obtain ⟨bytes, hbytes, -, hparse⟩ := parseBFXTv3TransferInstructions_toBin hsendable
  refine ⟨bytes, hbytes, fun metadata => ?_⟩
  obtain ⟨parsed, hparsed, hfields⟩ := hparse (metadataField metadata)
  refine ⟨parsed, hfields, ?_⟩
  rw [parseBFXTv3TransferPostHeaderData, hparsed, ok_bind]
  dsimp only
  rw [eraseFront_of_le (by simp), ok_bind, drop_left]

theorem calculateScriptBin_createTransferScript (dataSize : Nat)
    (hbytes : countedInstructionsToBin instrs = .ok bytes) (metadata : Bytes) :
    ∃ script, createTransferScript zlibCompress instrs metadata = .ok script ∧
      script.metadata = compressedMetadata zlibCompress metadata ∧
      calculateScriptBin dataSize (setEnableOpReturnSizeCheck script false) =
        .ok (0x4e :: 0x54 :: 0x03 :: 0x10 ::
          (bytes ++ metadataField (compressedMetadata zlibCompress metadata))) := by
  refine ⟨⟨⟨compressedMetadata zlibCompress metadata, instrs, .transfer⟩,
    "", [0x4e, 0x54, 0x03], 3, [0x10], .transfer, true⟩, rfl, rfl, ?_⟩
  change (countedInstructionsToBin instrs >>= _) = _
  rw [hbytes, ok_bind, ensureDataSize_disabled]
  rfl

/-- The arguments of an issuance that a version-3 script can carry. -/
structure Issuable (symbol : Bytes) (amount : Nat) (transferInstructions : List TransferInstruction)
    (flags : IssuanceFlags) : Prop extends Sendable transferInstructions where
  noSkip : ∀ ti ∈ transferInstructions, ti.skipInput = false
  symbol_nonempty : symbol ≠ []
  symbol_length : symbol.length ≤ 5
  symbol_alnum : ∀ c ∈ symbol, isalnum c = true
  amount_encodable : Encodable amount
  divisibility_le : flags.divisibility ≤ 7
  policy_known : flags.aggregationPolicy ≠ .unknown

theorem ensureNoSkip_of_fields
    (hfields : parsed.map instructionFields = instrs.map instructionFields)
    (hskip : ∀ ti ∈ instrs, ti.skipInput = false) (scriptBin : Bytes) :
    ensureNoSkip parsed scriptBin = .ok () := by
  have hflags : parsed.map (·.skipInput) = instrs.map (·.skipInput) := by
    have := congrArg (List.map Prod.fst) hfields
    simpa [map_map, Function.comp_def, instructionFields] using this
  have hany : parsed.any (·.skipInput) = false := by
    rw [any_eq_false]
    intro ti hti
    have hmem : ti.skipInput ∈ instrs.map (·.skipInput) :=
      hflags ▸ mem_map_of_mem hti
    obtain ⟨source, hsource, heq⟩ := mem_map.mp hmem
    rw [← heq, hskip source hsource]
    simp
  rw [ensureNoSkip, hany]
  rfl

theorem length_le_metadataField (metadata : Bytes) :
    metadata.length ≤ (metadataField metadata).length := by
  unfold metadataField
  split
  · simp
  · omega

theorem parseBFXTv3IssuancePostHeaderData_toBin (hissuable : Issuable symbol amount instrs flags) :
    ∃ padded amountBytes bytes flagByte, createProcessTokenSymbol symbol = .ok padded ∧
      encodeAmount amount = .ok amountBytes ∧
      countedInstructionsToBin instrs = .ok bytes ∧
      convertToByte flags = .ok flagByte ∧
      ∀ metadata : Bytes, (padded ++ (amountBytes ++ (bytes ++
          (flagByte :: metadataField metadata)))).length < 2 ^ 31 → ∃ parsed,
        parsed.map instructionFields = instrs.map instructionFields ∧
        parseBFXTv3IssuancePostHeaderData (padded ++ (amountBytes ++ (bytes ++
            (flagByte :: metadataField metadata)))) =
          .ok ⟨metadata, parsed, .issuance symbol amount flags⟩ := by
  obtain ⟨amountBytes, hamount⟩ := exists_encodeAmount hissuable.amount_encodable
  obtain ⟨bytes, hbytes, hnonempty, hparse⟩ :=
    parseBFXTv3TransferInstructions_toBin hissuable.toSendable
  obtain ⟨flagByte, hflagByte, hflags⟩ :=
    parseIssuanceFlag_convertToByte hissuable.divisibility_le hissuable.policy_known
  obtain ⟨padded, hpadded, hlength, hspaces⟩ :=
    length_createProcessTokenSymbol hissuable.symbol_length
  refine ⟨padded, amountBytes, bytes, flagByte, hpadded, hamount, hbytes, hflagByte, ?_⟩
  intro metadata hshort
  obtain ⟨parsed, hparsed, hfields⟩ := hparse (flagByte :: metadataField metadata)
  have hsymbol := parseTokenSymbol_padded hissuable.symbol_nonempty hissuable.symbol_alnum
    hlength hspaces hshort
  have hfield := length_le_metadataField metadata
  have hshortAmount : (amountBytes ++ (bytes ++
      (flagByte :: metadataField metadata))).length < 2 ^ 31 := by
    rw [length_append] at hshort
    omega
  have hsize : metadata.length < 2 ^ 32 := by
    simp only [length_append, length_cons] at hshort
    omega
  refine ⟨parsed, hfields, ?_⟩
  unfold parseBFXTv3IssuancePostHeaderData
  rw [hsymbol, ok_bind, eraseFront_of_le (by simp [hlength]), ok_bind, drop_left' hlength,
    parseAmount_encodeAmount hamount (by simp) hshortAmount, ok_bind]
  dsimp only
  rw [eraseFront_of_le (by simp), ok_bind, drop_left, hparsed, ok_bind]
  dsimp only
  rw [eraseFront_of_le (by simp), ok_bind, drop_left,
    ensureNoSkip_of_fields hfields hissuable.noSkip, ok_bind, if_neg (by simp)]
  change (parseIssuanceFlag flagByte >>= _) = _
  rw [hflags, ok_bind, eraseFront_of_le (by simp), ok_bind]
  simp only [drop_succ_cons, drop_zero]
  rw [parseTrailingMetadata_metadataField hsize, ok_bind]

/-- Created transfer and issuance scripts are read back unchanged, as long as
the size of the metadata fits its four-byte field and, for the issuance parser,
the size of the script fits an `int`. -/
theorem created_scripts_read_back (dataSize : Nat) :
    (∀ transferInstructions metadata, Sendable transferInstructions →
      (compressedMetadata zlibCompress metadata).length < 2 ^ 32 →
      ∃ script bin, createTransferScript zlibCompress transferInstructions metadata = .ok script ∧
        calculateScriptBin dataSize (setEnableOpReturnSizeCheck script false) = .ok bin ∧
        ReadsBack bin .transfer .transfer transferInstructions script.metadata) ∧
    (∀ symbol amount transferInstructions metadata flags,
      Issuable symbol amount transferInstructions flags →
      ∃ script bin, createIssuanceScript zlibCompress symbol amount transferInstructions metadata
          flags.locked flags.divisibility flags.aggregationPolicy = .ok script ∧
        calculateScriptBin dataSize (setEnableOpReturnSizeCheck script false) = .ok bin ∧
        (bin.length < 2 ^ 31 →
          ReadsBack bin .issuance (.issuance symbol amount flags) transferInstructions
            script.metadata)) := by
  constructor
  · intro transferInstructions metadata hsendable hsize
    obtain ⟨bytes, hbytes, hparse⟩ := parseBFXTv3TransferPostHeaderData_toBin hsendable
    obtain ⟨script, hscript, hmetadata, hbin⟩ :=
      calculateScriptBin_createTransferScript zlibCompress dataSize hbytes metadata
    obtain ⟨parsed, hfields, hdata⟩ := hparse (compressedMetadata zlibCompress metadata)
    rw [parseTrailingMetadata_metadataField hsize, ok_bind] at hdata
    refine ⟨script, _, hscript, hbin, ?_⟩
    rw [hmetadata]
    exact readsBack_of_parsePostHeaderData 0x10 _ ⟨_, parsed, .transfer⟩ (by decide)
      (fun _ => rfl) rfl (fun _ => hdata) hfields
  intro symbol amount instrs metadata flags hissuable
  obtain ⟨padded, amountBytes, bytes, flagByte, hpadded, hamount, hbytes, hflagByte, hparse⟩ :=
    parseBFXTv3IssuancePostHeaderData_toBin hissuable
  refine ⟨⟨⟨compressedMetadata zlibCompress metadata, instrs,
      .issuance symbol amount flags⟩, "", [0x4e, 0x54, 0x03], 3, [0x01], .issuance, true⟩,
    0x4e :: 0x54 :: 0x03 :: 0x01 :: (padded ++ (amountBytes ++ (bytes ++
      (flagByte :: metadataField (compressedMetadata zlibCompress metadata))))), rfl, ?_, ?_⟩
  · change (createProcessTokenSymbol symbol >>= fun symbol =>
      numberToHexBFXTAmount amount false >>= fun amountStr => unhex amountStr >>= fun amount =>
        countedInstructionsToBin instrs >>= fun instructions =>
          convertToByte flags >>= _) = _
    rw [hpadded, ok_bind, unhex_numberToHexBFXTAmount_bind, hamount, ok_bind, hbytes, ok_bind,
      hflagByte, ok_bind, ensureDataSize_disabled]
    simp [setEnableOpReturnSizeCheck]
  intro hlength
  have hshort := Nat.lt_of_le_of_lt (Nat.le_add_right _ 4) hlength
  obtain ⟨parsed, hfields, hdata⟩ := hparse _ hshort
  exact readsBack_of_parsePostHeaderData 0x01 _ ⟨_, parsed, .issuance symbol amount flags⟩
    (by decide) (fun _ => rfl) rfl (fun _ => hdata) hfields

def oneToken : List TransferInstruction := [⟨0, false, 0, [], 1⟩]

theorem sendable_oneToken : Sendable oneToken := by
  refine ⟨by decide, by decide, by decide, ?_⟩
  intro ti hti
  obtain rfl := mem_singleton.mp hti
  exact ⟨"01", by decide⟩

theorem created_oneToken_read_back :
    ∃ script bin, createTransferScript id oneToken [0x41] = .ok script ∧
      calculateScriptBin 80 (setEnableOpReturnSizeCheck script false) = .ok bin ∧
      ReadsBack bin .transfer .transfer oneToken script.metadata :=
  (created_scripts_read_back id 80).1 oneToken [0x41] sendable_oneToken (by decide)

/-- A size of `2 ^ 32` is written as zero. -/
theorem transferScript_overlong_metadata :
    ∃ metadata script bin, createTransferScript id oneToken metadata = .ok script ∧
      calculateScriptBin 80 (setEnableOpReturnSizeCheck script false) = .ok bin ∧
      ∃ what, parseScript (hex bin) = raise what := by
  obtain ⟨size, hsize⟩ : ∃ size, 2 ^ 32 ≤ size := ⟨_, le_refl _⟩
  have hlength : (compressedMetadata id (List.replicate size 0x41)).length = size := by
    unfold compressedMetadata
    split
    · rename_i hempty
      rw [List.isEmpty_iff, List.replicate_eq_nil_iff] at hempty
      omega
    · exact List.length_replicate
  obtain ⟨bytes, hbytes, hparse⟩ := parseBFXTv3TransferPostHeaderData_toBin sendable_oneToken
  obtain ⟨script, hscript, -, hbin⟩ :=
    calculateScriptBin_createTransferScript id 80 hbytes (List.replicate size 0x41)
  obtain ⟨parsed, -, hdata⟩ := hparse (compressedMetadata id (List.replicate size 0x41))
  obtain ⟨what, hwhat⟩ := parseTrailingMetadata_of_le (by rwa [hlength])
  rw [hwhat, raise_bind] at hdata
  refine ⟨_, script, _, hscript, hbin, ?_⟩
  rw [parseScript_header 3 (by decide) _ (unhex_hex _)]
  change ∃ what, rethrow _ (parseBFXTv3TransferPostHeaderData _ >>= _) = raise what
  rw [hdata, raise_bind]
  exact ⟨_, rfl⟩

end RoundTrip

def getInflatedMetadata (zlibDecompress : Bytes → Bytes) (script : BFXTScript) : Bytes :=
  if !script.metadata.isEmpty then zlibDecompress script.metadata else []

/-- A burn script is created, written out and read back with its contents. -/
def BurnRoundTrips (zlibDecompress : Bytes → Bytes) (dataSize : Nat) (sizeCheck : Bool)
    (transferInstructions : List TransferInstruction) (metadata : Bytes) : Prop :=
  ∃ script bin parsed, createBurnScript transferInstructions metadata = .ok script ∧
    calculateScriptBin dataSize (setEnableOpReturnSizeCheck script sizeCheck) = .ok bin ∧
    parseScript (hex bin) = .ok parsed ∧
    parsed.protocolVersion = 3 ∧ parsed.txType = .burn ∧ parsed.kind = .burn ∧
    parsed.transferInstructions.map instructionFields =
      transferInstructions.map instructionFields ∧
    getInflatedMetadata zlibDecompress parsed = metadata

theorem parseScript_burnOpCode (rest : Bytes) :
    ∃ what, parseScript (hex (0x4e :: 0x54 :: 0x03 :: 0x33 :: rest)) = raise what := by
  rw [parseScript_header 3 (by decide) _ (unhex_hex _)]
  exact ⟨_, rfl⟩

theorem burn_script_never_round_trips
    (zlibDecompress : Bytes → Bytes) (dataSize : Nat) (sizeCheck : Bool)
    (transferInstructions : List TransferInstruction) (metadata : Bytes) :
    ¬ BurnRoundTrips zlibDecompress dataSize sizeCheck transferInstructions metadata := by
  rintro ⟨script, bin, parsed, hscript, hbin, hparse, -⟩
  obtain ⟨rest, rfl⟩ : ∃ rest, bin = 0x4e :: 0x54 :: 0x03 :: 0x33 :: rest := by
    cases hscript
    change (countedInstructionsToBin _ >>= fun instructions => _) = _ at hbin
    obtain ⟨instructions, -, hbin⟩ := bind_eq_ok.mp hbin
    split at hbin
    · unfold ensureDataSize at hbin
      split at hbin
      · cases hbin
      · cases hbin
        exact ⟨0x32 :: 0x33 :: 0x30 :: (instructions ++ metadataField metadata), rfl⟩
    · cases hbin
  obtain ⟨what, hraise⟩ := parseScript_burnOpCode rest
  rw [hraise] at hparse
  cases hparse

/-- Burning one token: the script is written, and the parser rejects its
opcode. -/
theorem burn_oneToken_rejected :
    createBurnScript [⟨0, false, 31, [], 1⟩] [] = .ok
        ⟨⟨[], [⟨0, false, 31, [], 1⟩], .burn⟩, "", [0x4e, 0x54, 0x03], 3,
          [0x33, 0x32, 0x33, 0x30], .burn, true⟩ ∧
      calculateScriptBin 80 ⟨⟨[], [⟨0, false, 31, [], 1⟩], .burn⟩, "", [0x4e, 0x54, 0x03], 3,
          [0x33, 0x32, 0x33, 0x30], .burn, true⟩ =
        .ok [0x4e, 0x54, 0x03, 0x33, 0x32, 0x33, 0x30, 0x01, 0x1f, 0x01] ∧
      ∃ what, parseScript (hex [0x4e, 0x54, 0x03, 0x33, 0x32, 0x33, 0x30, 0x01, 0x1f, 0x01]) =
        raise what :=
  ⟨rfl, by decide, parseScript_burnOpCode _⟩

end Bfx.ScriptCreation
