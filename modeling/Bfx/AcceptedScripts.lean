import Bfx.ParserSafety

/-!
What `ParseScript` guarantees about the scripts it accepts.
-/

namespace Bfx.AcceptedScripts

open BitWords CallOutcome HexText List ParserSafety TokenScript

variable {transferInstructions : List TransferInstruction} {opCodeBin : Bytes} {scriptHex : String}

theorem parseTransferInstruction_outputIndex
    (hparse : parseTransferInstruction toParse = .ok (transferInst, size, rest)) :
    transferInst.outputIndex ≤ 31 := by
  simp only [parseTransferInstruction, bind_eq_ok] at hparse
  obtain ⟨firstRawByte, -, second, -, rawAmount, -, rest', -, amount, -, hparse⟩ := hparse
  cases hparse
  have hvalue := bitsValue_lt ((byteBits firstRawByte).drop 3)
  exact Nat.le_of_lt_succ hvalue

def FiveBitIndices (transferInstructions : List TransferInstruction) : Prop :=
  ∀ ti ∈ transferInstructions, ti.outputIndex ≤ 31

theorem FiveBitIndices.cons {ti : TransferInstruction} {tis : List TransferInstruction}
    (hti : ti.outputIndex ≤ 31) (htis : FiveBitIndices tis) : FiveBitIndices (ti :: tis) :=
  forall_mem_cons.mpr ⟨hti, htis⟩

theorem parseInstructionsWhile_indices
    (hparse : parseInstructionsWhile fuel toParse = .ok (transferInstructions, size)) :
    FiveBitIndices transferInstructions := by
  induction fuel generalizing toParse transferInstructions size with
  | zero =>
    cases hparse
    exact forall_mem_nil _
  | succ fuel ih =>
    rw [parseInstructionsWhile] at hparse
    split at hparse
    · cases hparse
      exact forall_mem_nil _
    obtain ⟨⟨first, currentSize, rest⟩, hfirst, hparse⟩ := bind_eq_ok.mp hparse
    obtain ⟨⟨others, totalRawSize⟩, hothers, hparse⟩ := bind_eq_ok.mp hparse
    cases hparse
    exact .cons (parseTransferInstruction_outputIndex hfirst) (ih hothers)

theorem parseInstructionsCounted_indices {i count : Nat}
    (hparse : parseInstructionsCounted i count toParse = .ok (transferInstructions, size)) :
    transferInstructions.length = count ∧ FiveBitIndices transferInstructions := by
  induction count generalizing i toParse transferInstructions size with
  | zero =>
    cases hparse
    exact ⟨rfl, forall_mem_nil _⟩
  | succ count ih =>
    rw [parseInstructionsCounted] at hparse
    split at hparse
    · cases hparse
    obtain ⟨⟨first, currentSize, rest⟩, hfirst, hparse⟩ := bind_eq_ok.mp hparse
    obtain ⟨⟨others, totalRawSize⟩, hothers, hparse⟩ := bind_eq_ok.mp hparse
    cases hparse
    obtain ⟨hlength, hindices⟩ := ih hothers
    exact ⟨congrArg (· + 1) hlength, .cons (parseTransferInstruction_outputIndex hfirst) hindices⟩

theorem parseBFXTv3TransferInstructions_indices (hparse :
      parseBFXTv3TransferInstructionsFromLongEnoughString bin = .ok (transferInstructions, size)) :
    transferInstructions ≠ [] ∧ FiveBitIndices transferInstructions := by
  rw [parseBFXTv3TransferInstructionsFromLongEnoughString] at hparse
  split at hparse
  · cases hparse
  obtain ⟨count, -, hparse⟩ := bind_eq_ok.mp hparse
  obtain ⟨toParse, -, hparse⟩ := bind_eq_ok.mp hparse
  split at hparse
  · cases hparse
  rename_i hcount
  obtain ⟨⟨parsed, totalRawSize⟩, hparsed, hparse⟩ := bind_eq_ok.mp hparse
  cases hparse
  obtain ⟨hlength, hindices⟩ := parseInstructionsCounted_indices hparsed
  refine ⟨?_, hindices⟩
  rintro rfl
  rw [length_nil] at hlength
  omega

section Contents

/-- What both issuance parsers check. -/
structure IssuanceAccepted (tokenSymbol : Bytes) (issuanceFlags : IssuanceFlags)
    (transferInstructions : List TransferInstruction) : Prop where
  symbol_nonempty : tokenSymbol ≠ []
  symbol_length : tokenSymbol.length ≤ 5
  symbol_alnum : ∀ c ∈ tokenSymbol, isalnum c = true
  divisibility_le : issuanceFlags.divisibility ≤ 7
  policy_known : issuanceFlags.aggregationPolicy ≠ .unknown
  noSkip : ∀ ti ∈ transferInstructions, ti.skipInput = false

variable {issuanceFlags : IssuanceFlags} {script : ScriptData}

theorem parseIssuanceFlag_eq_ok (hflags : parseIssuanceFlag flags = .ok issuanceFlags) :
    issuanceFlags.divisibility ≤ 7 ∧ issuanceFlags.aggregationPolicy ≠ .unknown := by
  have hdivisibility : bitsValue ((byteBits flags).take 3) < 2 ^ 3 :=
    bitsValue_lt ((byteBits flags).take 3)
  rw [parseIssuanceFlag] at hflags
  split at hflags
  · cases hflags
    exact ⟨Nat.le_of_lt_succ hdivisibility, by simp⟩
  · cases hflags
    exact ⟨Nat.le_of_lt_succ hdivisibility, by simp⟩
  · cases hflags

theorem ensureNoSkip_eq_ok (hensure : ensureNoSkip transferInstructions scriptBin = .ok u) :
    ∀ ti ∈ transferInstructions, ti.skipInput = false := by
  rw [ensureNoSkip] at hensure
  split at hensure
  · cases hensure
  rename_i hany
  intro ti hti
  rw [Bool.not_eq_true, any_eq_false] at hany
  exact Bool.not_eq_true _ ▸ hany ti hti

theorem issuanceAccepted_of_parse
    (hsymbol : parseTokenSymbolFromLongEnoughString scriptBin = .ok tokenSymbol)
    (hskip : ∀ ti ∈ transferInstructions, ti.skipInput = false)
    (hflags : parseIssuanceFlag flags = .ok issuanceFlags) :
    IssuanceAccepted tokenSymbol issuanceFlags transferInstructions := by
  obtain ⟨-, htake, hnonempty, halnum⟩ := parseTokenSymbol_eq_ok.mp hsymbol
  obtain ⟨hdivisibility, hpolicy⟩ := parseIssuanceFlag_eq_ok hflags
  refine ⟨hnonempty, ?_, halnum, hdivisibility, hpolicy, hskip⟩
  rw [htake]
  exact (length_filter_le _ _).trans (length_take_le 5 scriptBin)

theorem parseMetadata_eq_ok
    (hparse : parseMetadataFromLongEnoughString bin opCodeBin wholeScriptHex = .ok metadata) :
    calculateMetadataSize opCodeBin = .ok metadata.length := by
  obtain ⟨metadataSize, hsize, hparse⟩ := bind_eq_ok.mp hparse
  split at hparse
  · cases hparse
  rename_i hlong
  rw [substr_zero] at hparse
  cases hparse
  have := asInt_le bin.length
  rw [hsize, length_take, Nat.min_eq_left (by omega)]

/-- The members of a script object, by the type that its opcode gives. -/
inductive KindAccepted (script : ScriptData) : TxType → Prop
  | issuance {tokenSymbol : Bytes} {amount : Nat} {issuanceFlags : IssuanceFlags}
      (hkind : script.kind = .issuance tokenSymbol amount issuanceFlags)
      (haccepted : IssuanceAccepted tokenSymbol issuanceFlags script.transferInstructions) :
      KindAccepted script .issuance
  | transfer (hkind : script.kind = .transfer) : KindAccepted script .transfer
  | burn (hkind : script.kind = .burn)
      (hburns : script.transferInstructions.any (·.outputIndex == burnOutputIndex) = true) :
      KindAccepted script .burn

/-- What follows the opcode. Only the first version has metadata of a fixed
size, and only the third one counts its instructions. -/
structure BodyAccepted (protocolVersion : Nat) (opCodeBin : Bytes) (txType : TxType)
    (script : ScriptData) : Prop where
  indices : FiveBitIndices script.transferInstructions
  metadata_size : protocolVersion = 1 →
    calculateMetadataSize opCodeBin = .ok script.metadata.length
  instructions_nonempty : protocolVersion = 3 → script.transferInstructions ≠ []
  kind : KindAccepted script txType

theorem parseIssuancePostHeaderData_eq_ok
    (hparse : parseIssuancePostHeaderData scriptBin opCodeBin = .ok script) :
    BodyAccepted 1 opCodeBin .issuance script := by
  simp only [parseIssuancePostHeaderData, bind_eq_ok] at hparse
  obtain ⟨tokenSymbol, hsymbol, afterSymbol, -, metadata, hmetadata, afterMetadata, -, ⟨amount,
    amountRawSize⟩, -, afterAmount, -, ⟨transferInstructions, totalSize⟩, hinstructions,
    afterInstructions, -, _, hskip, hparse⟩ := hparse
  split at hparse
  · cases hparse
  obtain ⟨flags, -, hparse⟩ := bind_eq_ok.mp hparse
  obtain ⟨issuanceFlags, hflags, hparse⟩ := bind_eq_ok.mp hparse
  cases hparse
  exact ⟨parseInstructionsWhile_indices hinstructions, fun _ => parseMetadata_eq_ok hmetadata,
    by simp, .issuance rfl (issuanceAccepted_of_parse hsymbol (ensureNoSkip_eq_ok hskip) hflags)⟩

theorem parseBFXTv3IssuancePostHeaderData_eq_ok
    (hparse : parseBFXTv3IssuancePostHeaderData scriptBin = .ok script) :
    BodyAccepted 3 opCodeBin .issuance script := by
  simp only [parseBFXTv3IssuancePostHeaderData, bind_eq_ok] at hparse
  obtain ⟨tokenSymbol, hsymbol, afterSymbol, -, ⟨amount, amountRawSize⟩, -, afterAmount, -,
    ⟨transferInstructions, totalSize⟩, hinstructions, afterInstructions, -, _, hskip, hparse⟩ :=
    hparse
  split at hparse
  · cases hparse
  simp only [bind_eq_ok] at hparse
  obtain ⟨flags, -, issuanceFlags, hflags, afterFlags, -, metadata, -, hparse⟩ := hparse
  cases hparse
  obtain ⟨hnonempty, hindices⟩ := parseBFXTv3TransferInstructions_indices hinstructions
  exact ⟨hindices, by simp, fun _ => hnonempty,
    .issuance rfl (issuanceAccepted_of_parse hsymbol (ensureNoSkip_eq_ok hskip) hflags)⟩

theorem parseTransferPostHeaderData_eq_ok
    (hparse : parseTransferPostHeaderData scriptBin opCodeBin = .ok script) :
    BodyAccepted 1 opCodeBin .transfer script := by
  simp only [parseTransferPostHeaderData, bind_eq_ok] at hparse
  obtain ⟨metadata, hmetadata, afterMetadata, -, ⟨transferInstructions, totalSize⟩, hinstructions,
    _, -, hparse⟩ := hparse
  cases hparse
  exact ⟨parseInstructionsWhile_indices hinstructions, fun _ => parseMetadata_eq_ok hmetadata,
    by simp, .transfer rfl⟩

theorem parseBFXTv3TransferPostHeaderData_eq_ok
    (hparse : parseBFXTv3TransferPostHeaderData scriptBin = .ok script) :
    BodyAccepted 3 opCodeBin .transfer script := by
  simp only [parseBFXTv3TransferPostHeaderData, bind_eq_ok] at hparse
  obtain ⟨⟨transferInstructions, totalSize⟩, hinstructions, afterInstructions, -, metadata, -,
    hparse⟩ := hparse
  cases hparse
  obtain ⟨hnonempty, hindices⟩ := parseBFXTv3TransferInstructions_indices hinstructions
  exact ⟨hindices, by simp, fun _ => hnonempty, .transfer rfl⟩

/-- The burn parsers are the transfer parsers with one more check. -/
theorem BodyAccepted.ensureBurns (hbody : BodyAccepted protocolVersion opCodeBin .transfer script)
    (hensure : TokenScript.ensureBurns script = .ok burn) :
    BodyAccepted protocolVersion opCodeBin .burn burn := by
  rw [TokenScript.ensureBurns] at hensure
  split at hensure
  · rename_i hburns
    cases hensure
    exact ⟨hbody.indices, hbody.metadata_size, hbody.instructions_nonempty, .burn rfl hburns⟩
  · cases hensure

theorem parsePostHeaderData_eq_ok (hparse : parsePostHeaderData txType protocolVersion scriptBin
      opCodeBin scriptHex = .ok script) : BodyAccepted protocolVersion opCodeBin txType script := by
  cases txType with
  | none => cases hparse
  | issuance =>
    simp only [parsePostHeaderData] at hparse
    split_ifs at hparse with hone hthree
    · exact hone ▸ parseIssuancePostHeaderData_eq_ok hparse
    · exact hthree ▸ parseBFXTv3IssuancePostHeaderData_eq_ok hparse
    · cases hparse
  | transfer =>
    simp only [parsePostHeaderData] at hparse
    split_ifs at hparse with hone hthree
    · exact hone ▸ parseTransferPostHeaderData_eq_ok hparse
    · exact hthree ▸ parseBFXTv3TransferPostHeaderData_eq_ok hparse
    · cases hparse
  | burn =>
    simp only [parsePostHeaderData] at hparse
    split_ifs at hparse with hone hthree
    · obtain ⟨transfer, htransfer, hensure⟩ := bind_eq_ok.mp hparse
      exact hone ▸ (parseTransferPostHeaderData_eq_ok htransfer).ensureBurns hensure
    · obtain ⟨transfer, htransfer, hensure⟩ := bind_eq_ok.mp hparse
      exact hthree ▸ (parseBFXTv3TransferPostHeaderData_eq_ok htransfer).ensureBurns hensure
    · cases hparse

end Contents

/-- All that a script object which `ParseScript` returned is known to satisfy. -/
structure Accepted (version op : UInt8) (script : BFXTScript) : Prop where
  headerBin_eq : script.headerBin = [0x4e, 0x54, version]
  protocolVersion_eq : script.protocolVersion = version.toNat
  opCodeBin_eq : script.opCodeBin = [op]
  op_ne : op ≠ 255
  txType_eq : ∀ scriptHex, parseTxType version.toNat [op] scriptHex = .ok script.txType
  common_eq : calculateTxType [op] = .ok script.txType
  sizeCheck_eq : script.enableOpReturnSizeCheck = true
  body : BodyAccepted version.toNat [op] script.txType script.toScriptData

theorem parseScript_eq_ok (hparse : parseScript scriptHex = .ok script) :
    ∃ scriptBin, unhex scriptHex = .ok scriptBin ∧
      parseScriptBin scriptBin scriptHex = .ok script := by
  rw [parseScript] at hparse
  rcases hinner : unhex scriptHex >>= fun scriptBin => parseScriptBin scriptBin scriptHex with
    fault | result
  · rw [hinner] at hparse
    cases fault <;> cases hparse
  rw [hinner] at hparse
  obtain rfl : result = script := Except.ok.inj hparse
  exact bind_eq_ok.mp hinner

theorem parseTxType_eq_ok {version : UInt8}
    (htype : parseTxType version.toNat opCodeBin scriptHex = .ok txType) :
    (∀ scriptHex, parseTxType version.toNat opCodeBin scriptHex = .ok txType) ∧
      ∀ op, opCodeBin = [op] → calculateTxType [op] = .ok txType := by
  simp only [parseTxType] at htype ⊢
  split_ifs at htype ⊢ with hone hthree
  · refine ⟨fun _ => htype, ?_⟩
    rintro op rfl
    exact htype
  · refine ⟨fun _ => htype, ?_⟩
    rintro op rfl
    rw [calculateTxTypeBFXTv3, charAt_cons_zero, ok_bind] at htype
    split_ifs at htype with hissuance htransfer hburn
    · rw [hissuance]
      exact htype
    · rw [htransfer]
      exact htype
    · rw [hburn]
      exact htype
    · cases htype
  · cases htype

/-- An opcode of a known type has one byte. The only script without an opcode
that gets past the type is one of version 1 that has no token symbol. -/
theorem parseOpCode_eq_ok {version : UInt8}
    (hopCode : parseOpCodeFromLongEnoughString rest = .ok opCodeBin)
    (htype : parseTxType version.toNat opCodeBin scriptHex = .ok txType) :
    (∃ op body, rest = op :: body ∧ opCodeBin = [op] ∧ op ≠ 255) ∨
      rest = [] ∧ version = 1 ∧ txType = .issuance := by
  rcases rest with _ | ⟨op, body⟩
  · right
    cases hopCode
    rcases version_of_parseTxType htype with rfl | rfl
    · exact ⟨rfl, rfl, (Except.ok.inj htype).symm⟩
    · cases htype
  left
  rcases eq_or_ne op 255 with rfl | hne
  · obtain ⟨more, rfl⟩ := exists_of_parseOpCode_cons hopCode
    simp only [parseTxType, calculateTxType, calculateTxTypeBFXTv3, charAt_cons_zero,
      ok_bind] at htype
    split_ifs at htype <;> simp_all
  · rw [parseOpCode_cons_of_ne hne] at hopCode
    exact ⟨op, body, rfl, (Except.ok.inj hopCode).symm, hne⟩

theorem parseScriptBin_eq_ok (hparse : parseScriptBin scriptBin scriptHex = .ok script) :
    ∃ version rest, scriptBin = 0x4e :: 0x54 :: version :: rest := by
  have hmagic : unhex BFXTHexPrefix = .ok [0x4e, 0x54] := by decide
  rcases scriptBin with _ | ⟨a, _ | ⟨b, _ | ⟨version, rest⟩⟩⟩
  · cases hparse
  · cases hparse
  · cases hparse
  rw [parseScriptBin, if_neg (by simp), substr_zero, ok_bind, hmagic, ok_bind, substr_zero,
    ok_bind] at hparse
  split at hparse
  · cases hparse
  rename_i hheader
  rw [not_not] at hheader
  obtain ⟨rfl, htail⟩ := List.cons.inj hheader
  obtain ⟨rfl, -⟩ := List.cons.inj htail
  exact ⟨version, rest, rfl⟩

/-- Everything that `ParseScript` checks before it returns. -/
theorem accepted_of_parseScript (hparse : parseScript scriptHex = .ok script) :
    ∃ version op, Accepted version op script := by
  obtain ⟨scriptBin, -, hparse⟩ := parseScript_eq_ok hparse
  obtain ⟨version, rest, rfl⟩ := parseScriptBin_eq_ok hparse
  rw [parseScriptBin_header] at hparse
  obtain ⟨opCodeBin, hopCode, hparse⟩ := bind_eq_ok.mp hparse
  obtain ⟨txType, htype, hparse⟩ := bind_eq_ok.mp hparse
  obtain ⟨body, hbody, hparse⟩ := bind_eq_ok.mp hparse
  obtain ⟨data, hdata, hparse⟩ := bind_eq_ok.mp hparse
  obtain ⟨common, hcommon, hparse⟩ := bind_eq_ok.mp hparse
  obtain ⟨htypes, hcalculate⟩ := parseTxType_eq_ok htype
  rcases parseOpCode_eq_ok hopCode htype with
    ⟨op, -, -, rfl, hne⟩ | ⟨rfl, rfl, rfl⟩
  · obtain rfl : txType = common :=
      Except.ok.inj ((hcalculate op rfl).symm.trans hcommon)
    cases hparse
    exact ⟨version, op, rfl, rfl, rfl, hne, htypes, hcommon, rfl, parsePostHeaderData_eq_ok hdata⟩
  obtain rfl : [] = opCodeBin := Except.ok.inj hopCode
  obtain rfl : [] = body := Except.ok.inj hbody
  obtain ⟨tokenSymbol, hsymbol, -⟩ := bind_eq_ok.mp hdata
  obtain ⟨-, rfl, hnonempty, -⟩ := parseTokenSymbol_eq_ok.mp hsymbol
  exact absurd rfl hnonempty

end Bfx.AcceptedScripts
