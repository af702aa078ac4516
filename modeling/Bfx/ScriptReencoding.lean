import Bfx.AcceptedScripts
import Bfx.ScriptCreation

/-!
Writing an accepted script out again: the bytes are read back with the same
contents, and writing them once more changes nothing.
-/

namespace Bfx.ScriptReencoding

open AcceptedScripts AmountCodec CallOutcome HexText List ParserSafety ScriptCreation TokenScript

variable {tis : List TransferInstruction} {opCodeBin : Bytes}

section Contents

/-- Two script objects that say the same: they differ at most in the bytes that
they were read from. -/
structure SameContents (script parsed : BFXTScript) : Prop where
  headerBin_eq : parsed.headerBin = script.headerBin
  protocolVersion_eq : parsed.protocolVersion = script.protocolVersion
  opCodeBin_eq : parsed.opCodeBin = script.opCodeBin
  txType_eq : parsed.txType = script.txType
  sizeCheck_eq : parsed.enableOpReturnSizeCheck = script.enableOpReturnSizeCheck
  metadata_eq : parsed.metadata = script.metadata
  kind_eq : parsed.kind = script.kind
  instructions_eq : parsed.transferInstructions.map instructionFields =
    script.transferInstructions.map instructionFields

theorem transferInstructionToBinScript_congr
    (hfields : instructionFields ti = instructionFields ti') :
    transferInstructionToBinScript ti = transferInstructionToBinScript ti' := by
  obtain ⟨hskip, hrest⟩ := Prod.mk.inj hfields
  obtain ⟨hindex, hamount⟩ := Prod.mk.inj hrest
  rw [transferInstructionToBinScript, transferInstructionToBinScript, hskip, hindex, hamount]

variable {tis' : List TransferInstruction}

variable (hfields : tis.map instructionFields = tis'.map instructionFields)
include hfields

theorem transferInstructionsToBin_congr :
    transferInstructionsToBin tis = transferInstructionsToBin tis' := by
  induction tis generalizing tis' with
  | nil =>
    obtain rfl : tis' = [] := by simpa using hfields.symm
    rfl
  | cons ti tis ih =>
    rcases tis' with _ | ⟨ti', tis'⟩
    · simp at hfields
    obtain ⟨hfirst, hrest⟩ := List.cons.inj hfields
    rw [transferInstructionsToBin, transferInstructionsToBin,
      transferInstructionToBinScript_congr hfirst, ih hrest]

theorem any_burns_congr :
    tis.any (·.outputIndex == burnOutputIndex) = tis'.any (·.outputIndex == burnOutputIndex) := by
  have hany : ∀ tis : List TransferInstruction,
      tis.any (·.outputIndex == burnOutputIndex) =
        (tis.map instructionFields).any (·.2.1 == burnOutputIndex) := by
    intro tis
    rw [any_map]
    rfl
  rw [hany, hany, hfields]

theorem countedInstructionsToBin_congr :
    countedInstructionsToBin tis = countedInstructionsToBin tis' := by
  have hlength : tis.length = tis'.length := by
    simpa using congrArg List.length hfields
  rw [countedInstructionsToBin, countedInstructionsToBin, hlength,
    transferInstructionsToBin_congr hfields]

omit hfields

/-- What is written depends only on the contents. -/
theorem SameContents.calculateScriptBin_eq (hsame : SameContents script parsed) (dataSize : Nat) :
    calculateScriptBin dataSize parsed = calculateScriptBin dataSize script := by
  have hinstructions := transferInstructionsToBin_congr hsame.instructions_eq
  have hcounted := countedInstructionsToBin_congr hsame.instructions_eq
  have hburns := any_burns_congr hsame.instructions_eq
  have hensure : ∀ result, ensureDataSize dataSize parsed result =
      ensureDataSize dataSize script result := by
    intro result
    rw [ensureDataSize, ensureDataSize, hsame.sizeCheck_eq]
  simp only [calculateScriptBin, calculateIssuanceScriptBin, calculateTransferScriptBin,
    calculateBurnScriptBin, hsame.kind_eq, hsame.protocolVersion_eq, hsame.headerBin_eq,
    hsame.opCodeBin_eq, hsame.metadata_eq, hinstructions, hcounted, hburns, hensure]

end Contents

theorem parseInstructionsWhile_toBin (hindices : FiveBitIndices tis)
    (hbytes : transferInstructionsToBin tis = .ok bytes) (hrest : rest.length ≤ 1)
    (hfuel : (bytes ++ rest).length ≤ fuel) :
    ∃ parsed, parseInstructionsWhile fuel (bytes ++ rest) = .ok (parsed, bytes.length) ∧
      parsed.map instructionFields = tis.map instructionFields := by
  induction tis generalizing bytes fuel with
  | nil =>
    cases hbytes
    refine ⟨[], ?_, rfl⟩
    rcases fuel with _ | fuel
    · rfl
    · rw [parseInstructionsWhile, if_pos (by simpa using hrest)]
      rfl
  | cons ti tis ih =>
    obtain ⟨front, hfront, hbytes⟩ := bind_eq_ok.mp hbytes
    obtain ⟨back, hback, hbytes⟩ := bind_eq_ok.mp hbytes
    cases hbytes
    obtain ⟨hlong, first, hfirst, hfields⟩ :=
      parseTransferInstruction_toBin (hindices ti (by simp)) hfront (back ++ rest)
    rw [append_assoc, length_append] at hfuel
    rcases fuel with _ | fuel
    · omega
    obtain ⟨others, hothers, hmap⟩ :=
      ih (fun other hother => hindices other (mem_cons_of_mem _ hother)) hback
        (show (back ++ rest).length ≤ fuel by omega)
    refine ⟨first :: others, ?_, by rw [map_cons, map_cons, hfields, hmap]⟩
    rw [parseInstructionsWhile, if_neg, append_assoc, hfirst, ok_bind]
    · change (parseInstructionsWhile fuel (back ++ rest) >>= _) = _
      rw [hothers, ok_bind, length_append]
    · rw [append_assoc, length_append]
      omega

theorem parseMetadata_append (hsize : calculateMetadataSize opCodeBin = .ok metadata.length)
    (hshort : (metadata ++ rest).length < 2 ^ 31) (wholeScriptHex : String) :
    parseMetadataFromLongEnoughString (metadata ++ rest) opCodeBin wholeScriptHex =
      .ok metadata := by
  rw [parseMetadataFromLongEnoughString, hsize, ok_bind, if_neg, substr_zero, take_left]
  rw [asInt_of_lt hshort, length_append]
  omega

/-- A body that is read back as `script`. -/
def ReadAs (protocolVersion : Nat) (opCodeBin body : Bytes) (txType : TxType)
    (script : ScriptData) : Prop :=
  ∃ data : ScriptData, (∀ scriptHex,
      parsePostHeaderData txType protocolVersion body opCodeBin scriptHex = .ok data) ∧
    data.metadata = script.metadata ∧ data.kind = script.kind ∧
    data.transferInstructions.map instructionFields =
      script.transferInstructions.map instructionFields

theorem parseTransferPostHeaderData_toBin (hindices : FiveBitIndices tis)
    (hsize : calculateMetadataSize opCodeBin = .ok metadata.length)
    (hbytes : transferInstructionsToBin tis = .ok bytes)
    (hshort : (metadata ++ bytes).length < 2 ^ 31) :
    ∃ parsed, parseTransferPostHeaderData (metadata ++ bytes) opCodeBin =
        .ok ⟨metadata, parsed, .transfer⟩ ∧
      parsed.map instructionFields = tis.map instructionFields := by
  obtain ⟨parsed, hparsed, hfields⟩ :=
    parseInstructionsWhile_toBin hindices hbytes (show ([] : Bytes).length ≤ 1 by simp) (le_refl _)
  rw [append_nil] at hparsed
  refine ⟨parsed, ?_, hfields⟩
  rw [parseTransferPostHeaderData, parseMetadata_append hsize hshort, ok_bind,
    eraseFront_of_le (by simp), ok_bind, drop_left,
    parseTransferInstructionsFromLongEnoughString, hparsed, ok_bind]
  dsimp only
  rw [eraseFront_of_le (le_refl _), ok_bind]

theorem sendable_of_countedInstructionsToBin (hnonempty : tis ≠ []) (hindices : FiveBitIndices tis)
    (hbytes : countedInstructionsToBin tis = .ok bytes) : Sendable tis := by
  rw [countedInstructionsToBin] at hbytes
  split at hbytes
  · cases hbytes
  · obtain ⟨instructions, hinstructions, -⟩ := bind_eq_ok.mp hbytes
    exact ⟨hnonempty, by omega, hindices, encodable_of_toBin hinstructions⟩

theorem parseIssuancePostHeaderData_toBin (hindices : FiveBitIndices tis)
    (haccepted : IssuanceAccepted tokenSymbol issuanceFlags tis)
    (hsize : calculateMetadataSize opCodeBin = .ok metadata.length)
    (hpadded : createProcessTokenSymbol tokenSymbol = .ok padded)
    (hamount : encodeAmount amount = .ok amountBytes)
    (hbytes : transferInstructionsToBin tis = .ok bytes)
    (hflagByte : convertToByte issuanceFlags = .ok flagByte)
    (hshort : (padded ++ (metadata ++ (amountBytes ++ (bytes ++ [flagByte])))).length < 2 ^ 31) :
    ∃ parsed, parseIssuancePostHeaderData
          (padded ++ (metadata ++ (amountBytes ++ (bytes ++ [flagByte])))) opCodeBin =
        .ok ⟨metadata, parsed, .issuance tokenSymbol amount issuanceFlags⟩ ∧
      parsed.map instructionFields = tis.map instructionFields := by
  obtain ⟨parsed, hparsed, hfields⟩ :=
    parseInstructionsWhile_toBin hindices hbytes (show [flagByte].length ≤ 1 by simp) (le_refl _)
  obtain ⟨flagByte', hflagByte', hflags⟩ :=
    parseIssuanceFlag_convertToByte haccepted.divisibility_le haccepted.policy_known
  obtain rfl : flagByte = flagByte' := Except.ok.inj (hflagByte.symm.trans hflagByte')
  obtain ⟨padded', hpadded', hlength, hspaces⟩ :=
    length_createProcessTokenSymbol haccepted.symbol_length
  obtain rfl : padded = padded' := Except.ok.inj (hpadded.symm.trans hpadded')
  have hsymbol := parseTokenSymbol_padded haccepted.symbol_nonempty haccepted.symbol_alnum
    hlength hspaces hshort
  have hshortMetadata : (metadata ++ (amountBytes ++ (bytes ++ [flagByte]))).length < 2 ^ 31 := by
    rw [length_append] at hshort
    omega
  have hshortAmount : (amountBytes ++ (bytes ++ [flagByte])).length < 2 ^ 31 := by
    rw [length_append] at hshortMetadata
    omega
  refine ⟨parsed, ?_, hfields⟩
  rw [parseIssuancePostHeaderData, hsymbol, ok_bind, eraseFront_of_le (by simp [hlength]), ok_bind,
    drop_left' hlength, parseMetadata_append hsize hshortMetadata, ok_bind,
    eraseFront_of_le (by simp), ok_bind, drop_left,
    parseAmount_encodeAmount hamount (by simp) hshortAmount, ok_bind]
  dsimp only
  rw [eraseFront_of_le (by simp), ok_bind, drop_left,
    parseTransferInstructionsFromLongEnoughString, hparsed, ok_bind]
  dsimp only
  rw [eraseFront_of_le (by simp), ok_bind, drop_left,
    ensureNoSkip_of_fields hfields haccepted.noSkip, ok_bind, if_neg (by simp)]
  change (parseIssuanceFlag flagByte >>= _) = _
  rw [hflags, ok_bind]

section Scripts

variable {dataSize : Nat} {version op : UInt8} {script : BFXTScript} {bin : Bytes}

/-- The written script begins with the header and the opcode of the accepted
one, and its body is read back. -/
def Rewritten (version op : UInt8) (script : BFXTScript) (bin : Bytes) : Prop :=
  ∃ body, bin = 0x4e :: 0x54 :: version :: op :: body ∧
    (body.length < 2 ^ 31 → ReadAs version.toNat [op] body script.txType script.toScriptData)

theorem ensureDataSize_eq_ok (hensure : ensureDataSize dataSize script result = .ok bin) :
    result = bin := by
  rw [ensureDataSize] at hensure
  split at hensure
  · cases hensure
  · exact Except.ok.inj hensure

variable (haccepted : Accepted version op script)
include haccepted

theorem version_of_accepted :
    version = 1 ∨ version = 3 :=
  version_of_parseTxType (haccepted.txType_eq "")

theorem transferBody_read (hbin : calculateTransferScriptBin dataSize script = .ok bin) :
    ∃ body, bin = 0x4e :: 0x54 :: version :: op :: body ∧
      (body.length < 2 ^ 31 → ∃ parsed, parsed.map instructionFields =
          script.transferInstructions.map instructionFields ∧
        ∀ scriptHex, parsePostHeaderData .transfer version.toNat body [op] scriptHex =
          .ok ⟨script.metadata, parsed, .transfer⟩) := by
  rw [calculateTransferScriptBin, haccepted.protocolVersion_eq] at hbin
  rcases version_of_accepted haccepted with rfl | rfl
  · rw [if_pos (show UInt8.toNat 1 = 1 by decide)] at hbin
    obtain ⟨instructions, hinstructions, hbin⟩ := bind_eq_ok.mp hbin
    cases hbin
    rw [haccepted.headerBin_eq, haccepted.opCodeBin_eq]
    refine ⟨script.metadata ++ instructions, by simp, ?_⟩
    intro hshort
    obtain ⟨parsed, hparsed, hfields⟩ := parseTransferPostHeaderData_toBin
      haccepted.body.indices (haccepted.body.metadata_size rfl) hinstructions hshort
    exact ⟨parsed, hfields, fun _ => hparsed⟩
  rw [if_neg (show ¬UInt8.toNat 3 = 1 by decide),
    if_pos (show UInt8.toNat 3 = 3 by decide)] at hbin
  obtain ⟨instructions, hinstructions, hbin⟩ := bind_eq_ok.mp hbin
  obtain rfl := ensureDataSize_eq_ok hbin
  rw [haccepted.headerBin_eq, haccepted.opCodeBin_eq]
  refine ⟨instructions ++ metadataField script.metadata, by simp, ?_⟩
  intro hshort
  obtain ⟨instructions', hinstructions', hparse⟩ := parseBFXTv3TransferPostHeaderData_toBin
    (sendable_of_countedInstructionsToBin (haccepted.body.instructions_nonempty rfl)
      haccepted.body.indices hinstructions)
  obtain rfl : instructions = instructions' :=
    Except.ok.inj (hinstructions.symm.trans hinstructions')
  obtain ⟨parsed, hfields, hparsed⟩ := hparse script.metadata
  have hfield := length_le_metadataField script.metadata
  rw [length_append] at hshort
  rw [parseTrailingMetadata_metadataField (by omega), ok_bind] at hparsed
  exact ⟨parsed, hfields, fun _ => hparsed⟩

omit haccepted

variable (haccepted : Accepted version op script)
include haccepted

theorem rewritten_burn (htype : script.txType = .burn) (hkind : script.kind = .burn)
    (hburns : script.transferInstructions.any (·.outputIndex == burnOutputIndex) = true)
    (hbin : calculateBurnScriptBin dataSize script = .ok bin) :
    Rewritten version op script bin := by
  have htransfer : calculateTransferScriptBin dataSize script = .ok bin := by
    simpa only [calculateBurnScriptBin, calculateTransferScriptBin, hburns, if_true] using hbin
  obtain ⟨body, hbody, hread⟩ := transferBody_read haccepted htransfer
  refine ⟨body, hbody, fun hshort => ?_⟩
  obtain ⟨parsed, hfields, hparsed⟩ := hread hshort
  rw [htype]
  refine ⟨⟨script.metadata, parsed, .burn⟩, fun scriptHex => ?_, rfl, hkind.symm, hfields⟩
  have hdata := hparsed scriptHex
  simp only [parsePostHeaderData] at hdata ⊢
  split_ifs at hdata ⊢
  · rw [parseBurnPostHeaderData, hdata, ok_bind, ensureBurns, any_burns_congr hfields, if_pos hburns]
  · rw [parseBFXTv3BurnPostHeaderData, hdata, ok_bind, ensureBurns, any_burns_congr hfields,
      if_pos hburns]
  · cases hdata

theorem rewritten_issuance (htype : script.txType = .issuance)
    (hkind : script.kind = .issuance tokenSymbol amount issuanceFlags)
    (hissuance : IssuanceAccepted tokenSymbol issuanceFlags script.transferInstructions)
    (hbin : calculateIssuanceScriptBin dataSize script tokenSymbol amount issuanceFlags = .ok bin) :
    Rewritten version op script bin := by
  rw [calculateIssuanceScriptBin, haccepted.protocolVersion_eq] at hbin
  rcases version_of_accepted haccepted with rfl | rfl
  · rw [if_pos (show UInt8.toNat 1 = 1 by decide)] at hbin
    obtain ⟨padded, hpadded, hbin⟩ := bind_eq_ok.mp hbin
    rw [unhex_numberToHexBFXTAmount_bind] at hbin
    simp only [bind_eq_ok] at hbin
    obtain ⟨amountBytes, hamount, instructions, hinstructions, flagByte, hflagByte, hbin⟩ := hbin
    cases hbin
    rw [haccepted.headerBin_eq, haccepted.opCodeBin_eq]
    refine ⟨padded ++ (script.metadata ++ (amountBytes ++ (instructions ++ [flagByte]))),
      by simp, ?_⟩
    intro hshort
    obtain ⟨parsed, hparsed, hfields⟩ := parseIssuancePostHeaderData_toBin
      haccepted.body.indices hissuance (haccepted.body.metadata_size rfl) hpadded hamount
      hinstructions hflagByte hshort
    rw [htype]
    exact ⟨_, fun _ => hparsed, rfl, hkind.symm, hfields⟩
  rw [if_neg (show ¬UInt8.toNat 3 = 1 by decide),
    if_pos (show UInt8.toNat 3 = 3 by decide)] at hbin
  simp only [bind_eq_ok] at hbin
  obtain ⟨padded, hpadded, amountStr, hamountStr, amountBytes, hamount, instructions,
    hinstructions, flagByte, hflagByte, hbin⟩ := hbin
  obtain rfl := ensureDataSize_eq_ok hbin
  rw [haccepted.headerBin_eq, haccepted.opCodeBin_eq]
  have hsendable := sendable_of_countedInstructionsToBin
    (haccepted.body.instructions_nonempty rfl) haccepted.body.indices hinstructions
  have hissuable : Issuable tokenSymbol amount script.transferInstructions issuanceFlags :=
    { hsendable with
      noSkip := hissuance.noSkip
      symbol_nonempty := hissuance.symbol_nonempty
      symbol_length := hissuance.symbol_length
      symbol_alnum := hissuance.symbol_alnum
      amount_encodable := ⟨amountStr, hamountStr⟩
      divisibility_le := hissuance.divisibility_le
      policy_known := hissuance.policy_known }
  obtain ⟨padded', amountBytes', instructions', flagByte', hpadded', hamount', hinstructions',
    hflagByte', hparse⟩ := parseBFXTv3IssuancePostHeaderData_toBin hissuable
  have hencoded : encodeAmount amount = .ok amountBytes := by
    rw [← unhex_numberToHexBFXTAmount amount false, hamountStr, ok_bind, hamount]
  obtain rfl : padded = padded' := Except.ok.inj (hpadded.symm.trans hpadded')
  obtain rfl : amountBytes = amountBytes' := Except.ok.inj (hencoded.symm.trans hamount')
  obtain rfl : instructions = instructions' :=
    Except.ok.inj (hinstructions.symm.trans hinstructions')
  obtain rfl : flagByte = flagByte' := Except.ok.inj (hflagByte.symm.trans hflagByte')
  refine ⟨padded ++ (amountBytes ++ (instructions ++
    (flagByte :: metadataField script.metadata))), by simp, ?_⟩
  intro hshort
  obtain ⟨parsed, hfields, hparsed⟩ := hparse script.metadata hshort
  rw [htype]
  exact ⟨_, fun _ => hparsed, rfl, hkind.symm, hfields⟩

variable (hbin : calculateScriptBin dataSize script = .ok bin)
include hbin

theorem rewritten_of_accepted : Rewritten version op script bin := by
  have hbody := haccepted.body.kind
  rw [calculateScriptBin] at hbin
  generalize htype : script.txType = txType at hbody
  cases hbody with
  | issuance hkind hissuance =>
    simp only [hkind] at hbin
    exact rewritten_issuance haccepted htype hkind hissuance hbin
  | transfer hkind =>
    simp only [hkind] at hbin
    obtain ⟨body, hbody, hread⟩ := transferBody_read haccepted hbin
    refine ⟨body, hbody, fun hshort => ?_⟩
    obtain ⟨parsed, hfields, hparsed⟩ := hread hshort
    rw [htype]
    exact ⟨_, hparsed, rfl, hkind.symm, hfields⟩
  | burn hkind hburns =>
    simp only [hkind] at hbin
    exact rewritten_burn haccepted htype hkind hburns hbin

theorem parseScript_rewritten (hshort : bin.length < 2 ^ 31) :
    ∃ parsed, parseScript (hex bin) = .ok parsed ∧ SameContents script parsed := by
  obtain ⟨body, rfl, hread⟩ := rewritten_of_accepted haccepted hbin
  simp only [length_cons] at hshort
  obtain ⟨data, hdata, hmetadata, hkind, hfields⟩ := hread (by omega)
  refine ⟨⟨data, hex (0x4e :: 0x54 :: version :: op :: body), [0x4e, 0x54, version],
    version.toNat, [op], script.txType, true⟩, ?_, haccepted.headerBin_eq.symm,
    haccepted.protocolVersion_eq.symm, haccepted.opCodeBin_eq.symm, rfl,
    haccepted.sizeCheck_eq.symm, hmetadata, hkind, hfields⟩
  rw [parseScript_header version haccepted.op_ne body (unhex_hex _), haccepted.txType_eq, ok_bind, hdata,
    ok_bind, setCommonParams, haccepted.common_eq, ok_bind]
  rfl

omit hbin

omit haccepted

/-- An accepted script that can be written out again, in fewer than `2 ^ 31`
bytes, is read back with the same contents, and is then written as the same
bytes. -/
theorem reencoded_script_reads_back {scriptHex : String}
    (hparse : parseScript scriptHex = .ok script)
    (hbin : calculateScriptBin dataSize script = .ok bin) (hshort : bin.length < 2 ^ 31) :
    ∃ parsed, parseScript (hex bin) = .ok parsed ∧ parsed.txType = script.txType ∧
      parsed.protocolVersion = script.protocolVersion ∧ parsed.metadata = script.metadata ∧
      parsed.kind = script.kind ∧
      parsed.transferInstructions.map instructionFields =
        script.transferInstructions.map instructionFields ∧
      calculateScriptBin dataSize parsed = .ok bin := by
  obtain ⟨version, op, haccepted⟩ := accepted_of_parseScript hparse
  obtain ⟨parsed, hparsed, hsame⟩ := parseScript_rewritten haccepted hbin hshort
  exact ⟨parsed, hparsed, hsame.txType_eq, hsame.protocolVersion_eq, hsame.metadata_eq,
    hsame.kind_eq, hsame.instructions_eq, by rw [hsame.calculateScriptBin_eq, hbin]⟩

end Scripts

/-- An instruction of seven bytes: the amount has a mantissa of thirteen digits
and the exponent one. -/
def shortChunk : Bytes := [0x00, 0xa7, 0x46, 0xa5, 0x28, 0x80, 0x09]

/-- The same instruction as the encoder writes it: past twelve digits it leaves
the zeros in the mantissa, which takes one byte more. -/
def longChunk : Bytes := [0x00, 0xc0, 0x09, 0x18, 0x4e, 0x72, 0xa0, 0x0a]

def bigInstruction : TransferInstruction :=
  ⟨0x00, false, 0, [0xa7, 0x46, 0xa5, 0x28, 0x80, 0x09], 10000000000010⟩

theorem parseTransferInstruction_shortChunk (rest : Bytes) :
    parseTransferInstruction (shortChunk ++ rest) = .ok (bigInstruction, 7, rest) := by
  have hamount : bfxtAmountHexToNumber (hex [0xa7, 0x46, 0xa5, 0x28, 0x80, 0x09]) =
      .ok 10000000000010 := by
    decide +kernel
  rw [shortChunk]
  simp only [cons_append, nil_append]
  rw [parseTransferInstruction_cons_cons, show calculateAmountSize 0xa7 = 6 by decide]
  simp only [take_succ_cons, take_zero, drop_succ_cons, drop_zero, hamount, ok_bind]
  rfl

theorem parseInstructionsWhile_shortChunks (n : Nat) (hfuel : 7 * n ≤ fuel) :
    parseInstructionsWhile fuel (List.replicate n shortChunk).flatten =
      .ok (List.replicate n bigInstruction, 7 * n) := by
  induction n generalizing fuel with
  | zero =>
    rcases fuel with _ | fuel
    · rfl
    · rw [parseInstructionsWhile, if_pos (by simp)]
      rfl
  | succ n ih =>
    rcases fuel with _ | fuel
    · omega
    rw [replicate_succ, flatten_cons, parseInstructionsWhile,
      if_neg (by simp [shortChunk]), parseTransferInstruction_shortChunk, ok_bind]
    dsimp only
    rw [ih (by omega), ok_bind]
    dsimp only
    rw [replicate_succ, Nat.mul_succ, Nat.add_comm]

theorem transferInstructionsToBin_bigInstructions (n : Nat) :
    transferInstructionsToBin (List.replicate n bigInstruction) =
      .ok (List.replicate n longChunk).flatten := by
  have hchunk : transferInstructionToBinScript bigInstruction = .ok longChunk := by
    decide +kernel
  induction n with
  | zero => rfl
  | succ n ih =>
    rw [replicate_succ, transferInstructionsToBin, hchunk, ok_bind, ih, ok_bind,
      replicate_succ, flatten_cons]

theorem length_flatten_replicate (n : Nat) (chunk : Bytes) :
    (List.replicate n chunk).flatten.length = n * chunk.length := by
  rw [length_flatten, map_replicate, sum_replicate_nat]

theorem parseScript_v1_transfer (body : Bytes)
    (hhex : scriptHex = hex (0x4e :: 0x54 :: 0x01 :: 0x12 :: body)) :
    parseScript scriptHex = rethrow scriptHex
      (parseTransferPostHeaderData body [0x12] >>= fun script =>
        setCommonParams script [0x4e, 0x54, 0x01] 1 [0x12] scriptHex) := by
  have htype : parseTxType 1 [0x12] scriptHex = .ok .transfer := rfl
  have hdata : parsePostHeaderData .transfer 1 body [0x12] scriptHex =
      parseTransferPostHeaderData body [0x12] := rfl
  have hop : (0x12 : UInt8) ≠ 255 := by decide
  rw [parseScript_header 1 hop body (hhex ▸ unhex_hex _), show UInt8.toNat 1 = 1 from rfl, htype,
    ok_bind, hdata]

theorem calculateMetadataSize_transfer : calculateMetadataSize [0x12] = .ok ([] : Bytes).length :=
  rfl

theorem parseTransferPostHeaderData_shortChunks (hn : 7 * n < 2 ^ 31) :
    parseTransferPostHeaderData (List.replicate n shortChunk).flatten [0x12] =
      .ok ⟨[], List.replicate n bigInstruction, .transfer⟩ := by
  have hlength : (List.replicate n shortChunk).flatten.length = 7 * n := by
    rw [length_flatten_replicate, Nat.mul_comm]
    rfl
  have hmetadata := parseMetadata_append calculateMetadataSize_transfer
    (show ([] ++ (List.replicate n shortChunk).flatten).length < 2 ^ 31 by
      rwa [nil_append, hlength]) ""
  rw [nil_append] at hmetadata
  rw [parseTransferPostHeaderData, hmetadata, ok_bind, length_nil,
    eraseFront_of_le (Nat.zero_le _), ok_bind, drop_zero,
    parseTransferInstructionsFromLongEnoughString,
    parseInstructionsWhile_shortChunks n (le_of_eq hlength.symm), ok_bind]
  dsimp only
  rw [eraseFront_of_le (le_of_eq hlength.symm), ok_bind]

theorem parseTransferPostHeaderData_of_negative (hnegative : asInt body.length < 0) :
    ∃ what, parseTransferPostHeaderData body [0x12] = raise what := by
  rw [parseTransferPostHeaderData, parseMetadataFromLongEnoughString,
    calculateMetadataSize_transfer, ok_bind, if_pos (by simpa using hnegative), raise_bind]
  exact ⟨_, rfl⟩

/-- Version 1 bounds neither the number of instructions nor the size of a
script. One of less than two gigabytes becomes longer when it is written out,
and the size then is negative as an `int`. -/
theorem reencoded_script_too_long :
    ∃ scriptHex script bin, parseScript scriptHex = .ok script ∧
      calculateScriptBin 4096 script = .ok bin ∧ ∃ what, parseScript (hex bin) = raise what := by
  obtain ⟨n, hn⟩ : ∃ n, n = 2 ^ 28 := ⟨_, rfl⟩
  obtain ⟨scriptHex, hhex⟩ : ∃ scriptHex, scriptHex =
      hex (0x4e :: 0x54 :: 0x01 :: 0x12 :: (List.replicate n shortChunk).flatten) := ⟨_, rfl⟩
  have hbin : calculateScriptBin 4096 ⟨⟨[], List.replicate n bigInstruction, .transfer⟩, scriptHex,
      [0x4e, 0x54, 0x01], 1, [0x12], .transfer, true⟩ =
        .ok (0x4e :: 0x54 :: 0x01 :: 0x12 :: (List.replicate n longChunk).flatten) :=
    bind_eq_ok.mpr ⟨_, transferInstructionsToBin_bigInstructions n, rfl⟩
  refine ⟨scriptHex, _, _, ?_, hbin, ?_⟩
  · rw [parseScript_v1_transfer _ hhex, parseTransferPostHeaderData_shortChunks (by omega),
      ok_bind]
    rfl
  have hnegative : asInt (List.replicate n longChunk).flatten.length < 0 := by
    rw [length_flatten_replicate, hn]
    decide
  obtain ⟨what, hwhat⟩ := parseTransferPostHeaderData_of_negative hnegative
  rw [parseScript_v1_transfer _ rfl, hwhat, raise_bind]
  exact ⟨_, rfl⟩

/-- A transfer of version 1 with an ignored flag bit, an amount of two bytes for
five tokens and a stray last byte. -/
theorem reencoded_stray_byte :
    ∃ script, parseScript (hex [0x4e, 0x54, 0x01, 0x12, 0x41, 0x20, 0x50, 0x99]) = .ok script ∧
      ∃ parsed, parseScript (hex [0x4e, 0x54, 0x01, 0x12, 0x01, 0x05]) = .ok parsed ∧
        parsed.txType = script.txType ∧ parsed.protocolVersion = script.protocolVersion ∧
        parsed.metadata = script.metadata ∧ parsed.kind = script.kind ∧
        parsed.transferInstructions.map instructionFields =
          script.transferInstructions.map instructionFields ∧
        calculateScriptBin 4096 parsed = .ok [0x4e, 0x54, 0x01, 0x12, 0x01, 0x05] := by
  have hparse : parseScript (hex [0x4e, 0x54, 0x01, 0x12, 0x41, 0x20, 0x50, 0x99]) =
      .ok ⟨⟨[], [⟨0x41, false, 1, [0x20, 0x50], 5⟩], .transfer⟩,
        hex [0x4e, 0x54, 0x01, 0x12, 0x41, 0x20, 0x50, 0x99], [0x4e, 0x54, 0x01], 1, [0x12],
        .transfer, true⟩ := by
    decide +kernel
  exact ⟨_, hparse, reencoded_script_reads_back hparse (by decide +kernel) (by decide)⟩

end Bfx.ScriptReencoding
