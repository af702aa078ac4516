import Bfx.TokenScript

/-!
Which undefined accesses the script parser can make. Every parser but the one
for the token symbol leaves its caller enough bytes to drop.
-/

namespace Bfx.ParserSafety

open AmountCodec CallOutcome HexText List TokenScript

theorem asInt_le (size : Nat) : asInt size ≤ size := by
  unfold asInt
  have := Int.bmod_def (size : Int) (2 ^ 32)
  split_ifs at this <;> omega

theorem asInt_of_lt (h : size < 2 ^ 31) : asInt size = size := by
  apply Int.bmod_eq_of_le <;> omega

theorem eraseFront_of_le (h : n ≤ s.length) : eraseFront n s = .ok (s.drop n) := by
  simp [eraseFront, h]

theorem eraseFront_of_lt (h : s.length < n) :
    eraseFront n s = .error (.outOfBounds .scriptBin) := by
  simp [eraseFront, h]

@[simp] theorem substr_zero (s : Bytes) (n : Nat) : substr s 0 n = .ok (s.take n) := by
  simp [substr]

theorem substr_of_le (n : Nat) (h : pos ≤ s.length) :
    substr s pos n = .ok ((s.drop pos).take n) := by
  simp [substr, h]

theorem charAt_of_lt (h : i < s.length) : charAt s i = .ok s[i] := by
  rw [charAt, if_neg (by omega), index_of_lt h]

@[simp] theorem charAt_nil : charAt [] 0 = .ok 0 := rfl

@[simp] theorem charAt_cons_zero (b : UInt8) (s : Bytes) : charAt (b :: s) 0 = .ok b :=
  charAt_of_lt (s := b :: s) (by simp)

theorem exists_charAt_zero (s : Bytes) : ∃ b, charAt s 0 = .ok b := by
  rcases s with _ | ⟨b, s⟩
  · exact ⟨0, charAt_nil⟩
  · exact ⟨b, charAt_cons_zero b s⟩

section Consumption

/-- A parser of `bin` that makes no undefined access and reports no more bytes
than there are. -/
def Consumes {α : Type} (bin : Bytes) (size : α → Nat) (x : Outcome α) : Prop :=
  InBounds x ∧ ∀ a, x = .ok a → size a ≤ bin.length

variable {α : Type}

theorem consumes_raise (what : String) : Consumes bin size (raise what) :=
  ⟨inBounds_raise what, fun a h => absurd h (raise_ne_ok what a)⟩

theorem consumes_ok (h : size a ≤ bin.length) : Consumes bin size (.ok a) := by
  refine ⟨inBounds_ok a, ?_⟩
  rintro _ ⟨⟩
  exact h

theorem consumes_bind (hx : InBounds x) (hf : ∀ b, x = .ok b → Consumes bin size (f b)) :
    Consumes bin size (x >>= f) := by
  refine ⟨inBounds_bind.mpr ⟨hx, fun b hb => (hf b hb).1⟩, ?_⟩
  intro a ha
  obtain ⟨b, hb, hfb⟩ := bind_eq_ok.mp ha
  exact (hf b hb).2 a hfb

theorem Consumes.inBounds_bind (hx : Consumes bin size x)
    (hf : ∀ a, size a ≤ bin.length → InBounds (f a)) : InBounds (x >>= f) :=
  CallOutcome.inBounds_bind.mpr ⟨hx.1, fun a ha => hf a (hx.2 a ha)⟩

theorem inBounds_eraseFront_bind (h : n ≤ bin.length) (hf : InBounds (f (bin.drop n))) :
    InBounds (eraseFront n bin >>= f) := by
  rwa [eraseFront_of_le h, ok_bind]

end Consumption

theorem inBounds_unhexChars (text : List Char) : InBounds (unhexChars text) := by
  fun_induction unhexChars text with
  | case1 => exact inBounds_ok _
  | case2 c h => exact inBounds_raise _
  | case3 c v h => exact inBounds_raise _
  | case4 high low rest h l hhigh hlow ih =>
    exact inBounds_bind.mpr ⟨ih, fun _ _ => inBounds_ok _⟩
  | case5 => exact inBounds_raise _

theorem inBounds_bfxtAmountHexToNumber (hexVal : String) :
    InBounds (bfxtAmountHexToNumber hexVal) := by
  unfold bfxtAmountHexToNumber
  dsimp only
  split_ifs
  · refine inBounds_bind.mpr ⟨inBounds_unhexChars _, fun bin _ => ?_⟩
    exact inBounds_ite (inBounds_raise _) (inBounds_ite (inBounds_raise _) (inBounds_ok _))
  · exact inBounds_raise _

theorem inBounds_calculateMetadataSize (opCodeBin : Bytes) :
    InBounds (calculateMetadataSize opCodeBin) := by
  obtain ⟨char1, hchar⟩ := exists_charAt_zero opCodeBin
  unfold calculateMetadataSize
  rw [hchar, ok_bind]
  split
  · exact inBounds_raise _
  split
  · exact inBounds_ok _
  · exact inBounds_raise _

theorem inBounds_calculateTxType (opCodeBin : Bytes) : InBounds (calculateTxType opCodeBin) := by
  obtain ⟨char1, hchar⟩ := exists_charAt_zero opCodeBin
  unfold calculateTxType
  rw [hchar, ok_bind]
  split_ifs <;> simp

theorem inBounds_calculateTxTypeBFXTv3 (opCodeBin : Bytes) :
    InBounds (calculateTxTypeBFXTv3 opCodeBin) := by
  obtain ⟨char1, hchar⟩ := exists_charAt_zero opCodeBin
  unfold calculateTxTypeBFXTv3
  rw [hchar, ok_bind]
  split_ifs <;> simp

theorem consumes_parseAmount (bin : Bytes) :
    Consumes bin Prod.snd (parseAmountFromLongEnoughString bin) := by
  unfold parseAmountFromLongEnoughString
  split
  · exact consumes_raise _
  obtain ⟨first, hfirst⟩ := exists_charAt_zero bin
  rw [hfirst, ok_bind]
  dsimp only
  split
  · exact consumes_raise _
  rename_i _ hsize
  rw [substr_zero, ok_bind]
  apply consumes_bind (inBounds_bfxtAmountHexToNumber _)
  intro amount _
  have := asInt_le bin.length
  exact consumes_ok (by omega)

theorem consumes_parseOpCode (bin : Bytes) :
    Consumes bin List.length (parseOpCodeFromLongEnoughString bin) := by
  induction bin with
  | nil => exact consumes_ok (le_refl 0)
  | cons c rest ih =>
    unfold parseOpCodeFromLongEnoughString
    split_ifs
    · exact consumes_ok (by simp)
    · exact consumes_raise _
    apply consumes_bind ih.1
    intro opCode hopCode
    exact consumes_ok (Nat.succ_le_succ (ih.2 opCode hopCode))

theorem consumes_parseMetadata (bin opCodeBin : Bytes) (wholeScriptHex : String) :
    Consumes bin List.length (parseMetadataFromLongEnoughString bin opCodeBin wholeScriptHex) := by
  apply consumes_bind (inBounds_calculateMetadataSize opCodeBin)
  intro metadataSize _
  split
  · exact consumes_raise _
  · rw [substr_zero]
    exact consumes_ok (length_take_le' _ _)

theorem parseTransferInstruction_cons_cons (first second : UInt8) (tail : Bytes) :
    parseTransferInstruction (first :: second :: tail) =
      bfxtAmountHexToNumber (hex ((second :: tail).take (calculateAmountSize second))) >>=
        fun amount => .ok
          (instructionFromRaw first ((second :: tail).take (calculateAmountSize second)) amount,
            1 + ((second :: tail).take (calculateAmountSize second)).length,
            (second :: tail).drop (calculateAmountSize second)) := by
  have hsize : 1 + ((second :: tail).take (calculateAmountSize second)).length ≤
      (first :: second :: tail).length := by
    simp only [length_take, length_cons]
    omega
  have hdrop : (first :: second :: tail).drop
      (1 + ((second :: tail).take (calculateAmountSize second)).length) =
      (second :: tail).drop (calculateAmountSize second) := by
    rw [Nat.add_comm, drop_succ_cons, length_take]
    rcases Nat.le_total (calculateAmountSize second) (second :: tail).length with h | h
    · rw [Nat.min_eq_left h]
    · rw [Nat.min_eq_right h, drop_length, drop_of_length_le h]
  unfold parseTransferInstruction
  rw [charAt_cons_zero, ok_bind, charAt_of_lt (i := 1) (by simp), ok_bind,
    substr_of_le _ (by simp), ok_bind]
  simp only [getElem_cons_succ, getElem_cons_zero, drop_succ_cons, drop_zero]
  rw [eraseFront_of_le hsize, ok_bind, hdrop]

theorem consumes_parseTransferInstruction_bind (hlength : ¬ toParse.length ≤ 1)
    {loop : Bytes → Outcome (List TransferInstruction × Nat)}
    (hloop : ∀ rest : Bytes, Consumes rest Prod.snd (loop rest)) :
    Consumes toParse Prod.snd (do
      let (transferInst, currentSize, rest) ← parseTransferInstruction toParse
      let (result, totalRawSize) ← loop rest
      .ok (transferInst :: result, currentSize + totalRawSize)) := by
  rcases toParse with _ | ⟨first, _ | ⟨second, tail⟩⟩
  · simp at hlength
  · simp at hlength
  rw [parseTransferInstruction_cons_cons, bind_assoc]
  apply consumes_bind (inBounds_bfxtAmountHexToNumber _)
  intro amount _
  rw [ok_bind]
  apply consumes_bind (hloop _).1
  rintro ⟨result, totalRawSize⟩ hresult
  have htotal := (hloop _).2 _ hresult
  apply consumes_ok
  simp only [length_take, length_drop, length_cons] at htotal ⊢
  omega

theorem consumes_parseInstructionsWhile (fuel : Nat) (toParse : Bytes) :
    Consumes toParse Prod.snd (parseInstructionsWhile fuel toParse) := by
  induction fuel generalizing toParse with
  | zero => exact consumes_ok (Nat.zero_le _)
  | succ fuel ih =>
    unfold parseInstructionsWhile
    split
    · exact consumes_ok (Nat.zero_le _)
    · rename_i hlength
      exact consumes_parseTransferInstruction_bind hlength ih

theorem consumes_parseInstructionsCounted (i count : Nat) (toParse : Bytes) :
    Consumes toParse Prod.snd (parseInstructionsCounted i count toParse) := by
  induction count generalizing i toParse with
  | zero => exact consumes_ok (Nat.zero_le _)
  | succ count ih =>
    unfold parseInstructionsCounted
    split
    · exact consumes_raise _
    · rename_i hlength
      exact consumes_parseTransferInstruction_bind hlength (ih (i + 1))

theorem consumes_parseBFXTv3TransferInstructions (bin : Bytes) :
    Consumes bin Prod.snd (parseBFXTv3TransferInstructionsFromLongEnoughString bin) := by
  unfold parseBFXTv3TransferInstructionsFromLongEnoughString
  rcases bin with _ | ⟨count, toParse⟩
  · exact consumes_raise _
  rw [charAt_cons_zero, ok_bind, eraseFront_of_le (by simp), ok_bind]
  split_ifs
  · exact consumes_raise _
  · exact consumes_raise _
  have hloop := consumes_parseInstructionsCounted 0 count.toNat toParse
  apply consumes_bind hloop.1
  rintro ⟨result, totalRawSize⟩ hresult
  have htotal := hloop.2 _ hresult
  apply consumes_ok
  simp only [length_cons] at htotal ⊢
  omega

theorem consumes_parseBFXTv3Metadata (bin : Bytes) (wholeScriptHex : String) :
    Consumes bin (fun metadata => if metadata.length > 0 then metadata.length + 4 else 0)
      (parseBFXTv3MetadataFromLongEnoughString bin wholeScriptHex) := by
  unfold parseBFXTv3MetadataFromLongEnoughString
  split_ifs with hempty hshort
  · exact consumes_ok (Nat.zero_le _)
  · exact consumes_raise _
  have hprefix : (bin.take 4).length = 4 := by
    rw [length_take]
    omega
  rw [substr_zero, ok_bind, hprefix, eraseFront_of_le (by omega), ok_bind]
  split
  · exact consumes_raise _
  apply consumes_ok
  rw [length_drop]
  split <;> omega

theorem inBounds_parseTrailingMetadata (scriptBin : Bytes) :
    InBounds (parseTrailingMetadata scriptBin) := by
  apply (consumes_parseBFXTv3Metadata scriptBin "").inBounds_bind
  intro metadata hsize
  exact inBounds_eraseFront_bind hsize (inBounds_ite (inBounds_raise _) (inBounds_ok _))

theorem inBounds_parseIssuanceFlag (flags : UInt8) : InBounds (parseIssuanceFlag flags) := by
  unfold parseIssuanceFlag
  dsimp only
  split <;> simp

theorem inBounds_ensureNoSkip
    (transferInstructions : List TransferInstruction) (scriptBin : Bytes) :
    InBounds (ensureNoSkip transferInstructions scriptBin) := by
  exact inBounds_ite (inBounds_raise _) (inBounds_ok _)

theorem inBounds_checkedAt (l : List α) (i : Nat) : InBounds (checkedAt l i) := by
  unfold checkedAt
  split <;> simp

/-- Fewer than five bytes that pass for a token symbol. -/
def TruncatedSymbol (scriptBin : Bytes) : Prop :=
  scriptBin.length < 5 ∧ (∃ c ∈ scriptBin, c ≠ 0x20) ∧
    ∀ c ∈ scriptBin, c ≠ 0x20 → isalnum c = true

instance (scriptBin : Bytes) : Decidable (TruncatedSymbol scriptBin) :=
  inferInstanceAs (Decidable (_ ∧ _ ∧ _))

theorem inBounds_parseTokenSymbol (bin : Bytes) :
    InBounds (parseTokenSymbolFromLongEnoughString bin) := by
  unfold parseTokenSymbolFromLongEnoughString
  rw [substr_zero, ok_bind]
  apply inBounds_ite (inBounds_raise _)
  dsimp only
  split
  · exact inBounds_raise _
  · exact inBounds_ite (inBounds_raise _) (inBounds_ok _)

theorem parseTokenSymbol_eq_ok :
    parseTokenSymbolFromLongEnoughString bin = .ok symbol ↔
      0 ≤ asInt bin.length ∧ symbol = (bin.take 5).filter (· != 0x20) ∧ symbol ≠ [] ∧
        ∀ c ∈ symbol, isalnum c = true := by
  unfold parseTokenSymbolFromLongEnoughString
  rw [substr_zero, ok_bind]
  rcases lt_or_ge (asInt bin.length) 0 with hnegative | hsize
  · rw [if_pos hnegative]
    simp only [raise_ne_ok, false_iff, not_and]
    intro hsize
    omega
  rw [if_neg (by omega)]
  dsimp only
  generalize (bin.take 5).filter (· != 0x20) = result
  rcases hfind : result.find? (fun c => !isTokenSymbolCharValid c) with _ | c
  · have hvalid : ∀ c ∈ result, isalnum c = true := by
      intro c hc
      simpa [isTokenSymbolCharValid] using List.find?_eq_none.mp hfind c hc
    simp only [length_eq_zero_iff]
    split
    · rename_i hnil
      simp only [raise_ne_ok, false_iff, not_and]
      rintro - rfl hne
      exact absurd hnil hne
    rename_i hne
    simp only [Except.ok.injEq]
    constructor
    · rintro rfl
      exact ⟨hsize, rfl, hne, hvalid⟩
    · rintro ⟨-, rfl, -, -⟩
      rfl
  have hmem := mem_of_find?_eq_some hfind
  have hinvalid := List.find?_some hfind
  simp only [raise_ne_ok, false_iff, not_and]
  rintro - rfl - hall
  simp [isTokenSymbolCharValid, hall c hmem] at hinvalid

/-- Both issuance parsers start by reading a symbol and dropping five bytes. -/
theorem symbol_bind_of_truncated (h : TruncatedSymbol bin) (f : Bytes → Bytes → Outcome ScriptData)
    :
    (parseTokenSymbolFromLongEnoughString bin >>= fun symbol => eraseFront 5 bin >>= f symbol) =
      .error (.outOfBounds .scriptBin) := by
  obtain ⟨hshort, ⟨c, hc, hspace⟩, halnum⟩ := h
  have hsymbol : parseTokenSymbolFromLongEnoughString bin =
      .ok ((bin.take 5).filter (· != 0x20)) := by
    rw [parseTokenSymbol_eq_ok, take_of_length_le (by omega)]
    refine ⟨by rw [asInt_of_lt (by omega)]; omega, rfl,
      ne_nil_of_mem (mem_filter.mpr ⟨hc, by simpa using hspace⟩), ?_⟩
    intro d hd
    obtain ⟨hd, hdspace⟩ := mem_filter.mp hd
    exact halnum d hd (by simpa using hdspace)
  rw [hsymbol, ok_bind, eraseFront_of_lt hshort, error_bind]

/-- They are safe exactly when those five bytes are there. -/
theorem inBounds_symbol_bind {f : Bytes → Bytes → Outcome ScriptData}
    (hf : ∀ symbol rest, InBounds (f symbol rest)) :
    InBounds (parseTokenSymbolFromLongEnoughString bin >>= fun symbol =>
      eraseFront 5 bin >>= f symbol) ↔ ¬ TruncatedSymbol bin := by
  constructor
  · intro h htruncated
    rw [symbol_bind_of_truncated htruncated] at h
    exact not_inBounds_outOfBounds _ h
  intro hlong
  refine inBounds_bind.mpr ⟨inBounds_parseTokenSymbol bin, ?_⟩
  intro symbol hsymbol
  obtain ⟨-, rfl, hne, halnum⟩ := parseTokenSymbol_eq_ok.mp hsymbol
  rcases Nat.lt_or_ge bin.length 5 with hshort | hfive
  · exfalso
    apply hlong
    rw [take_of_length_le (by omega)] at hne halnum
    obtain ⟨c, hc⟩ := exists_mem_of_ne_nil _ hne
    obtain ⟨hc, hspace⟩ := mem_filter.mp hc
    refine ⟨hshort, ⟨c, hc, by simpa using hspace⟩, ?_⟩
    intro d hd hdspace
    exact halnum d (mem_filter.mpr ⟨hd, by simpa using hdspace⟩)
  · exact inBounds_eraseFront_bind hfive (hf _ _)

theorem inBounds_parseIssuancePostHeaderData_iff (scriptBin opCodeBin : Bytes) :
    InBounds (parseIssuancePostHeaderData scriptBin opCodeBin) ↔ ¬ TruncatedSymbol scriptBin := by
  apply inBounds_symbol_bind
  intro symbol scriptBin
  apply (consumes_parseMetadata scriptBin opCodeBin "").inBounds_bind
  intro metadata hmetadata
  apply inBounds_eraseFront_bind hmetadata
  apply (consumes_parseAmount _).inBounds_bind
  rintro ⟨amount, amountRawSize⟩ hamount
  apply inBounds_eraseFront_bind hamount
  apply (consumes_parseInstructionsWhile _ _).inBounds_bind
  rintro ⟨transferInstructions, totalSize⟩ htotal
  apply inBounds_eraseFront_bind htotal
  apply inBounds_bind.mpr ⟨inBounds_ensureNoSkip _ _, fun _ _ => ?_⟩
  apply inBounds_ite (inBounds_raise _)
  apply inBounds_bind.mpr ⟨inBounds_checkedAt _ _, fun flags _ => ?_⟩
  exact inBounds_bind.mpr ⟨inBounds_parseIssuanceFlag flags, fun _ _ => inBounds_ok _⟩

theorem inBounds_parseBFXTv3IssuancePostHeaderData_iff (scriptBin : Bytes) :
    InBounds (parseBFXTv3IssuancePostHeaderData scriptBin) ↔ ¬ TruncatedSymbol scriptBin := by
  apply inBounds_symbol_bind
  intro symbol scriptBin
  apply (consumes_parseAmount _).inBounds_bind
  rintro ⟨amount, amountRawSize⟩ hamount
  apply inBounds_eraseFront_bind hamount
  apply (consumes_parseBFXTv3TransferInstructions _).inBounds_bind
  rintro ⟨transferInstructions, totalSize⟩ htotal
  apply inBounds_eraseFront_bind htotal
  apply inBounds_bind.mpr ⟨inBounds_ensureNoSkip _ _, fun _ _ => ?_⟩
  split
  · exact inBounds_raise _
  rename_i hflag
  apply inBounds_bind.mpr ⟨inBounds_checkedAt _ _, fun flags _ => ?_⟩
  apply inBounds_bind.mpr ⟨inBounds_parseIssuanceFlag flags, fun _ _ => ?_⟩
  apply inBounds_eraseFront_bind (by omega)
  exact inBounds_bind.mpr ⟨inBounds_parseTrailingMetadata _, fun _ _ => inBounds_ok _⟩

theorem inBounds_parseTransferPostHeaderData (scriptBin opCodeBin : Bytes) :
    InBounds (parseTransferPostHeaderData scriptBin opCodeBin) := by
  apply (consumes_parseMetadata scriptBin opCodeBin "").inBounds_bind
  intro metadata hmetadata
  apply inBounds_eraseFront_bind hmetadata
  apply (consumes_parseInstructionsWhile _ _).inBounds_bind
  rintro ⟨transferInstructions, totalSize⟩ htotal
  exact inBounds_eraseFront_bind htotal (inBounds_ok _)

theorem inBounds_parseBFXTv3TransferPostHeaderData (scriptBin : Bytes) :
    InBounds (parseBFXTv3TransferPostHeaderData scriptBin) := by
  apply (consumes_parseBFXTv3TransferInstructions scriptBin).inBounds_bind
  rintro ⟨transferInstructions, totalSize⟩ htotal
  apply inBounds_eraseFront_bind htotal
  exact inBounds_bind.mpr ⟨inBounds_parseTrailingMetadata _, fun _ _ => inBounds_ok _⟩

theorem inBounds_bind_ensureBurns (hx : InBounds x) : InBounds (x >>= ensureBurns) :=
  inBounds_bind.mpr ⟨hx, fun _ _ => inBounds_ite (inBounds_ok _) (inBounds_raise _)⟩

theorem inBounds_parsePostHeaderData_iff
    (txType : TxType) (protocolVersion : Nat) (scriptBin opCodeBin : Bytes)
    (scriptHex : String) (hversion : protocolVersion = 1 ∨ protocolVersion = 3) :
    InBounds (parsePostHeaderData txType protocolVersion scriptBin opCodeBin scriptHex) ↔
      ¬ (txType = .issuance ∧ TruncatedSymbol scriptBin) := by
  have htransfer := inBounds_parseTransferPostHeaderData scriptBin opCodeBin
  have htransferV3 := inBounds_parseBFXTv3TransferPostHeaderData scriptBin
  cases txType with
  | none => simp [parsePostHeaderData]
  | issuance =>
    rcases hversion with rfl | rfl
    · simpa [parsePostHeaderData] using
        inBounds_parseIssuancePostHeaderData_iff scriptBin opCodeBin
    · simpa [parsePostHeaderData] using
        inBounds_parseBFXTv3IssuancePostHeaderData_iff scriptBin
  | transfer =>
    rcases hversion with rfl | rfl
    · simpa [parsePostHeaderData] using htransfer
    · simpa [parsePostHeaderData] using htransferV3
  | burn =>
    rcases hversion with rfl | rfl
    · simpa [parsePostHeaderData, parseBurnPostHeaderData] using
        inBounds_bind_ensureBurns htransfer
    · simpa [parsePostHeaderData, parseBFXTv3BurnPostHeaderData] using
        inBounds_bind_ensureBurns htransferV3

section Script

theorem parseScriptBin_header (version : UInt8) (rest : Bytes) (scriptHex : String) :
    parseScriptBin (0x4e :: 0x54 :: version :: rest) scriptHex =
      parseOpCodeFromLongEnoughString rest >>= fun opCodeBin =>
        parseTxType version.toNat opCodeBin scriptHex >>= fun txType =>
          eraseFront opCodeBin.length rest >>= fun scriptBin =>
            parsePostHeaderData txType version.toNat scriptBin opCodeBin scriptHex >>=
              fun script => setCommonParams script [0x4e, 0x54, version] version.toNat
                opCodeBin scriptHex := by
  have hmagic : unhex BFXTHexPrefix = .ok [0x4e, 0x54] := by decide
  have hversion : charAt [0x4e, 0x54, version] 2 = .ok version := rfl
  unfold parseScriptBin
  rw [if_neg (by simp), substr_zero, ok_bind, hmagic, ok_bind, substr_zero, ok_bind,
    if_neg (by simp)]
  simp only [take_succ_cons, take_zero]
  rw [hversion, ok_bind, eraseFront_of_le (by simp), ok_bind]
  rfl

theorem parseOpCode_cons_of_ne (hc : c ≠ 255) (rest : Bytes) :
    parseOpCodeFromLongEnoughString (c :: rest) = .ok [c] := by
  simp [parseOpCodeFromLongEnoughString, hc]

theorem exists_of_parseOpCode_cons
    (hopCode : parseOpCodeFromLongEnoughString (c :: rest) = .ok opCodeBin) :
    ∃ more, opCodeBin = c :: more := by
  unfold parseOpCodeFromLongEnoughString at hopCode
  split_ifs at hopCode
  · exact ⟨[], (Except.ok.inj hopCode).symm⟩
  · cases hopCode
  · obtain ⟨more, -, hok⟩ := bind_eq_ok.mp hopCode
    exact ⟨more, (Except.ok.inj hok).symm⟩

theorem inBounds_parseTxType (protocolVersion : Nat) (opCodeBin : Bytes) (scriptHex : String) :
    InBounds (parseTxType protocolVersion opCodeBin scriptHex) :=
  inBounds_ite (inBounds_calculateTxType opCodeBin)
    (inBounds_ite (inBounds_calculateTxTypeBFXTv3 opCodeBin) (inBounds_raise _))

theorem version_of_parseTxType {version : UInt8}
    (htype : parseTxType version.toNat opCodeBin scriptHex = .ok txType) :
    version = 1 ∨ version = 3 := by
  unfold parseTxType at htype
  split_ifs at htype with hone hthree
  · exact Or.inl (UInt8.toNat_inj.mp hone)
  · exact Or.inr (UInt8.toNat_inj.mp hthree)
  · cases htype

theorem toNat_of_parseTxType {version : UInt8}
    (htype : parseTxType version.toNat opCodeBin scriptHex = .ok txType) :
    version.toNat = 1 ∨ version.toNat = 3 := by
  rcases version_of_parseTxType htype with rfl | rfl <;> simp

theorem issuance_of_parseTxType {version op : UInt8} :
    parseTxType version.toNat (op :: more) scriptHex = .ok .issuance ↔
      (version = 1 ∧ op ≤ 0x0F) ∨ (version = 3 ∧ op = 0x01) := by
  unfold parseTxType calculateTxType calculateTxTypeBFXTv3
  rw [charAt_cons_zero, ok_bind, ok_bind]
  have hone : version.toNat = 1 ↔ version = 1 := UInt8.toNat_inj (b := 1)
  have hthree : version.toNat = 3 ↔ version = 3 := UInt8.toNat_inj (b := 3)
  rw [← hone, ← hthree]
  split_ifs <;> simp_all

/-- The issuance scripts that end inside the token symbol. -/
def OverrunsSymbol (scriptBin : Bytes) : Prop :=
  ∃ version opCode rest, scriptBin = 0x4e :: 0x54 :: version :: opCode :: rest ∧
    ((version = 1 ∧ opCode ≤ 0x0F) ∨ (version = 3 ∧ opCode = 0x01)) ∧ TruncatedSymbol rest

theorem parseScriptBin_of_truncated {version op : UInt8}
    (hissuance : (version = 1 ∧ op ≤ 0x0F) ∨ (version = 3 ∧ op = 0x01))
    (htruncated : TruncatedSymbol rest) (scriptHex : String) :
    parseScriptBin (0x4e :: 0x54 :: version :: op :: rest) scriptHex =
      .error (.outOfBounds .scriptBin) := by
  have hop : op ≠ 255 := by
    rintro rfl
    revert hissuance
    simp
  have hbody : parsePostHeaderData .issuance version.toNat rest [op] scriptHex =
      .error (.outOfBounds .scriptBin) := by
    rcases hissuance with ⟨rfl, -⟩ | ⟨rfl, -⟩
    · exact symbol_bind_of_truncated htruncated _
    · exact symbol_bind_of_truncated htruncated _
  rw [parseScriptBin_header, parseOpCode_cons_of_ne hop, ok_bind,
    issuance_of_parseTxType.mpr hissuance, ok_bind, eraseFront_of_le (by simp), ok_bind]
  exact congrArg (fun x => x >>= _) hbody

theorem inBounds_parseScriptBin_header {version op : UInt8} {rest : Bytes} {scriptHex : String}
    (hsafe : ¬ (((version = 1 ∧ op ≤ 0x0F) ∨ (version = 3 ∧ op = 0x01)) ∧ TruncatedSymbol rest)) :
    InBounds (parseScriptBin (0x4e :: 0x54 :: version :: op :: rest) scriptHex) := by
  have hcommon : ∀ script header protocolVersion opCodeBin,
      InBounds (setCommonParams script header protocolVersion opCodeBin scriptHex) :=
    fun _ _ _ opCodeBin =>
      inBounds_bind.mpr ⟨inBounds_calculateTxType opCodeBin, fun _ _ => inBounds_ok _⟩
  have hopCodes := consumes_parseOpCode (op :: rest)
  rw [parseScriptBin_header]
  refine inBounds_bind.mpr ⟨hopCodes.1, ?_⟩
  intro opCodeBin hopCode
  apply inBounds_bind.mpr ⟨inBounds_parseTxType _ _ _, ?_⟩
  intro txType htype
  apply inBounds_eraseFront_bind (hopCodes.2 _ hopCode)
  apply inBounds_bind.mpr ⟨?_, fun _ _ => hcommon _ _ _ _⟩
  rw [inBounds_parsePostHeaderData_iff _ _ _ _ _ (toNat_of_parseTxType htype)]
  rintro ⟨rfl, htruncated⟩
  obtain ⟨more, rfl⟩ := exists_of_parseOpCode_cons hopCode
  have hissuance := issuance_of_parseTxType.mp htype
  have hop : op ≠ 255 := by
    rintro rfl
    revert hissuance
    simp
  rw [parseOpCode_cons_of_ne hop] at hopCode
  cases hopCode
  exact hsafe ⟨hissuance, htruncated⟩

theorem inBounds_parseScriptBin (hsafe : ¬ OverrunsSymbol scriptBin) :
    InBounds (parseScriptBin scriptBin scriptHex) := by
  have hmagic : unhex BFXTHexPrefix = .ok [0x4e, 0x54] := by decide
  rcases scriptBin with _ | ⟨a, _ | ⟨b, _ | ⟨version, rest⟩⟩⟩
  · exact inBounds_raise _
  · exact inBounds_raise _
  · exact inBounds_raise _
  by_cases hab : a = 0x4e ∧ b = 0x54
  · obtain ⟨rfl, rfl⟩ := hab
    rcases rest with _ | ⟨op, rest⟩
    · -- an empty opcode reads as zero, and the symbol parser then throws
      rw [parseScriptBin_header]
      apply inBounds_bind.mpr ⟨inBounds_ok _, ?_⟩
      rintro opCodeBin ⟨⟩
      apply inBounds_bind.mpr ⟨inBounds_parseTxType _ _ _, ?_⟩
      intro txType htype
      apply inBounds_eraseFront_bind (le_refl 0)
      refine inBounds_bind.mpr ⟨?_, fun _ _ => inBounds_bind.mpr
        ⟨inBounds_calculateTxType _, fun _ _ => inBounds_ok _⟩⟩
      rw [inBounds_parsePostHeaderData_iff _ _ _ _ _ (toNat_of_parseTxType htype)]
      rintro ⟨-, -, ⟨c, hc, -⟩, -⟩
      simp at hc
    · exact inBounds_parseScriptBin_header fun h => hsafe ⟨version, op, rest, rfl, h⟩
  rw [parseScriptBin, if_neg (by simp), substr_zero, ok_bind, hmagic, ok_bind, substr_zero,
    ok_bind, if_pos (by simpa using hab)]
  exact inBounds_raise _

theorem inBounds_rethrow_iff (scriptHex : String) (x : Outcome BFXTScript) :
    InBounds (rethrow scriptHex x) ↔ InBounds x := by
  rcases x with (what | storage) | script
  · exact iff_of_true (inBounds_raise _) (inBounds_raise _)
  · exact Iff.rfl
  · exact Iff.rfl

theorem parseScript_of_overruns (hunhex : unhex scriptHex = .ok scriptBin)
    (h : OverrunsSymbol scriptBin) :
    parseScript scriptHex = .error (.outOfBounds .scriptBin) := by
  obtain ⟨version, op, rest, rfl, hissuance, htruncated⟩ := h
  rw [parseScript, hunhex, ok_bind, parseScriptBin_of_truncated hissuance htruncated]
  rfl

theorem inBounds_parseScript
    (hsafe : ∀ scriptBin, unhex scriptHex = .ok scriptBin → ¬ OverrunsSymbol scriptBin) :
    InBounds (parseScript scriptHex) := by
  rw [parseScript, inBounds_rethrow_iff, inBounds_bind]
  refine ⟨inBounds_unhexChars _, ?_⟩
  intro scriptBin hunhex
  exact inBounds_parseScriptBin (hsafe scriptBin hunhex)

/-- The parser makes an undefined access exactly on the issuance scripts that
end inside the token symbol, where `erase` is asked for five bytes. -/
theorem parseScript_inBounds_iff (scriptHex : String) :
    InBounds (parseScript scriptHex) ↔
      ∀ scriptBin, unhex scriptHex = .ok scriptBin → ¬ OverrunsSymbol scriptBin := by
  refine ⟨fun h scriptBin hunhex hoverruns => ?_, inBounds_parseScript⟩
  rw [parseScript_of_overruns hunhex hoverruns] at h
  exact not_inBounds_outOfBounds _ h

/-- The parser never leaves any other object than the script. -/
theorem inBoundsAt_parseScript (hstorage : storage ≠ .scriptBin) (scriptHex : String) :
    InBoundsAt storage (parseScript scriptHex) := by
  rcases Classical.em (∃ scriptBin, unhex scriptHex = .ok scriptBin ∧ OverrunsSymbol scriptBin) with
    ⟨scriptBin, hunhex, hoverruns⟩ | hsafe
  · rw [parseScript_of_overruns hunhex hoverruns]
    intro h
    cases h
    exact hstorage rfl
  exact inBounds_parseScript
    (fun scriptBin hunhex hoverruns => hsafe ⟨scriptBin, hunhex, hoverruns⟩) storage

theorem parseScript_erases_past_end :
    parseScript "4e54030141" = .error (.outOfBounds .scriptBin) := by
  decide

end Script

end Bfx.ParserSafety
