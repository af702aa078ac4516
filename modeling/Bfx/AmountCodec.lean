import Bfx.BitWords
import Bfx.HexText

/-!
The variable-length amount format of token scripts: a header, a binary
mantissa and a binary decimal exponent, packed into one to seven bytes.
-/

namespace Bfx.AmountCodec

open BitWords CallOutcome HexText List

structure AmountLayout where
  header : Bits
  mantissaSize : Nat
  exponentSize : Nat
  deriving DecidableEq, Repr

/-- The layout `NumberToHexBFXTAmount` chooses for a mantissa and an exponent
of the given numbers of bits. -/
def encodingLayout (mantissaBits exponentBits : Nat) : Option AmountLayout :=
  if mantissaBits ≤ 5 ∧ exponentBits = 0 then some ⟨[false, false, false], 5, 0⟩
  else if mantissaBits ≤ 9 ∧ exponentBits ≤ 4 then some ⟨[false, false, true], 9, 4⟩
  else if mantissaBits ≤ 17 ∧ exponentBits ≤ 4 then some ⟨[false, true, false], 17, 4⟩
  else if mantissaBits ≤ 25 ∧ exponentBits ≤ 4 then some ⟨[false, true, true], 25, 4⟩
  else if mantissaBits ≤ 34 ∧ exponentBits ≤ 3 then some ⟨[true, false, false], 34, 3⟩
  else if mantissaBits ≤ 42 ∧ exponentBits ≤ 3 then some ⟨[true, false, true], 42, 3⟩
  else if mantissaBits ≤ 54 ∧ exponentBits = 0 then some ⟨[true, true], 54, 0⟩
  else none

def trailingZeroChars (digits : List Char) : Nat :=
  (digits.reverse.takeWhile (· == '0')).length

/-- Despite its name, `GetTrailingZeros` returns the number without them. -/
def getTrailingZeros (num : Nat) : Nat :=
  if num = 0 then 0
  else
    let numStr := Nat.toDigits 10 num
    Nat.ofDigitChars 10 (numStr.take (numStr.length - trailingZeroChars numStr)) 0

def zerosCount (num : Nat) : Nat :=
  if 32 ≤ num ∧ (Nat.toDigits 10 (getTrailingZeros num)).length ≤ 12 then
    trailingZeroChars (Nat.toDigits 10 num)
  else 0

def mantissaDecimal (num : Nat) : Nat :=
  let numStr := Nat.toDigits 10 num
  Nat.ofDigitChars 10 (numStr.take (numStr.length - zerosCount num)) 0

/-- `ConvertToBitString` followed by the trimming of leading zeros. -/
def trimmedBits (num : Nat) : Bits :=
  (natBits num).dropWhile (fun bit => bit == false)

/-- The bytes behind the text that `NumberToHexBFXTAmount` returns. -/
def encodeAmount (num : Nat) : Outcome Bytes :=
  let mantissaStr := trimmedBits (mantissaDecimal num)
  let exponentStr := trimmedBits (zerosCount num)
  match encodingLayout mantissaStr.length exponentStr.length with
  | none =>
    raise ("Unable to encode the number " ++ toString num ++
      " to BFXT amount hex; its mantissa and exponent do not fit in the " ++
      "expected binary representation.")
  | some layout =>
    let finalBinString := layout.header ++ padLeft layout.mantissaSize mantissaStr ++
      padLeft layout.exponentSize exponentStr
    if finalBinString.length % 8 ≠ 0 then
      raise "The constructed binary string does not have the expected size."
    else .ok (pack finalBinString)

def numberToHexBFXTAmount (num : Nat) (caps : Bool) : Outcome String :=
  encodeAmount num >>= fun encodedData =>
    if caps then .ok (String.ofList (upperChars (hexChars encodedData)))
    else .ok (String.ofList (lowerChars (hexChars encodedData)))

/-- Sizes in bits of header, mantissa and exponent, read off the first three
bits. -/
def decodingSizes (bit0 bit1 bit2 : Bool) : Nat × Nat × Nat :=
  match bit0, bit1, bit2 with
  | true, true, _ => (2, 54, 0)
  | false, false, false => (3, 5, 0)
  | false, false, true => (3, 9, 4)
  | false, true, false => (3, 17, 4)
  | false, true, true => (3, 25, 4)
  | true, false, false => (3, 34, 3)
  | true, false, true => (3, 42, 3)

/-- `boost::regex_match` with `^([0-9a-fA-F][0-9a-fA-F])+$`. -/
def matchesHexBytesRegex (text : List Char) : Bool :=
  text.length % 2 == 0 && !text.isEmpty && text.all isHexDigit

/-- The part of `BFXTAmountHexToNumber` after the text has become bytes. -/
def decodeAmount (bin : Bytes) : Outcome Nat :=
  if bin.length > 7 then raise "Amount can't be bigger than 7 bytes."
  else
    let bits := unpack bin
    let sizes := decodingSizes (bits.getD 0 false) (bits.getD 1 false) (bits.getD 2 false)
    let totalBitSize := sizes.1 + sizes.2.1 + sizes.2.2
    if totalBitSize / 8 ≠ bin.length ∨ totalBitSize % 8 ≠ 0 then
      raise "The total bits don't make a byte. This should never happen."
    else
      let mantissa := (bits.drop sizes.1).take sizes.2.1
      let exponent := (bits.drop (sizes.1 + sizes.2.1)).take sizes.2.2
      .ok (bitsValue mantissa * 10 ^ bitsValue exponent)

def bfxtAmountHexToNumber (hexVal : String) : Outcome Nat :=
  let hexVal := hexVal.toList.filter (· != ' ')
  if matchesHexBytesRegex hexVal then unhexChars hexVal >>= decodeAmount
  else raise "invalid hex binary string"

def calculateAmountSize (firstChar : UInt8) : Nat :=
  let s := bitsValue ((byteBits firstChar).take 3)
  if s < 6 then s + 1 else 7

theorem take_append_replicate_trailingZeroChars (digits : List Char) :
    digits.take (digits.length - trailingZeroChars digits) ++
      List.replicate (trailingZeroChars digits) '0' = digits := by
  have hzeros : digits.reverse.takeWhile (· == '0') =
      List.replicate (trailingZeroChars digits) '0' := by
    apply eq_replicate_of_mem
    intro digit hdigit
    simpa using mem_takeWhile_imp hdigit
  obtain ⟨front, hfront⟩ : ∃ front,
      front ++ List.replicate (trailingZeroChars digits) '0' = digits := by
    refine ⟨(digits.reverse.dropWhile (· == '0')).reverse, ?_⟩
    have hsplit := congrArg List.reverse
      (takeWhile_append_dropWhile (p := (· == '0')) (l := digits.reverse))
    rwa [hzeros, reverse_append, reverse_replicate, reverse_reverse] at hsplit
  have hlength : digits.length - trailingZeroChars digits = front.length := by
    have := congrArg List.length hfront
    rw [length_append, length_replicate] at this
    omega
  rw [hlength]
  calc
    digits.take front.length ++ List.replicate (trailingZeroChars digits) '0'
        = (front ++ List.replicate (trailingZeroChars digits) '0').take front.length ++
            List.replicate (trailingZeroChars digits) '0' := by rw [hfront]
    _ = front ++ List.replicate (trailingZeroChars digits) '0' := by
        rw [take_left]
    _ = digits := hfront

theorem ofDigitChars_take_mul_pow (num : Nat) :
    Nat.ofDigitChars 10 ((Nat.toDigits 10 num).take ((Nat.toDigits 10 num).length -
      trailingZeroChars (Nat.toDigits 10 num))) 0 *
        10 ^ trailingZeroChars (Nat.toDigits 10 num) = num := by
  have hvalue := congrArg (fun digits => Nat.ofDigitChars 10 digits 0)
    (take_append_replicate_trailingZeroChars (Nat.toDigits 10 num))
  simp only [Nat.ofDigitChars_append, Nat.ofDigitChars_replicate_zero,
    Nat.ofDigitChars_ten_toDigits] at hvalue
  rwa [mul_comm]

theorem mantissaDecimal_mul_pow (num : Nat) :
    mantissaDecimal num * 10 ^ zerosCount num = num := by
  have hzeros : zerosCount num = trailingZeroChars (Nat.toDigits 10 num) ∨
      zerosCount num = 0 := by
    unfold zerosCount
    split
    · exact Or.inl rfl
    · exact Or.inr rfl
  unfold mantissaDecimal
  rcases hzeros with hzeros | hzeros
  · rw [hzeros]
    exact ofDigitChars_take_mul_pow num
  · simp [hzeros]

@[simp] theorem trimmedBits_eq (num : Nat) : trimmedBits num = natBits num :=
  dropWhile_not_natBits num

def amountLayouts : List AmountLayout :=
  [⟨[false, false, false], 5, 0⟩, ⟨[false, false, true], 9, 4⟩,
    ⟨[false, true, false], 17, 4⟩, ⟨[false, true, true], 25, 4⟩,
    ⟨[true, false, false], 34, 3⟩, ⟨[true, false, true], 42, 3⟩, ⟨[true, true], 54, 0⟩]

variable {layout : AmountLayout}

theorem encodingLayout_eq_some (hlayout : encodingLayout mantissaBits exponentBits = some layout) :
    layout ∈ amountLayouts ∧ mantissaBits ≤ layout.mantissaSize ∧
      exponentBits ≤ layout.exponentSize := by
  unfold encodingLayout at hlayout
  split_ifs at hlayout <;> obtain rfl := Option.some.inj hlayout <;>
    refine ⟨by decide, ?_, ?_⟩ <;> simp_all

theorem amountLayouts_size :
    ∀ layout ∈ amountLayouts, ∃ k ≤ 6,
      layout.header.length + layout.mantissaSize + layout.exponentSize = 8 * (k + 1) := by
  decide

variable (hlayout : layout ∈ amountLayouts)
include hlayout

theorem decodingSizes_header (fields : Bits) :
    decodingSizes ((layout.header ++ fields).getD 0 false)
      ((layout.header ++ fields).getD 1 false) ((layout.header ++ fields).getD 2 false) =
      (layout.header.length, layout.mantissaSize, layout.exponentSize) := by
  simp only [amountLayouts, mem_cons, not_mem_nil, or_false] at hlayout
  rcases hlayout with rfl | rfl | rfl | rfl | rfl | rfl | rfl <;> rfl

theorem calculateAmountSize_header (hword : layout.header ++ fields = unpack (first :: rest)) :
    8 * calculateAmountSize first =
      layout.header.length + layout.mantissaSize + layout.exponentSize := by
  have htop : (byteBits first).take 3 = (layout.header ++ fields).take 3 := by
    rw [hword, unpack_cons, take_append_of_le_length (by simp)]
  have hlong : 8 ≤ (layout.header ++ fields).length := by
    rw [hword, length_unpack, length_cons]
    omega
  simp only [amountLayouts, mem_cons, not_mem_nil, or_false] at hlayout
  unfold calculateAmountSize
  rw [htop]
  rcases hlayout with rfl | rfl | rfl | rfl | rfl | rfl | rfl
  case inr.inr.inr.inr.inr.inr =>
    -- the two-bit header leaves the third bit to the mantissa
    rcases fields with _ | ⟨bit, fields⟩
    · simp at hlong
    · cases bit <;> rfl
  all_goals rfl

theorem decodeAmount_pack (hmantissa : mantissa.length = layout.mantissaSize)
    (hexponent : exponent.length = layout.exponentSize) :
    (layout.header ++ mantissa ++ exponent).length % 8 = 0 ∧
      decodeAmount (pack (layout.header ++ mantissa ++ exponent)) =
        .ok (bitsValue mantissa * 10 ^ bitsValue exponent) ∧
      ∃ first rest, pack (layout.header ++ mantissa ++ exponent) = first :: rest ∧
        calculateAmountSize first = (first :: rest).length := by
  obtain ⟨k, hk, hsize⟩ := amountLayouts_size layout hlayout
  have hlength : (layout.header ++ mantissa ++ exponent).length = 8 * (k + 1) := by
    simp only [length_append]
    omega
  have hunpack := unpack_pack hlength
  have hpack := length_pack hlength
  refine ⟨by omega, ?_, ?_⟩
  · have hsizes := decodingSizes_header hlayout (mantissa ++ exponent)
    rw [← append_assoc] at hsizes
    simp only [decodeAmount, hpack, hunpack, hsizes]
    rw [if_neg (by omega), if_neg (by omega)]
    congr 3
    · rw [append_assoc, drop_left, take_left' hmantissa]
    · rw [drop_left' (by rw [length_append, hmantissa]), take_of_length_le (le_of_eq hexponent)]
  rcases hbytes : pack (layout.header ++ mantissa ++ exponent) with _ | ⟨first, rest⟩
  · rw [hbytes] at hpack
    simp at hpack
  refine ⟨first, rest, rfl, ?_⟩
  rw [hbytes, append_assoc] at hunpack
  rw [hbytes] at hpack
  have hfirst := calculateAmountSize_header hlayout hunpack.symm
  omega

omit hlayout

theorem encodeAmount_eq_ok (hencode : encodeAmount num = .ok bytes) :
    ∃ layout ∈ amountLayouts, ∃ mantissa exponent : Bits,
      mantissa.length = layout.mantissaSize ∧ exponent.length = layout.exponentSize ∧
      bytes = pack (layout.header ++ mantissa ++ exponent) ∧
      bitsValue mantissa * 10 ^ bitsValue exponent = num := by
  simp only [encodeAmount, trimmedBits_eq] at hencode
  rcases hlayout : encodingLayout (natBits (mantissaDecimal num)).length
      (natBits (zerosCount num)).length with _ | layout
  · simp [hlayout] at hencode
  obtain ⟨hmem, hmantissa, hexponent⟩ := encodingLayout_eq_some hlayout
  simp only [hlayout] at hencode
  split at hencode
  · simp at hencode
  refine ⟨layout, hmem, _, _, length_padLeft hmantissa, length_padLeft hexponent,
    (Except.ok.inj hencode).symm, ?_⟩
  rw [bitsValue_padLeft, bitsValue_padLeft, bitsValue_natBits, bitsValue_natBits]
  exact mantissaDecimal_mul_pow num

theorem decodeAmount_encodeAmount (hencode : encodeAmount num = .ok bytes) :
    decodeAmount bytes = .ok num := by
  obtain ⟨layout, hlayout, mantissa, exponent, hmantissa, hexponent, rfl, rfl⟩ :=
    encodeAmount_eq_ok hencode
  exact (decodeAmount_pack hlayout hmantissa hexponent).2.1

example : encodeAmount 1000000000 = .ok [0x20, 0x19] ∧
    decodeAmount [0x20, 0x19] = .ok 1000000000 := by
  decide

theorem calculateAmountSize_encodeAmount (hencode : encodeAmount num = .ok bytes) :
    ∃ first rest, bytes = first :: rest ∧
      calculateAmountSize first = (first :: rest).length := by
  obtain ⟨layout, hlayout, mantissa, exponent, hmantissa, hexponent, rfl, rfl⟩ :=
    encodeAmount_eq_ok hencode
  exact (decodeAmount_pack hlayout hmantissa hexponent).2.2

theorem unhex_numberToHexBFXTAmount (num : Nat) (caps : Bool) :
    (numberToHexBFXTAmount num caps >>= unhex) = encodeAmount num := by
  unfold numberToHexBFXTAmount
  rcases hencode : encodeAmount num with fault | bytes
  · rfl
  rw [ok_bind]
  cases caps with
  | false => simpa [unhex] using unhexChars_lowerChars_hexChars bytes
  | true => simpa [unhex] using unhexChars_upperChars_hexChars bytes

theorem bfxtAmountHexToNumber_ofList (hunhex : unhexChars text = .ok bytes) (hne : bytes ≠ []) :
    bfxtAmountHexToNumber (String.ofList text) = decodeAmount bytes := by
  obtain ⟨hlength, hall⟩ := unhexChars_eq_ok hunhex
  have hfilter : text.filter (· != ' ') = text := by
    apply filter_eq_self.mpr
    intro c hc
    have hdigit := all_eq_true.mp hall c hc
    simp only [bne_iff_ne, ne_eq]
    rintro rfl
    simp [isHexDigit, hexValue] at hdigit
  have hmatch : matchesHexBytesRegex text = true := by
    have hnonempty : text ≠ [] := by
      rintro rfl
      apply hne
      simpa using hlength
    simp [matchesHexBytesRegex, hall, hnonempty, hlength]
  simp only [bfxtAmountHexToNumber, String.toList_ofList, hfilter, hmatch, if_true, hunhex, ok_bind]

end Bfx.AmountCodec
