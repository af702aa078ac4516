import Bfx.AmountCodec

/-!
The range of the amount format: which numbers `NumberToHexBFXTAmount` writes,
and that `BFXTAmountHexToNumber` reads each of them back.
-/

namespace Bfx.AmountRange

open AmountCodec BitWords CallOutcome HexText List

theorem numberToHexBFXTAmount_eq_ok (htext : numberToHexBFXTAmount num caps = .ok text) :
    ∃ bytes, encodeAmount num = .ok bytes ∧ unhex text = .ok bytes ∧
      bfxtAmountHexToNumber text = decodeAmount bytes := by
  obtain ⟨bytes, hencode, hcase⟩ := bind_eq_ok.mp htext
  obtain ⟨first, rest, hbytes, -⟩ := calculateAmountSize_encodeAmount hencode
  have hne : bytes ≠ [] := hbytes ▸ cons_ne_nil first rest
  refine ⟨bytes, hencode, ?_⟩
  cases caps with
  | false =>
    cases hcase
    have hunhex := unhexChars_lowerChars_hexChars bytes
    exact ⟨by simpa [unhex] using hunhex, bfxtAmountHexToNumber_ofList hunhex hne⟩
  | true =>
    cases hcase
    have hunhex := unhexChars_upperChars_hexChars bytes
    exact ⟨by simpa [unhex] using hunhex, bfxtAmountHexToNumber_ofList hunhex hne⟩

/-- The mantissas and exponents for which one of the layouts has room. -/
def Fits (mantissa exponent : Nat) : Prop :=
  mantissa < 2 ^ 25 ∧ exponent < 2 ^ 4 ∨ mantissa < 2 ^ 42 ∧ exponent < 2 ^ 3 ∨
    mantissa < 2 ^ 54 ∧ exponent = 0

theorem encodingLayout_natBits_ne_none_iff (mantissa exponent : Nat) :
    encodingLayout (natBits mantissa).length (natBits exponent).length ≠ none ↔
      Fits mantissa exponent := by
  have hzero : exponent = 0 ↔ (natBits exponent).length ≤ 0 := by
    rw [length_natBits_le_iff, pow_zero, Nat.lt_one_iff]
  simp only [Fits, hzero, ← length_natBits_le_iff]
  generalize (natBits mantissa).length = mantissaBits
  generalize (natBits exponent).length = exponentBits
  unfold encodingLayout
  split_ifs <;> simp <;> omega

theorem encodeAmount_eq_error (hfault : encodeAmount num = .error fault) :
    ¬Fits (mantissaDecimal num) (zerosCount num) ∧ ∃ what, fault = .thrown what := by
  simp only [encodeAmount, trimmedBits_eq] at hfault
  rw [← encodingLayout_natBits_ne_none_iff]
  rcases hlayout : encodingLayout (natBits (mantissaDecimal num)).length
      (natBits (zerosCount num)).length with _ | layout
  · simp only [hlayout] at hfault
    exact ⟨by simp, _, (Except.error.inj hfault).symm⟩
  obtain ⟨hmem, hmantissa, hexponent⟩ := encodingLayout_eq_some hlayout
  have hsize := (decodeAmount_pack hmem (length_padLeft hmantissa)
    (length_padLeft hexponent)).1
  simp only [hlayout] at hfault
  rw [if_neg (not_not.mpr hsize)] at hfault
  exact absurd hfault (by simp)

theorem encodeAmount_eq_ok_iff (num : Nat) :
    (∃ bytes, encodeAmount num = .ok bytes) ↔ Fits (mantissaDecimal num) (zerosCount num) := by
  rw [← encodingLayout_natBits_ne_none_iff]
  constructor
  · rintro ⟨bytes, hencode⟩ hnone
    simp [encodeAmount, hnone] at hencode
  intro hsome
  rcases hencode : encodeAmount num with fault | bytes
  · exact absurd ((encodingLayout_natBits_ne_none_iff _ _).mp hsome)
      (encodeAmount_eq_error hencode).1
  · exact ⟨bytes, rfl⟩

/-- Writing a number throws, or gives text that is read as the same number and
that the parser of a script cuts off exactly at its end. -/
theorem numberToHexBFXTAmount_reads_back (num : Nat) (caps : Bool) :
    (∃ what, numberToHexBFXTAmount num caps = .error (.thrown what)) ∨
      ∃ text first rest, numberToHexBFXTAmount num caps = .ok text ∧
        bfxtAmountHexToNumber text = .ok num ∧ unhex text = .ok (first :: rest) ∧
        (first :: rest).length = calculateAmountSize first := by
  rcases htext : numberToHexBFXTAmount num caps with fault | text
  · unfold numberToHexBFXTAmount at htext
    rcases hencode : encodeAmount num with fault' | bytes
    · obtain ⟨-, what, rfl⟩ := encodeAmount_eq_error hencode
      rw [hencode, error_bind] at htext
      exact Or.inl ⟨what, htext.symm⟩
    · rw [hencode, ok_bind] at htext
      cases caps <;> simp at htext
  right
  obtain ⟨bytes, hencode, hunhex, hread⟩ := numberToHexBFXTAmount_eq_ok htext
  obtain ⟨first, rest, rfl, hsize⟩ := calculateAmountSize_encodeAmount hencode
  refine ⟨text, first, rest, rfl, ?_, hunhex, hsize.symm⟩
  rw [hread, decodeAmount_encodeAmount hencode]

theorem trailingZeroChars_concat (digits : List Char) (digit : Char) :
    trailingZeroChars (digits ++ [digit]) =
      if digit = '0' then trailingZeroChars digits + 1 else 0 := by
  simp only [trailingZeroChars, reverse_append, reverse_singleton, singleton_append, takeWhile_cons]
  split_ifs <;> simp_all

theorem digitChar_eq_zero_iff (hdigit : digit < 10) : Nat.digitChar digit = '0' ↔ digit = 0 := by
  revert hdigit
  revert digit
  decide

variable {significant : Nat}

variable (hsignificant : ¬10 ∣ significant)
include hsignificant

theorem trailingZeroChars_toDigits (zeros : Nat) :
    trailingZeroChars (Nat.toDigits 10 (significant * 10 ^ zeros)) = zeros := by
  induction zeros with
  | zero =>
    have hlast : Nat.digitChar (significant % 10) ≠ '0' := by
      rw [Ne, digitChar_eq_zero_iff (Nat.mod_lt _ (by omega))]
      omega
    rw [pow_zero, mul_one, Nat.toDigits_eq_if (by omega)]
    split
    case isTrue hsmall =>
      rw [Nat.mod_eq_of_lt hsmall] at hlast
      exact (trailingZeroChars_concat [] _).trans (if_neg hlast)
    case isFalse => exact (trailingZeroChars_concat _ _).trans (if_neg hlast)
  | succ zeros ih =>
    have hpositive : 0 < significant * 10 ^ zeros := by
      apply Nat.mul_pos
      · rcases Nat.eq_zero_or_pos significant with rfl | hpos
        · simp at hsignificant
        · exact hpos
      · exact Nat.pow_pos (by omega)
    have hvalue : significant * 10 ^ (zeros + 1) = 10 * (significant * 10 ^ zeros) + 0 := by
      rw [pow_succ]
      ring
    rw [hvalue, ← Nat.toDigits_append_toDigits (by omega) hpositive (by omega)]
    exact (trailingZeroChars_concat _ _).trans (by rw [ih]; rfl)

theorem getTrailingZeros_mul_pow (zeros : Nat) :
    getTrailingZeros (significant * 10 ^ zeros) = significant := by
  have hpow : 0 < 10 ^ zeros := Nat.pow_pos (by omega)
  have hne : significant * 10 ^ zeros ≠ 0 := by
    rintro hzero
    rcases Nat.mul_eq_zero.mp hzero with rfl | hpow
    · simp at hsignificant
    · omega
  have hsplit := ofDigitChars_take_mul_pow (significant * 10 ^ zeros)
  rw [trailingZeroChars_toDigits hsignificant] at hsplit
  simp only [getTrailingZeros, if_neg hne, trailingZeroChars_toDigits hsignificant]
  exact Nat.eq_of_mul_eq_mul_right hpow hsplit

theorem zerosCount_mul_pow (zeros : Nat) :
    zerosCount (significant * 10 ^ zeros) =
      if 32 ≤ significant * 10 ^ zeros ∧ significant < 10 ^ 12 then zeros else 0 := by
  have hdigits : (Nat.toDigits 10 significant).length ≤ 12 ↔ significant < 10 ^ 12 :=
    Nat.length_toDigits_le_iff (by omega) (by omega)
  simp only [zerosCount, getTrailingZeros_mul_pow hsignificant,
    trailingZeroChars_toDigits hsignificant, hdigits]

omit hsignificant

/-- The amounts that `NumberToHexBFXTAmount` can write: `significant` is the
decimal text without its trailing zeros. -/
def Writable (num : Nat) : Prop :=
  num = 0 ∨ ∃ significant zeros, num = significant * 10 ^ zeros ∧ ¬10 ∣ significant ∧
    (significant < 10 ^ 12 ∧ (zeros < 8 ∨ zeros < 16 ∧ significant < 2 ^ 25) ∨
      10 ^ 12 ≤ significant ∧ num < 2 ^ 54)

/-- What the layouts have room for, in terms of the decimal text: up to twelve
significant digits the zeros go into the exponent, and past twelve the whole
number has to fit the mantissa. -/
theorem fits_mul_pow_iff (hsignificant : ¬10 ∣ significant) (zeros : Nat) :
    Fits (mantissaDecimal (significant * 10 ^ zeros)) (zerosCount (significant * 10 ^ zeros)) ↔
      significant < 10 ^ 12 ∧ (zeros < 8 ∨ zeros < 16 ∧ significant < 2 ^ 25) ∨
        10 ^ 12 ≤ significant ∧ significant * 10 ^ zeros < 2 ^ 54 := by
  have hpow : 0 < 10 ^ zeros := Nat.pow_pos (by omega)
  have hmantissa := mantissaDecimal_mul_pow (significant * 10 ^ zeros)
  have hle : significant ≤ significant * 10 ^ zeros := Nat.le_mul_of_pos_right _ hpow
  rw [zerosCount_mul_pow hsignificant] at hmantissa ⊢
  rcases Decidable.em (32 ≤ significant * 10 ^ zeros) with hlarge | hsmall
  · rcases Decidable.em (significant < 10 ^ 12) with hshort | hlong
    · rw [if_pos ⟨hlarge, hshort⟩] at hmantissa ⊢
      rw [Nat.eq_of_mul_eq_mul_right hpow hmantissa]
      unfold Fits
      omega
    rw [if_neg (fun h => hlong h.2)] at hmantissa ⊢
    rw [pow_zero, mul_one] at hmantissa
    rw [hmantissa]
    unfold Fits
    omega
  rw [if_neg (fun h => hsmall h.1)] at hmantissa ⊢
  rw [pow_zero, mul_one] at hmantissa
  rw [hmantissa]
  have hzeros : zeros < 8 := by
    by_contra hmany
    have hpos : 0 < significant := by
      rcases Nat.eq_zero_or_pos significant with rfl | hpos
      · simp at hsignificant
      · exact hpos
    have : 10 ^ 8 ≤ significant * 10 ^ zeros :=
      (Nat.pow_le_pow_right (by omega) (by omega)).trans (Nat.le_mul_of_pos_left _ hpos)
    omega
  unfold Fits
  omega

theorem exists_mul_pow (hnum : num ≠ 0) :
    ∃ significant zeros, num = significant * 10 ^ zeros ∧ ¬10 ∣ significant := by
  induction num using Nat.strong_induction_on with
  | _ num ih =>
    rcases Decidable.em (10 ∣ num) with ⟨tenth, rfl⟩ | hnot
    · obtain ⟨significant, zeros, htenth, hsignificant⟩ := ih tenth (by omega) (by omega)
      refine ⟨significant, zeros + 1, ?_, hsignificant⟩
      rw [htenth, pow_succ]
      ring
    · exact ⟨num, 0, by simp, hnot⟩

theorem fits_iff_writable (num : Nat) :
    Fits (mantissaDecimal num) (zerosCount num) ↔ Writable num := by
  constructor
  · intro hfits
    rcases eq_or_ne num 0 with hzero | hne
    · exact Or.inl hzero
    obtain ⟨significant, zeros, rfl, hsignificant⟩ := exists_mul_pow hne
    exact Or.inr ⟨significant, zeros, rfl, hsignificant,
      (fits_mul_pow_iff hsignificant zeros).mp hfits⟩
  rintro (rfl | ⟨significant, zeros, rfl, hsignificant, hroom⟩)
  · unfold Fits
    decide
  · exact (fits_mul_pow_iff hsignificant zeros).mpr hroom

/-- An amount that was read is written again, as text that is read as the same
amount, if and only if it is writable. -/
theorem rewritten_iff_writable {read : String} {num : Nat}
    (hread : bfxtAmountHexToNumber read = .ok num) (caps : Bool) :
    (∃ text, numberToHexBFXTAmount num caps = .ok text ∧
      bfxtAmountHexToNumber text = bfxtAmountHexToNumber read) ↔ Writable num := by
  rw [← fits_iff_writable, ← encodeAmount_eq_ok_iff, hread]
  constructor
  · rintro ⟨text, htext, -⟩
    obtain ⟨bytes, hencode, -⟩ := numberToHexBFXTAmount_eq_ok htext
    exact ⟨bytes, hencode⟩
  rintro ⟨bytes, hencode⟩
  obtain ⟨text, htext⟩ : ∃ text, numberToHexBFXTAmount num caps = .ok text := by
    simp only [numberToHexBFXTAmount, hencode, ok_bind]
    cases caps <;> exact ⟨_, rfl⟩
  obtain ⟨bytes', hencode', -, hback⟩ := numberToHexBFXTAmount_eq_ok htext
  exact ⟨text, htext, by rw [hback, decodeAmount_encodeAmount hencode']⟩

/-- Mantissa 10 with exponent 15 stands for ten thousand million million, which
the 54-bit layout could hold, but the encoder has moved its sixteen zeros into
an exponent of five bits before it looks for a layout. -/
theorem numberToHexBFXTAmount_throws_on_read :
    bfxtAmountHexToNumber "20af" = .ok (10 ^ 16) ∧ 10 ^ 16 < 2 ^ 54 ∧
      ∃ what, numberToHexBFXTAmount (10 ^ 16) false = .error (.thrown what) := by
  refine ⟨by decide, by decide, _, rfl⟩

theorem rewritten_ten_pow_fifteen :
    ∃ text, numberToHexBFXTAmount (10 ^ 15) true = .ok text ∧
      bfxtAmountHexToNumber text = bfxtAmountHexToNumber "201F" :=
  (rewritten_iff_writable (by decide) true).mpr
    (Or.inr ⟨1, 15, by decide, by decide, by decide⟩)

end Bfx.AmountRange
