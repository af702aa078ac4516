import Mathlib

/-!
Words of bits written most significant bit first, and their packing into bytes.
-/

namespace Bfx.BitWords

open List

abbrev Bits := List Bool

/-- Numeric value of a most-significant-first word. -/
def bitsValue (bits : Bits) : Nat :=
  bits.foldl (fun acc bit => 2 * acc + bit.toNat) 0

private theorem foldl_value (bits : Bits) (init : Nat) :
    bits.foldl (fun acc bit => 2 * acc + bit.toNat) init =
      init * 2 ^ bits.length + bitsValue bits := by
  induction bits generalizing init with
  | nil => simp [bitsValue]
  | cons bit bits ih =>
    simp only [bitsValue, foldl_cons, length_cons]
    rw [ih (2 * init + bit.toNat), ih (2 * 0 + bit.toNat), pow_succ]
    ring

@[simp] theorem bitsValue_nil : bitsValue [] = 0 := rfl

theorem bitsValue_append (high low : Bits) :
    bitsValue (high ++ low) = bitsValue high * 2 ^ low.length + bitsValue low := by
  rw [bitsValue, foldl_append, foldl_value]
  rfl

theorem bitsValue_cons (bit : Bool) (bits : Bits) :
    bitsValue (bit :: bits) = bit.toNat * 2 ^ bits.length + bitsValue bits := by
  simpa [bitsValue] using foldl_value bits (bit.toNat)

theorem bitsValue_replicate_false (n : Nat) (bits : Bits) :
    bitsValue (List.replicate n false ++ bits) = bitsValue bits := by
  induction n with
  | zero => simp
  | succ n ih => simpa [replicate_succ, bitsValue_cons] using ih

theorem bitsValue_lt (bits : Bits) : bitsValue bits < 2 ^ bits.length := by
  induction bits with
  | nil => simp
  | cons bit bits ih =>
    rw [bitsValue_cons, length_cons, pow_succ]
    cases bit <;> simp <;> omega

/-- The bits of `n`, least significant first, without a leading zero. The fuel
bounds the number of halvings. -/
def lowBits : Nat → Nat → Bits
  | 0, _ => []
  | fuel + 1, n => if n = 0 then [] else (n % 2 == 1) :: lowBits fuel (n / 2)

def natBits (n : Nat) : Bits := (lowBits n n).reverse

private theorem bitsValue_lowBits (fuel n : Nat) (hfuel : n ≤ fuel) :
    bitsValue (lowBits fuel n).reverse = n := by
  induction fuel generalizing n with
  | zero =>
    have hzero : n = 0 := by omega
    simp [lowBits, hzero]
  | succ fuel ih =>
    by_cases hn : n = 0
    · simp [lowBits, hn]
    have hhalf := ih (n / 2) (by omega)
    have hbit : (n % 2 == 1).toNat = n % 2 := by
      rcases Nat.mod_two_eq_zero_or_one n with h | h <;> simp [h]
    simp only [lowBits, hn, if_false, reverse_cons, bitsValue_append, hhalf,
      bitsValue_cons, length_singleton, length_nil, bitsValue_nil, hbit]
    omega

@[simp] theorem bitsValue_natBits (n : Nat) : bitsValue (natBits n) = n :=
  bitsValue_lowBits n n (le_refl n)

private theorem length_lowBits_le (fuel n k : Nat) (hn : n < 2 ^ k) :
    (lowBits fuel n).length ≤ k := by
  induction fuel generalizing n k with
  | zero => simp [lowBits]
  | succ fuel ih =>
    by_cases hzero : n = 0
    · simp [lowBits, hzero]
    rcases k with _ | k
    · simp at hn
      omega
    have hhalf : n / 2 < 2 ^ k := by
      rw [pow_succ] at hn
      omega
    simpa [lowBits, hzero] using ih (n / 2) k hhalf

theorem length_natBits_le_iff (n k : Nat) : (natBits n).length ≤ k ↔ n < 2 ^ k := by
  constructor
  · intro hlen
    calc
      n = bitsValue (natBits n) := (bitsValue_natBits n).symm
      _ < 2 ^ (natBits n).length := bitsValue_lt _
      _ ≤ 2 ^ k := Nat.pow_le_pow_right (by omega) hlen
  · intro hn
    simpa [natBits] using length_lowBits_le n n k hn

theorem dropWhile_not_natBits (n : Nat) :
    (natBits n).dropWhile (fun bit => bit == false) = natBits n := by
  rcases hbits : natBits n with _ | ⟨bit, bits⟩
  · rfl
  cases bit with
  | true => rfl
  | false =>
    -- a leading zero would leave a shorter word of the same value
    exfalso
    have hvalue : bitsValue bits = n := by
      have := bitsValue_natBits n
      simpa [hbits, bitsValue_cons] using this
    have hshort : (natBits n).length ≤ bits.length :=
      (length_natBits_le_iff n _).mpr (hvalue ▸ bitsValue_lt bits)
    simp [hbits] at hshort

def padLeft (width : Nat) (bits : Bits) : Bits :=
  List.replicate (width - bits.length) false ++ bits

@[simp] theorem bitsValue_padLeft (width : Nat) (bits : Bits) :
    bitsValue (padLeft width bits) = bitsValue bits :=
  bitsValue_replicate_false _ _

variable {bits : Bits}

theorem length_padLeft (h : bits.length ≤ width) : (padLeft width bits).length = width := by
  simp [padLeft, h]

def byteBits (b : UInt8) : Bits :=
  [b.toNat.testBit 7, b.toNat.testBit 6, b.toNat.testBit 5, b.toNat.testBit 4,
    b.toNat.testBit 3, b.toNat.testBit 2, b.toNat.testBit 1, b.toNat.testBit 0]

def bitsByte (bits : Bits) : UInt8 := UInt8.ofNat (bitsValue bits)

@[simp] theorem length_byteBits (b : UInt8) : (byteBits b).length = 8 := rfl

theorem byteBits_bitsByte (h : bits.length = 8) :
    byteBits (bitsByte bits) = bits := by
  match bits, h with
  | [b₇, b₆, b₅, b₄, b₃, b₂, b₁, b₀], _ =>
    revert b₇ b₆ b₅ b₄ b₃ b₂ b₁ b₀
    decide

private theorem bitsByte_byteBits_table :
    ∀ n : Fin 256, bitsValue (byteBits (UInt8.ofNat n.val)) = n.val := by
  decide +kernel

theorem bitsValue_byteBits (b : UInt8) : bitsValue (byteBits b) = b.toNat := by
  simpa using bitsByte_byteBits_table ⟨b.toNat, b.toNat_lt⟩

def unpack (bytes : List UInt8) : Bits := bytes.flatMap byteBits

/-- Cut a word into bytes. The last byte takes what is left over. -/
def pack : Bits → List UInt8
  | b₇ :: b₆ :: b₅ :: b₄ :: b₃ :: b₂ :: b₁ :: b₀ :: rest =>
    bitsByte [b₇, b₆, b₅, b₄, b₃, b₂, b₁, b₀] :: pack rest
  | [] => []
  | rest => [bitsByte rest]

@[simp] theorem unpack_nil : unpack [] = [] := rfl

@[simp] theorem unpack_cons (b : UInt8) (bytes : List UInt8) :
    unpack (b :: bytes) = byteBits b ++ unpack bytes := rfl

@[simp] theorem length_unpack (bytes : List UInt8) :
    (unpack bytes).length = 8 * bytes.length := by
  induction bytes with
  | nil => rfl
  | cons b bytes ih =>
    simp only [unpack_cons, length_append, length_byteBits, ih, length_cons]
    omega

theorem unpack_pack (h : bits.length = 8 * k) : unpack (pack bits) = bits := by
  induction k generalizing bits with
  | zero =>
    have hnil : bits = [] := eq_nil_of_length_eq_zero (by omega)
    subst hnil
    rfl
  | succ k ih =>
    match bits, h with
    | b₇ :: b₆ :: b₅ :: b₄ :: b₃ :: b₂ :: b₁ :: b₀ :: rest, h =>
      have hrest : rest.length = 8 * k := by
        simp only [length_cons] at h
        omega
      rw [pack, unpack_cons, byteBits_bitsByte rfl, ih hrest]
      rfl

theorem length_pack (h : bits.length = 8 * k) : (pack bits).length = k := by
  have hlen := congrArg List.length (unpack_pack h)
  rw [length_unpack] at hlen
  omega

end Bfx.BitWords
