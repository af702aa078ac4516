import Bfx.HexText

/-!
Variable-length integers: `GetSizeOfVarInt`, `WriteVarInt` and `ReadVarInt` for an unsigned type
of `bits` bits. The writer makes the last byte first.
-/

namespace Bfx.VarInt

open Bfx.HexText List

def getSizeOfVarInt (n : Nat) : Nat :=
  if n ≤ 0x7f then 1 else getSizeOfVarInt (n >>> 7 - 1) + 1
decreasing_by
  rw [Nat.shiftRight_eq_div_pow]
  omega

/-- The bytes from `tmp[len]` on, where `more` says that `len` is not zero. -/
def tmpBytes (more : Bool) (n : Nat) : Bytes :=
  UInt8.ofNat (n &&& 0x7f ||| if more then 0x80 else 0) ::
    if n ≤ 0x7f then [] else tmpBytes true (n >>> 7 - 1)
decreasing_by
  rw [Nat.shiftRight_eq_div_pow]
  omega

/-- Nothing is written if a byte is stored behind the end of `tmp`. -/
def writeVarInt (bits n : Nat) : Option Bytes :=
  if (tmpBytes false n).length ≤ (bits + 6) / 7 then some (tmpBytes false n).reverse else none

def readVarIntFrom (bits : Nat) : Nat → Bytes → Option (Nat × Bytes)
  | _, [] => none
  | n, chData :: rest =>
    let n := (n <<< 7 ||| (chData.toNat &&& 0x7f)) % 2 ^ bits
    if chData.toNat &&& 0x80 ≠ 0 then readVarIntFrom bits ((n + 1) % 2 ^ bits) rest
    else some (n, rest)

def readVarInt (bits : Nat) : Bytes → Option (Nat × Bytes) := readVarIntFrom bits 0

/-- The running value stays in the range of the type. -/
def StaysInRange (bits : Nat) : Nat → Bytes → Prop
  | _, [] => True
  | n, chData :: rest =>
    n <<< 7 ||| (chData.toNat &&& 0x7f) < 2 ^ bits ∧ (chData.toNat &&& 0x80 ≠ 0 →
      (n <<< 7 ||| (chData.toNat &&& 0x7f)) + 1 < 2 ^ bits ∧
        StaysInRange bits ((n <<< 7 ||| (chData.toNat &&& 0x7f)) + 1) rest)

private theorem low_table : ∀ (low : Fin 128) (more : Bool),
    (UInt8.ofNat (low.val ||| if more then 0x80 else 0)).toNat &&& 0x7f = low.val ∧
      ((UInt8.ofNat (low.val ||| if more then 0x80 else 0)).toNat &&& 0x80 ≠ 0 ↔ more) := by
  decide +kernel

private theorem byte_table : ∀ n : Fin 256, n.val &&& 0x7f < 128 ∧
    n.val = ((n.val &&& 0x7f) ||| if n.val &&& 0x80 ≠ 0 then 0x80 else 0) := by
  decide +kernel

theorem shiftLeft_or (h : low < 128) (v : Nat) : v <<< 7 ||| low = v * 128 + low := by
  rw [← Nat.shiftLeft_add_eq_or_of_lt h, Nat.shiftLeft_eq]

/-- The bytes that have been read when the running value is `v`. -/
def before (v : Nat) : Bytes := if v = 0 then [] else (tmpBytes true (v - 1)).reverse

theorem reverse_tmpBytes (more : Bool) (v : Nat) (h : low < 128) :
    (tmpBytes more (v * 128 + low)).reverse =
      before v ++ [UInt8.ofNat (low ||| if more then 0x80 else 0)] := by
  have hlow : v * 128 + low &&& 0x7f = low := by
    rw [Nat.and_two_pow_sub_one_eq_mod _ 7]
    omega
  have hdiv : (v * 128 + low) / 2 ^ 7 = v := by omega
  rw [tmpBytes, reverse_cons, hlow, before, Nat.shiftRight_eq_div_pow, hdiv]
  by_cases hv : v = 0
  · rw [if_pos (by omega), if_pos hv, reverse_nil]
  · rw [if_neg (by omega), if_neg hv]

theorem readVarIntFrom_before (hv : v < 2 ^ bits) (rest : Bytes) :
    readVarIntFrom bits 0 (before v ++ rest) = readVarIntFrom bits v rest := by
  induction v using Nat.strong_induction_on generalizing rest with
  | _ v ih =>
    rcases Nat.eq_zero_or_pos v with rfl | hpos
    · rfl
    have hlt : (v - 1) % 128 < 128 := Nat.mod_lt _ (by decide)
    have hsplit : v - 1 = (v - 1) / 128 * 128 + (v - 1) % 128 := by omega
    have hmod : (v - 1) % 2 ^ bits = v - 1 := Nat.mod_eq_of_lt (by omega)
    obtain ⟨hlow, hmore⟩ := low_table ⟨_, hlt⟩ true
    rw [before, if_neg (by omega), hsplit, reverse_tmpBytes true _ hlt, append_assoc,
      ih _ (by omega) (by omega), singleton_append, readVarIntFrom, hlow, shiftLeft_or hlt,
      if_pos (hmore.mpr rfl), ← hsplit, hmod, Nat.sub_add_cancel hpos, Nat.mod_eq_of_lt hv]

theorem exists_of_readVarIntFrom (hrange : StaysInRange bits v text)
    (hread : readVarIntFrom bits v text = some (n, rest)) :
    ∃ bytes, text = bytes ++ rest ∧ before v ++ bytes = (tmpBytes false n).reverse ∧
      n < 2 ^ bits := by
  induction text generalizing v with
  | nil => cases hread
  | cons chData text ih =>
    obtain ⟨hlt, hbyte⟩ := byte_table ⟨chData.toNat, chData.toNat_lt⟩
    obtain ⟨hn, hmore⟩ := hrange
    rw [shiftLeft_or hlt] at hn hmore
    rw [readVarIntFrom, shiftLeft_or hlt, Nat.mod_eq_of_lt hn] at hread
    split at hread
    · rename_i hflag
      obtain ⟨hnext, hrange⟩ := hmore hflag
      rw [Nat.mod_eq_of_lt hnext] at hread
      obtain ⟨bytes, rfl, hbytes, hlast⟩ := ih hrange hread
      refine ⟨chData :: bytes, rfl, ?_, hlast⟩
      rw [if_pos hflag] at hbyte
      rw [before, if_neg (Nat.succ_ne_zero _), Nat.add_sub_cancel, reverse_tmpBytes true v hlt,
        if_pos rfl, ← hbyte, append_assoc, UInt8.ofNat_toNat] at hbytes
      exact hbytes
    · rename_i hflag
      cases hread
      refine ⟨[chData], rfl, ?_, hn⟩
      rw [if_neg hflag] at hbyte
      rw [reverse_tmpBytes false v hlt, if_neg Bool.false_ne_true, ← hbyte, UInt8.ofNat_toNat]

theorem length_tmpBytes (more : Bool) (n : Nat) :
    (tmpBytes more n).length = getSizeOfVarInt n := by
  induction n using Nat.strong_induction_on generalizing more with
  | _ n ih =>
    rw [tmpBytes, getSizeOfVarInt, length_cons]
    split
    · rfl
    · rw [ih _ (by rw [Nat.shiftRight_eq_div_pow]; omega)]

theorem getSizeOfVarInt_le (hn : n < 2 ^ (7 * (k + 1))) : getSizeOfVarInt n ≤ k + 1 := by
  induction k generalizing n with
  | zero => rw [getSizeOfVarInt, if_pos (by omega)]
  | succ k ih =>
    rw [getSizeOfVarInt]
    split
    · omega
    · refine Nat.succ_le_succ (ih ?_)
      rw [Nat.shiftRight_eq_div_pow]
      rw [show 7 * (k + 1 + 1) = 7 * (k + 1) + 7 by omega, Nat.pow_add] at hn
      omega

theorem writeVarInt_eq (hbits : 0 < bits) (hn : n < 2 ^ bits) :
    writeVarInt bits n = some (tmpBytes false n).reverse := by
  refine if_pos ?_
  have hpow : 2 ^ bits ≤ 2 ^ (7 * ((bits - 1) / 7 + 1)) :=
    Nat.pow_le_pow_right (by decide) (by omega)
  have hle := getSizeOfVarInt_le (hn.trans_le hpow)
  rw [length_tmpBytes]
  omega

/-- Every value has one sequence of bytes. -/
theorem varInt_bijective (hbits : bits ∈ [8, 16, 32, 64]) :
    (∀ n < 2 ^ bits, ∃ bytes, writeVarInt bits n = some bytes ∧
      bytes.length = getSizeOfVarInt n ∧
      ∀ rest, readVarInt bits (bytes ++ rest) = some (n, rest)) ∧
    ∀ text n rest, readVarInt bits text = some (n, rest) → StaysInRange bits 0 text →
      ∃ bytes, text = bytes ++ rest ∧ writeVarInt bits n = some bytes := by
  have hpos : 0 < bits := by
    simp only [mem_cons, not_mem_nil, or_false] at hbits
    omega
  constructor
  · intro n hn
    refine ⟨_, writeVarInt_eq hpos hn, by rw [length_reverse, length_tmpBytes], fun rest => ?_⟩
    have hlt : n % 128 < 128 := Nat.mod_lt _ (by decide)
    have hsplit : n = n / 128 * 128 + n % 128 := by omega
    obtain ⟨hlow, hmore⟩ := low_table ⟨_, hlt⟩ false
    rw [hsplit, reverse_tmpBytes false _ hlt, append_assoc, readVarInt,
      readVarIntFrom_before (by omega), singleton_append, readVarIntFrom, hlow, shiftLeft_or hlt,
      ← hsplit, Nat.mod_eq_of_lt hn, if_neg fun hflag => Bool.false_ne_true (hmore.mp hflag)]
  · intro text n rest hread hrange
    obtain ⟨bytes, htext, hbytes, hn⟩ := exists_of_readVarIntFrom hrange hread
    exact ⟨bytes, htext, (writeVarInt_eq hpos hn).trans (congrArg some hbytes.symm)⟩

/-- The largest value of eight bits takes both bytes of the buffer. -/
theorem varInt_bijective_eight :
    255 < 2 ^ 8 ∧ ∃ bytes, writeVarInt 8 255 = some bytes ∧ readVarInt 8 bytes = some (255, []) := by
  obtain ⟨bytes, hwrite, -, hread⟩ :=
    (varInt_bijective (by decide : 8 ∈ [8, 16, 32, 64])).1 255 (by decide)
  exact ⟨by decide, bytes, hwrite, by simpa using hread []⟩

end Bfx.VarInt
