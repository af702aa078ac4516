import Mathlib

/-!
Integers in a compact format of 32 bits: the number of bytes of the magnitude,
which leave room for a sign bit, and its three leading bytes.
-/

namespace Bfx.CompactNumber

/-- The number of bytes of a magnitude with a free leading bit; none for zero. -/
def byteSize (n : Nat) : Nat :=
  if n = 0 then 0 else (n.log2 + 1) / 8 + 1

/-- The three leading bytes of a magnitude, shorter ones are filled with zeros. -/
def leadingBytes (n : Nat) : Nat :=
  if 3 ≤ byteSize n then n / 256 ^ (byteSize n - 3) else n * 256 ^ (3 - byteSize n)

def encode (z : Int) : Nat :=
  byteSize z.natAbs * 2 ^ 24 % 2 ^ 32 + (leadingBytes z.natAbs + if z < 0 then 2 ^ 23 else 0)

/-- The magnitude with a number of bytes and given leading bytes. -/
def magnitude (size leading : Nat) : Nat :=
  if 3 ≤ size then leading * 256 ^ (size - 3) else leading / 256 ^ (3 - size)

def decode (compact : Nat) : Int :=
  if compact / 2 ^ 24 ≠ 0 ∧ compact / 2 ^ 23 % 2 = 1 then
    - (magnitude (compact / 2 ^ 24) (compact % 2 ^ 23) : Int)
  else magnitude (compact / 2 ^ 24) (compact % 2 ^ 23)

theorem byteSize_lt (hn : n < 2 ^ k) : byteSize n ≤ k / 8 + 1 := by
  rw [byteSize]
  split
  · omega
  rename_i hzero
  have hlog : n.log2 < k := (Nat.log2_lt hzero).mpr hn
  omega

theorem lt_two_pow_byteSize (hn : n ≠ 0) : n < 2 ^ (8 * byteSize n - 1) := by
  calc
    n < 2 ^ (n.log2 + 1) := Nat.lt_log2_self
    _ ≤ 2 ^ (8 * byteSize n - 1) := by
      refine Nat.pow_le_pow_right (by decide) ?_
      rw [byteSize, if_neg hn]
      omega

theorem leadingBytes_lt (hn : n ≠ 0) : leadingBytes n < 2 ^ 23 := by
  have hlt := lt_two_pow_byteSize hn
  have hpos : 1 ≤ byteSize n := by
    rw [byteSize, if_neg hn]
    omega
  rw [leadingBytes]
  split
  · rw [Nat.div_lt_iff_lt_mul (Nat.pow_pos (by decide))]
    calc
      n < 2 ^ (8 * byteSize n - 1) := hlt
      _ = 2 ^ 23 * 2 ^ (8 * (byteSize n - 3)) := by
        rw [← Nat.pow_add]
        congr 1
        omega
      _ = 2 ^ 23 * 256 ^ (byteSize n - 3) := by rw [Nat.pow_mul 2 8]
  calc
    n * 256 ^ (3 - byteSize n) < 2 ^ (8 * byteSize n - 1) * 256 ^ (3 - byteSize n) := by
      exact Nat.mul_lt_mul_of_pos_right hlt (Nat.pow_pos (by decide))
    _ = 2 ^ (8 * byteSize n - 1) * 2 ^ (8 * (3 - byteSize n)) := by rw [Nat.pow_mul 2 8]
    _ = 2 ^ 23 := by
      rw [← Nat.pow_add]
      congr 1
      omega

theorem two_pow_log2_le_magnitude (hn : n ≠ 0) :
    2 ^ n.log2 ≤ magnitude (byteSize n) (leadingBytes n) := by
  have hself := Nat.log2_self_le hn
  rw [magnitude, leadingBytes]
  split
  · have hsplit : 2 ^ n.log2 = 2 ^ (n.log2 - 8 * (byteSize n - 3)) * 256 ^ (byteSize n - 3) := by
      rw [show 256 = 2 ^ 8 from rfl, ← Nat.pow_mul, ← Nat.pow_add, byteSize, if_neg hn]
      congr 1
      omega
    rw [hsplit] at hself ⊢
    exact Nat.mul_le_mul_right _ ((Nat.le_div_iff_mul_le (Nat.pow_pos (by decide))).mpr hself)
  · rwa [Nat.mul_div_cancel _ (Nat.pow_pos (by decide))]

theorem magnitude_leadingBytes (hn : n ≠ 0) :
    0 < magnitude (byteSize n) (leadingBytes n) ∧
      magnitude (byteSize n) (leadingBytes n) ≤ n := by
  refine ⟨(Nat.two_pow_pos _).trans_le (two_pow_log2_le_magnitude hn), ?_⟩
  rw [magnitude, leadingBytes]
  split
  · exact Nat.div_mul_le_self n _
  · rw [Nat.mul_div_cancel _ (Nat.pow_pos (by decide))]

theorem magnitude_leadingBytes_mono (hm : m ≠ 0) (hmn : m ≤ n) :
    magnitude (byteSize m) (leadingBytes m) ≤ magnitude (byteSize n) (leadingBytes n) := by
  have hn : n ≠ 0 := by omega
  have hlog : m.log2 ≤ n.log2 := (Nat.le_log2 hn).mpr ((Nat.log2_self_le hm).trans hmn)
  have hsize : byteSize m ≤ byteSize n := by
    rw [byteSize, byteSize, if_neg hm, if_neg hn]
    omega
  rcases Nat.eq_or_lt_of_le hsize with heq | hlt
  · rw [heq, leadingBytes, leadingBytes, heq, magnitude, magnitude]
    split
    · exact Nat.mul_le_mul_right _ (Nat.div_le_div_right hmn)
    rw [Nat.mul_div_cancel _ (Nat.pow_pos (by decide)),
      Nat.mul_div_cancel _ (Nat.pow_pos (by decide))]
    exact hmn
  -- the shorter number is below the leading bit of the longer one, which is kept
  have hbelow := (magnitude_leadingBytes hm).2.trans_lt (lt_two_pow_byteSize hm)
  have hlead : 8 * byteSize m - 1 ≤ n.log2 := by
    rw [byteSize, byteSize, if_neg hm, if_neg hn] at hlt
    rw [byteSize, if_neg hm]
    omega
  exact hbelow.le.trans ((Nat.pow_le_pow_right (by decide) hlead).trans
    (two_pow_log2_le_magnitude hn))

theorem byteSize_magnitude (hn : n ≠ 0) :
    byteSize (magnitude (byteSize n) (leadingBytes n)) = byteSize n := by
  obtain ⟨hpos, hle⟩ := magnitude_leadingBytes hn
  have hkept : n.log2 ≤ (magnitude (byteSize n) (leadingBytes n)).log2 :=
    (Nat.le_log2 (by omega)).mpr (two_pow_log2_le_magnitude hn)
  have hlog : (magnitude (byteSize n) (leadingBytes n)).log2 ≤ n.log2 :=
    (Nat.le_log2 hn).mpr ((Nat.log2_self_le (by omega)).trans hle)
  rw [byteSize, if_neg (by omega), Nat.le_antisymm hlog hkept, byteSize, if_neg hn]

theorem leadingBytes_magnitude (hn : n ≠ 0) :
    leadingBytes (magnitude (byteSize n) (leadingBytes n)) = leadingBytes n := by
  rw [leadingBytes, byteSize_magnitude hn, magnitude, leadingBytes]
  split
  · rw [Nat.mul_div_cancel _ (Nat.pow_pos (by decide))]
  · rw [Nat.mul_div_cancel _ (Nat.pow_pos (by decide))]

/-- At least fifteen bits behind the leading one are kept. -/
theorem sub_magnitude_le (hn : n ≠ 0) :
    n - magnitude (byteSize n) (leadingBytes n) ≤ n / 2 ^ 15 := by
  rw [magnitude, leadingBytes]
  split
  · rename_i hsize
    have hlead : 2 ^ 15 * 256 ^ (byteSize n - 3) ≤ n := by
      refine le_trans ?_ (Nat.log2_self_le hn)
      rw [show 256 = 2 ^ 8 from rfl, ← Nat.pow_mul, ← Nat.pow_add]
      refine Nat.pow_le_pow_right (by decide) ?_
      rw [byteSize, if_neg hn] at hsize ⊢
      omega
    have hmod := Nat.mod_lt n (Nat.pow_pos (n := byteSize n - 3) (show 0 < 256 by decide))
    have hdiv := Nat.div_add_mod' n (256 ^ (byteSize n - 3))
    omega
  · rw [Nat.mul_div_cancel _ (Nat.pow_pos (by decide)), Nat.sub_self]
    exact Nat.zero_le _

theorem decode_encode_eq (hsize : byteSize z.natAbs < 256) :
    decode (encode z) = z.sign * magnitude (byteSize z.natAbs) (leadingBytes z.natAbs) := by
  rcases eq_or_ne z 0 with rfl | hz
  · decide
  have hlt := leadingBytes_lt (show z.natAbs ≠ 0 by omega)
  have hpos : byteSize z.natAbs ≠ 0 := by
    rw [byteSize, if_neg (by omega)]
    omega
  have hdiv : encode z / 2 ^ 24 = byteSize z.natAbs := by
    rw [encode]
    split <;> omega
  have hmod : encode z % 2 ^ 23 = leadingBytes z.natAbs := by
    rw [encode]
    split <;> omega
  have hsign : encode z / 2 ^ 23 % 2 = if z < 0 then 1 else 0 := by
    rw [encode]
    split <;> omega
  rw [decode, hdiv, hmod, hsign]
  by_cases hneg : z < 0
  · rw [if_pos hneg, if_pos ⟨hpos, rfl⟩, Int.sign_eq_neg_one_of_neg hneg, neg_one_mul]
  · rw [if_neg hneg, if_neg (by simp), Int.sign_eq_one_of_pos (by omega), one_mul]

theorem decode_encode_pos (hz : 0 < z) (hlt : z < 2 ^ 256) :
    0 < decode (encode z) ∧ decode (encode z) ≤ z := by
  have hsize : byteSize z.natAbs ≤ 256 / 8 + 1 := byteSize_lt (by omega)
  obtain ⟨hpos, hle⟩ := magnitude_leadingBytes (show z.natAbs ≠ 0 by omega)
  rw [decode_encode_eq (by omega), Int.sign_eq_one_of_pos hz]
  omega

theorem decode_encode_mono (hz : 0 ≤ z) (hle : z ≤ z') (hlt : z' < 2 ^ 256) :
    decode (encode z) ≤ decode (encode z') := by
  have hsize : byteSize z.natAbs ≤ 256 / 8 + 1 := byteSize_lt (by omega)
  have hsize' : byteSize z'.natAbs ≤ 256 / 8 + 1 := byteSize_lt (by omega)
  rcases hz.eq_or_lt with rfl | hpos
  · rcases hle.eq_or_lt with rfl | hpos'
    · exact le_refl _
    · exact (decode_encode_pos hpos' hlt).1.le
  rw [decode_encode_eq (by omega), decode_encode_eq (by omega), Int.sign_eq_one_of_pos hpos,
    Int.sign_eq_one_of_pos (hpos.trans_le hle), one_mul, one_mul]
  exact_mod_cast magnitude_leadingBytes_mono (by omega) (by omega)

theorem encode_decode_encode (hsize : byteSize z.natAbs < 256) :
    encode (decode (encode z)) = encode z := by
  rcases eq_or_ne z 0 with rfl | hz
  · decide
  have hn : z.natAbs ≠ 0 := by omega
  obtain ⟨hpos, -⟩ := magnitude_leadingBytes hn
  have hneg : z.sign * magnitude (byteSize z.natAbs) (leadingBytes z.natAbs) < 0 ↔ z < 0 := by
    rcases lt_or_gt_of_ne hz with hz | hz
    · rw [Int.sign_eq_neg_one_of_neg hz]
      omega
    · rw [Int.sign_eq_one_of_pos hz]
      omega
  rw [decode_encode_eq hsize, encode, encode, Int.natAbs_mul, Int.natAbs_sign_of_ne_zero hz,
    Nat.one_mul, Int.natAbs_natCast, byteSize_magnitude hn, leadingBytes_magnitude hn,
    if_congr hneg rfl rfl]

theorem decode_encode_zero : decode (encode 0) = 0 := by decide

theorem decode_encode_neg (hz : z < 0) : decode (encode z) ≤ 0 := by
  have hn : z.natAbs ≠ 0 := by omega
  have hlt := leadingBytes_lt hn
  have hcompact : encode z =
      byteSize z.natAbs * 2 ^ 24 % 2 ^ 32 + (leadingBytes z.natAbs + 2 ^ 23) := by
    rw [encode, if_pos hz]
  have hsign : encode z / 2 ^ 23 % 2 = 1 := by omega
  rw [decode]
  split
  · omega
  rename_i hbytes
  -- the number of bytes has been cut off, and nothing is left of the magnitude
  have hsize : encode z / 2 ^ 24 = 0 := by
    by_contra hne
    exact hbytes ⟨hne, hsign⟩
  have hzero : magnitude 0 (encode z % 2 ^ 23) = 0 := by
    rw [magnitude, if_neg (by decide)]
    exact Nat.div_eq_of_lt (by omega)
  rw [hsize, hzero]
  exact Int.le_refl _

end Bfx.CompactNumber
