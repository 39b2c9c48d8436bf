import Unwind.Proofs.Leb128

/-!
# The shortest numerals

Every number has a numeral without padding, with or without a sign. A numeral that a word has room
for takes at most ten bytes.
-/

namespace Unwind

namespace Leb128

theorem toNat_toUInt8_of_lt {n : Nat} (h : n < 256) : n.toUInt8.toNat = n := by
  rw [Nat.toUInt8_eq, UInt8.toNat_ofNat']
  omega

theorem toUInt8_lt_iff {n : Nat} (h : n < 256) : n.toUInt8 < 0x80 ↔ n < 128 := by
  rw [UInt8.lt_iff_toNat_lt, toNat_toUInt8_of_lt h]
  rfl

/-- The shortest numeral of a number without a sign. -/
def unsignedBytes (n : Nat) : Bytes :=
  if n < 128 then [n.toUInt8] else (n % 128 + 128).toUInt8 :: unsignedBytes (n / 128)

/-- The shortest numeral of a number with a sign. -/
def signedBytes (z : Int) : Bytes :=
  if -64 ≤ z ∧ z < 64 then [(z % 128).toNat.toUInt8]
  else ((z % 128).toNat + 128).toUInt8 :: signedBytes (z / 128)
termination_by z.natAbs

theorem isNumeral_unsignedBytes (n : Nat) : IsNumeral (unsignedBytes n) := by
  fun_induction unsignedBytes n with
  | case1 n hlast =>
    rw [IsNumeral, if_pos ((toUInt8_lt_iff (by omega)).mpr hlast)]
  | case2 n hlast ih =>
    rw [IsNumeral, if_neg (by rw [toUInt8_lt_iff (by omega)]; omega)]
    exact ih

theorem magnitude_unsignedBytes (n : Nat) : magnitude (unsignedBytes n) = n := by
  fun_induction unsignedBytes n with
  | case1 n hlast =>
    rw [magnitude, magnitude, toNat_toUInt8_of_lt (by omega)]
    omega
  | case2 n hlast ih =>
    rw [magnitude, ih, toNat_toUInt8_of_lt (by omega)]
    omega

theorem length_unsignedBytes_le {n k : Nat} (hk : 0 < k) (h : n < 128 ^ k) :
    (unsignedBytes n).length ≤ k := by
  -- The induction is on the number of digits, of which one may be a zero.
  induction k generalizing n with
  | zero => omega
  | succ k ih =>
    rw [unsignedBytes]
    split
    · rw [List.length_singleton]
      omega
    · rename_i hlast
      have hdigits : n / 128 < 128 ^ k := by
        rw [Nat.pow_succ] at h
        exact Nat.div_lt_of_lt_mul (by omega)
      have hpos : 0 < k := by
        by_contra hzero
        rw [Nat.eq_zero_of_not_pos hzero, Nat.pow_zero] at hdigits
        omega
      rw [List.length_cons]
      have hle := ih hpos hdigits
      omega

theorem isNumeral_signedBytes (z : Int) : IsNumeral (signedBytes z) := by
  fun_induction signedBytes z with
  | case1 z hlast =>
    rw [IsNumeral, if_pos ((toUInt8_lt_iff (by omega)).mpr (by omega))]
  | case2 z hlast ih =>
    rw [IsNumeral, if_neg (by rw [toUInt8_lt_iff (by omega)]; omega)]
    exact ih

theorem integer_signedBytes (z : Int) : integer (signedBytes z) = z := by
  fun_induction signedBytes z with
  | case1 z hlast =>
    rw [integer, if_pos ((toUInt8_lt_iff (by omega)).mpr (by omega)),
      toNat_toUInt8_of_lt (by omega)]
    -- Bit 6 of the digit is the sign.
    split <;> omega
  | case2 z hlast ih =>
    rw [integer, if_neg (by rw [toUInt8_lt_iff (by omega)]; omega), ih,
      toNat_toUInt8_of_lt (by omega)]
    omega

end Leb128

end Unwind
