import Unwind.Proofs.Reader.Reads
import Unwind.Proofs.Word

/-!
# Numerals of variable length

`IsNumeral` says where a numeral ends, `magnitude` and `integer` are the numbers that it stands for
without and with a sign. The readers give these numbers for every numeral, padded or not: the
unsigned one as long as the numeral has at most ten bytes and the number fits a word
(`Reads.uleb128`), the signed one modulo `2 ^ 64` (`Reads.sleb128`).
-/

namespace Unwind

namespace Leb128

/-- The bytes are one numeral: the first byte without the high bit is the last byte. -/
def IsNumeral : Bytes → Prop
  | [] => False
  | b :: rest => if b < 0x80 then rest = [] else IsNumeral rest

/-- The number of an unsigned numeral. -/
def magnitude : Bytes → Nat
  | [] => 0
  | b :: rest => b.toNat % 128 + 128 * magnitude rest

/-- The number of a signed numeral. Bit 6 of its last byte counts as negative. -/
def integer : Bytes → Int
  | [] => 0
  | b :: rest =>
    if b < 0x80 then if b.toNat < 64 then b.toNat else b.toNat - 128
    else (b.toNat % 128 : Nat) + 128 * integer rest

instance decidableIsNumeral : DecidablePred IsNumeral
  | [] => isFalse id
  | b :: rest =>
    have := decidableIsNumeral rest
    inferInstanceAs (Decidable (if b < 0x80 then rest = [] else IsNumeral rest))

theorem isLast_iff (b : UInt8) : isLast b = true ↔ b < 0x80 := by
  rw [isLast, decide_eq_true_eq]

/-! ## Digits and their places -/

theorem pow_split {bit : Nat} (h : bit < 64) : 2 ^ 64 = 2 ^ bit * 2 ^ (64 - bit) := by
  rw [← Nat.pow_add]
  congr 1
  omega

/-- A weight that does not fit a word is none at all modulo the number of words. -/
theorem pow_split_of_le {bit : Nat} (h : ¬ bit < 64) :
    (2 : Int) ^ bit = 2 ^ 64 * 2 ^ (bit - 64) := by
  rw [← pow_add]
  congr 1
  omega

theorem toNat_bit {bit : Nat} (h : bit < 64) : bit.toUInt64.toNat % 64 = bit := by
  rw [Nat.toUInt64_eq, UInt64.toNat_ofNat']
  omega

theorem toNat_digit (b : UInt8) : (digit b).toNat = b.toNat % 128 := by
  rw [digit, UInt8.toNat_toUInt64, UInt8.toNat_and]
  exact Nat.and_two_pow_sub_one_eq_mod b.toNat 7

theorem toNat_shift {bit : Nat} (h : bit < 64) (d : UInt64) :
    (d <<< bit.toUInt64).toNat = 2 ^ bit * (d.toNat % 2 ^ (64 - bit)) := by
  rw [UInt64.toNat_shiftLeft, toNat_bit h, Nat.shiftLeft_eq, Nat.mul_comm, pow_split h,
    Nat.mul_mod_mul_left]

/-- A digit added above the digits so far. -/
theorem toNat_place {bit : Nat} {sum : UInt64} (h : bit < 64) (hsum : sum.toNat < 2 ^ bit)
    (d : UInt64) :
    (sum ||| (d <<< bit.toUInt64)).toNat = sum.toNat + 2 ^ bit * (d.toNat % 2 ^ (64 - bit)) := by
  rw [UInt64.toNat_or, toNat_shift h, Nat.or_comm, ← Nat.two_pow_add_eq_or_of_lt hsum,
    Nat.add_comm]

/-- A digit fits where its weight times the digit does. -/
theorem fits_iff (bit : Nat) (d : UInt64) :
    fits bit d = true ↔ bit < 64 ∧ d.toNat < 2 ^ (64 - bit) := by
  unfold fits
  rw [Bool.and_eq_true, decide_eq_true_eq, beq_iff_eq]
  apply and_congr_right
  intro h
  rw [← UInt64.toNat_inj, UInt64.toNat_shiftRight, toNat_bit h, toNat_shift h,
    Nat.shiftRight_eq_div_pow, Nat.mul_div_cancel_left _ (Nat.two_pow_pos bit)]
  constructor
  · intro hmod
    rw [← hmod]
    exact Nat.mod_lt _ (Nat.two_pow_pos _)
  · exact Nat.mod_eq_of_lt

/-! ## Unsigned numerals -/

/-- A numeral that fits is read to its end, and nothing behind it matters. -/
theorem unsignedFrom_append {bytes : Bytes} (rest : Bytes) {bit : Nat} {sum : UInt64}
    (numeral : IsNumeral bytes) (short : bit + 7 * bytes.length ≤ 70)
    (hsum : sum.toNat < 2 ^ bit) (hfits : sum.toNat + 2 ^ bit * magnitude bytes < 2 ^ 64) :
    unsignedFrom bit sum (bytes ++ rest) =
      (.ok (UInt64.ofNat (sum.toNat + 2 ^ bit * magnitude bytes)), bytes.length) := by
  -- The digits so far stay below the weight of the next one.
  induction bytes generalizing bit sum with
  | nil => exact numeral.elim
  | cons b tail ih =>
    rw [List.length_cons] at short
    have hbit : bit < 64 := by omega
    have hsplit := pow_split hbit
    have hweight : 2 ^ (bit + 7) = 2 ^ bit * 128 := Nat.pow_add 2 bit 7
    have hvalue : sum.toNat + 2 ^ bit * magnitude (b :: tail) =
        sum.toNat + 2 ^ bit * (b.toNat % 128) + 2 ^ (bit + 7) * magnitude tail := by
      rw [magnitude, hweight]
      ring
    rw [hvalue] at hfits ⊢
    -- This digit fits a word since the whole number does.
    have hdigit : b.toNat % 128 < 2 ^ (64 - bit) := by
      apply Nat.lt_of_mul_lt_mul_left (a := 2 ^ bit)
      rw [← hsplit]
      omega
    have hplace := toNat_place hbit hsum (digit b)
    rw [toNat_digit, Nat.mod_eq_of_lt hdigit] at hplace
    have hfitsDigit : fits bit (digit b) = true := by
      rw [fits_iff, toNat_digit]
      exact ⟨hbit, hdigit⟩
    rw [List.cons_append, unsignedFrom, if_pos hfitsDigit]
    dsimp only
    by_cases hlast : b < 0x80
    · rw [IsNumeral, if_pos hlast] at numeral
      subst numeral
      rw [if_pos ((isLast_iff b).mpr hlast), magnitude, Nat.mul_zero, Nat.add_zero, ← hplace,
        UInt64.ofNat_toNat]
      rfl
    · rw [IsNumeral, if_neg hlast] at numeral
      have hsum' : (sum ||| (digit b <<< bit.toUInt64)).toNat < 2 ^ (bit + 7) := by
        rw [hplace, hweight]
        have hlt := Nat.mod_lt b.toNat (by decide : 128 > 0)
        have hle : 2 ^ bit * (b.toNat % 128) ≤ 2 ^ bit * 127 := Nat.mul_le_mul_left _ (by omega)
        omega
      rw [if_neg (by rwa [isLast_iff]), ih numeral (by omega) hsum' (by rwa [hplace]), hplace]
      rfl

/-! ## Signed numerals -/

/-- The digits so far, after one more. Those whose weight does not fit a word add nothing. -/
def placed (bit : Nat) (sum : UInt64) (b : UInt8) : UInt64 :=
  if bit < 64 then sum ||| (digit b <<< bit.toUInt64) else sum

theorem placed_lt {bit : Nat} {sum : UInt64} (hsum : sum.toNat < 2 ^ bit) (b : UInt8) :
    (placed bit sum b).toNat < 2 ^ (bit + 7) := by
  have hweight : 2 ^ (bit + 7) = 2 ^ bit * 128 := Nat.pow_add 2 bit 7
  unfold placed
  split
  · rename_i hbit
    have hlt := Nat.mod_lt b.toNat (by decide : 128 > 0)
    have hdigit : b.toNat % 128 % 2 ^ (64 - bit) ≤ 127 :=
      Nat.le_trans (Nat.mod_le _ _) (by omega)
    have hle := Nat.mul_le_mul_left (2 ^ bit) hdigit
    rw [toNat_place hbit hsum, toNat_digit, hweight]
    omega
  · omega

/-- Modulo `2 ^ 64`, one more digit counts with its weight. -/
theorem placed_emod {bit : Nat} {sum : UInt64} (hsum : sum.toNat < 2 ^ bit) (b : UInt8) :
    ((placed bit sum b).toNat : Int) % 2 ^ 64 =
      (sum.toNat + 2 ^ bit * (b.toNat % 128 : Nat)) % 2 ^ 64 := by
  unfold placed
  split
  · rename_i hbit
    have hsplit := pow_split hbit
    have hnat : (sum ||| (digit b <<< bit.toUInt64)).toNat % 2 ^ 64 =
        (sum.toNat + 2 ^ bit * (b.toNat % 128)) % 2 ^ 64 := by
      rw [toNat_place hbit hsum, toNat_digit, hsplit, ← Nat.mul_mod_mul_left, Nat.add_mod_mod]
    exact_mod_cast hnat
  · rename_i hbit
    rw [pow_split_of_le hbit, mul_assoc, Int.add_mul_emod_self_left]

/-- The bits from `bit` on. -/
theorem toNat_mask {bit : Nat} (h : bit < 64) :
    2 ^ bit * (maxWord.toNat % 2 ^ (64 - bit)) = 2 ^ 64 - 2 ^ bit := by
  have hsplit := pow_split h
  have hpos := Nat.two_pow_pos (64 - bit)
  have hle : 2 ^ (64 - bit) ≤ 2 ^ 64 := Nat.pow_le_pow_right (by decide) (by omega)
  have hdivide : wordCount - 1 = 2 ^ (64 - bit) * (2 ^ bit - 1) + (2 ^ (64 - bit) - 1) := by
    rw [Nat.mul_sub, Nat.mul_comm, ← hsplit, Nat.mul_one, wordCount]
    omega
  rw [toNat_maxWord, hdivide, Nat.mul_add_mod, Nat.mod_eq_of_lt (by omega), Nat.mul_sub, ← hsplit,
    Nat.mul_one]

/-- The sign bit of a last byte. -/
theorem signBit_eq {b : UInt8} (hlast : b < 0x80) :
    (b &&& 0x40 != 0) = decide (¬ b.toNat < 64) := by
  have hb : b.toNat < 128 := hlast
  have hall : ∀ n < 128, (n.toUInt8 &&& 0x40 != 0) = decide (¬ n < 64) := by decide
  have h := hall b.toNat hb
  rwa [Nat.toUInt8_eq, UInt8.ofNat_toNat] at h

/-- The sign of the last byte, modulo `2 ^ 64`. -/
theorem signExtend_emod {bit : Nat} {sum : UInt64} {b : UInt8} (hsum : sum.toNat < 2 ^ bit)
    (hlast : b < 0x80) :
    ((signExtend bit b sum).toNat : Int) =
      (sum.toNat - 2 ^ bit * (if b.toNat < 64 then 0 else 1)) % 2 ^ 64 := by
  have hword : (sum.toNat : Int) % 2 ^ 64 = sum.toNat :=
    Int.emod_eq_of_lt (by omega) (by exact_mod_cast sum.toNat_lt)
  unfold signExtend
  rw [signBit_eq hlast]
  by_cases hneg : b.toNat < 64
  · simp only [hneg, not_true_eq_false, decide_false, Bool.false_and, if_true, mul_zero, sub_zero]
    exact hword.symm
  · simp only [hneg, not_false_eq_true, decide_true, Bool.true_and, decide_eq_true_eq, if_false,
      mul_one]
    split
    · rename_i hbit
      have hpow : 2 ^ bit < 2 ^ 64 := Nat.pow_lt_pow_right (by decide) hbit
      have hsum' : (sum.toNat : Int) < 2 ^ bit := by exact_mod_cast hsum
      have hpow' : (2 : Int) ^ bit < 2 ^ 64 := by exact_mod_cast hpow
      rw [toNat_place hbit hsum, toNat_mask hbit, Nat.cast_add, Nat.cast_sub (by omega)]
      push_cast
      -- Setting the bits from there on adds what is missing to the next multiple of `2 ^ 64`.
      rw [← Int.add_emod_right, Int.emod_eq_of_lt (by omega) (by omega)]
      ring
    · rename_i hbit
      rw [pow_split_of_le hbit, Int.sub_mul_emod_self_left]
      exact hword.symm

/-- A signed numeral is read to its end, whatever its length, and nothing behind it matters. -/
theorem signedFrom_append {bytes : Bytes} (rest : Bytes) {bit : Nat} {sum : UInt64}
    (numeral : IsNumeral bytes) (hsum : sum.toNat < 2 ^ bit) :
    signedFrom bit sum (bytes ++ rest) =
      (.ok (Int64.ofInt (sum.toNat + 2 ^ bit * integer bytes)), bytes.length) := by
  induction bytes generalizing bit sum with
  | nil => exact numeral.elim
  | cons b tail ih =>
    have hweight : (2 : Int) ^ (bit + 7) = 2 ^ bit * 128 := pow_add 2 bit 7
    have hplaced := placed_emod hsum b
    have hplaced' := placed_lt hsum b
    rw [List.cons_append, signedFrom]
    change (if isLast b then (Except.ok (signExtend (bit + 7) b (placed bit sum b)).toInt64, 1)
      else ((signedFrom (bit + 7) (placed bit sum b) (tail ++ rest)).1,
        (signedFrom (bit + 7) (placed bit sum b) (tail ++ rest)).2 + 1)) = _
    by_cases hlast : b < 0x80
    · rw [IsNumeral, if_pos hlast] at numeral
      subst numeral
      have hinteger : integer [b] =
          (b.toNat % 128 : Nat) - 128 * (if b.toNat < 64 then 0 else 1) := by
        have hb : b.toNat < 128 := hlast
        rw [integer, if_pos hlast, Nat.mod_eq_of_lt hb]
        split <;> ring
      rw [if_pos ((isLast_iff b).mpr hlast), toInt64_eq_ofInt (signExtend_emod hplaced' hlast)]
      apply Prod.ext
      · apply congrArg Except.ok
        apply ofInt_eq_of_emod_eq
        rw [Int.sub_emod, hplaced, ← Int.sub_emod, hinteger, hweight]
        congr 1
        ring
      · rfl
    · rw [IsNumeral, if_neg hlast] at numeral
      have hinteger : integer (b :: tail) = (b.toNat % 128 : Nat) + 128 * integer tail := by
        rw [integer, if_neg hlast]
      rw [if_neg (by rwa [isLast_iff]), ih numeral hplaced']
      apply Prod.ext
      · apply congrArg Except.ok
        apply ofInt_eq_of_emod_eq
        rw [Int.add_emod, hplaced, ← Int.add_emod, hinteger, hweight]
        congr 1
        ring
      · rfl

end Leb128

/-! ## The readers -/

namespace Reads

open Leb128

theorem uleb128 (a : UInt64) {bytes : Bytes} (numeral : IsNumeral bytes)
    (short : bytes.length ≤ 10) (hfits : magnitude bytes < 2 ^ 64) :
    Reads Reader.uleb128 a bytes (UInt64.ofNat (magnitude bytes)) := by
  intro rest
  have h := @unsignedFrom_append bytes rest 0 0 numeral (by omega) (by decide)
    (by simpa using hfits)
  rw [Nat.pow_zero, Nat.one_mul, UInt64.toNat_zero, Nat.zero_add] at h
  unfold Reader.uleb128 unsigned
  rw [h]
  change EStateM.Result.ok _ (Section.drop ⟨a, bytes ++ rest⟩ bytes.length) = _
  unfold Section.drop
  rw [List.drop_left]

theorem sleb128 (a : UInt64) {bytes : Bytes} (numeral : IsNumeral bytes) :
    Reads Reader.sleb128 a bytes (Int64.ofInt (integer bytes)) := by
  intro rest
  have h := @signedFrom_append bytes rest 0 0 numeral (by decide)
  rw [pow_zero, one_mul, UInt64.toNat_zero, Nat.cast_zero, zero_add] at h
  unfold Reader.sleb128 signed
  rw [h]
  change EStateM.Result.ok _ (Section.drop ⟨a, bytes ++ rest⟩ bytes.length) = _
  unfold Section.drop
  rw [List.drop_left]

end Reads

end Unwind
