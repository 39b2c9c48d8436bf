import Mathlib.Tactic.Ring
import Unwind.Word

/-!
# Words congruent to integers

Words and fixed-width signed numbers stand for integers modulo a power of two. Sums of addresses and
signed offsets are sums of integers modulo `2 ^ 64`.
-/

namespace Unwind

theorem ofNat_emod (w : Nat) (z : Int) : BitVec.ofNat w (z % 2 ^ w).toNat = BitVec.ofInt w z := by
  apply BitVec.eq_of_toNat_eq
  rw [BitVec.toNat_ofNat, BitVec.toNat_ofInt]
  apply Nat.mod_eq_of_lt
  have hpos : (0 : Int) < 2 ^ w := by exact_mod_cast Nat.two_pow_pos w
  have hlt := Int.emod_lt_of_pos z hpos
  have hle := Int.emod_nonneg z (Int.ne_of_gt hpos)
  rw [Int.toNat_lt hle]
  exact_mod_cast hlt

theorem toUInt64_ofInt (z : Int) : (Int64.ofInt z).toUInt64 = UInt64.ofInt z := by
  rw [← UInt64.toBitVec_inj]
  exact (ofNat_emod 64 z).symm

theorem ofInt_natCast (n : Nat) : UInt64.ofInt n = n.toUInt64 := by
  rw [← UInt64.toNat_inj, UInt64.ofInt, Nat.toUInt64_eq, UInt64.toNat_ofNat', UInt64.toNat_ofNat']
  omega

theorem extend16 {z : Int} (hlo : -2 ^ 15 ≤ z) (hhi : z < 2 ^ 15) :
    (z % 2 ^ 16).toNat.toUInt16.toInt16.toInt64.toUInt64 = UInt64.ofInt z := by
  have h : (z % 2 ^ 16).toNat.toUInt16.toInt16 = Int16.ofInt z :=
    Int16.toBitVec.inj (ofNat_emod 16 z)
  rw [h, ← Int64.ofInt_int16ToInt, Int16.toInt_ofInt_of_le hlo hhi, toUInt64_ofInt]

theorem extend32 {z : Int} (hlo : -2 ^ 31 ≤ z) (hhi : z < 2 ^ 31) :
    (z % 2 ^ 32).toNat.toUInt32.toInt32.toInt64.toUInt64 = UInt64.ofInt z := by
  have h : (z % 2 ^ 32).toNat.toUInt32.toInt32 = Int32.ofInt z :=
    Int32.toBitVec.inj (ofNat_emod 32 z)
  rw [h, ← Int64.ofInt_int32ToInt, Int32.toInt_ofInt_of_le hlo hhi, toUInt64_ofInt]

/-- A word read as a signed number is the number congruent to it. -/
theorem toInt64_eq_ofInt {u : UInt64} {z : Int} (h : (u.toNat : Int) = z % 2 ^ 64) :
    u.toInt64 = Int64.ofInt z := by
  apply Int64.toBitVec.inj
  apply BitVec.eq_of_toNat_eq
  rw [Int64.toBitVec_ofInt, BitVec.toNat_ofInt]
  change u.toNat = (z % 2 ^ 64).toNat
  rw [← h, Int.toNat_natCast]

/-- A word without the top bit is the same number signed. -/
theorem toInt_toInt64_of_lt {u : UInt64} (h : u.toNat < 2 ^ 63) : u.toInt64.toInt = u.toNat := by
  rw [@toInt64_eq_ofInt u u.toNat (by omega)]
  exact Int64.toInt_ofInt_of_le (by omega) (by omega)

theorem ofInt_eq_of_emod_eq {y z : Int} (h : y % 2 ^ 64 = z % 2 ^ 64) :
    Int64.ofInt y = Int64.ofInt z := by
  apply Int64.toBitVec.inj
  apply BitVec.eq_of_toNat_eq
  rw [Int64.toBitVec_ofInt, Int64.toBitVec_ofInt, BitVec.toNat_ofInt, BitVec.toNat_ofInt]
  change (y % 2 ^ 64).toNat = (z % 2 ^ 64).toNat
  rw [h]

theorem toNat_ofInt (z : Int) : ((UInt64.ofInt z).toNat : Int) = z % 2 ^ 64 := by
  rw [UInt64.ofInt, UInt64.toNat_ofNat']
  omega

theorem wordOfOffset_eq (o : Int32) : wordOfOffset o = UInt64.ofInt o.toInt := by
  rw [wordOfOffset, ← Int64.ofInt_int32ToInt, toUInt64_ofInt]

theorem toNat_add_wordOfOffset (a : UInt64) (o : Int32) :
    ((a + wordOfOffset o).toNat : Int) = (a.toNat + o.toInt) % 2 ^ 64 := by
  have ho := toNat_ofInt o.toInt
  rw [wordOfOffset_eq, UInt64.toNat_add]
  omega

theorem toNat_add_wordOfOffset_mul_two (a : UInt64) (o : Int32) :
    ((a + wordOfOffset o * 2).toNat : Int) = (a.toNat + 2 * o.toInt) % 2 ^ 64 := by
  have ho := toNat_ofInt o.toInt
  have htwo : (2 : UInt64).toNat = 2 := rfl
  rw [wordOfOffset_eq, UInt64.toNat_add, UInt64.toNat_mul, htwo]
  omega

theorem toNat_sub_wordSize (a : UInt64) :
    ((a - wordSize).toNat : Int) = (a.toNat - 8) % 2 ^ 64 := by
  have hsize : wordSize.toNat = 8 := rfl
  rw [UInt64.toNat_sub, hsize]
  omega

end Unwind
