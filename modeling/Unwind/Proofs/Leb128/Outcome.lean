import Mathlib.Algebra.BigOperators.Ring.Finset
import Unwind.Proofs.Leb128.Shortest
import Unwind.Proofs.Reader.Stored

/-!
# How reading a numeral ends

`Reaches` and `EndsAt` say of any byte string where a numeral at its front goes on and where it
ends, and `weigh` and `weighSigned` are the sums of its digits by their weights. They decide what
the readers do: `uleb128_outcome` for numerals without a sign, which have to fit a word, and
`sleb128_outcome` for those with a sign, which are taken modulo `2 ^ 64` at any length.
-/

namespace Unwind

namespace Leb128

/-! ## Where a numeral ends -/

/-- There is a byte at index `i`, and all the bytes before it have the high bit set. -/
def Reaches (bytes : Bytes) (i : Nat) : Prop :=
  i < bytes.length ∧ ∀ c ∈ bytes.take i, ¬ c < 0x80

/-- The byte at index `k` is the first without the high bit. -/
def EndsAt (bytes : Bytes) (k : Nat) : Prop :=
  Reaches bytes k ∧ bytes.getD k 0 < 0x80

/-- The numeral has more bits than a word: of its tenth digit, only the lowest bit is left. -/
def Overlong (bytes : Bytes) : Prop :=
  Reaches bytes 9 ∧ 1 < (bytes.getD 9 0).toNat % 128 ∨ Reaches bytes 10

-- Only the bytes of the list are tried, and not all the bytes that there are.
instance (bytes : Bytes) (i : Nat) : Decidable (Reaches bytes i) :=
  @instDecidableAnd _ _ _ (List.decidableBAll (fun c => ¬ c < 0x80) (bytes.take i))

instance (bytes : Bytes) (k : Nat) : Decidable (EndsAt bytes k) :=
  inferInstanceAs (Decidable (_ ∧ _))

instance (bytes : Bytes) : Decidable (Overlong bytes) :=
  inferInstanceAs (Decidable (_ ∨ _))

variable {bytes tail : Bytes} {b : UInt8} {i k : Nat}

theorem not_reaches_nil : ¬ Reaches [] i :=
  fun h => Nat.not_lt_zero i h.1

theorem reaches_zero_cons : Reaches (b :: tail) 0 := by
  refine ⟨by rw [List.length_cons]; omega, ?_⟩
  rw [List.take_zero]
  exact fun c hc => absurd hc List.not_mem_nil

theorem reaches_succ_cons : Reaches (b :: tail) (i + 1) ↔ ¬ b < 0x80 ∧ Reaches tail i := by
  unfold Reaches
  rw [List.length_cons, List.take_succ_cons, List.forall_mem_cons]
  constructor
  · rintro ⟨hlt, hb, hrest⟩
    exact ⟨hb, by omega, hrest⟩
  · rintro ⟨hb, hlt, hrest⟩
    exact ⟨by omega, hb, hrest⟩

theorem endsAt_zero_cons : EndsAt (b :: tail) 0 ↔ b < 0x80 :=
  ⟨fun h => h.2, fun h => ⟨reaches_zero_cons, h⟩⟩

theorem endsAt_succ_cons : EndsAt (b :: tail) (k + 1) ↔ ¬ b < 0x80 ∧ EndsAt tail k := by
  unfold EndsAt
  rw [reaches_succ_cons, List.getD_cons_succ, and_assoc]

/-- Induction along a numeral, from where it ends to its front. -/
theorem EndsAt.induction {motive : (bytes : Bytes) → (k : Nat) → EndsAt bytes k → Prop}
    (last : ∀ (b : UInt8) (tail : Bytes) (hb : b < 0x80),
      motive (b :: tail) 0 (endsAt_zero_cons.mpr hb))
    (more : ∀ (b : UInt8) (tail : Bytes) (k : Nat) (hb : ¬ b < 0x80) (htail : EndsAt tail k),
      motive tail k htail → motive (b :: tail) (k + 1) (endsAt_succ_cons.mpr ⟨hb, htail⟩))
    {bytes : Bytes} {k : Nat} (h : EndsAt bytes k) : motive bytes k h := by
  induction bytes generalizing k with
  | nil => exact absurd h.1 not_reaches_nil
  | cons b tail ih =>
    cases k with
    | zero => exact last b tail (endsAt_zero_cons.mp h)
    | succ k =>
      obtain ⟨hb, htail⟩ := endsAt_succ_cons.mp h
      exact more b tail k hb htail (ih htail)

theorem front_of_endsAt (h : EndsAt bytes k) : front bytes = some (bytes.take (k + 1)) := by
  induction h using EndsAt.induction with
  | last b tail hb => rw [front, if_pos hb, List.take_succ_cons, List.take_zero]
  | more b tail k hb _ ih => rw [front, if_neg hb, ih, Option.map_some, List.take_succ_cons]

theorem exists_endsAt_of_front {numeral : Bytes} (h : front bytes = some numeral) :
    ∃ k, EndsAt bytes k := by
  induction bytes generalizing numeral with
  | nil => cases h
  | cons b tail ih =>
    rw [front] at h
    split at h
    · rename_i hb
      exact ⟨0, endsAt_zero_cons.mpr hb⟩
    · rename_i hb
      obtain ⟨rest, hrest, -⟩ := Option.map_eq_some_iff.mp h
      obtain ⟨k, hk⟩ := ih hrest
      exact ⟨k + 1, endsAt_succ_cons.mpr ⟨hb, hk⟩⟩

/-! ## Digits by their weights -/

/-- The digits of a numeral that ends at index `k`, each times its weight. -/
def weigh (bytes : Bytes) (k : Nat) : Nat :=
  ∑ i ∈ Finset.range (k + 1), (bytes.getD i 0).toNat % 128 * 2 ^ (7 * i)

/-- The same for a numeral with a sign: bit 6 of the last byte takes away the weight that the next
digit would have. -/
def weighSigned (bytes : Bytes) (k : Nat) : Int :=
  weigh bytes k - if bytes.getD k 0 &&& 0x40 != 0 then 2 ^ (7 * (k + 1)) else 0

theorem weigh_zero_cons : weigh (b :: tail) 0 = b.toNat % 128 := by
  rw [weigh, Finset.sum_range_one, List.getD_cons_zero, Nat.mul_zero, Nat.pow_zero, Nat.mul_one]

theorem weigh_succ_cons : weigh (b :: tail) (k + 1) = b.toNat % 128 + 128 * weigh tail k := by
  unfold weigh
  rw [Finset.sum_range_succ', Finset.mul_sum, Nat.add_comm]
  -- One digit in front moves all the others up by a place.
  congr 1
  · rw [List.getD_cons_zero, Nat.mul_zero, Nat.pow_zero, Nat.mul_one]
  · refine Finset.sum_congr rfl fun i _ => ?_
    rw [List.getD_cons_succ, Nat.mul_add, Nat.pow_add]
    ring

theorem weighSigned_succ_cons :
    weighSigned (b :: tail) (k + 1) = (b.toNat % 128 : Nat) + 128 * weighSigned tail k := by
  unfold weighSigned
  rw [weigh_succ_cons, List.getD_cons_succ, Nat.mul_add 7 (k + 1) 1, pow_add]
  push_cast
  split <;> ring

theorem magnitude_take (h : EndsAt bytes k) : magnitude (bytes.take (k + 1)) = weigh bytes k := by
  induction h using EndsAt.induction with
  | last b tail _ =>
    rw [weigh_zero_cons, List.take_succ_cons, List.take_zero, magnitude, magnitude, Nat.mul_zero,
      Nat.add_zero]
  | more b tail k _ _ ih => rw [weigh_succ_cons, List.take_succ_cons, magnitude, ih]

theorem integer_take (h : EndsAt bytes k) :
    integer (bytes.take (k + 1)) = weighSigned bytes k := by
  induction h using EndsAt.induction with
  | last b tail hlast =>
    have hb : b.toNat < 128 := hlast
    rw [List.take_succ_cons, List.take_zero, integer, if_pos hlast, weighSigned, weigh_zero_cons,
      List.getD_cons_zero, signBit_eq hlast, Nat.mod_eq_of_lt hb]
    by_cases hsign : b.toNat < 64
    · simp [hsign]
    · simp [hsign]
  | more b tail k hb _ ih =>
    rw [List.take_succ_cons, integer, if_neg hb, ih, weighSigned_succ_cons]

theorem length_take_of_endsAt (h : EndsAt bytes k) : (bytes.take (k + 1)).length = k + 1 :=
  List.length_take_of_le h.1.1

theorem endsAt_unique {j : Nat} (hj : EndsAt bytes j) (hk : EndsAt bytes k) : j = k := by
  have heq := (front_of_endsAt hj).symm.trans (front_of_endsAt hk)
  have hlength := congrArg List.length (Option.some.inj heq)
  rw [length_take_of_endsAt hj, length_take_of_endsAt hk] at hlength
  omega

/-! ## Numerals without a sign -/

theorem fits_top (b : UInt8) : fits 63 (digit b) = true ↔ b.toNat % 128 ≤ 1 := by
  rw [fits_iff, toNat_digit]
  omega

theorem fits_below {bit : Nat} (h : bit ≤ 56) (b : UInt8) : fits bit (digit b) = true := by
  rw [fits_iff, toNat_digit]
  have hle : 2 ^ 8 ≤ 2 ^ (64 - bit) := Nat.pow_le_pow_right (by decide) (by omega)
  omega

/-- With `n` whole digits before the top bit of a word, a numeral is refused as too long exactly if
the digit behind them has more than that bit, or if there is one more. -/
theorem malformed_iff {n bit : Nat} {sum : UInt64} (hbit : bit + 7 * n = 63) :
    (unsignedFrom bit sum bytes).1 = .error .malformed ↔
      Reaches bytes n ∧ 1 < (bytes.getD n 0).toNat % 128 ∨ Reaches bytes (n + 1) := by
  induction n generalizing bit sum bytes with
  | zero =>
    obtain rfl : bit = 63 := by omega
    cases bytes with
    | nil => simp [unsignedFrom, not_reaches_nil]
    | cons b tail =>
      rw [unsignedFrom, List.getD_cons_zero, reaches_succ_cons]
      by_cases hfits : b.toNat % 128 ≤ 1
      · rw [if_pos ((fits_top b).mpr hfits)]
        by_cases hlast : b < 0x80
        · simp [(isLast_iff b).mpr hlast, hlast, hfits]
        · have hmore : isLast b = false := by rwa [← Bool.not_eq_true, isLast_iff]
          -- The word is full, so that nothing fits behind this digit.
          cases tail with
          | nil => simp [hmore, unsignedFrom, not_reaches_nil, hfits]
          | cons c rest => simp [hmore, unsignedFrom, fits, reaches_zero_cons, hlast]
      · rw [if_neg (by rwa [fits_top])]
        simp [reaches_zero_cons, Nat.lt_of_not_le hfits]
  | succ n ih =>
    cases bytes with
    | nil => simp [unsignedFrom, not_reaches_nil]
    | cons b tail =>
      rw [unsignedFrom, if_pos (fits_below (by omega) b), List.getD_cons_succ, reaches_succ_cons,
        reaches_succ_cons]
      dsimp only
      by_cases hlast : b < 0x80
      · simp [(isLast_iff b).mpr hlast, hlast]
      · rw [if_neg (by rwa [isLast_iff])]
        simp only [hlast, not_false_eq_true, true_and]
        exact ih (by omega)

theorem malformed_iff_overlong : (unsigned bytes).1 = .error .malformed ↔ Overlong bytes :=
  malformed_iff (by decide)

/-- The numbers that are read, and how far: those of at most ten bytes that fit a word. -/
theorem unsigned_ok_iff {v : UInt64} {count : Nat} :
    unsigned bytes = (.ok v, count) ↔
      ∃ k ≤ 9, EndsAt bytes k ∧ v.toNat = weigh bytes k ∧ count = k + 1 := by
  constructor
  · intro h
    obtain ⟨numeral, hfront, hcount, hvalue⟩ := front_of_unsignedFrom (by decide) h
    have hshort := count_le_of_unsignedFrom h
    obtain ⟨k, hk⟩ := exists_endsAt_of_front hfront
    obtain rfl : bytes.take (k + 1) = numeral :=
      Option.some.inj ((front_of_endsAt hk).symm.trans hfront)
    rw [length_take_of_endsAt hk] at hcount
    rw [magnitude_take hk, UInt64.toNat_zero, Nat.pow_zero, Nat.one_mul, Nat.zero_add] at hvalue
    exact ⟨k, by omega, hk, hvalue, hcount⟩
  · rintro ⟨k, hshort, hk, hvalue, rfl⟩
    -- What stands behind the numeral is not looked at.
    obtain ⟨hnumeral, -⟩ := isNumeral_of_front (front_of_endsAt hk)
    have hlength := length_take_of_endsAt hk
    have hmagnitude := magnitude_take hk
    have hread := @unsignedFrom_append _ (bytes.drop (k + 1)) 0 0 hnumeral (by omega) (by decide)
      (by simpa [hmagnitude, ← hvalue] using v.toNat_lt)
    rw [List.take_append_drop, hlength, hmagnitude, ← hvalue, UInt64.toNat_zero, Nat.pow_zero,
      Nat.one_mul, Nat.zero_add, UInt64.ofNat_toNat] at hread
    exact hread

/-! ## Numerals with a sign -/

/-- A numeral with a sign is read to its end, however far that is. -/
theorem signed_of_endsAt (h : EndsAt bytes k) :
    signed bytes = (.ok (Int64.ofInt (weighSigned bytes k)), k + 1) := by
  obtain ⟨hnumeral, -⟩ := isNumeral_of_front (front_of_endsAt h)
  have hread := @signedFrom_append _ (bytes.drop (k + 1)) 0 0 hnumeral (by decide)
  rw [List.take_append_drop, length_take_of_endsAt h, integer_take h, UInt64.toNat_zero, pow_zero,
    one_mul, Nat.cast_zero, zero_add] at hread
  exact hread

theorem signedFrom_of_endless {bit : Nat} {sum : UInt64} (h : ∀ k, ¬ EndsAt bytes k) :
    signedFrom bit sum bytes = (.error .truncated, bytes.length) := by
  induction bytes generalizing bit sum with
  | nil => rfl
  | cons b tail ih =>
    have hb : ¬ b < 0x80 := fun hlast => h 0 (endsAt_zero_cons.mpr hlast)
    have htail : ∀ k, ¬ EndsAt tail k := fun k hk => h (k + 1) (endsAt_succ_cons.mpr ⟨hb, hk⟩)
    rw [signedFrom]
    dsimp only
    rw [if_neg (by rwa [isLast_iff]), ih htail]
    rfl

/-! ## Padded numerals -/

/-- The numeral of a number without a sign in `more + 1` bytes. Unless it is the shortest, it is
padded with zero digits. -/
def unsignedPadded : Nat → Nat → Bytes
  | 0, n => [n.toUInt8]
  | more + 1, n => (n % 128 + 128).toUInt8 :: unsignedPadded more (n / 128)

/-- The numeral of a number with a sign in `more + 1` bytes. Unless it is the shortest, it is padded
with digits whose bits are all copies of the sign. -/
def signedPadded : Nat → Int → Bytes
  | 0, z => [(z % 128).toNat.toUInt8]
  | more + 1, z => ((z % 128).toNat + 128).toUInt8 :: signedPadded more (z / 128)

theorem length_unsignedPadded (more n : Nat) : (unsignedPadded more n).length = more + 1 := by
  induction more generalizing n with
  | zero => rfl
  | succ more ih => rw [unsignedPadded, List.length_cons, ih]

theorem isNumeral_unsignedPadded {more n : Nat} (h : n < 128 ^ (more + 1)) :
    IsNumeral (unsignedPadded more n) := by
  induction more generalizing n with
  | zero => rw [unsignedPadded, IsNumeral, if_pos ((toUInt8_lt_iff (by omega)).mpr (by omega))]
  | succ more ih =>
    rw [unsignedPadded, IsNumeral, if_neg (by rw [toUInt8_lt_iff (by omega)]; omega)]
    exact ih (Nat.div_lt_of_lt_mul (by rwa [← Nat.pow_succ']))

theorem magnitude_unsignedPadded {more n : Nat} (h : n < 128 ^ (more + 1)) :
    magnitude (unsignedPadded more n) = n := by
  induction more generalizing n with
  | zero =>
    rw [unsignedPadded, magnitude, magnitude, toNat_toUInt8_of_lt (by omega)]
    omega
  | succ more ih =>
    rw [unsignedPadded, magnitude, ih (Nat.div_lt_of_lt_mul (by rwa [← Nat.pow_succ'])),
      toNat_toUInt8_of_lt (by omega)]
    omega

theorem isNumeral_signedPadded (more : Nat) (z : Int) : IsNumeral (signedPadded more z) := by
  induction more generalizing z with
  | zero => rw [signedPadded, IsNumeral, if_pos ((toUInt8_lt_iff (by omega)).mpr (by omega))]
  | succ more ih =>
    rw [signedPadded, IsNumeral, if_neg (by rw [toUInt8_lt_iff (by omega)]; omega)]
    exact ih (z / 128)

theorem integer_signedPadded {more : Nat} {z : Int} (hlo : -(64 * 128 ^ more) ≤ z)
    (hhi : z < 64 * 128 ^ more) : integer (signedPadded more z) = z := by
  induction more generalizing z with
  | zero =>
    rw [signedPadded, integer, if_pos ((toUInt8_lt_iff (by omega)).mpr (by omega)),
      toNat_toUInt8_of_lt (by omega)]
    -- Bit 6 of the digit is the sign.
    split <;> omega
  | succ more ih =>
    rw [pow_succ] at hlo hhi
    -- Seven bits go into the digit, and seven less are left for the rest.
    rw [signedPadded, integer, if_neg (by rw [toUInt8_lt_iff (by omega)]; omega),
      ih (by omega) (by omega), toNat_toUInt8_of_lt (by omega)]
    omega

end Leb128

namespace Reader

open Leb128

variable {s t : Section}

theorem uleb128_ok_iff {v : UInt64} :
    uleb128 s = .ok v t ↔
      ∃ k ≤ 9, EndsAt s.bytes k ∧ v.toNat = weigh s.bytes k ∧ t = s.drop (k + 1) := by
  have hread : uleb128 s = .ok v t ↔
      ∃ count, unsigned s.bytes = (.ok v, count) ∧ t = s.drop count := by
    unfold uleb128
    split <;> rename_i h <;> simp [h, eq_comm]
  simp only [hread, unsigned_ok_iff]
  constructor
  · rintro ⟨_, ⟨k, hshort, hk, hvalue, rfl⟩, ht⟩
    exact ⟨k, hshort, hk, hvalue, ht⟩
  · rintro ⟨k, hshort, hk, hvalue, ht⟩
    exact ⟨_, ⟨k, hshort, hk, hvalue, rfl⟩, ht⟩

/-- Whether a numeral that is refused is too long or too short. -/
theorem eq_of_uleb128_error {e : CfiError} (h : uleb128 s = .error e t) :
    e = if Overlong s.bytes then .unsignedMalformed s.address
      else .unsignedTruncated s.address := by
  have hoverlong := @malformed_iff_overlong s.bytes
  unfold uleb128 at h
  split at h <;> rename_i hread <;> rw [hread] at hoverlong
  · cases h
  · cases h
    rw [if_neg (by rw [← hoverlong]; nofun)]
  · cases h
    rw [if_pos (hoverlong.mp rfl)]

/-- What becomes of any bytes that are read as a numeral without a sign. It is read exactly if it
ends within ten bytes and fits a word; then it gives its number and is passed over to its end.
Otherwise the fault carries the address of its first byte, and says whether there were too many bits
or too few bytes. So every word is read back from its numeral, padded up to ten bytes or not. -/
theorem uleb128_outcome (s : Section) :
    ((∃ v t, uleb128 s = .ok v t) ↔
      ∃ k ≤ 9, EndsAt s.bytes k ∧ weigh s.bytes k < 2 ^ 64) ∧
    (∀ v t, uleb128 s = .ok v t → ∀ k, EndsAt s.bytes k →
      v.toNat = weigh s.bytes k ∧ t = s.drop (k + 1)) ∧
    (∀ e t, uleb128 s = .error e t →
      e = if Overlong s.bytes then .unsignedMalformed s.address
        else .unsignedTruncated s.address) ∧
    ∀ (v a : UInt64), Reads uleb128 a (unsignedBytes v.toNat) v ∧
      ∀ more ≤ 9, v.toNat < 128 ^ (more + 1) →
        Reads uleb128 a (unsignedPadded more v.toNat) v := by
  refine ⟨⟨?_, ?_⟩, ?_, fun e t => eq_of_uleb128_error, fun v a => ⟨?_, ?_⟩⟩
  · rintro ⟨v, t, h⟩
    obtain ⟨k, hshort, hk, hvalue, -⟩ := uleb128_ok_iff.mp h
    exact ⟨k, hshort, hk, hvalue ▸ v.toNat_lt⟩
  · rintro ⟨k, hshort, hk, hfits⟩
    refine ⟨UInt64.ofNat (weigh s.bytes k), _, uleb128_ok_iff.mpr ⟨k, hshort, hk, ?_, rfl⟩⟩
    exact UInt64.toNat_ofNat_of_lt' hfits
  · intro v t h k hk
    obtain ⟨j, -, hj, hvalue, ht⟩ := uleb128_ok_iff.mp h
    obtain rfl := endsAt_unique hj hk
    exact ⟨hvalue, ht⟩
  · -- The shortest numeral of a word has ten bytes at most.
    have hlt := v.toNat_lt
    have h := Reads.uleb128 a (isNumeral_unsignedBytes v.toNat)
      (length_unsignedBytes_le (by decide) (by omega)) (by rwa [magnitude_unsignedBytes])
    rwa [magnitude_unsignedBytes, UInt64.ofNat_toNat] at h
  · intro more hmore hwide
    have h := Reads.uleb128 a (isNumeral_unsignedPadded hwide)
      (by rw [length_unsignedPadded]; omega)
      (by rw [magnitude_unsignedPadded hwide]; exact v.toNat_lt)
    rwa [magnitude_unsignedPadded hwide, UInt64.ofNat_toNat] at h

/-- A padded one, the largest word in ten bytes, one of a bit more, and one that is cut short. -/
theorem uleb128_outcome_edges :
    (∃ v t, uleb128 ⟨0x1000, [0x81, 0x80, 0x00, 0xff]⟩ = .ok v t) ∧
      Reads uleb128 0x1000 (unsignedPadded 9 maxWord.toNat) maxWord ∧
      (∀ e t, uleb128 ⟨0x1000, List.replicate 9 0xff ++ [0x02]⟩ = .error e t →
        e = .unsignedMalformed 0x1000) ∧
      ∀ e t, uleb128 ⟨0x1000, List.replicate 9 0xff ++ [0x81]⟩ = .error e t →
        e = .unsignedTruncated 0x1000 := by
  have hpadded := (uleb128_outcome ⟨0x1000, [0x81, 0x80, 0x00, 0xff]⟩).1
  have hlong := (uleb128_outcome ⟨0x1000, List.replicate 9 0xff ++ [0x02]⟩).2.2.1
  have hcut := (uleb128_outcome ⟨0x1000, List.replicate 9 0xff ++ [0x81]⟩).2.2.1
  have hwritten := (uleb128_outcome ⟨0, []⟩).2.2.2 maxWord 0x1000
  refine ⟨hpadded.mpr ⟨2, by decide, by decide, by decide⟩, hwritten.2 9 (by decide) (by decide),
    fun e t h => ?_, fun e t h => ?_⟩
  · rw [hlong e t h, if_pos (by decide)]
  · rw [hcut e t h, if_neg (by decide)]

/-- What becomes of any bytes that are read as a numeral with a sign. If it ends anywhere it is
passed over to its end and gives its number modulo `2 ^ 64`, the exact one if there is room for it;
else the fault carries the address of its first byte. So every number that a word has room for is
read back from its numeral, padded to any length or not. -/
theorem sleb128_outcome (s : Section) :
    (∀ k, EndsAt s.bytes k → ∃ v, sleb128 s = .ok v (s.drop (k + 1)) ∧
      v.toInt % 2 ^ 64 = weighSigned s.bytes k % 2 ^ 64 ∧
      (-2 ^ 63 ≤ weighSigned s.bytes k → weighSigned s.bytes k < 2 ^ 63 →
        v.toInt = weighSigned s.bytes k)) ∧
    ((∀ k, ¬ EndsAt s.bytes k) →
      sleb128 s = .error (.signedTruncated s.address) (s.drop s.size)) ∧
    ∀ (v : Int64) (a : UInt64), Reads sleb128 a (signedBytes v.toInt) v ∧
      ∀ more, -(64 * 128 ^ more) ≤ v.toInt → v.toInt < 64 * 128 ^ more →
        Reads sleb128 a (signedPadded more v.toInt) v := by
  refine ⟨fun k hk => ?_, fun hendless => ?_, fun v a => ⟨?_, fun more hlo hhi => ?_⟩⟩
  · refine ⟨Int64.ofInt (weighSigned s.bytes k), ?_, ?_, Int64.toInt_ofInt_of_le⟩
    · unfold sleb128
      rw [signed_of_endsAt hk]
    · rw [Int64.toInt_ofInt]
      exact Int.bmod_emod
  · unfold sleb128 signed
    rw [signedFrom_of_endless hendless]
    rfl
  · have h := Reads.sleb128 a (isNumeral_signedBytes v.toInt)
    rwa [integer_signedBytes, Int64.ofInt_toInt] at h
  · have h := Reads.sleb128 a (isNumeral_signedPadded more v.toInt)
    rwa [integer_signedPadded hlo hhi, Int64.ofInt_toInt] at h

/-- Minus one in twelve bytes, a number that there is no room for, and the least one in eleven. -/
theorem sleb128_outcome_edges :
    (∃ v, sleb128 ⟨0x1000, List.replicate 11 0xff ++ [0x7f, 0x55]⟩ = .ok v ⟨0x100c, [0x55]⟩ ∧
      v.toInt = -1) ∧
      (∃ v, sleb128 ⟨0x1000, List.replicate 9 0x80 ++ [0x01]⟩ = .ok v ⟨0x100a, []⟩ ∧
        v.toInt % 2 ^ 64 = 2 ^ 63 % 2 ^ 64) ∧
      Reads sleb128 0x1000 (signedPadded 10 Int64.minValue.toInt) Int64.minValue ∧
      sleb128 ⟨0x1000, [0xff, 0xff]⟩ = .error (.signedTruncated 0x1000) ⟨0x1002, []⟩ := by
  have hone := (sleb128_outcome ⟨0x1000, List.replicate 11 0xff ++ [0x7f, 0x55]⟩).1 11 (by decide)
  have hlarge := (sleb128_outcome ⟨0x1000, List.replicate 9 0x80 ++ [0x01]⟩).1 9 (by decide)
  have hcut := (sleb128_outcome ⟨0x1000, [0xff, 0xff]⟩).2.1
  have hwritten := (sleb128_outcome ⟨0, []⟩).2.2 Int64.minValue 0x1000
  obtain ⟨v, hread, -, hexact⟩ := hone
  obtain ⟨w, hlargeRead, hmod, -⟩ := hlarge
  refine ⟨⟨v, hread, hexact (by decide) (by decide)⟩, ⟨w, hlargeRead, hmod⟩,
    hwritten.2 10 (by decide) (by decide), hcut fun k hk => ?_⟩
  obtain rfl | rfl : k = 0 ∨ k = 1 := by
    have hlt : k < 2 := hk.1.1
    omega
  · exact absurd hk (by decide)
  · exact absurd hk (by decide)

end Reader

end Unwind
