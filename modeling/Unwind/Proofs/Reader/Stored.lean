import Unwind.Proofs.Pointer
import Unwind.Proofs.Reader.Exact

/-!
# What was read was stored

The converse of `Reads.pointer`: where a pointer is read, the bytes passed over store it
(`exists_stores_of_pointer`). So a reader that is given the front of a stored pointer and no more
fails, in every encoding.
-/

namespace Unwind

/-! ## Fields of fixed width -/

theorem littleEndian_lt (bytes : Bytes) : Reader.littleEndian bytes < 256 ^ bytes.length := by
  induction bytes with
  | nil => exact Nat.one_pos
  | cons b rest ih =>
    have hb : b.toNat < 256 := b.toNat_lt
    rw [Reader.littleEndian, List.length_cons, Nat.pow_succ]
    omega

/-- Writing back what was read. -/
theorem littleEndianBytes_littleEndian (bytes : Bytes) :
    littleEndianBytes bytes.length (Reader.littleEndian bytes) = bytes := by
  induction bytes with
  | nil => rfl
  | cons b rest ih =>
    have hb : b.toNat < 256 := b.toNat_lt
    have hlow : (b.toNat + 256 * Reader.littleEndian rest) % 256 = b.toNat := by omega
    have hhigh : (b.toNat + 256 * Reader.littleEndian rest) / 256 = Reader.littleEndian rest := by
      omega
    rw [Reader.littleEndian, List.length_cons, littleEndianBytes, hlow, hhigh, ih,
      Nat.toUInt8_eq, UInt8.ofNat_toNat]

/-- Enough bytes are a number of that width, with more behind it. -/
theorem exists_littleEndianBytes {bytes : Bytes} {n : Nat} (h : n ≤ bytes.length) :
    ∃ value < 256 ^ n, ∃ rest, bytes = littleEndianBytes n value ++ rest := by
  have hlength : (bytes.take n).length = n := List.length_take_of_le h
  have hlt := littleEndian_lt (bytes.take n)
  have hwritten := littleEndianBytes_littleEndian (bytes.take n)
  rw [hlength] at hlt hwritten
  refine ⟨_, hlt, bytes.drop n, ?_⟩
  rw [hwritten, List.take_append_drop]

/-- The reader succeeds only where so many bytes are left. -/
def Needs {α : Type} (n : Nat) (r : Reader α) : Prop :=
  ∀ s v t, r s = .ok v t → n ≤ s.size

namespace Needs

variable {α β : Type} {n : Nat}

theorem take (n : Nat) : Needs n (Reader.take n) := by
  intro s v t h
  unfold Reader.take at h
  split at h
  · cases h
  · omega

theorem bind {r : Reader α} (h : Needs n r) (f : α → Reader β) : Needs n (r >>= f) := by
  intro s v t hread
  obtain ⟨a, u, hr, -⟩ := Reader.exists_of_bind hread
  exact h s a u hr

theorem uint16 : Needs 2 Reader.uint16 := (take 2).bind _

theorem uint32 : Needs 4 Reader.uint32 := (take 4).bind _

theorem uint64 : Needs 8 Reader.uint64 := (take 8).bind _

theorem int16 : Needs 2 Reader.int16 := uint16.bind _

theorem int32 : Needs 4 Reader.int32 := uint32.bind _

theorem int64 : Needs 8 Reader.int64 := uint64.bind _

theorem exists_field {r : Reader α} (hn : Needs n r) {s t : Section} {v : α}
    (h : r s = .ok v t) : ∃ value < 256 ^ n, ∃ rest, s.bytes = littleEndianBytes n value ++ rest :=
  exists_littleEndianBytes (hn s v t h)

end Needs

/-- Every number below `2 * half` is that of a signed one, modulo `2 * half`. -/
theorem exists_signed {half value : Nat} (h : value < 2 * half) :
    ∃ z : Int, -half ≤ z ∧ z < half ∧ (z % (2 * half)).toNat = value := by
  by_cases hlow : value < half
  · refine ⟨value, by omega, by omega, ?_⟩
    rw [Int.emod_eq_of_lt (by omega) (by omega), Int.toNat_natCast]
  · refine ⟨value - 2 * half, by omega, by omega, ?_⟩
    rw [Int.sub_emod_right, Int.emod_eq_of_lt (by omega) (by omega), Int.toNat_natCast]

/-! ## Numerals -/

namespace Leb128

/-- A numeral that was read has no digit behind the last bit of a word. -/
theorem count_le_of_unsignedFrom {bytes : Bytes} {bit count : Nat} {sum value : UInt64}
    (h : unsignedFrom bit sum bytes = (.ok value, count)) : bit + 7 * count ≤ 70 := by
  induction bytes generalizing bit sum count with
  | nil => cases h
  | cons b tail ih =>
    rw [unsignedFrom] at h
    split at h
    · rename_i hfits
      rw [fits_iff] at hfits
      dsimp only at h
      split at h
      · cases h
        omega
      · cases hrest : unsignedFrom (bit + 7) (sum ||| (digit b <<< bit.toUInt64)) tail with
        | mk value count =>
          rw [hrest] at h
          cases h
          have hle := ih hrest
          omega
    · cases h

end Leb128

/-! ## Pointers -/

namespace Pointer

open Leb128

/-- Where a number is read, it is stored. -/
theorem Format.exists_stores_of_read {f : Format} {s t : Section} {v : UInt64}
    (h : f.read s = .ok v t) : ∃ z front rest, s.bytes = front ++ rest ∧ f.Stores z front := by
  cases f with
  | word =>
    obtain ⟨value, hvalue, rest, hbytes⟩ := Needs.uint64.exists_field h
    exact ⟨_, _, rest, hbytes, .word hvalue⟩
  | uleb128 =>
    change Reader.uleb128 s = .ok v t at h
    unfold Reader.uleb128 unsigned at h
    split at h
    · rename_i value count hread
      obtain ⟨numeral, hfront, rfl, hvalue⟩ := front_of_unsignedFrom (by decide) hread
      obtain ⟨hnumeral, rest, hbytes⟩ := isNumeral_of_front hfront
      have hshort := count_le_of_unsignedFrom hread
      have hlt := value.toNat_lt
      rw [UInt64.toNat_zero, Nat.pow_zero, Nat.one_mul, Nat.zero_add] at hvalue
      exact ⟨_, numeral, rest, hbytes, .uleb128 hnumeral (by omega) (by omega)⟩
    · cases h
    · cases h
  | udata2 =>
    obtain ⟨value, hvalue, rest, hbytes⟩ := (Needs.uint16.bind _).exists_field h
    exact ⟨_, _, rest, hbytes, .udata2 hvalue⟩
  | udata4 =>
    obtain ⟨value, hvalue, rest, hbytes⟩ := (Needs.uint32.bind _).exists_field h
    exact ⟨_, _, rest, hbytes, .udata4 hvalue⟩
  | udata8 =>
    obtain ⟨value, hvalue, rest, hbytes⟩ := Needs.uint64.exists_field h
    exact ⟨_, _, rest, hbytes, .udata8 hvalue⟩
  | sleb128 =>
    obtain ⟨z, u, hread, -⟩ := Reader.exists_of_bind h
    unfold Reader.sleb128 signed at hread
    split at hread
    · rename_i hsigned
      obtain ⟨numeral, hfront⟩ := front_of_signedFrom hsigned
      obtain ⟨hnumeral, rest, hbytes⟩ := isNumeral_of_front hfront
      exact ⟨_, numeral, rest, hbytes, .sleb128 hnumeral⟩
    · cases hread
  | sdata2 =>
    obtain ⟨value, hvalue, rest, hbytes⟩ := (Needs.int16.bind _).exists_field h
    obtain ⟨z, hlo, hhi, hz⟩ := @exists_signed (2 ^ 15) value hvalue
    rw [← hz] at hbytes
    exact ⟨z, _, rest, hbytes, .sdata2 hlo hhi⟩
  | sdata4 =>
    obtain ⟨value, hvalue, rest, hbytes⟩ := (Needs.int32.bind _).exists_field h
    obtain ⟨z, hlo, hhi, hz⟩ := @exists_signed (2 ^ 31) value hvalue
    rw [← hz] at hbytes
    exact ⟨z, _, rest, hbytes, .sdata4 hlo hhi⟩
  | sdata8 =>
    obtain ⟨value, hvalue, rest, hbytes⟩ := (Needs.int64.bind _).exists_field h
    obtain ⟨z, hlo, hhi, hz⟩ := @exists_signed (2 ^ 63) value hvalue
    rw [← hz] at hbytes
    exact ⟨z, _, rest, hbytes, .sdata8 hlo hhi⟩

end Pointer

theorem Reader.exists_of_lift_bind {α β : Type} {x : Except CfiError α} {f : α → Reader β}
    {s t : Section} {v : β} (h : (Reader.lift x >>= f) s = .ok v t) :
    ∃ a, x = .ok a ∧ f a s = .ok v t := by
  cases x with
  | error e => cases h
  | ok a => exact ⟨a, rfl, h⟩

/-- Where a pointer is read, the bytes passed over store it. -/
theorem exists_stores_of_pointer {encoding : UInt8} {dataBase target : UInt64} {s t : Section}
    (h : Reader.pointer encoding dataBase s = .ok target t) :
    ∃ front, s.bytes = front ++ t.bytes ∧ t.address = s.address + front.length.toUInt64 ∧
      Pointer.Stores encoding dataBase s.address target front := by
  unfold Reader.pointer at h
  obtain ⟨application, happlication, hrest⟩ := Reader.exists_of_lift_bind h
  obtain ⟨base, hbase, hrest⟩ := Reader.exists_of_lift_bind (s := s) hrest
  obtain ⟨format, hformat, hrest⟩ := Reader.exists_of_lift_bind hrest
  obtain ⟨n, u, hn, hrest⟩ := Reader.exists_of_bind hrest
  cases hrest
  obtain ⟨z, front, rest, hbytes, hz⟩ := Pointer.Format.exists_stores_of_read hn
  -- What is stored is read, so it is what has been read.
  have hread := Reads.format (a := s.address) hz rest
  rw [← hbytes, hn] at hread
  cases hread
  exact ⟨front, hbytes, rfl,
    .of ⟨application, base, format, z, happlication, hbase, hformat, hz, rfl⟩⟩

end Unwind
