import Unwind.Proofs.Leb128
import Unwind.Proofs.Word

/-!
# Encoded pointers

`Format.Stores` says which bytes store a number in a format, `Pointer.Stores` which bytes store an
address in an encoding. What the reader gives is the address, in every encoding that names a format
and an application (`Reads.pointer`); numbers of signed formats count modulo `2 ^ 64`.
-/

namespace Unwind

/-! ## Stored numbers and addresses -/

namespace Pointer

open Leb128

/-- The bytes store a number in a format. -/
inductive Format.Stores : Format → Int → Bytes → Prop
  | word {n : Nat} (h : n < 2 ^ 64) : Stores .word n (littleEndianBytes 8 n)
  | uleb128 {bytes : Bytes} (numeral : IsNumeral bytes) (short : bytes.length ≤ 10)
      (h : magnitude bytes < 2 ^ 64) : Stores .uleb128 (magnitude bytes) bytes
  | udata2 {n : Nat} (h : n < 2 ^ 16) : Stores .udata2 n (littleEndianBytes 2 n)
  | udata4 {n : Nat} (h : n < 2 ^ 32) : Stores .udata4 n (littleEndianBytes 4 n)
  | udata8 {n : Nat} (h : n < 2 ^ 64) : Stores .udata8 n (littleEndianBytes 8 n)
  | sleb128 {bytes : Bytes} (numeral : IsNumeral bytes) : Stores .sleb128 (integer bytes) bytes
  | sdata2 {z : Int} (hlo : -2 ^ 15 ≤ z) (hhi : z < 2 ^ 15) :
      Stores .sdata2 z (littleEndianBytes 2 (z % 2 ^ 16).toNat)
  | sdata4 {z : Int} (hlo : -2 ^ 31 ≤ z) (hhi : z < 2 ^ 31) :
      Stores .sdata4 z (littleEndianBytes 4 (z % 2 ^ 32).toNat)
  | sdata8 {z : Int} (hlo : -2 ^ 63 ≤ z) (hhi : z < 2 ^ 63) :
      Stores .sdata8 z (littleEndianBytes 8 (z % 2 ^ 64).toNat)

/-- The bytes at the address `field` store an address in an encoding. -/
structure Stores (encoding : UInt8) (dataBase field target : UInt64) (bytes : Bytes) : Prop where
  of ::
  stored : ∃ application base format z, Application.of encoding = .ok application ∧
    application.base field dataBase = .ok base ∧ Format.of encoding = .ok format ∧
    format.Stores z bytes ∧ target = base + UInt64.ofInt z

end Pointer

namespace Reads

open Leb128 Pointer

theorem format {a : UInt64} {f : Format} {z : Int} {bytes : Bytes} (h : f.Stores z bytes) :
    Reads f.read a bytes (UInt64.ofInt z) := by
  cases h with
  | word h =>
    rw [ofInt_natCast]
    exact uint64 _
  | uleb128 numeral short h =>
    rw [ofInt_natCast]
    exact Reads.uleb128 a numeral short h
  | @udata2 n h =>
    have hvalue : n.toUInt16.toUInt64 = n.toUInt64 := by
      rw [← UInt64.toNat_inj]
      simp only [Nat.toUInt16_eq, Nat.toUInt64_eq, UInt16.toNat_toUInt64, UInt16.toNat_ofNat',
        UInt64.toNat_ofNat']
      omega
    rw [ofInt_natCast, ← hvalue]
    exact (uint16 n).map fun x => x.toUInt64
  | @udata4 n h =>
    have hvalue : n.toUInt32.toUInt64 = n.toUInt64 := by
      rw [← UInt64.toNat_inj]
      simp only [Nat.toUInt32_eq, Nat.toUInt64_eq, UInt32.toNat_toUInt64, UInt32.toNat_ofNat',
        UInt64.toNat_ofNat']
      omega
    rw [ofInt_natCast, ← hvalue]
    exact (uint32 n).map fun x => x.toUInt64
  | udata8 h =>
    rw [ofInt_natCast]
    exact uint64 _
  | sleb128 numeral =>
    rw [← toUInt64_ofInt]
    exact (Reads.sleb128 a numeral).map fun x => x.toUInt64
  | sdata2 hlo hhi =>
    rw [← extend16 hlo hhi]
    exact ((uint16 _).map fun x => x.toInt16).map fun x => x.toInt64.toUInt64
  | sdata4 hlo hhi =>
    rw [← extend32 hlo hhi]
    exact ((uint32 _).map fun x => x.toInt32).map fun x => x.toInt64.toUInt64
  | @sdata8 z hlo hhi =>
    have h := ((uint64 (a := a) (z % 2 ^ 64).toNat).map fun x => x.toInt64).map fun x => x.toUInt64
    exact h

/-- What was stored is what is read, in whatever encoding. -/
theorem pointer {encoding : UInt8} {dataBase a target : UInt64} {bytes : Bytes}
    (h : Pointer.Stores encoding dataBase a target bytes) :
    Reads (Reader.pointer encoding dataBase) a bytes target := by
  obtain ⟨application, base, f, z, happlication, hbase, hformat, hz, rfl⟩ := h.stored
  unfold Reader.pointer
  rw [happlication, hformat]
  refine lift.bind_nil (address.bind_nil ?_)
  rw [hbase]
  exact lift.bind_nil (lift.bind_nil ((format hz).map fun n => base + n))

end Reads

end Unwind
