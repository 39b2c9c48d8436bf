import Unwind.Reader.Lemmas

/-!
# Leb128 — numerals of variable length

A numeral is a run of bytes of which all but the last have the high bit set. The other seven bits
are its digits to the base 128, least significant first. Unsigned numerals must fit a word; signed
numerals are taken modulo `2 ^ 64` and their sign is bit 6 of the last byte. `unsigned` and `signed`
work on a byte string and count the bytes that they have looked at; the readers consume that many.
-/

namespace Unwind

namespace Leb128

inductive Flaw where
  | truncated
  /-- the number does not fit a word -/
  | malformed
deriving DecidableEq, Repr

def digit (b : UInt8) : UInt64 :=
  (b &&& 0x7f).toUInt64

def isLast (b : UInt8) : Bool :=
  b < 0x80

/-- Whether a digit of weight `2 ^ bit` fits a word. -/
def fits (bit : Nat) (d : UInt64) : Bool :=
  bit < 64 && (d <<< bit.toUInt64) >>> bit.toUInt64 == d

/-- The rest of an unsigned numeral: the next digit has weight `2 ^ bit`, the digits before it sum
up to `sum`. Also the number of bytes looked at. -/
def unsignedFrom (bit : Nat) (sum : UInt64) : Bytes → Except Flaw UInt64 × Nat
  | [] => (.error .truncated, 0)
  | b :: rest =>
    if fits bit (digit b) then
      let sum := sum ||| (digit b <<< bit.toUInt64)
      if isLast b then (.ok sum, 1)
      else
        let (value, count) := unsignedFrom (bit + 7) sum rest
        (value, count + 1)
    else (.error .malformed, 1)

/-- An unsigned numeral at the front of a byte string, and the number of bytes looked at. -/
def unsigned (bytes : Bytes) : Except Flaw UInt64 × Nat :=
  unsignedFrom 0 0 bytes

/-- The sum with the bits from `bit` on set, if there are such bits and the last byte `b` has its
sign bit set. -/
def signExtend (bit : Nat) (b : UInt8) (sum : UInt64) : UInt64 :=
  if b &&& 0x40 != 0 && bit < 64 then sum ||| (maxWord <<< bit.toUInt64) else sum

/-- The rest of a signed numeral: the next digit has weight `2 ^ bit`, the digits before it sum up
to `sum`. Digits whose weight does not fit a word add nothing. -/
def signedFrom (bit : Nat) (sum : UInt64) : Bytes → Except Flaw Int64 × Nat
  | [] => (.error .truncated, 0)
  | b :: rest =>
    let sum := if bit < 64 then sum ||| (digit b <<< bit.toUInt64) else sum
    if isLast b then (.ok (signExtend (bit + 7) b sum).toInt64, 1)
    else
      let (value, count) := signedFrom (bit + 7) sum rest
      (value, count + 1)

def signed (bytes : Bytes) : Except Flaw Int64 × Nat :=
  signedFrom 0 0 bytes

theorem unsignedFrom_count_le (bit : Nat) (sum : UInt64) (bytes : Bytes) :
    (unsignedFrom bit sum bytes).2 ≤ bytes.length := by
  fun_induction unsignedFrom bit sum bytes <;> simp_all

theorem signedFrom_count_le (bit : Nat) (sum : UInt64) (bytes : Bytes) :
    (signedFrom bit sum bytes).2 ≤ bytes.length := by
  fun_induction signedFrom bit sum bytes <;> simp_all

end Leb128

namespace Reader

/-- An unsigned numeral. Errors carry the address of its first byte. -/
def uleb128 : Reader UInt64 := fun s =>
  match Leb128.unsigned s.bytes with
  | (.ok value, count) => .ok value (s.drop count)
  | (.error .truncated, count) => .error (.unsignedTruncated s.address) (s.drop count)
  | (.error .malformed, count) => .error (.unsignedMalformed s.address) (s.drop count)

def sleb128 : Reader Int64 := fun s =>
  match Leb128.signed s.bytes with
  | (.ok value, count) => .ok value (s.drop count)
  | (.error _, count) => .error (.signedTruncated s.address) (s.drop count)

end Reader

theorem Consumes.ofUleb128 : Consumes Reader.uleb128 := by
  intro s
  refine ⟨_, Leb128.unsignedFrom_count_le 0 0 s.bytes, ?_⟩
  simp only [Reader.leaves, Reader.uleb128, Leb128.unsigned]
  split <;> rename_i h <;> revert h <;> split <;> simp_all

theorem Consumes.ofSleb128 : Consumes Reader.sleb128 := by
  intro s
  refine ⟨_, Leb128.signedFrom_count_le 0 0 s.bytes, ?_⟩
  simp only [Reader.leaves, Reader.sleb128, Leb128.signed]
  split <;> rename_i h <;> revert h <;> split <;> simp_all

end Unwind
