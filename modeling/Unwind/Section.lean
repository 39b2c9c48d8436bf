import Unwind.Error

/-!
# Section — bytes that know their address

Pointers in unwind tables are relative to the place where they are stored, so a run of bytes always
travels together with the address of its first byte. Dropping bytes from the front moves the address
along (`drop_drop`), so the bytes that are still to be read are a section again.
-/

namespace Unwind

structure Section where
  address : UInt64
  bytes : Bytes
deriving DecidableEq, Repr, Inhabited

namespace Section

def size (s : Section) : Nat := s.bytes.length

/-- The address right behind the last byte. -/
def stop (s : Section) : UInt64 :=
  s.address + s.size.toUInt64

def contains (s : Section) (a : UInt64) : Bool :=
  s.address ≤ a && a < s.stop

def drop (s : Section) (k : Nat) : Section :=
  ⟨s.address + k.toUInt64, s.bytes.drop k⟩

/-- The part of the section from an address on, which has to lie inside. -/
def startingAt (s : Section) (a : UInt64) : Except CfiError Section :=
  if s.contains a then .ok (s.drop (a - s.address).toNat)
  else .error (.outOfSection a)

@[simp] theorem drop_zero (s : Section) : s.drop 0 = s := by
  simp [drop]

@[simp] theorem size_drop (s : Section) (k : Nat) : (s.drop k).size = s.size - k := by
  simp [drop, size]

@[simp] theorem bytes_drop (s : Section) (k : Nat) : (s.drop k).bytes = s.bytes.drop k := rfl

theorem drop_drop (s : Section) (j k : Nat) : (s.drop j).drop k = s.drop (j + k) := by
  simp only [drop, List.drop_drop, Section.mk.injEq, and_true]
  rw [← UInt64.toNat_inj]
  simp only [UInt64.toNat_add, Nat.toUInt64_eq, UInt64.toNat_ofNat']
  omega

end Section

end Unwind
