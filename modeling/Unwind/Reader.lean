import Unwind.Section

/-!
# Reader — sequential, bounds-checked reading

A reader takes bytes from the front of a section and leaves the section of the bytes that are still
unread, also when it fails. A field of fixed width is taken whole or not at all. All numbers are
little endian.
-/

namespace Unwind

/-- A computation that reads from the front of a section. -/
abbrev Reader (α : Type) := EStateM CfiError Section α

namespace Reader

/-- What a reader makes of a section, without the bytes it leaves. -/
def on {α : Type} (r : Reader α) (s : Section) : Except CfiError α :=
  match r s with
  | .ok a _ => .ok a
  | .error e _ => .error e

def unread : Reader Section := fun s => .ok s s

def address : Reader UInt64 := fun s => .ok s.address s

def take (n : Nat) : Reader Bytes := fun s =>
  if s.size < n then .error (.unexpectedEnd s.address) s
  else .ok (s.bytes.take n) (s.drop n)

def skip (n : Nat) : Reader Unit := do
  let _ ← take n

/-- The next `n` bytes as a section of their own. -/
def split (n : Nat) : Reader Section := do
  let a ← address
  let bytes ← take n
  return ⟨a, bytes⟩

/-- The bytes up to the next zero byte, which is consumed but not part of the result. -/
def zeroTerminated : Reader Bytes := fun s =>
  match s.bytes.idxOf? 0 with
  | some k => .ok (s.bytes.take k) (s.drop (k + 1))
  | none => .error (.unexpectedEnd s.stop) (s.drop s.size)

/-- The number whose digits to the base 256 are the bytes, least significant first. -/
def littleEndian : Bytes → Nat
  | [] => 0
  | b :: bs => b.toNat + 256 * littleEndian bs

def uint8 : Reader UInt8 := do
  return (littleEndian (← take 1)).toUInt8

def uint16 : Reader UInt16 := do
  return (littleEndian (← take 2)).toUInt16

def uint32 : Reader UInt32 := do
  return (littleEndian (← take 4)).toUInt32

def uint64 : Reader UInt64 := do
  return (littleEndian (← take 8)).toUInt64

def int8 : Reader Int8 := do
  return (← uint8).toInt8

def int16 : Reader Int16 := do
  return (← uint16).toInt16

def int32 : Reader Int32 := do
  return (← uint32).toInt32

def int64 : Reader Int64 := do
  return (← uint64).toInt64

end Reader

end Unwind
