import Unwind.Cie

/-!
# Fde — where one function is and how its frame changes

A frame description entry names a range of code and holds the call-frame instructions that describe
it. It refers to its common information entry by the distance back from the referring field.
-/

namespace Unwind

structure Fde where
  start : UInt64
  instructions : Section
  pcStart : UInt64
  /-- the address right behind the code -/
  pcStop : UInt64
deriving DecidableEq, Repr

namespace Fde

def contains (f : Fde) (a : UInt64) : Bool :=
  f.pcStart ≤ a && a < f.pcStop

/-- Reads the content of the record at `start`, and the entry it refers to. The length of the code
is stored in the format of its start but is relative to nothing. -/
def readBody (frames : Section) (start : UInt64) : Reader (Fde × Cie) := do
  let field ← Reader.address
  let distance ← Reader.uint32
  if distance == 0 then throw .cieForFde
  let cie ← Reader.lift (Cie.decode frames (field - distance.toUInt64))
  let pcStart ← Reader.pointer cie.pointerEncoding 0
  let pcSize ← Reader.pointer (cie.pointerEncoding &&& 0x0f) 0
  if cie.augmented then
    let length ← Reader.uleb128
    Reader.skip length.toNat
  let instructions ← Reader.unread
  return ({ start, instructions, pcStart, pcStop := pcStart + pcSize }, cie)

def decode (frames : Section) (start : UInt64) : Except CfiError (Fde × Cie) := do
  let unread ← frames.startingAt start
  match ← Reader.record.on unread with
  | none => throw .emptyFde
  | some body => (readBody frames start).on body

end Fde

end Unwind
