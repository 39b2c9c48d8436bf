import Unwind.Pointer

/-!
# Cie — what a family of functions has in common

A common information entry holds the alignment factors, the pointer encoding and the first
call-frame instructions of all the functions that refer to it. It is a length-prefixed record of the
frame section. Its augmentation, if it starts with `z`, lists the optional fields in order.
-/

namespace Unwind

/-- The content of a length-prefixed record of the frame section, or nothing for the empty record.
A length of all ones stands for the 64-bit length that follows. -/
def Reader.record : Reader (Option Section) := do
  let short ← Reader.uint32
  let length ← if short == 0xffffffff then Reader.uint64 else pure short.toUInt64
  if length == 0 then return none
  return some (← Reader.split length.toNat)

structure Cie where
  start : UInt64
  instructions : Section
  /-- how the addresses of code are stored -/
  pointerEncoding : UInt8
  lsdaEncoding : UInt8
  /-- the unit of distances in code -/
  codeAlign : UInt32
  /-- the unit of offsets on the stack -/
  dataAlign : Int32
  returnColumn : UInt8
  signalFrame : Bool
  /-- whether the entries that refer to it carry augmentation data -/
  augmented : Bool
  /-- whether return addresses are signed with the second key -/
  secondKey : Bool
deriving DecidableEq, Repr

namespace Cie

/-- Takes in the field of one letter of the augmentation. Others are passed over. -/
def readField (cie : Cie) (letter : UInt8) : Reader Cie :=
  match Char.ofNat letter.toNat with
  | 'P' => do
    let encoding ← Reader.uint8
    let _ ← Reader.pointer encoding 0
    return cie
  | 'L' => return { cie with lsdaEncoding := ← Reader.uint8 }
  | 'R' => return { cie with pointerEncoding := ← Reader.uint8 }
  | 'S' => return { cie with signalFrame := true }
  | 'B' => return { cie with secondKey := true }
  | _ => return cie

def readAugmentation (letters : Bytes) (cie : Cie) : Reader Cie := do
  let length ← Reader.uleb128
  let area ← Reader.split length.toNat
  Reader.lift ((letters.foldlM readField { cie with augmented := true }).on area)

/-- Reads the content of the record at `start`. The factors are cut to the width of their fields. -/
def readBody (start : UInt64) : Reader Cie := do
  if (← Reader.uint32) != 0 then throw .notCie
  let version ← Reader.uint8
  if version != 1 && version != 3 then throw (.cieVersion version)
  let augmentation ← Reader.zeroTerminated
  let codeAlign ← Reader.uleb128
  let dataAlign ← Reader.sleb128
  let returnColumn ←
    if version == 1 then Reader.uint8 else UInt64.toUInt8 <$> Reader.uleb128
  let plain : Cie := {
    start
    instructions := ⟨0, []⟩
    pointerEncoding := 0
    lsdaEncoding := Pointer.omitted
    codeAlign := codeAlign.toUInt32
    dataAlign := dataAlign.toInt32
    returnColumn
    signalFrame := false
    augmented := false
    secondKey := false }
  let cie ←
    match augmentation with
    | 0x7a :: letters => readAugmentation letters plain
    | _ => pure plain
  return { cie with instructions := ← Reader.unread }

def decode (frames : Section) (start : UInt64) : Except CfiError Cie := do
  let unread ← frames.startingAt start
  match ← Reader.record.on unread with
  | none => throw .emptyCie
  | some body => (readBody start).on body

end Cie

end Unwind
