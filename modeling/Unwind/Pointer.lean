import Unwind.Leb128

/-!
# Pointer — encoded pointers

A pointer in an unwind table is described by one byte. Its low four bits give the format of the
stored number, bits 4 to 6 what the number is relative to. The top bit says that the result is the
address of a slot that holds the pointer; the slot is not followed, so the bit is ignored. Signed
formats rely on wrapping addition.
-/

namespace Unwind

namespace Pointer

def omitted : UInt8 := 0xff

inductive Application where
  | absolute
  /-- the address of the stored number itself -/
  | pcRelative
  /-- a base address that the section's reader knows -/
  | dataRelative
deriving DecidableEq, Repr

inductive Format where
  | word
  | uleb128
  | udata2
  | udata4
  | udata8
  | sleb128
  | sdata2
  | sdata4
  | sdata8
deriving DecidableEq, Repr

def Application.of (encoding : UInt8) : Except CfiError Application :=
  match (encoding &&& 0x70).toNat with
  | 0x00 => .ok .absolute
  | 0x10 => .ok .pcRelative
  | 0x30 => .ok .dataRelative
  | _ => .error (.pointerApplication (encoding &&& 0x70))

def Format.of (encoding : UInt8) : Except CfiError Format :=
  match (encoding &&& 0x0f).toNat with
  | 0x0 => .ok .word
  | 0x1 => .ok .uleb128
  | 0x2 => .ok .udata2
  | 0x3 => .ok .udata4
  | 0x4 => .ok .udata8
  | 0x9 => .ok .sleb128
  | 0xa => .ok .sdata2
  | 0xb => .ok .sdata4
  | 0xc => .ok .sdata8
  | _ => .error (.pointerFormat (encoding &&& 0x0f))

/-- The address that the stored number is added to, given where it is stored. A data base of zero
stands for none. -/
def Application.base (application : Application) (field dataBase : UInt64) :
    Except CfiError UInt64 :=
  match application with
  | absolute => .ok 0
  | pcRelative => .ok field
  | dataRelative => if dataBase == 0 then .error .noDataBase else .ok dataBase

/-- The stored number, extended to a word. -/
def Format.read : Format → Reader UInt64
  | word => Reader.uint64
  | uleb128 => Reader.uleb128
  | udata2 => return (← Reader.uint16).toUInt64
  | udata4 => return (← Reader.uint32).toUInt64
  | udata8 => Reader.uint64
  | sleb128 => return (← Reader.sleb128).toUInt64
  | sdata2 => return (← Reader.int16).toInt64.toUInt64
  | sdata4 => return (← Reader.int32).toInt64.toUInt64
  | sdata8 => return (← Reader.int64).toUInt64

end Pointer

namespace Reader

/-- The value, or the failure, of a computation that reads nothing. -/
def lift {α : Type} : Except CfiError α → Reader α
  | .ok a => pure a
  | .error e => throw e

/-- A pointer in the encoding given. An encoding that cannot be applied is refused before any byte
is consumed. -/
def pointer (encoding : UInt8) (dataBase : UInt64) : Reader UInt64 := do
  let base ← lift ((← lift (Pointer.Application.of encoding)).base (← address) dataBase)
  let format ← lift (Pointer.Format.of encoding)
  return base + (← format.read)

end Reader

namespace Consumes

theorem ofLift {α : Type} (e : Except CfiError α) : Consumes (Reader.lift e) := by
  cases e with
  | ok a => exact ofPure a
  | error e => exact ofThrow e

theorem ofFormat (f : Pointer.Format) : Consumes f.read := by
  cases f
  · exact ofUint64
  · exact ofUleb128
  · exact ofBind ofUint16 fun _ => ofPure _
  · exact ofBind ofUint32 fun _ => ofPure _
  · exact ofUint64
  · exact ofBind ofSleb128 fun _ => ofPure _
  · exact ofBind ofInt16 fun _ => ofPure _
  · exact ofBind ofInt32 fun _ => ofPure _
  · exact ofBind ofInt64 fun _ => ofPure _

theorem ofPointer (encoding : UInt8) (dataBase : UInt64) :
    Consumes (Reader.pointer encoding dataBase) :=
  ofBind (ofLift _) fun _ => ofBind ofAddress fun _ => ofBind (ofLift _) fun _ =>
    ofBind (ofLift _) fun f => ofBind (ofFormat f) fun _ => ofPure _

end Consumes

end Unwind
