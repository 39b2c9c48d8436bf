import Unwind.Word

/-!
# Error — what can go wrong, and how it is reported

`CfiError` lists the ways in which call-frame information can be broken; each cause carries the
address, byte or version that its message shows. `Error` adds the failures that do not come from
unwind tables. The wording of every message is in `CfiError.message` and `Error.message`.
-/

namespace Unwind

/-- Why call-frame information was refused. -/
inductive CfiError where
  | headerVersion (version : UInt8)
  /-- the bytes ended before the field that starts at `address` was complete -/
  | unexpectedEnd (address : UInt64)
  | outOfSection (address : UInt64)
  | unsignedTruncated (address : UInt64)
  /-- the unsigned numeral that starts at `address` does not fit a word -/
  | unsignedMalformed (address : UInt64)
  | signedTruncated (address : UInt64)
  | pointerApplication (bits : UInt8)
  | pointerFormat (bits : UInt8)
  | noDataBase
  | emptyCie
  | notCie
  | cieVersion (version : UInt8)
  | emptyFde
  | cieForFde
  | belowImage (address : UInt64)
  | unknownOpcode (opcode : UInt8)
  | nothingRemembered
  | offsetRange
deriving DecidableEq, Repr, Inhabited

/-- The text that reports the cause. Addresses, encodings and opcodes are in hexadecimal, versions
in decimal. -/
def CfiError.message : CfiError → String
  | headerVersion v => "invalid .eh_frame_hdr version: " ++ toString v.toNat
  | unexpectedEnd a => "unexpected end of data at " ++ hex a.toNat
  | outOfSection a => "address " ++ hex a.toNat ++ " is outside the section"
  | unsignedTruncated a => "truncated uleb128 expression at " ++ hex a.toNat
  | unsignedMalformed a => "malformed uleb128 expression at " ++ hex a.toNat
  | signedTruncated a => "truncated sleb128 expression at " ++ hex a.toNat
  | pointerApplication b => "invalid pointer encoding offset: " ++ hex b.toNat
  | pointerFormat b => "invalid pointer encoding value: " ++ hex b.toNat
  | noDataBase => "datarel encoding without a base"
  | emptyCie => "cie zero length"
  | notCie => "cie id is not zero"
  | cieVersion v => "invalid cie version: " ++ toString v.toNat
  | emptyFde => "zero fde length"
  | cieForFde => "fde is really cie"
  | belowImage a => "fde range " ++ hex a.toNat ++ " lies before the image base"
  | unknownOpcode b => "invalid opcode: " ++ hex b.toNat
  | nothingRemembered => "no remember state"
  | offsetRange => "factored offset out of range"

inductive Error where
  | cfi (cause : CfiError)
  | noContext
  | handlerRefused (errno : Int32)
  | noSymbols (reason : String)
deriving DecidableEq, Repr, Inhabited

def Error.message : Error → String
  | cfi cause => cause.message
  | noContext => "invalid ucontext"
  | handlerRefused errno => "failed to install the fault handler: errno " ++ toString errno.toInt
  | noSymbols reason => "symbolizer unavailable: " ++ reason

end Unwind
