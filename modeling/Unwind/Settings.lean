import Unwind.Limits
import Unwind.Word

/-!
# Settings — what the environment decides

Three variables of the environment override the default settings. Their names start with the name of
the program that is traced. A size is a decimal number, or a hexadecimal one behind `0x`; either may
carry one plus sign. A value that is no such number, or is not valid UTF-8, is ignored.
-/

namespace Unwind

structure Settings where
  limits : Limits
  /-- whether snapshots and tracebacks are taken from the start -/
  enabled : Bool
deriving DecidableEq, Repr

namespace Settings

def default : Settings := ⟨.default, true⟩

/-- Whether a character is white space in the sense of Unicode. -/
def isBlank (c : Char) : Bool :=
  let n := c.toNat
  (9 ≤ n && n ≤ 13) || n == 0x20 || n == 0x85 || n == 0xa0 || n == 0x1680 ||
    (0x2000 ≤ n && n ≤ 0x200a) || n == 0x2028 || n == 0x2029 || n == 0x202f || n == 0x205f ||
    n == 0x3000

def trim (text : List Char) : List Char :=
  ((text.dropWhile isBlank).reverse.dropWhile isBlank).reverse

/-- The value of a digit, decimal or hexadecimal, in either case. -/
def digitValue? (c : Char) : Option Nat :=
  if '0' ≤ c ∧ c ≤ '9' then some (c.toNat - '0'.toNat)
  else if 'a' ≤ c ∧ c ≤ 'f' then some (c.toNat - 'a'.toNat + 10)
  else if 'A' ≤ c ∧ c ≤ 'F' then some (c.toNat - 'A'.toNat + 10)
  else none

/-- The number that a run of digits to the base `radix` denotes, continuing from `value`. -/
def digitsFrom? (radix value : Nat) : List Char → Option Nat
  | [] => some value
  | c :: rest =>
    match digitValue? c with
    | some d => if d < radix then digitsFrom? radix (radix * value + d) rest else none
    | none => none

/-- The word denoted by digits to the base `radix`, of which there is at least one. -/
def digits? (radix : Nat) (text : List Char) : Option UInt64 :=
  if text.isEmpty then none
  else (digitsFrom? radix 0 text).bind fun n => if n < wordCount then some n.toUInt64 else none

/-- The word denoted by digits that may follow a plus sign. -/
def numeral? (radix : Nat) : List Char → Option UInt64
  | '+' :: rest => digits? radix rest
  | text => digits? radix text

def size? (text : List Char) : Option UInt64 :=
  match trim text with
  | '0' :: 'x' :: rest => numeral? 16 rest
  | '0' :: 'X' :: rest => numeral? 16 rest
  | text => numeral? 10 text

/-- Whether a text leaves the tracer enabled: anything but a word for no, in any case. -/
def isEnabling (text : List Char) : Bool :=
  let word := String.ofList ((trim text).map Char.toLower)
  !(["0", "false", "off"].contains word)

/-- The characters of a value of the environment, if it is valid UTF-8. -/
def characters? (value : Bytes) : Option (List Char) :=
  (String.fromUTF8? ⟨value.toArray⟩).map String.toList

/-- The settings that an environment asks for. `program` is the first part of the names of its
variables. -/
def ofEnvironment (program : String) (lookup : String → Option Bytes) : Settings :=
  let text (key : String) := (lookup (program ++ "_" ++ key)).bind characters?
  let size (key : String) := (text key).bind size?
  { limits := {
      Limits.default with
      maxFrameSize := (size "MAX_FRAME_SIZE").getD Limits.default.maxFrameSize
      maxWalkSize := (size "MAX_WALK_SIZE").getD Limits.default.maxWalkSize }
    enabled := ((text "ENABLED").map isEnabling).getD true }

end Settings

end Unwind
