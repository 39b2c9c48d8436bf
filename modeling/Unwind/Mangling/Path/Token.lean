import Unwind.Mangling.Punycode

/-!
# Path.Token — what mangled paths are spelled with

A mangled path is a sequence of tags, each one letter, and of numbers and identifiers behind them.
This module reads those from the front of a text. Everything else about the grammar is in
`Unwind.Mangling.Path`.
-/

namespace Unwind

namespace Mangling

namespace Path

inductive Fault where
  | invalid
  | tooDeep
  deriving DecidableEq, Repr

/-- What is printed in place of the part with the fault. -/
def Fault.message : Fault → String
  | .invalid => "\x7binvalid syntax\x7d"
  | .tooDeep => "\x7brecursion limit reached\x7d"

abbrev Token (α : Type) := StateT (List Char) (Except Fault) α

/-- Numbers have to fit a word. -/
def word (n : Nat) : Token Nat :=
  if n < wordCount then return n else throw .invalid

def next : Token Char := do
  match ← get with
  | [] => throw .invalid
  | c :: rest => set rest; return c

/-- Takes a character if it is the next one, and tells whether it was. -/
def accept (expected : Char) : Token Bool := do
  match ← get with
  | c :: rest => if c = expected then do set rest; return true else return false
  | [] => return false

/-- The value of a digit in base 62: the decimal digits, then the small and the large letters. -/
def digit62? (c : Char) : Option Nat :=
  if c.isDigit then some (c.toNat - '0'.toNat)
  else if c.isLower then some (c.toNat - 'a'.toNat + 10)
  else if c.isUpper then some (c.toNat - 'A'.toNat + 36)
  else none

/-- The digits up to an underscore, put behind those already in `value`. -/
def digits62 (value : Nat) : List Char → Except Fault (Nat × List Char)
  | [] => .error .invalid
  | '_' :: rest => .ok (value, rest)
  | c :: rest =>
    match digit62? c with
    | none => .error .invalid
    | some d => digits62 (62 * value + d) rest

/-- A number in base 62, closed by an underscore. The underscore alone is zero, so all others are
written one less. -/
def number62 : Token Nat := do
  if ← accept '_' then return 0
  let value ← fun text => digits62 0 text
  word (value + 1)

/-- A number that is zero if its tag is missing and at least one otherwise. -/
def tagged (tag : Char) : Token Nat := do
  if ← accept tag then word ((← number62) + 1) else return 0

/-- What tells apart parts of one name in one place. -/
def disambiguator : Token Nat :=
  tagged 's'

/-- The namespace of a name: the letter of a special one, or nothing for one of the ordinary
namespaces, which are not shown. -/
def namespaceTag : Token (Option Char) := do
  let c ← next
  if c.isUpper then return some c
  else if c.isLower then return none
  else throw .invalid

def hexDigits : Token (List Char) := do
  let text ← get
  match text.dropWhile isLowerHexDigit with
  | '_' :: rest => set rest; return text.takeWhile isLowerHexDigit
  | _ => throw .invalid

/-- A length in decimal digits. A leading zero is a whole length of zero. -/
def length : Token Nat := do
  match ← get with
  | '0' :: rest => set rest; return 0
  | text =>
    let digits := text.takeWhile Char.isDigit
    if digits.isEmpty then throw .invalid
    set (text.dropWhile Char.isDigit)
    word (decimal digits)

/-- A name, with the characters that are not in ASCII as a run of Punycode. -/
structure Identifier where
  ascii : List Char
  /-- The others, encoded; empty if there are none. -/
  run : List Char := []
  deriving DecidableEq, Repr

namespace Identifier

def isEmpty (name : Identifier) : Bool :=
  name.ascii.isEmpty && name.run.isEmpty

/-- The name as it is shown. A run that does not decode is shown in the usual spelling of Punycode,
with a hyphen. -/
def text (name : Identifier) : String :=
  match Punycode.decode? name.ascii name.run with
  | some word => String.ofList word
  | none =>
    if name.run.isEmpty then String.ofList name.ascii
    else
      let ascii := if name.ascii.isEmpty then [] else name.ascii ++ ['-']
      "punycode\x7b" ++ String.ofList (ascii ++ name.run) ++ "\x7d"

/-- The name in an encoded spelling: the run stands behind the last underscore. -/
def ofEncoded (spelling : List Char) : Identifier :=
  let run := (spelling.reverse.takeWhile (· != '_')).reverse
  ⟨spelling.take (spelling.length - run.length - 1), run⟩

end Identifier

/-- A name behind its length. A `u` in front says that it is encoded, and an underscore keeps a name
apart from the length if it starts with a digit. -/
def identifier : Token Identifier := do
  let encoded ← accept 'u'
  let size ← length
  let _ ← accept '_'
  let text ← get
  if text.length < size then throw .invalid
  set (text.drop size)
  let spelling := text.take size
  if encoded then
    let name := Identifier.ofEncoded spelling
    if name.run.isEmpty then throw .invalid
    return name
  else return ⟨spelling, []⟩

end Path

end Mangling

end Unwind
