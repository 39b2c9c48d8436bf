import Unwind.Mangling.Hashed
import Unwind.Mangling.Itanium.Vocabulary

/-!
# Itanium.Scan — reading from the front of a symbol

A C++ symbol is read by trying the kinds of part that can stand at a place one after the other. A
part of the wrong kind is taken back; what occurred in it can be referred to all the same. Parts can
contain each other only down to a limited level: a part below it refuses the whole symbol, even if
it was only tried.
-/

namespace Unwind

namespace Mangling

namespace Itanium

inductive Refusal where
  | mismatch
  | tooDeep
  deriving DecidableEq, Repr

structure Scan where
  rest : List Char
  /-- The parts that can be referred to, in the order in which they occurred. -/
  parts : Array Entity := #[]
  /-- Whether the type that a conversion operator converts to is being read. -/
  inConversion : Bool := false

/-- Reads from the front of a text, or refuses it. -/
abbrev Scanning := EStateM Refusal Scan

def require (condition : Bool) : Scanning Unit :=
  unless condition do throw .mismatch

def expect {α : Type} : Option α → Scanning α
  | some value => return value
  | none => throw .mismatch

/-- Tries to read a part. If something else stands here, nothing is read. -/
def attempt {α : Type} (part : Scanning α) : Scanning (Option α) := fun scan =>
  let rest := scan.rest
  match part scan with
  | .ok value after => .ok (some value) after
  | .error .mismatch after => .ok none { after with rest }
  | .error .tooDeep after => .error .tooDeep after

/-- Whether a part stands here. Nothing is read. -/
def lookAhead (part : Scanning Unit) : Scanning Bool := do
  let rest := (← get).rest
  let found ← attempt part
  modify fun scan => { scan with rest }
  return found.isSome

/-- The first kind of part in a list that stands here. -/
def firstOf {α : Type} : List (Scanning α) → Scanning α
  | [] => throw .mismatch
  | kind :: kinds => do
    match ← attempt kind with
    | some part => return part
    | none => firstOf kinds

/-- As many parts as stand here, at most as many as `fuel` says. -/
def manyWithin {α : Type} (part : Scanning α) : Nat → Scanning (List α)
  | 0 => return []
  | fuel + 1 => do
    match ← attempt part with
    | some first => return first :: (← manyWithin part fuel)
    | none => return []

/-- As many parts as stand here. Each takes at least one character. -/
def many {α : Type} (part : Scanning α) : Scanning (List α) := do
  manyWithin part ((← get).rest.length + 1)

/-- Goes one level down, if there is one left. -/
def down {α : Type} (levels : Nat) (part : Nat → Scanning α) : Scanning α :=
  match levels with
  | 0 => throw .tooDeep
  | below + 1 => part below

def asConversion {α : Type} (part : Scanning α) : Scanning α := fun scan =>
  let inConversion := scan.inConversion
  match part { scan with inConversion := true } with
  | .ok value after => .ok value { after with inConversion }
  | .error refusal after => .error refusal { after with inConversion }

def peek : Scanning (Option Char) :=
  return (← get).rest.head?

def skip (count : Nat) : Scanning Unit :=
  modify fun scan => { scan with rest := scan.rest.drop count }

/-- Takes a text if it is the next one, and tells whether it was. -/
def accept (expected : String) : Scanning Bool := do
  if expected.toList.isPrefixOf (← get).rest then
    skip expected.length
    return true
  else return false

/-- Takes a text that has to be the next one. -/
def token (expected : String) : Scanning Unit := do
  require (← accept expected)

/-- Takes the longest run of characters of a class. -/
def run (inClass : Char → Bool) : Scanning (List Char) := do
  let rest := (← get).rest
  skip (rest.takeWhile inClass).length
  return rest.takeWhile inClass

/-- Takes two characters that are the code of something. -/
def code {α : Type} (meaning? : Char → Char → Option α) : Scanning α := do
  match (← get).rest with
  | c :: d :: _ =>
    let meaning ← expect (meaning? c d)
    skip 2
    return meaning
  | _ => throw .mismatch

/-- Makes a part one that can be referred to. -/
def remember (part : Entity) : Scanning Entity := do
  modify fun scan => { scan with parts := scan.parts.push part }
  return part

/-- The value of a decimal digit or of a capital letter, which count on from ten. -/
def digitValue (c : Char) : Nat :=
  if c.isDigit then c.toNat - '0'.toNat else c.toNat - 'A'.toNat + 10

/-- A number without leading zeros. It has to fit a word with a sign. The letters are digits in base
36 only. -/
def number (base : Nat) : Scanning Nat := do
  let digits ← run fun c => c.isDigit || (base = 36 && c.isUpper)
  require (!digits.isEmpty && (digits.length = 1 || digits.head? ≠ some '0'))
  let value := digits.foldl (fun n c => base * n + digitValue c) 0
  require (2 * value < wordCount)
  return value

/-- The place of something in a list: an underscore alone is the first place, and a number in front
of it is one less than the place. -/
def place (number : Scanning Nat) : Scanning Nat := do
  let found ← attempt number
  token "_"
  return match found with
    | some n => n + 1
    | none => 0

def isNameChar (c : Char) : Bool :=
  c.isAlphanum || c = '_' || c = '$' || c = '.'

/-- Whether a name is the one that compilers give to a namespace without one. -/
def isAnonymous (name : List Char) : Bool :=
  "_GLOBAL_".toList.isPrefixOf name &&
    match name.drop 8 with
    | separator :: 'N' :: _ => separator = '.' || separator = '_' || separator = '$'
    | _ => false

/-- A name from the source text, behind its length. -/
def identifier (levels : Nat) : Scanning String :=
  down levels fun levels => do
    let length ← number 10
    let text := (← get).rest.take length
    require (0 < length && text.length = length)
    down levels fun _ => do
      require (text.all isNameChar)
      skip length
      return if isAnonymous text then "(anonymous namespace)" else String.ofList text

/-- A type of the language whose code is one letter, or `D` and a letter. -/
def plainBuiltin : Scanning Builtin := do
  let isExtension ← accept "D"
  let letter ← expect (← peek)
  skip 1
  expect (if isExtension then Builtin.ofExtension? letter else Builtin.ofLetter? letter)

/-- A type of the language whose code holds its number of bits. -/
def sizedBuiltin : Scanning Builtin := do
  if ← accept "DF" then
    let bits ← number 10
    require (bits < 0x10000)
    if ← accept "x" then return ⟨s!"_Float{bits}x"⟩
    token "_"
    return ⟨s!"_Float{bits}"⟩
  else
    let isSigned ← accept "DB"
    unless isSigned do token "DU"
    let bits ← number 10
    token "_"
    return ⟨(if isSigned then "signed" else "unsigned") ++ s!" _BitInt({bits})"⟩

def builtin (levels : Nat) : Scanning Entity :=
  down levels fun levels =>
    firstOf [
      down levels fun _ => do return .builtin (← plainBuiltin),
      down levels fun _ => do return .builtin (← sizedBuiltin),
      (do token "u"
          return .vendor (← identifier levels))]

def qualifiers (levels : Nat) : Scanning Qualifiers :=
  down levels fun _ => do
    let isRestrict ← accept "r"
    let isVolatile ← accept "V"
    let isConst ← accept "K"
    return { isRestrict, isVolatile, isConst }

def qualifiedBuiltin (levels : Nat) : Scanning Entity :=
  down levels fun levels => do
    let qualifiers ← qualifiers levels
    return .marked (.qualified qualifiers) (← builtin levels)

/-- The kind of reference that the object of a member function has to be. -/
def objectKind (levels : Nat) : Scanning RefKind :=
  down levels fun _ => do
    if ← accept "R" then return .lvalue
    token "O"
    return .rvalue

def standard (levels : Nat) : Scanning Standard :=
  down levels fun _ => code fun c d => if c = 'S' then Standard.ofLetter? d else none

/-- An abbreviation, or a reference to a part that occurred. -/
def reference (levels : Nat) : Scanning Entity :=
  down levels fun levels => do
    match ← attempt (standard levels) with
    | some name => return .standard name
    | none =>
      token "S"
      expect ((← get).parts[← place (down levels fun _ => number 36)]?)

def parameter (levels : Nat) : Scanning Entity :=
  down levels fun _ => do
    token "T"
    return .parameter (← place (number 10))

def operatorCode (levels : Nat) : Scanning Leaf :=
  down levels fun _ => do
    return .operator (← code fun c d => operators.lookup (String.ofList [c, d]))

/-- A constructor or destructor. The digits tell variants of it apart, which are spelled alike. -/
def specialMember (levels : Nat) : Scanning Leaf :=
  down levels fun _ => code fun c d =>
    if c = 'C' && "1234".toList.contains d then some .constructor
    else if c = 'D' && "0124".toList.contains d then some .destructor
    else none

end Itanium

end Mangling

end Unwind
