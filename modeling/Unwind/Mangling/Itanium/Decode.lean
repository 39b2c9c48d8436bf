import Unwind.Mangling.Itanium.Scan

/-!
# Itanium.Decode — reading C++ symbols

A C++ symbol is `_Z` and an encoding, with all types spelled out. Names, types and template
arguments that occurred before are written as the number of their place in the list of all such
parts, so reading keeps that list. Understood are names, operators, built-in and composed types,
templates and the data that the compiler makes for types; expressions, local names and lambdas are
not.

Each kind of part is read one level below the part that it stands in, so the number of levels that
are left bounds the recursion.
-/

namespace Unwind

namespace Mangling

namespace Itanium

/-- Makes a scope one that can be referred to. The last part of a nested name is none. -/
def rememberScope (scope : Entity) : Scanning Entity := do
  if (← peek) = some 'E' then return scope else remember scope

/-- A scope in another one, or an outermost one. -/
def Entity.within (scope : Option Entity) (leaf : Leaf) : Entity :=
  match scope with
  | some scope => .member scope leaf
  | none => .scope leaf

/-- The last scope of a nested name, where a step reads the next one unless it finds the end. There
are at most as many as `fuel` says. -/
def lastScope (step : Option Entity → Scanning (Option Entity)) :
    Nat → Option Entity → Scanning Entity
  | 0, _ => throw .mismatch
  | fuel + 1, scope => do
    match ← step scope with
    | some next => lastScope step fuel (some next)
    | none => expect scope

/-- A parameter that stands for a type. With arguments behind it, it stands for a template, unless
it is what a conversion operator converts to: the last list of arguments belongs to the operator. -/
def typeParameter (levels : Nat) (arguments : Scanning (List Argument)) : Scanning Entity := do
  let part ← parameter levels
  if (← peek) = some 'I' then
    require (← get).inConversion
    require (← lookAhead do
      let _ ← arguments
      require ((← peek) ≠ some 'I'))
  return part

/-- A template that a parameter stands for, or a reference to one. The template can be referred to
by itself. -/
def templateParameter (levels : Nat) : Scanning Entity :=
  down levels fun levels =>
    firstOf [
      reference levels,
      down levels fun levels => do remember (← parameter levels)]

def composedType (levels : Nat) (type : Scanning Entity) : Scanning Entity := do
  let qualifiers ← qualifiers levels
  if !qualifiers.isEmpty then return .marked (.qualified qualifiers) (← type)
  if ← accept "P" then return .marked .pointer (← type)
  if ← accept "R" then return .marked (.reference .lvalue) (← type)
  if ← accept "O" then return .marked (.reference .rvalue) (← type)
  if ← accept "C" then return .worded "complex" (← type)
  if ← accept "G" then return .worded "imaginary" (← type)
  token "Dp"
  return .expansion (← type)

mutual

/-- A type. All types but those of the language and the abbreviations can be referred to later. -/
def type : Nat → Scanning Entity
  | 0 => throw .tooDeep
  | levels + 1 =>
    firstOf [
      builtin levels,
      (do remember (← qualifiedBuiltin levels)),
      (do remember (← className levels)),
      -- With arguments behind it, the reference is one to a template.
      (do let part ← reference levels
          require ((← peek) ≠ some 'I')
          return part),
      (do remember (← functionType levels)),
      (do remember (← arrayType levels)),
      (do remember (← memberPointer levels)),
      (do remember (← typeParameter levels (arguments levels))),
      (do let generic ← templateParameter levels
          remember (.specialized generic (← arguments levels))),
      (do remember (← composedType levels (type levels)))]

def className : Nat → Scanning Entity
  | 0 => throw .tooDeep
  | levels + 1 => return .named (← name levels)

def functionType : Nat → Scanning Entity
  | 0 => throw .tooDeep
  | levels + 1 => do
    let qualifiers ← qualifiers levels
    token "F"
    -- Whether it is called as in C makes no difference.
    let _ ← accept "Y"
    let (result, parameters) ← signature levels
    let object ← attempt (objectKind levels)
    token "E"
    return .function qualifiers result parameters object

def signature : Nat → Scanning (Entity × List Entity)
  | 0 => throw .tooDeep
  | levels + 1 => do
    let first ← type levels
    return (first, ← many (type levels))

def arrayType : Nat → Scanning Entity
  | 0 => throw .tooDeep
  | levels + 1 => do
    token "A"
    let size ← attempt (number 10)
    token "_"
    return .array size (← type levels)

def memberPointer : Nat → Scanning Entity
  | 0 => throw .tooDeep
  | levels + 1 => do
    token "M"
    let owner ← type levels
    return .memberPointer owner (← type levels)

/-- A name. A template outside all scopes can be referred to without its arguments. -/
def name : Nat → Scanning Name
  | 0 => throw .tooDeep
  | levels + 1 => do
    if let some nested ← attempt (nestedName levels) then return nested
    match ← attempt (plainName levels) with
    | some (inStd, leaf) =>
      if (← peek) = some 'I' then
        let generic ← remember (.template inStd leaf)
        return .applied generic (← arguments levels)
      else return .plain inStd leaf
    | none =>
      let generic ← templateName levels
      return .applied generic (← arguments levels)

def nestedName : Nat → Scanning Name
  | 0 => throw .tooDeep
  | levels + 1 => do
    token "N"
    let qualifiers ← qualifiers levels
    let object ← attempt (objectKind levels)
    let path ← path levels
    token "E"
    require path.endsName
    return .nested qualifiers object path

/-- The scopes of a nested name; the last one is the name. -/
def path : Nat → Scanning Entity
  | 0 => throw .tooDeep
  | levels + 1 => do lastScope (scope levels) ((← get).rest.length + 2) none

/-- The next scope in a nested name. A reference or a parameter takes the place of all that is in
front of it. -/
def scope : Nat → Option Entity → Scanning (Option Entity)
  | 0, _ => throw .tooDeep
  | levels + 1, around => do
    match ← peek, around with
    | none, _ | some 'E', _ => return none
    | some 'S', _ => return some (← reference levels)
    | some 'T', _ => return some (← rememberScope (← parameter levels))
    | some 'I', some generic =>
      return some (← rememberScope (.applied generic (← arguments levels)))
    | some c, _ =>
      let leaf ← if c.isDigit && around.isSome then .identifier <$> identifier levels
        else leaf levels
      return some (← rememberScope (.within around leaf))

/-- A name outside all scopes or directly in `std`. -/
def plainName : Nat → Scanning (Bool × Leaf)
  | 0 => throw .tooDeep
  | levels + 1 => do
    let inStd ← accept "St"
    return (inStd, ← leaf levels)

def leaf : Nat → Scanning Leaf
  | 0 => throw .tooDeep
  | levels + 1 =>
    firstOf [
      operatorName levels,
      specialMember levels,
      -- Names that are not seen by other files have a mark in front.
      (do token "L"
          return .identifier (← identifier levels)),
      (do return .identifier (← identifier levels))]

def operatorName : Nat → Scanning Leaf
  | 0 => throw .tooDeep
  | levels + 1 =>
    firstOf [
      operatorCode levels,
      (do token "cv"
          return .conversion (← asConversion (type levels)))]

def templateName : Nat → Scanning Entity
  | 0 => throw .tooDeep
  | levels + 1 =>
    firstOf [
      (do let (inStd, leaf) ← plainName levels
          remember (.template inStd leaf)),
      reference levels]

def arguments : Nat → Scanning (List Argument)
  | 0 => throw .tooDeep
  | levels + 1 => do
    token "I"
    let first ← argument levels
    let others ← many (argument levels)
    token "E"
    return first :: others

def argument : Nat → Scanning Argument
  | 0 => throw .tooDeep
  | levels + 1 =>
    firstOf [
      literal levels,
      (do return .type (← type levels)),
      (do unless ← accept "J" do token "I"
          let pack ← many (argument levels)
          token "E"
          return .pack pack)]

def literal : Nat → Scanning Argument
  | 0 => throw .tooDeep
  | levels + 1 => do
    token "L"
    let type ← type levels
    let value ← run (· ≠ 'E')
    token "E"
    return .literal type value

end

/-- What the compiler makes for a type or a variable. -/
def special (levels : Nat) : Scanning Encoding :=
  down levels fun levels => do
    let code := String.ofList ((← get).rest.take 2)
    skip 2
    match typeData.lookup code with
    | some (before, after) => return .typeData before after (← type levels)
    | none =>
      require (code = "GV")
      return .guardVariable (← name levels)

/-- What a symbol stands for. A name with a signature behind it is that of a function. -/
def encoding (levels : Nat) : Scanning Encoding :=
  down levels fun levels => do
    match ← attempt (name levels) with
    | some name =>
      match ← attempt (signature levels) with
      | some (first, others) => return .function name first others
      | none => return .variable name
    | none => special levels

/-- The mark of a copy: what kind of copy it is, and numbers. -/
def clone : Scanning String := do
  token "."
  let kind ← run fun c => c.isAlphanum || c = '_' || c = '$'
  require (!kind.isEmpty)
  let numbers ← many do
    token "."
    number 10
  return "." ++ String.ofList kind ++ String.join (numbers.map fun n => s!".{n}")

/-- How many levels of parts a symbol can have, itself included. -/
def maxLevels : Nat := 95

/-- A symbol, which takes the whole text. -/
def symbol : Scanning Symbol :=
  down maxLevels fun levels => do
    token "_Z"
    let encoding ← encoding levels
    let clones ← many clone
    require (← get).rest.isEmpty
    return { encoding, clones }

def Symbol.ofText? (text : List Char) : Option Symbol :=
  match symbol.run { rest := text } with
  | .ok symbol _ => some symbol
  | .error _ _ => none

end Itanium

end Mangling

end Unwind
