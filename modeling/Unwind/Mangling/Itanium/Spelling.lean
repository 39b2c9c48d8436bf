import Unwind.Mangling.Itanium.Declarator

/-!
# Itanium.Spelling — how C++ symbols are spelled

What a parameter of a template stands for, and what a constructor is called, depends on what is
around it: the frames. Since a parameter can stand for something with parameters in it, the parts of
a spelling are nested down to a limited level; a part below it has no spelling.
-/

namespace Unwind

namespace Mangling

namespace Itanium

inductive Frame where
  | owner (name : String)
  /-- The arguments of a template, and which of them is being written. -/
  | template (arguments : List Argument) (current : Option Nat)

/-- What the class calls itself that is around a part. -/
def ownName? : List Frame → Option String
  | [] => none
  | .owner name :: _ => some name
  | .template _ _ :: frames => ownName? frames

/-- What a parameter of a template stands for: the argument of the innermost template that has so
many. The arguments of a template can be used in those behind them only. -/
def argument? (index : Nat) : List Frame → Option Argument
  | [] => none
  | .owner _ :: frames => argument? index frames
  | .template arguments current :: frames =>
    match arguments[index]? with
    | some argument => if current.any (· ≤ index) then none else some argument
    | none => argument? index frames

/-- The frames around an argument of a template. Its place is noted only if the innermost frame is
that of the template itself. -/
def framesAround (isOwn : Bool) (index : Nat) : List Frame → List Frame
  | .template arguments _ :: frames =>
    .template arguments (if isOwn then some index else none) :: frames
  | frames => frames

def framesInside (frames : List Frame) : Option (List Argument) → List Frame
  | some arguments => .template arguments none :: frames
  | none => frames

/-- A value as it is written, where an `n` in front is a sign. -/
def valueText : List Char → String
  | 'n' :: value => "-" ++ String.ofList value
  | value => String.ofList value

/-- The pattern of bits of a floating-point number, in brackets. -/
def bitsText : List Char → String
  | 'n' :: value => "-[" ++ String.ofList value ++ "]"
  | value => "[" ++ String.ofList value ++ "]"

/-- The value of a type, if it says by itself which type it is of. -/
def plainValue? (type : Entity) (value : List Char) : Option String :=
  match type with
  | .builtin type =>
    if type = .int then some (valueText value)
    else if type = .nullptr then some "nullptr"
    else if type = .bool ∧ value = ['0'] then some "false"
    else if type = .bool ∧ value = ['1'] then some "true"
    else none
  | _ => none

/-- A value behind its type, which is written in parentheses. -/
def typedValue (type : Entity) (value : List Char) : String :=
  match type with
  | .builtin type => if type = .float ∨ type = .double then bitsText value else valueText value
  | _ => valueText value

/-- The parameters of a function. The type of nothing alone stands for none. -/
def withoutVoid : List Entity → List Entity
  | [.builtin type] => if type = .void then [] else [.builtin type]
  | types => types

/-- How the parts inside of declarators are written, given how types and parameters are written
under frames. -/
def Inside.under (type : List Frame → Entity → Spelling Unit)
    (parameters : List Frame → List Entity → Spelling Unit) (frames : List Frame) : Inside where
  type := type frames
  parameters template := parameters (framesInside frames template)

/-- Writes what stands behind a nested name: the declarator that waits, and how the object of a
member function is qualified. -/
def spellObject (inside : Inside) (qualifiers : Qualifiers) (object : Option RefKind) :
    Spelling Unit := do
  if let some declarator ← next? then declarator.spell inside
  qualifiers.spell
  if let some kind := object then
    space
    write kind.text

mutual

/-- Writes a part of a symbol. Some kinds of part take more than one level. -/
def Entity.spell : Nat → List Frame → Entity → Spelling Unit
  | _ + 2, _, .builtin type => write type.name
  | _ + 3, _, .vendor name => write name
  | _ + 1, _, .standard name => write name.text
  | levels + 2, frames, .named name => name.spell levels frames false
  | levels + 1, frames, .marked mark target =>
    withDeclarator (.mark mark target.isArray) (target.spell levels frames) mark.spell
  | levels + 1, frames, .worded word target => do
    target.spell levels frames
    write (" " ++ word)
  | levels + 3, frames, .function qualifiers result parameters object => do
    withDeclarator (.functionQualifiers qualifiers)
      (withDeclarator (.parameters none parameters) (result.spell levels frames) do
        space
        spellParameters levels frames parameters)
      qualifiers.spell
    if let some kind := object then
      space
      write kind.text
  | levels + 2, frames, .array size element =>
    withDeclarator (.dimension size) (element.spell levels frames)
      (Declarator.spell (.under (Entity.spell levels) (spellParameters levels) frames)
        (.dimension size))
  | levels + 2, frames, .memberPointer owner target =>
    withDeclarator (.member owner) (target.spell levels frames)
      (Declarator.spell (.under (Entity.spell levels) (spellParameters levels) frames)
        (.member owner))
  | levels + 2, frames, .parameter index => do
    match argument? index frames with
    | some argument => argument.spell levels frames
    | none => failure
  | levels + 1, frames, .specialized generic arguments
  | levels + 1, frames, .applied generic arguments => do
    generic.spell levels frames
    spellArguments levels frames false arguments
  | levels + 1, frames, .expansion pattern => do
    pattern.spell levels frames
    unless (← get).inPack do write "..."
  | levels + 1, frames, .scope leaf => leaf.spell levels frames
  | levels + 1, frames, .member path leaf => do
    path.spell levels frames
    write "::"
    leaf.spell levels frames
  | levels + 2, frames, .template inStd leaf => do
    if inStd then write "std::"
    leaf.spell levels frames
  | _, _, _ => failure

/-- Writes a name. Its arguments may be those of the innermost frame. -/
def Name.spell : Nat → List Frame → Bool → Name → Spelling Unit
  | levels + 2, frames, _, .plain inStd leaf => do
    if inStd then write "std::"
    leaf.spell levels frames
  | levels + 1, frames, isOwn, .applied generic arguments => do
    generic.spell levels (.template arguments none :: frames)
    spellArguments levels frames isOwn arguments
  | levels + 2, frames, _, .nested qualifiers object (.scope leaf) => do
    leaf.spell levels frames
    spellObject (.under (Entity.spell levels) (spellParameters levels) frames) qualifiers object
  | levels + 2, frames, _, .nested qualifiers object (.member path leaf) => do
    path.spell levels frames
    write "::"
    leaf.spell levels frames
    spellObject (.under (Entity.spell levels) (spellParameters levels) frames) qualifiers object
  | levels + 3, frames, isOwn, .nested qualifiers object (.applied generic arguments) => do
    generic.spell levels frames
    spellArguments levels frames isOwn arguments
    spellObject (.under (Entity.spell (levels + 1)) (spellParameters (levels + 1)) frames)
      qualifiers object
  | _, _, _, _ => failure

def Leaf.spell : Nat → List Frame → Leaf → Spelling Unit
  | _ + 3, _, .identifier text => write text
  | _ + 3, _, .operator symbol => write ("operator" ++ symbol)
  | levels + 2, frames, .conversion target => do
    write "operator "
    target.spell levels frames
  | _ + 4, frames, .constructor => do
    write (← ownName? frames)
  | _ + 4, frames, .destructor => do
    write ("~" ++ (← ownName? frames))
  | _, _, _ => failure

/-- Writes the arguments of a template, kept apart from a name that ends in an angle bracket and
without two closing angle brackets side by side. -/
def spellArguments : Nat → List Frame → Bool → List Argument → Spelling Unit
  | levels + 1, frames, isOwn, arguments => apart do
    if ← wroteLast ['<'] then write " "
    write "<"
    commaSeparated <| arguments.mapIdx fun index argument =>
      argument.spell levels (framesAround isOwn index frames)
    if ← wroteLast ['>'] then write " "
    write ">"
  | 0, _, _, _ => failure

def Argument.spell : Nat → List Frame → Argument → Spelling Unit
  | levels + 1, frames, .type type => type.spell levels frames
  | levels + 2, frames, .literal type value =>
    match plainValue? type value with
    | some text => write text
    | none => do
      write "("
      type.spell levels frames
      write (")" ++ typedValue type value)
  | levels + 1, frames, .pack arguments => do
    modify fun draft => { draft with inPack := true }
    commaSeparated (arguments.map (Argument.spell levels frames))
  | _, _, _ => failure

def spellParameters : Nat → List Frame → List Entity → Spelling Unit
  | levels + 1, frames, parameters =>
    Declarator.spellFunction (.under (Entity.spell levels) (spellParameters levels) frames)
      ((withoutVoid parameters).map (Entity.spell levels frames))
  | 0, _, _ => failure

end

/-- Writes what a symbol stands for. A function that is made from a template has its result in front
of its parameters. -/
def Encoding.spell : Nat → Encoding → Spelling Unit
  | levels, .variable name => name.spell levels [] false
  | levels, .function name first others => do
    let frames := name.ownName?.toList.map Frame.owner
    match name.arguments? with
    | some arguments =>
      let frames := .template arguments none :: frames
      unless name.hidesResult do
        first.spell levels frames
        write " "
      withDeclarator (.parameters (some arguments) others) (name.spell levels frames true)
        (spellParameters levels frames others)
    | none =>
      let parameters := first :: others
      withDeclarator (.parameters none parameters) (name.spell levels frames false)
        (spellParameters levels frames parameters)
  | levels + 1, .typeData before after type => do
    write before
    type.spell levels []
    write after
  | levels + 1, .guardVariable name => do
    write "guard variable for "
    name.spell levels [] false
  | 0, _ => failure

/-- How many levels the parts of a symbol can be nested, not counting the symbol and what it stands
for. -/
def maxSpelledLevels : Nat := 125

def Symbol.text? (symbol : Symbol) : Option String := do
  let (_, draft) ← (symbol.encoding.spell maxSpelledLevels).run {}
  return draft.text ++ String.join (symbol.clones.map fun mark => " [clone " ++ mark ++ "]")

end Itanium

end Mangling

end Unwind
