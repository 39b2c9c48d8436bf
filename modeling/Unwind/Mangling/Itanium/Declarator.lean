import Unwind.Mangling.Itanium.Entity

/-!
# Itanium.Declarator — what is written around a C++ name

In C++ the spelling of a type stands on both sides of what is declared with it. A type is therefore
spelled from the inside out: what a pointer points to is written first, while the asterisk waits.
The declarators that wait are a stack. Mostly each is written by the part that put it there, but
functions, arrays and nested names write those that wait below them first.
-/

namespace Unwind

namespace Mangling

namespace Itanium

/-- What waits for the part that it belongs to. -/
inductive Declarator where
  /-- What makes a type of another one, and whether the other one is an array. -/
  | mark (mark : Mark) (ofArray : Bool)
  /-- The class in a pointer to its members. -/
  | member (owner : Entity)
  | dimension (size : Option Nat)
  | functionQualifiers (qualifiers : Qualifiers)
  /-- The parameters of a function, and the arguments of its template. -/
  | parameters (template : Option (List Argument)) (types : List Entity)

namespace Declarator

def isReference : Declarator → Bool
  | .mark (.reference _) _ => true
  | _ => false

def isReferenceOf (kind : RefKind) : Declarator → Bool
  | .mark (.reference other) _ => other = kind
  | _ => false

def isQualified : Declarator → Bool
  | .mark (.qualified _) _ => true
  | _ => false

def isDimension : Declarator → Bool
  | .dimension _ => true
  | _ => false

/-- Whether it is written without parentheses in front of a dimension. -/
def joinsDimension : Declarator → Bool
  | .dimension _ => true
  | .mark (.qualified _) ofArray => ofArray
  | _ => false

/-- Whether it stands behind the parameters of a function. -/
def followsParameters : Declarator → Bool
  | .functionQualifiers qualifiers => !qualifiers.isEmpty
  | _ => false

/-- Whether a function has parentheses around what waits for it, and if so, whether there is always
a space in front of them. -/
def parentheses? : List Declarator → Option Bool
  | [] => none
  | .mark (.qualified _) _ :: _ | .member _ :: _ => some true
  | .mark _ _ :: _ => some false
  | _ :: waiting => parentheses? waiting

end Declarator

structure Draft where
  text : String := ""
  /-- The declarators that wait, the last one first. -/
  waiting : List Declarator := []
  inPack : Bool := false

/-- Writes a part of a spelling, unless the part makes no sense. -/
abbrev Spelling := StateT Draft Option

def write (text : String) : Spelling Unit :=
  modify fun draft => { draft with text := draft.text ++ text }

def wroteLast (characters : List Char) : Spelling Bool :=
  return (← get).text.back?.any characters.contains

/-- Writes a space, unless one was written last. -/
def space : Spelling Unit := do
  unless ← wroteLast [' '] do write " "

def commaSeparated : List (Spelling Unit) → Spelling Unit
  | [] => return ()
  | first :: others => do
    first
    others.forM fun part => do
      write ", "
      part

/-- Writes a part that no declarator around it belongs to. -/
def apart (part : Spelling Unit) : Spelling Unit := do
  let waiting := (← get).waiting
  modify fun draft => { draft with waiting := [] }
  part
  modify fun draft => { draft with waiting }

def next? : Spelling (Option Declarator) := do
  match (← get).waiting with
  | [] => return none
  | declarator :: waiting =>
    modify fun draft => { draft with waiting }
    return some declarator

/-- Writes a part while a declarator waits, and then the declarator unless the part did it. -/
def withDeclarator (declarator : Declarator) (part finish : Spelling Unit) : Spelling Unit := do
  let waiting := (← get).waiting
  modify fun draft => { draft with waiting := declarator :: waiting }
  part
  if waiting.length < (← get).waiting.length then
    let _ ← next?
    finish

namespace Qualifiers

def spell (q : Qualifiers) : Spelling Unit := do
  if q.isConst then
    space
    write "const"
  if q.isVolatile then
    space
    write "volatile"
  if q.isRestrict then
    space
    write "restrict"

end Qualifiers

def RefKind.text : RefKind → String
  | .lvalue => "&"
  | .rvalue => "&&"

/-- Writes what makes a type of another one. References to references are one reference, and of two
kinds the one to something with a name wins. -/
def Mark.spell : Mark → Spelling Unit
  | .pointer => write "*"
  | .qualified qualifiers => qualifiers.spell
  | .reference .lvalue => do
    modify fun draft => { draft with waiting := draft.waiting.dropWhile (·.isReference) }
    write (RefKind.text .lvalue)
  | .reference .rvalue => do
    modify fun draft =>
      { draft with waiting := draft.waiting.dropWhile (·.isReferenceOf .rvalue) }
    unless (← get).waiting.head?.any (·.isReferenceOf .lvalue) do write (RefKind.text .rvalue)

/-- How the parts inside of declarators are written. -/
structure Inside where
  type : Entity → Spelling Unit
  /-- Writes parameters between parentheses, where the arguments of a template may be given. -/
  parameters : Option (List Argument) → List Entity → Spelling Unit

namespace Declarator

mutual

/-- Writes a declarator. The dimension of an array goes behind all declarators that wait, and each
of them takes at most two of the `fuel`. -/
def spellWithin (inside : Inside) : Nat → Declarator → Spelling Unit
  | _, .mark sign _ => sign.spell
  | _, .functionQualifiers qualifiers => qualifiers.spell
  | _, .parameters template types => inside.parameters template types
  | _, .member owner => do
    unless ← wroteLast ['('] do space
    inside.type owner
    write "::*"
  | 0, .dimension _ => failure
  | fuel + 1, .dimension size => do
    if ← spellBeforeDimension inside fuel true then space
    write ("[" ++ (size.map toString).getD "" ++ "]")

/-- Writes the declarators that wait for an array, and tells whether there is a space in front of
the dimension. -/
def spellBeforeDimension (inside : Inside) : Nat → Bool → Spelling Bool
  | 0, spaced => return spaced
  | fuel + 1, spaced => do
    match ← next? with
    | none => return spaced
    | some declarator =>
      if declarator.joinsDimension then
        spellWithin inside fuel declarator
        spellBeforeDimension inside fuel (spaced && !declarator.isDimension)
      else
        space
        -- Qualifiers stand in front of the parentheses.
        if declarator.isQualified then
          spellWithin inside fuel declarator
          space
          write "("
        else
          write "("
          spellWithin inside fuel declarator
        spellAllWithin inside fuel
        write ")"
        spellBeforeDimension inside fuel spaced

def spellAllWithin (inside : Inside) : Nat → Spelling Unit
  | 0 => return ()
  | fuel + 1 => do
    match ← next? with
    | none => return ()
    | some declarator =>
      spellWithin inside fuel declarator
      spellAllWithin inside fuel

end

def spell (inside : Inside) (declarator : Declarator) : Spelling Unit := do
  spellWithin inside (2 * (← get).waiting.length + 2) declarator

def spellAll (inside : Inside) : Spelling Unit := do
  spellAllWithin inside (2 * (← get).waiting.length + 2)

/-- Writes the declarators that wait and stand in front of the parameters of a function, and leaves
the others, as long as `fuel` says. -/
def spellLeadingWithin (inside : Inside) : Nat → Spelling Unit
  | 0 => return ()
  | fuel + 1 => do
    match ← next? with
    | none => return ()
    | some declarator =>
      if declarator.followsParameters then
        spellLeadingWithin inside fuel
        modify fun draft => { draft with waiting := declarator :: draft.waiting }
      else
        declarator.spell inside
        spellLeadingWithin inside fuel

/-- Writes the parameters of a function, given how each of them is written, and what waits for the
function: some of it stands in front, in parentheses if a function needs them. -/
def spellFunction (inside : Inside) (parameters : List (Spelling Unit)) : Spelling Unit := do
  let waiting := (← get).waiting
  match parentheses? waiting with
  | some always =>
    if always || !(← wroteLast ['(', '*']) then space
    write "("
    spellLeadingWithin inside waiting.length
    write ")"
  | none => spellLeadingWithin inside waiting.length
  write "("
  commaSeparated parameters
  write ")"
  spellAll inside

end Declarator

end Itanium

end Mangling

end Unwind
