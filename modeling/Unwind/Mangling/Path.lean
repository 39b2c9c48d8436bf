import Unwind.Mangling.Path.Printing

/-!
# Path — mangled paths that are a grammar

The newer of the two path manglings is a grammar: `_R`, and a path that consists of roots, names in
namespaces, implementations and generic arguments with their types and constants. A back reference
names an earlier place in the symbol to read from again. Parts are nested at most `depthLimit` deep.
-/

namespace Unwind

namespace Mangling

namespace Path

def depthLimit : Nat := 500

def basicType? : Char → Option String
  | 'b' => some "bool"
  | 'c' => some "char"
  | 'e' => some "str"
  | 'u' => some "()"
  | 'a' => some "i8"
  | 's' => some "i16"
  | 'l' => some "i32"
  | 'x' => some "i64"
  | 'n' => some "i128"
  | 'i' => some "isize"
  | 'h' => some "u8"
  | 't' => some "u16"
  | 'm' => some "u32"
  | 'y' => some "u64"
  | 'o' => some "u128"
  | 'j' => some "usize"
  | 'f' => some "f32"
  | 'd' => some "f64"
  | 'z' => some "!"
  | 'p' => some "_"
  | 'v' => some "..."
  | _ => none

/-- What can be read and shown at one depth. -/
structure Level where
  /-- A path. In a value, generic arguments have `::` in front of them. -/
  path : (inValue : Bool) → Printing Unit
  type : Printing Unit
  /-- A constant. Outside values, all but literals are in braces. -/
  const : (inValue : Bool) → Printing Unit
  /-- A path whose generic arguments, if it has any, are left open; tells whether they are. -/
  openPath : Printing Bool
  /-- The next depth, unless this is the last one. -/
  deeper : Option Level

def descend (deeper : Option Level) : Token Level :=
  match deeper with
  | some level => return level
  | none => throw .tooDeep

/-- Reads again, one level deeper, at the place that a back reference names. The place has to be in
front of the reference. Where nothing is shown, the place is not read either. -/
def backReference {α : Type} (deeper : Option Level) (otherwise : α) (visit : Level → Printing α) :
    Printing α := do
  let symbol := (← get).symbol
  let some (place, level) ← read do
      let position := symbol.length - (← MonadState.get).length - 1
      let place ← number62
      if place < position then return (place, ← descend deeper) else throw .invalid
    | return otherwise
  let progress ← get
  if progress.silent then return otherwise
  set { progress with input := some (symbol.drop place) }
  let result ← visit level
  modify fun inner => { inner with input := progress.input }
  return result

/-- A generic argument: a lifetime, a constant or a type. -/
def genericArgument (type const : Printing Unit) : Printing Unit := do
  if ← eat 'L' then
    let some index ← read number62 | return ()
    lifetime index
  else if ← eat 'K' then const
  else type

def path (deeper : Option Level) (inValue : Bool) : Printing Unit := do
  let some level ← read (descend deeper) | return ()
  let some tag ← read next | return ()
  match tag with
  | 'C' =>
    let some _ ← read disambiguator | return ()
    let some name ← read identifier | return ()
    print name.text
  | 'N' =>
    let some space ← read namespaceTag | return ()
    level.path inValue
    -- Behind a fault the name will be a question mark, which is set apart like a name.
    if ← failed then print "::"
    let some index ← read disambiguator | return ()
    let some name ← read identifier | return ()
    match space with
    | some special =>
      print "::\x7b"
      print <| match special with
        | 'C' => "closure"
        | 'S' => "shim"
        | other => String.singleton other
      unless name.isEmpty do
        print ":"
        print name.text
      print s!"#{index}"
      print "\x7d"
    | none =>
      unless name.isEmpty do
        print "::"
        print name.text
  | 'M' | 'X' | 'Y' =>
    -- An implementation is shown by its type and trait; where it stands is read and not shown.
    unless tag = 'Y' do
      let some _ ← read disambiguator | return ()
      silently (level.path false)
    print "<"
    level.type
    unless tag = 'M' do
      print " as "
      level.path false
    print ">"
  | 'I' =>
    level.path inValue
    if inValue then print "::"
    print "<"
    let _ ← elements (genericArgument level.type (level.const false)) ", "
    print ">"
  | 'B' => backReference level.deeper () (·.path inValue)
  | _ => fail .invalid

def openPath (deeper : Option Level) (path type const : Printing Unit) : Printing Bool := do
  if ← eat 'B' then backReference deeper false (·.openPath)
  else if ← eat 'I' then
    path
    print "<"
    let _ ← elements (genericArgument type const) ", "
    return true
  else
    path
    return false

/-- The bindings of associated types behind a trait, at most as many as `fuel` says; tells whether
there is a list left open. -/
def associatedTypes (type : Printing Unit) (isOpen : Bool) : Nat → Printing (Option Bool)
  | 0 => return some isOpen
  | fuel + 1 => do
    if ← eat 'p' then
      print (if isOpen then ", " else "<")
      let some name ← read identifier | return none
      print name.text
      print " = "
      type
      associatedTypes type true fuel
    else return some isOpen

def objectTrait (level : Level) : Printing Unit := do
  let isOpen ← level.openPath
  let left := ((← get).input.getD []).length
  let some isOpen ← associatedTypes level.type isOpen (left + 1) | return ()
  if isOpen then print ">"

def functionType (level : Level) : Printing Unit := do
  let isUnsafe ← eat 'U'
  let convention ←
    if ← eat 'K' then
      if ← eat 'C' then pure "C"
      else
        let some name ← read identifier | return ()
        if name.ascii.isEmpty || !name.run.isEmpty then return ← fail .invalid
        pure (String.ofList (name.ascii.map fun c => if c = '_' then '-' else c))
    else pure ""
  if isUnsafe then print "unsafe "
  unless convention.isEmpty do
    print "extern \""
    print convention
    print "\" "
  print "fn("
  let _ ← elements level.type ", "
  print ")"
  unless ← eat 'u' do
    print " -> "
    level.type

/-- The list of a tuple. One element is told from parentheses by a comma behind it. -/
def tuple (element : Printing Unit) : Printing Unit := do
  print "("
  let count ← elements element ", "
  if count = 1 then print ","
  print ")"

/-- A type. The letters of basic types cannot be nested and need no depth. -/
def type (deeper : Option Level) : Printing Unit := do
  let start := (← get).input
  let some tag ← read next | return ()
  if let some name := basicType? tag then return ← print name
  let some level ← read (descend deeper) | return ()
  match tag with
  | 'R' | 'Q' =>
    print "&"
    if ← eat 'L' then
      let some index ← read number62 | return ()
      unless index = 0 do
        lifetime index
        print " "
    if tag = 'Q' then print "mut "
    level.type
  | 'P' | 'O' =>
    print (if tag = 'P' then "*const " else "*mut ")
    level.type
  | 'A' | 'S' =>
    print "["
    level.type
    if tag = 'A' then
      print "; "
      level.const true
    print "]"
  | 'T' => tuple level.type
  | 'F' => underBinder (functionType level)
  | 'D' =>
    print "dyn "
    underBinder do
      let _ ← elements (objectTrait level) " + "
    unless ← eat 'L' do return ← fail .invalid
    let some index ← read number62 | return ()
    unless index = 0 do
      print " + "
      lifetime index
  | 'B' => backReference level.deeper () (·.type)
  | _ =>
    -- The tag belongs to a path and is read again with it.
    modify fun progress => { progress with input := start }
    level.path false

/-- The number that hexadecimal digits denote, if it fits a word. -/
def wordOfHex? (digits : List Char) : Option Nat :=
  let n := lowerHex digits
  if n < wordCount then some n else none

def bytesOfHex? : List Char → Option (List UInt8)
  | [] => some []
  | high :: low :: rest => (bytesOfHex? rest).map (UInt8.ofNat (lowerHex [high, low]) :: ·)
  | [_] => none

/-- An integer without its sign. What does not fit a word is shown in hexadecimal. -/
def integer : Printing Unit := do
  let some digits ← read hexDigits | return ()
  match wordOfHex? digits with
  | some n => print (toString n)
  | none =>
    print "0x"
    print (String.ofList digits)

def stringLiteral : Printing Unit := do
  let some digits ← read hexDigits | return ()
  match (bytesOfHex? digits).bind fun bytes => String.fromUTF8? ⟨bytes.toArray⟩ with
  | some text => print (quoted '"' text.toList)
  | none => fail .invalid

def field (level : Level) : Printing Unit := do
  let some _ ← read disambiguator | return ()
  let some name ← read identifier | return ()
  print name.text
  print ": "
  level.const true

/-- The fields of a constant of a structure or variant; tells whether they could be read. -/
def fields (level : Level) : Printing Bool := do
  let some tag ← read next | return false
  match tag with
  | 'U' => return true
  | 'T' =>
    print "("
    let _ ← elements (level.const true) ", "
    print ")"
    return true
  | 'S' =>
    print " \x7b "
    let _ ← elements (field level) ", "
    print " \x7d"
    return true
  | _ =>
    fail .invalid
    return false

/-- A part that is in braces outside values. Behind a fault inside it the brace stays open. -/
def braced (inValue : Bool) (part : Printing Bool) : Printing Unit := do
  unless inValue do print "\x7b"
  if ← part then
    unless inValue do print "\x7d"

def const (deeper : Option Level) (inValue : Bool) : Printing Unit := do
  let some tag ← read next | return ()
  let some level ← read (descend deeper) | return ()
  let braces (part : Printing Unit) : Printing Unit :=
    braced inValue do part; return true
  match tag with
  | 'p' => print "_"
  | 'h' | 't' | 'm' | 'y' | 'o' | 'j' => integer
  | 'a' | 's' | 'l' | 'x' | 'n' | 'i' =>
    if ← eat 'n' then print "-"
    integer
  | 'b' =>
    let some digits ← read hexDigits | return ()
    match wordOfHex? digits with
    | some 0 => print "false"
    | some 1 => print "true"
    | _ => fail .invalid
  | 'c' =>
    let some digits ← read hexDigits | return ()
    match (wordOfHex? digits).bind charOf? with
    | some c => print (quoted '\'' [c])
    | none => fail .invalid
  -- A literal is a reference, so that a string itself is what the literal points to.
  | 'e' =>
    braces do
      print "*"
      stringLiteral
  | 'R' | 'Q' =>
    let literal ← if tag = 'R' then eat 'e' else pure false
    if literal then stringLiteral
    else
      braces do
        print (if tag = 'R' then "&" else "&mut ")
        level.const true
  | 'A' =>
    braces do
      print "["
      let _ ← elements (level.const true) ", "
      print "]"
  | 'T' => braces (tuple (level.const true))
  | 'V' =>
    braced inValue do
      level.path true
      fields level
  | 'B' => backReference level.deeper () (·.const inValue)
  | _ => fail .invalid

/-- What can be read and shown where `deeper` is the next depth. -/
def Level.above (deeper : Option Level) : Level where
  path := Path.path deeper
  type := Path.type deeper
  const := Path.const deeper
  openPath :=
    Path.openPath deeper (Path.path deeper false) (Path.type deeper) (Path.const deeper false)
  deeper := deeper

/-- The depth with so many more below it. -/
def Level.withBelow : Nat → Level
  | 0 => .above none
  | n + 1 => .above (some (withBelow n))

/-- What follows a path at the front of a text, if there is a path without a fault. Back references
are not followed. -/
def skip? (symbol text : List Char) : Option (List Char) :=
  let start : Progress := { symbol := symbol, input := some text, silent := true }
  match ((Level.withBelow depthLimit).path false).run start with
  | .ok _ progress => progress.input
  | .error _ _ => none

def text (symbol : List Char) : String :=
  match ((Level.withBelow depthLimit).path true).run { symbol := symbol, input := some symbol } with
  | .ok _ progress => progress.text
  | .error _ progress => progress.text ++ "\x7bsize limit reached\x7d"

def startsPath : List Char → Bool
  | c :: _ => c.isUpper
  | [] => false

/-- The path that a symbol stands for, and what follows it in the symbol. A second path names the
place where a generic function was made; it is not shown. Only symbols in ASCII are
understood. -/
def demangle? (symbol : List Char) : Option (String × List Char) := do
  let inner ← match symbol with
    | '_' :: 'R' :: inner => some inner
    | _ => none
  guard (startsPath inner && inner.all fun c => c.toNat < 0x80)
  let behind ← skip? inner inner
  let behind ← if startsPath behind then skip? inner behind else some behind
  return (text inner, behind)

end Path

end Mangling

end Unwind
