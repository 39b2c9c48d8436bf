import Unwind.Word

/-!
# Symbol — what is known about an address

A resolution names the function at an address and says where it is. There are two sources: the
loader, which knows exported symbols, and debug information, which also knows files and lines and
the functions that were inlined. Names are demangled by the function given as `demangle`.
-/

namespace Unwind

inductive FunctionName where
  | borrowed (text : Bytes)
  /-- a name made for one result, which has to be freed -/
  | owned (text : Bytes)
deriving DecidableEq, Repr

namespace FunctionName

def text : FunctionName → Bytes
  | borrowed t => t
  | owned t => t

def isOwned : FunctionName → Bool
  | borrowed _ => false
  | owned _ => true

end FunctionName

/-- What is known about an address. An entry of zero stands for none. -/
structure Resolution where
  module : Option Bytes
  function : Option FunctionName
  file : Option Bytes
  line : UInt64
  /-- the address of the first instruction of the function -/
  entry : UInt64
deriving DecidableEq, Repr

def Resolution.unknown : Resolution := ⟨none, none, none, 0, 0⟩

/-- What the loader knows about an address in one of its modules. -/
structure LoaderSymbol where
  module : Option Bytes
  name : Option Bytes
  entry : UInt64
deriving DecidableEq, Repr

/-- What debug information knows about an address: one of the functions inlined into one another
there. -/
structure DebugFrame where
  name : Option Bytes
  file : Option Bytes
  line : Option UInt32
  address : Option UInt64
deriving DecidableEq, Repr

namespace Resolution

def ofLoader (demangle : Bytes → FunctionName) : Option LoaderSymbol → Resolution
  | none => unknown
  | some s =>
    match s.name with
    | none => { unknown with module := s.module }
    | some name => ⟨s.module, some (demangle name), none, 0, s.entry⟩

/-- The text as one that ends with a zero byte, which it must not hold itself. -/
def terminated? (text : Bytes) : Option Bytes :=
  if text.contains 0 then none else some text

structure Gathered where
  name : Option Bytes
  file : Option Bytes
  line : UInt64
  entry : UInt64
deriving DecidableEq, Repr

/-- Takes one more of the functions at an address into account. They come innermost first: the place
in the source is the innermost one's, the name the outermost one's. -/
def Gathered.add (g : Gathered) (f : DebugFrame) : Gathered where
  name := (f.name.map terminated?).getD g.name
  file := if g.file.isNone then f.file.bind terminated? else g.file
  line := if g.file.isNone then (f.line.getD 0).toUInt64 else g.line
  entry := f.address.getD g.entry

/-- The resolution of an address from debug information, with the loader's answer for what that does
not know. -/
def ofDebugInfo (demangle : Bytes → FunctionName) (frames : List DebugFrame)
    (loader : Option LoaderSymbol) : Resolution :=
  let g := frames.foldl Gathered.add ⟨none, none, 0, 0⟩
  { module := loader.bind (·.module)
    function := (g.name.or (loader.bind (·.name))).map demangle
    file := g.file
    line := g.line
    entry := if g.entry == 0 then (loader.map (·.entry)).getD 0 else g.entry }

/-- The resolution of an address by a source of symbols. Nothing is known about address zero. -/
def ofAddress (source : UInt64 → Resolution) (pc : UInt64) : Resolution :=
  if pc == 0 then unknown else source pc

end Resolution

end Unwind
