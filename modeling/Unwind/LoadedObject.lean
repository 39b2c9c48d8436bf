import Unwind.Log
import Unwind.Module
import Unwind.RuleTable.Compile

/-!
# LoadedObject — executables and libraries as the loader sees them

The loader describes an object by program headers relative to a load bias. From them an object's
code, its segments and its search table are found, and a module with its unwind rules is made of
each object that has code. Whatever goes wrong with the rules is reported and leaves the module
without any.
-/

namespace Unwind

inductive HeaderKind where
  | load
  /-- the search table of unwind information -/
  | frameHeader
  | other
deriving DecidableEq, Repr

structure ProgramHeader where
  kind : HeaderKind
  executable : Bool
  vaddr : UInt64
  fileSize : UInt64
  memorySize : UInt64
deriving DecidableEq, Repr

structure LoadedObject where
  name : String
  bias : UInt64
  headers : List ProgramHeader
deriving DecidableEq, Repr

/-- What is to be known of an object to unwind its code. -/
structure ObjectMap where
  name : String
  imageBase : UInt64
  /-- the smallest range that covers all executable segments -/
  text : Range
  /-- the segments, each as far as the file reaches -/
  segments : List Range
  frameHeader : Option Range
deriving DecidableEq, Repr

namespace ObjectMap

def add (o : ObjectMap) (h : ProgramHeader) : ObjectMap :=
  let start := o.imageBase + h.vaddr
  match h.kind with
  | .load =>
    { o with
      -- Code may be zero-filled memory behind the file; unwind information cannot.
      text := if h.executable then o.text.union ⟨start, start + h.memorySize⟩ else o.text
      segments := o.segments ++ [⟨start, start + h.fileSize⟩] }
  | .frameHeader => { o with frameHeader := some ⟨start, start + h.memorySize⟩ }
  | .other => o

def ofObject (o : LoadedObject) : ObjectMap :=
  o.headers.foldl add ⟨o.name, o.bias, .empty, [], none⟩

def segmentOf (o : ObjectMap) (a : UInt64) : Option Range :=
  o.segments.find? (·.contains a)

end ObjectMap

/-- `n` bytes of memory from an address on. -/
def bytesFrom (memory : UInt64 → UInt8) (a : UInt64) : Nat → Bytes
  | 0 => []
  | n + 1 => memory a :: bytesFrom memory (a + 1) n

def sectionOfRange (memory : UInt64 → UInt8) (r : Range) : Section :=
  ⟨r.start, bytesFrom memory r.start r.size.toNat⟩

namespace ObjectMap

/-- Compiles the rules of an object from its search table. The frame records reach from where the
table says they start to the end of their segment. -/
def compile (o : ObjectMap) (memory : UInt64 → UInt8) (frameHeader : Range) :
    RuleTable.Compilation :=
  let header := sectionOfRange memory frameHeader
  match FrameHeader.decode header with
  | .error e => ⟨[], .error e⟩
  | .ok h =>
    match o.segmentOf h.frames with
    | none => ⟨[], .error (.outOfSection h.frames)⟩
    | some segment =>
      RuleTable.compile header (sectionOfRange memory ⟨h.frames, segment.stop⟩) o.imageBase

def rules (o : ObjectMap) (memory : UInt64 → UInt8) : List LogLine × Array Rule :=
  match o.frameHeader with
  | none => ([], #[])
  | some frameHeader =>
    let c := o.compile memory frameHeader
    match c.table with
    | .ok table => (c.log, table)
    | .error e =>
      let line := "failed to parse unwind table of " ++ o.name ++ ": " ++ e.message
      (c.log ++ [⟨.warn, line⟩], #[])

def toModule (o : ObjectMap) (memory : UInt64 → UInt8) : List LogLine × Module :=
  let (log, table) := o.rules memory
  let count := o.name ++ ": " ++ toString table.size ++ " unwind rules"
  (log ++ [⟨.debug, count⟩], ⟨o.name, o.imageBase, o.text, table⟩)

end ObjectMap

namespace LoadedObject

def expectedCount : Nat := 128

def withCode (objects : List LoadedObject) : List ObjectMap :=
  (objects.map ObjectMap.ofObject).filter (!·.text.isEmpty)

def exceedsExpected (objects : List LoadedObject) : Bool :=
  expectedCount < (withCode objects).length

/-- Registers the objects that have code: what there is to report, and the map of their modules. -/
def register (memory : UInt64 → UInt8) (objects : List LoadedObject) : List LogLine × CodeMap :=
  let modules := (withCode objects).map (·.toModule memory)
  (modules.flatMap (·.1), .ofModules (modules.map (·.2)))

end LoadedObject

end Unwind
