import Unwind.Range
import Unwind.Rule

/-!
# Module — loaded code and its rules

A module is a loaded executable or library: where its code is and the rules for it. The code map
finds the module of an address. It looks at a single candidate, the module whose code starts last
among those that start at or below the address.
-/

namespace Unwind

structure Module where
  name : String
  /-- the address that the locations of the table are relative to -/
  imageBase : UInt64
  text : Range
  /-- the rules, sorted by location -/
  table : Array Rule
deriving Repr, Inhabited

namespace Module

def contains (m : Module) (a : UInt64) : Bool :=
  m.text.contains a

/-- The rule for an address. The distance from the image base is cut to 32 bits. -/
def findRule (m : Module) (pc : UInt64) : Rule :=
  if pc < m.imageBase then .default
  else Rule.find m.table (pc - m.imageBase).toUInt32

end Module

/-- The modules of a process, sorted by the start of their code. -/
structure CodeMap where
  modules : Array Module
deriving Repr

namespace CodeMap

/-- The map of the modules given; those that start at the same address keep their order. -/
def ofModules (modules : List Module) : CodeMap :=
  ⟨(modules.mergeSort fun m n => decide (m.text.start ≤ n.text.start)).toArray⟩

def lookup (map : CodeMap) (a : UInt64) : Option Module :=
  (lastSatisfying? (fun m => decide (m.text.start ≤ a)) map.modules).filter (·.contains a)

end CodeMap

end Unwind
