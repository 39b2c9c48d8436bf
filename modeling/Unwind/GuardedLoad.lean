import Unwind.Architecture

/-!
# GuardedLoad — the load that survives bad addresses

The tracer reads foreign memory with a single load instruction at a known place. A fault at that
instruction is answered by stepping over it with zero as the result. A fault anywhere else is none
of the tracer's business.
-/

namespace Unwind

structure GuardedLoad where
  /-- the address of the first instruction, which is the load -/
  entry : UInt64
  code : UInt64 → UInt8

namespace GuardedLoad

/-- Faults less than this far behind the entry are examined. -/
def window : UInt64 := 16

/-- The bytes that the load instruction starts with. -/
def loadStart : UInt8 × UInt8 := (0x48, 0x8b)

def loadSize : UInt64 := 3

/-- The length of the load at an address, or zero if there is no load. -/
def instructionSize (g : GuardedLoad) (pc : UInt64) : UInt64 :=
  if (g.code pc, g.code (pc + 1)) == loadStart then loadSize else 0

/-- The registers with which to go on after a fault, if it is the guarded load's own. -/
def resume? (g : GuardedLoad) (file : RegisterFile) : Option RegisterFile :=
  let pc := file Architecture.amd64.pc
  if pc - g.entry < window && 0 < g.instructionSize pc then
    let stepped := Architecture.amd64.setPc file (pc + g.instructionSize pc)
    some (Architecture.amd64.setResult stepped 0)
  else none

end GuardedLoad

end Unwind
