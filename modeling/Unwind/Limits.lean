/-!
# Limits — bounds on a walk

Garbage in registers or memory must not send a walk astray. The limits say which addresses can be
code, and how far up the stack a single frame and a whole walk may reach. How many steps a walk
makes is not limited by them: a frame may have no size at all.
-/

namespace Unwind

structure Limits where
  /-- addresses below this, or this close to the top of the address space, are never code -/
  minValidPc : UInt64
  /-- how far above the first stack pointer a walk may reach -/
  maxWalkSize : UInt64
  /-- the size that a frame must stay below -/
  maxFrameSize : UInt64
  /-- where, within a stub of 16 bytes, the second word has been pushed -/
  pltParityThreshold : UInt64
deriving DecidableEq, Repr

def Limits.default : Limits where
  minValidPc := 0x1000
  maxWalkSize := 0x100000
  maxFrameSize := 0x40000
  pltParityThreshold := 11

end Unwind
