import Unwind.Limits
import Unwind.Rule

/-!
# Step — from a frame to its caller

A context is what has to be known of a frame to find its caller. A step computes the canonical frame
address from a rule, checks it against the limits and then loads the return address and the saved
frame pointer. Loads cannot fail: memory that cannot be read reads as zero.
-/

namespace Unwind

/-- The registers that identify a frame. -/
structure Context where
  pc : UInt64
  sp : UInt64
  fp : UInt64
deriving DecidableEq, Repr, Inhabited

abbrev Memory := UInt64 → UInt64

structure Step where
  recovered : Bool
  /-- the caller's registers, as far as they were determined -/
  context : Context
  loads : List UInt64
deriving DecidableEq, Repr

namespace Context

/-- The canonical frame address, if the row determines one. -/
def cfa? (ctx : Context) (limits : Limits) (row : Row) : Option UInt64 :=
  let offset := wordOfOffset row.offset
  match row.base with
  | .sp => some (ctx.sp + offset)
  | .fp => some (ctx.fp + offset)
  | .plt =>
    if limits.pltParityThreshold ≤ ctx.pc &&& 15 then some (ctx.sp + offset * 2)
    else some (ctx.sp + offset)
  | .unsupported => none

end Context

namespace Limits

/-- Whether a frame from `sp` up to `cfa` is possible: stacks grow down, so the caller's frame lies
above, not too far, below the bottom of the walk, and on a word boundary. -/
def admits (limits : Limits) (sp bottom cfa : UInt64) : Bool :=
  sp ≤ cfa && cfa < saturatingAdd sp limits.maxFrameSize && cfa < bottom && cfa % wordSize == 0

def isCode (limits : Limits) (pc : UInt64) : Bool :=
  limits.minValidPc ≤ pc && pc ≤ maxWord - limits.minValidPc

/-- Whether a frame pointer can be saved at this offset from the CFA. -/
def reaches (limits : Limits) (offset : Int32) : Bool :=
  offset.toInt.natAbs < limits.maxFrameSize.toNat

end Limits

namespace Context

/-- The caller's registers, for a frame with the given CFA, and the addresses loaded. -/
def caller (ctx : Context) (memory : Memory) (limits : Limits) (fp : FpRule) (cfa : UInt64) :
    Context × List UInt64 :=
  let ret := cfa - wordSize
  match fp with
  -- The caller is a fixed distance away in the code; nothing of it is on the stack.
  | .pcRelative delta => (⟨ctx.pc + wordOfOffset delta, cfa, ctx.fp⟩, [])
  | .unchanged => (⟨memory ret, cfa, ctx.fp⟩, [ret])
  | .saved offset =>
    if limits.reaches offset then
      let slot := cfa + wordOfOffset offset
      (⟨memory ret, cfa, memory slot⟩, [slot, ret])
    else (⟨memory ret, cfa, ctx.fp⟩, [ret])

/-- One step by a rule. `bottom` is the highest address the walk may reach. If the CFA is refused
nothing is loaded and nothing changes. -/
def step (ctx : Context) (memory : Memory) (limits : Limits) (bottom : UInt64) (rule : Rule) :
    Step :=
  match (ctx.cfa? limits rule.row).filter (limits.admits ctx.sp bottom) with
  | none => ⟨false, ctx, []⟩
  | some cfa =>
    let (next, loads) := ctx.caller memory limits rule.row.fp cfa
    ⟨limits.isCode next.pc, next, loads⟩

/-- Steps by one rule after the other, up to the first that fails. -/
def steps (ctx : Context) (memory : Memory) (limits : Limits) (bottom : UInt64) :
    List Rule → List Step
  | [] => []
  | rule :: rest =>
    let s := ctx.step memory limits bottom rule
    s :: if s.recovered then s.context.steps memory limits bottom rest else []

end Context

end Unwind
