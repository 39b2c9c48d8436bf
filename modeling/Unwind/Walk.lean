import Unwind.Error
import Unwind.Module
import Unwind.Step

/-!
# Walk — following a stack frame by frame

A walker is the world a walk takes place in: the code map, if there is one, the limits and the
memory. A cursor stands at a frame and moves to the caller. `Frames` is a walk in progress, which
passes over some frames first and then yields a bounded number of return addresses.
-/

namespace Unwind

structure Walker where
  /-- the loaded modules; without them every frame is taken for a standard one -/
  code : Option CodeMap
  limits : Limits
  memory : Memory

structure Cursor where
  context : Context
  /-- the highest address the walk may reach -/
  bottom : UInt64
  /-- whether no step has been tried yet -/
  first : Bool
deriving DecidableEq, Repr

namespace Walker

/-- The rule for an address: that of its module, or the default. -/
def ruleAt (w : Walker) (pc : UInt64) : Rule :=
  match w.code.bind (·.lookup pc) with
  | some m => m.findRule pc
  | none => .default

end Walker

namespace Cursor

def start (limits : Limits) (ctx : Context) : Cursor :=
  ⟨ctx, saturatingAdd ctx.sp limits.maxWalkSize, true⟩

/-- The address whose rule applies. From the second frame on the pc is a return address, which may
already belong to the next function, so the call in front of it is looked up. -/
def lookupPc (c : Cursor) : UInt64 :=
  if c.first then c.context.pc else c.context.pc - 1

def step (c : Cursor) (w : Walker) : Step :=
  c.context.step w.memory w.limits c.bottom (w.ruleAt c.lookupPc)

def after (c : Cursor) (s : Step) : Cursor :=
  { c with context := s.context, first := false }

/-- At most `n` steps, up to the first that fails. -/
def run (w : Walker) : Nat → Cursor → List Step
  | 0, _ => []
  | n + 1, c =>
    let s := c.step w
    s :: if s.recovered then run w n (c.after s) else []

end Cursor

structure Frames where
  cursor : Cursor
  /-- the number of steps taken less the number of frames to pass over -/
  depth : Int
  maxDepth : Int
deriving DecidableEq, Repr

/-- What asking a walk for its next address brings. -/
structure Yield where
  pc : Option UInt64
  loads : List UInt64
  frames : Frames
deriving DecidableEq, Repr

namespace Frames

/-- The next return address. A walk that cannot go on ends for good. -/
def next (f : Frames) (w : Walker) : Yield :=
  if f.depth < f.maxDepth then
    let s := f.cursor.step w
    let cursor := f.cursor.after s
    if s.recovered then
      let moved : Frames := ⟨cursor, f.depth + 1, f.maxDepth⟩
      if 0 < moved.depth then ⟨some s.context.pc, s.loads, moved⟩
      else
        let later := moved.next w
        { later with loads := s.loads ++ later.loads }
    else ⟨none, s.loads, ⟨cursor, f.depth, f.depth⟩⟩
  else ⟨none, [], f⟩
termination_by (f.maxDepth - f.depth).toNat
decreasing_by omega

def yields (w : Walker) : Nat → Frames → List Yield
  | 0, _ => []
  | n + 1, f => f.next w :: yields w n (f.next w).frames

/-- Fills the front of a buffer with return addresses until it is full or the walk ends. -/
def fill (w : Walker) : List UInt64 → Frames → List UInt64 × Frames
  | [], f => ([], f)
  | slot :: rest, f =>
    let y := f.next w
    match y.pc with
    | none => (slot :: rest, y.frames)
    | some pc =>
      let (filled, last) := fill w rest y.frames
      (pc :: filled, last)

end Frames

namespace Walker

/-- A walk from a context that passes over `skip` frames and then yields at most `maxDepth` return
addresses. Both numbers are taken as signed. -/
def frames (w : Walker) (ctx : Context) (maxDepth skip : UInt64) : Frames :=
  ⟨.start w.limits ctx, -skip.toInt64.toInt, maxDepth.toInt64.toInt⟩

/-- Fills a buffer with the return addresses above a context, passing over `skip` frames first. Also
the depth reached: the number of addresses stored, or what is missing to the first. -/
def walk (w : Walker) (ctx : Context) (buffer : List UInt64) (skip : UInt64) :
    List UInt64 × Int :=
  let (filled, last) := Frames.fill w buffer (w.frames ctx buffer.length.toUInt64 skip)
  (filled, last.depth)

/-- Fills a buffer from an interrupted context: its pc, then the return addresses. Also the number
of addresses stored. Without a context nothing is stored. -/
def walkInterrupted (w : Walker) (interrupted : Option Context) (buffer : List UInt64) :
    List UInt64 × Nat :=
  match interrupted, buffer with
  | some ctx, _ :: rest =>
    let (filled, depth) := w.walk ctx rest 0
    (ctx.pc :: filled, 1 + depth.toNat)
  | _, _ => (buffer, 0)

/-- Fills a buffer from the place where the trace is asked for, whose own frame is passed over. -/
def trace (w : Walker) (captured : Context) (buffer : List UInt64) : List UInt64 × Nat :=
  let (filled, depth) := w.walk captured buffer 1
  (filled, depth.toNat)

/-- As `walkInterrupted`, except that a context has to be given. -/
def traceInterrupted (w : Walker) (interrupted : Option Context) (buffer : List UInt64) :
    Except Error (List UInt64 × Nat) :=
  match interrupted with
  | none => .error .noContext
  | some ctx => .ok (w.walkInterrupted (some ctx) buffer)

end Walker

end Unwind
