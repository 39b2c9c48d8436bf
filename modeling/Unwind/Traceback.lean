import Unwind.Snapshot
import Unwind.Walk

/-!
# Traceback — the stack requests of a host

A host asks for native stacks in two ways. With a context request it has the present stack put aside
and gets a handle, or gives a handle back. With a traceback request it has a buffer filled with a
stack: one that was put aside, one that a signal interrupted, or the present one. `captured` is
always the context inside the tracer at the time of the request; the frames that belong to the
tracer and to the host's glue are passed over.
-/

namespace Unwind

/-- The frames between the host's signal handler and a traceback request. -/
def trampolineFrames : UInt64 := 2

/-- The frames between the host and the snapshot that a context request takes. -/
def glueFrames : UInt64 := 2

/-- The frames of the tracer itself in a snapshot. -/
def snapshotFrames : UInt64 := 2

structure Tracer where
  walker : Walker
  enabled : Bool

structure TracebackRequest where
  /-- the handle of a snapshot, or zero -/
  context : UInt64
  interrupted : Option Context
  buffer : Option (List UInt64)
deriving DecidableEq, Repr

namespace Tracer

/-- Puts the stack above `captured` aside without its first `skip` frames. -/
def acquire (t : Tracer) (p : Pool) (captured : Context) (skip : UInt64) : Option (Handle × Pool) :=
  let buffer := List.replicate snapshotCapacity 0
  let (stack, depth) := t.walker.walk captured buffer (skip + snapshotFrames)
  p.acquire t.enabled stack depth.toNat

/-- Serves a context request: the request as it is left, and the pool. Zero asks for a snapshot and
is replaced by its handle, or stays zero if none could be taken. Anything else is a handle to be
given back. -/
def context (t : Tracer) (p : Pool) (captured : Context) (request : Option UInt64) :
    Option UInt64 × Pool :=
  match request with
  | none => (none, p)
  | some word =>
    match Handle.ofRaw? word with
    | some h => (some word, p.release h)
    | none =>
      match t.acquire p captured glueFrames with
      | some (h, p) => (some h.raw, p)
      | none => (some 0, p)

/-- Fills a buffer with the stack that a request asks for. Also the number of words stored. -/
def fill (t : Tracer) (p : Pool) (captured : Context) (request : TracebackRequest)
    (buffer : List UInt64) : List UInt64 × Nat :=
  if t.enabled then
    match Handle.ofRaw? request.context with
    | some h => p.replay t.enabled h buffer
    | none =>
      match request.interrupted with
      | some ctx => t.walker.walkInterrupted (some ctx) buffer
      | none =>
        let (filled, depth) := t.walker.walk captured buffer trampolineFrames
        (filled, depth.toNat)
  else (buffer, 0)

/-- Serves a traceback request: the request with its buffer filled, and the pool. A zero follows the
last address unless the buffer is full. Without a buffer, or with an empty one, nothing happens. -/
def traceback (t : Tracer) (p : Pool) (captured : Context) (request : Option TracebackRequest) :
    Option TracebackRequest × Pool :=
  match request with
  | none => (none, p)
  | some r =>
    match r.buffer with
    | none => (some r, p)
    | some [] => (some r, p)
    | some buffer =>
      let (filled, n) := t.fill p captured r buffer
      (some { r with buffer := some (if n < buffer.length then filled.set n 0 else filled) }, p)

end Tracer

end Unwind
