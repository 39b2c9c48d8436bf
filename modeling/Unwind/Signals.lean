import Unwind.Error
import Unwind.GuardedLoad
import Unwind.Log

/-!
# Signals — what a process does about a segmentation fault

The tracer installs a fault handler once and keeps the action that was in place before. Its handler
answers faults of the guarded load and passes all others on to that action. An action that nobody
else has taken is passed on by restoring the default and raising the signal again, which ends the
process once the handler has returned.
-/

namespace Unwind

def segmentationFault : Int := 11

inductive SignalAction where
  | default
  | ignore
  /-- the foreign handler at an address runs; `detailed` if it takes all three arguments and not
  only the number -/
  | foreign (handler : UInt64) (detailed : Bool)
  | guard
deriving DecidableEq, Repr

/-- A call of a foreign handler: its address, the number, and for a detailed one whether there was
information and a context. -/
structure ForeignCall where
  handler : UInt64
  number : Int
  details : Option (Bool × Bool)
deriving DecidableEq, Repr

structure Signals where
  action : SignalAction
  /-- the action that was in place before the tracer's handler, once that has been installed -/
  saved : Option SignalAction
  /-- whether the tracer has tried to install its handler -/
  attempted : Bool
  /-- whether it has succeeded, so that the guarded load is protected -/
  installed : Bool
  errno : Int32
  /-- the calls of foreign handlers so far, the latest first -/
  calls : List ForeignCall
  /-- whether a segmentation fault has been raised and not been delivered -/
  pending : Bool
deriving DecidableEq, Repr

namespace Signals

def new (action : SignalAction) : Signals := ⟨action, none, false, false, 0, [], false⟩

/-- Installs the tracer's handler, and what there is to report. Only the first time does anything.
`refusal` is the error number with which the system refuses, if it does. -/
def install (s : Signals) (refusal : Option Int32) : List LogLine × Signals :=
  if s.attempted then ([], s)
  else
    match refusal with
    | none =>
      ([], { s with
        action := .guard, saved := some s.action, attempted := true, installed := true })
    | some errno =>
      let line := "failed to install fault handler: errno " ++ toString errno.toInt
      ([⟨.warn, line⟩], { s with attempted := true, errno })

/-- How an attempt to install the handler has ended, the first or a later one. -/
def installation (s : Signals) : Except Error Unit :=
  if s.installed then .ok () else .error (.handlerRefused s.errno)

/-- Passes a signal on to the action that was in place before. Only segmentation faults are passed
on. -/
def chain (s : Signals) (number : Int) (info context : Bool) : Signals :=
  if number == segmentationFault then
    match s.saved with
    | some (.foreign handler true) =>
      { s with calls := ⟨handler, number, some (info, context)⟩ :: s.calls }
    | some (.foreign handler false) => { s with calls := ⟨handler, number, none⟩ :: s.calls }
    -- Raised while it is being handled, the signal stays pending until the handler has returned.
    | _ => { s with action := .default, pending := true }
  else s

/-- The tracer's handler: the registers with which the process goes on, and the state after it. -/
def handle (s : Signals) (g : GuardedLoad) (number : Int) (info : Bool)
    (file : Option RegisterFile) : Option RegisterFile × Signals :=
  match file.bind g.resume? with
  | some resumed => (some resumed, s)
  | none => (file, s.chain number info file.isSome)

/-- A segmentation fault of the process at the given registers: how it goes on, or nothing if it
ends. -/
def deliver (s : Signals) (g : GuardedLoad) (file : RegisterFile) :
    Option (RegisterFile × Signals) :=
  match s.action with
  | .default => none
  | .ignore => none
  | .foreign handler detailed =>
    let details := if detailed then some (true, true) else none
    some (file, { s with calls := ⟨handler, segmentationFault, details⟩ :: s.calls })
  | .guard =>
    match s.handle g segmentationFault true (some file) with
    | (after, s) => if s.pending then none else some (after.getD file, s)

/-- The registers at the load of a call: the address is the first argument. -/
def atLoad (g : GuardedLoad) (file : RegisterFile) (address : UInt64) : RegisterFile :=
  (Architecture.amd64.setPc file g.entry).set "rdi" address

/-- The word at an address, as a call of the guarded load with the given registers gives it.
`memory` is nothing where nothing can be read. Without the handler nothing is read at all. -/
def load (s : Signals) (g : GuardedLoad) (memory : UInt64 → Option UInt64) (file : RegisterFile)
    (address : UInt64) : Option (UInt64 × Signals) :=
  if s.installed then
    match memory address with
    | some word => some (word, s)
    | none =>
      (s.deliver g (atLoad g file address)).map fun (after, s) =>
        (after Architecture.amd64.result, s)
  else some (0, s)

end Signals

end Unwind
