import Unwind.LoadedObject
import Unwind.Settings
import Unwind.Signals
import Unwind.Traceback

/-!
# Host — the process that is traced, from its start

Before the tracer has started, guarded loads read nothing, no module is known and the default limits
hold. Starting it applies the settings, installs the fault handler and registers the loaded objects,
in this order and only once.
-/

namespace Unwind

structure Host where
  limits? : Option Limits
  enabled : Bool
  signals : Signals
  code : Option CodeMap
  log : List LogLine

namespace Host

/-- A process in which the tracer has not started, with the given action for segmentation faults. -/
def new (action : SignalAction) : Host :=
  ⟨none, true, .new action, none, []⟩

def limits (p : Host) : Limits := p.limits?.getD .default

/-- Installs the fault handler, which the system may refuse, and tells whether it is in place. -/
def install (p : Host) (refusal : Option Int32) : Except Error Unit × Host :=
  let (log, signals) := p.signals.install refusal
  (signals.installation, { p with signals, log := p.log ++ log })

/-- Starts the tracer. Later calls change nothing. -/
def start (p : Host) (settings : Settings) (refusal : Option Int32) (memory : UInt64 → UInt8)
    (objects : List LoadedObject) : Host :=
  match p.code with
  | some _ => p
  | none =>
    -- Without the handler the tracer still starts, and its loads read zero.
    let p := (p.install refusal).2
    let (log, code) := LoadedObject.register memory objects
    { p with
      limits? := p.limits?.or (some settings.limits)
      enabled := settings.enabled
      code := some code
      log := p.log ++ log }

/-- Switches requests on or off. A host passes a number of which only zero means off. -/
def setEnabled (p : Host) (value : Int32) : Host :=
  { p with enabled := value != 0 }

/-- The memory that a walk sees: without the fault handler every word reads as zero. -/
def guarded (p : Host) (memory : Memory) : Memory := fun a =>
  if p.signals.installed then memory a else 0

def tracer (p : Host) (memory : Memory) : Tracer where
  walker := ⟨p.code, p.limits, p.guarded memory⟩
  enabled := p.enabled

end Host

end Unwind
