import Unwind.Fde
import Unwind.PcExpression

/-!
# RuleTable — from call-frame instructions to rules

The machine of this module runs the instructions of a function and yields a rule wherever the
location moves. Only the CFA and the frame pointer are tracked. A builder collects the rules of many
functions; each function is closed by the default rule. Rules that are yielded before a function
turns out to be broken are taken back (`Builder.rollback`).
-/

namespace Unwind

/-- What the machine needs to know of the function it runs. -/
structure Frame where
  /-- the address that locations are relative to -/
  imageBase : UInt64
  codeAlign : UInt32
  dataAlign : Int32
  /-- the row that a restored register goes back to -/
  initial : Row
deriving Repr

structure FrameState where
  loc : UInt32
  row : Row
  /-- the rows put aside, the latest first -/
  remembered : List Row
deriving DecidableEq, Repr

namespace Row

/-- The row after a register has been given another place; only the frame pointer shows. -/
def setFp (row : Row) (register : UInt64) (fp : FpRule) : Row :=
  if register == Column.fp.number then { row with fp } else row

end Row

/-- The length of the expression with which compilers describe the stubs of the procedure linkage
table. -/
def pltExpressionSize : Nat := 11

namespace Frame

def scaled (f : Frame) (units : Int) : Except CfiError Int32 :=
  fitOffset (units * f.dataAlign.toInt)

def scaledUnsigned (f : Frame) (units : UInt64) : Except CfiError Int32 := do
  f.scaled (← fitInt64 units.toNat)

def bytesOffset (n : UInt64) : Except CfiError Int32 := do
  fitOffset (← fitInt64 n.toNat)

def destination? (f : Frame) (loc : UInt32) : Instruction → Option UInt32
  -- Both operations wrap: a program that runs past the image gets wrong locations and no error.
  | .advance delta => some (loc + delta * f.codeAlign)
  | .setLoc target => some (target - f.imageBase).toUInt32
  | _ => none

def changeRow (f : Frame) (row : Row) : Instruction → Except CfiError Row
  | .offset register units => return row.setFp register (.saved (← f.scaledUnsigned units))
  | .offsetSigned register units => return row.setFp register (.saved (← f.scaled units.toInt))
  | .offsetNegated register units => do
    let offset ← f.scaledUnsigned units
    return row.setFp register (.saved (← fitOffset (-offset.toInt)))
  | .restore register => return row.setFp register f.initial.fp
  -- Where the frame pointer was not put on the stack the walk goes on with the one it has.
  | .undefined register => return row.setFp register .unchanged
  | .sameValue register => return row.setFp register .unchanged
  | .inRegister register _ => return row.setFp register .unchanged
  | .expression register _ => return row.setFp register .unchanged
  | .valExpression register expression => do
    -- Only a value for the return address is of use; what the expression gives for others is not.
    if register == Column.pc.number then
      match ← PcExpression.recognise expression with
      | some delta => return { row with fp := .pcRelative delta }
      | none => return row
    else return row
  | .defCfa register offset =>
    return { row with base := .ofColumn register, offset := ← bytesOffset offset }
  | .defCfaSigned register units =>
    return { row with base := .ofColumn register, offset := ← f.scaled units.toInt }
  | .defCfaRegister register => return { row with base := .ofColumn register }
  | .defCfaOffset offset => return { row with offset := ← bytesOffset offset }
  | .defCfaOffsetSigned units => return { row with offset := ← f.scaled units.toInt }
  | .defCfaExpression expression =>
    if expression.size == pltExpressionSize then return { row with base := .plt, offset := 8 }
    else return { row with base := .unsupported }
  | _ => return row

/-- One instruction: the rule that ends because the location moves, if it does, and the next
state. -/
def step (f : Frame) (state : FrameState) (i : Instruction) :
    Except CfiError (Option Rule × FrameState) :=
  match i with
  | .rememberState => .ok (none, { state with remembered := state.row :: state.remembered })
  | .restoreState =>
    match state.remembered with
    | [] => .error .nothingRemembered
    | row :: older => .ok (none, { state with row, remembered := older })
  | i =>
    match f.destination? state.loc i with
    | some loc => .ok (some ⟨state.loc, state.row⟩, { state with loc })
    | none => do return (none, { state with row := ← f.changeRow state.row i })

/-- Runs instructions: the rules that ended on the way, and the last state or the error at which
the run stopped. -/
def runList (f : Frame) : List Instruction → FrameState → List Rule × Except CfiError FrameState
  | [], state => ([], .ok state)
  | i :: rest, state =>
    match f.step state i with
    | .error e => ([], .error e)
    | .ok (ended, state) =>
      let (rules, last) := f.runList rest state
      (ended.toList ++ rules, last)

/-- Runs a program. If reading it stopped at an error, so does the run, provided it gets there. -/
def run (f : Frame) (p : Instruction.Program) (state : FrameState) :
    List Rule × Except CfiError FrameState :=
  match f.runList p.instructions state, p.error with
  | (rules, .ok _), some e => (rules, .error e)
  | result, _ => result

end Frame

namespace Fde

/-- The row with which the functions of a common entry start. -/
def initialRow (imageBase : UInt64) (start : UInt32) (cie : Cie) : Except CfiError Row :=
  let frame : Frame := ⟨imageBase, cie.codeAlign, cie.dataAlign, .atEntry⟩
  let program := Instruction.program cie.pointerEncoding cie.instructions
  match (frame.run program ⟨start, .atEntry, []⟩).2 with
  | .ok state => .ok state.row
  | .error e => .error e

/-- The rules of a function in the order in which they arise, and the error at which they stopped,
if they did. -/
def rules (imageBase : UInt64) (start : UInt32) (fde : Fde) (cie : Cie) :
    List Rule × Option CfiError :=
  match initialRow imageBase start cie with
  | .error e => ([], some e)
  | .ok row =>
    let frame : Frame := ⟨imageBase, cie.codeAlign, cie.dataAlign, row⟩
    let program := Instruction.program cie.pointerEncoding fde.instructions
    match frame.run program ⟨start, row, []⟩ with
    | (rules, .ok state) => (rules ++ [⟨state.loc, state.row⟩], none)
    | (rules, .error e) => (rules, some e)

end Fde

namespace RuleTable

/-- Appends a rule. One at the location of the last replaces it, one that changes nothing is
dropped. -/
def record (rules : Array Rule) (r : Rule) : Array Rule :=
  match rules.back? with
  | none => rules.push r
  | some last =>
    if last.loc == r.loc then rules.pop.push r
    else if last.sameUnwind r then rules
    else rules.push r

structure Builder where
  imageBase : UInt64
  rules : Array Rule
deriving Repr

namespace Builder

def new (imageBase : UInt64) : Builder := ⟨imageBase, #[]⟩

/-- What has to be kept to take back everything that is recorded from now on: recording appends, or
overwrites the last rule, and never touches those before it. -/
structure Savepoint where
  size : Nat
  last : Option Rule

def savepoint (b : Builder) : Savepoint :=
  ⟨b.rules.size, b.rules.back?⟩

def rollback (b : Builder) (mark : Savepoint) : Builder :=
  let kept := b.rules.shrink mark.size
  match mark.last with
  | none => { b with rules := kept }
  | some last => { b with rules := kept.pop.push last }

def recordAll (b : Builder) (rules : List Rule) : Builder :=
  { b with rules := rules.foldl record b.rules }

/-- Adds the rules of a function, followed by the default rule at its end. Of a function that is
broken nothing is kept. Locations are cut to 32 bits. -/
def add (b : Builder) (fde : Fde) (cie : Cie) : Builder × Except CfiError Unit :=
  if fde.pcStart < b.imageBase then (b, .error (.belowImage fde.pcStart))
  else
    let start := (fde.pcStart - b.imageBase).toUInt32
    let stop := start + (fde.pcStop - fde.pcStart).toUInt32
    let mark := b.savepoint
    match fde.rules b.imageBase start cie with
    -- A function that starts right here replaces the closing rule by its own first one.
    | (rules, none) => ((b.recordAll rules).recordAll [Rule.default.movedTo stop], .ok ())
    | (rules, some e) => ((b.recordAll rules).rollback mark, .error e)

/-- The finished table, sorted by location; rules of one location keep their order. -/
def finish (b : Builder) : Array Rule :=
  (b.rules.toList.mergeSort fun r s => decide (r.loc ≤ s.loc)).toArray

end Builder

end RuleTable

end Unwind
