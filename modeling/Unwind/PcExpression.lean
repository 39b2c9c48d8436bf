import Unwind.Instruction
import Unwind.Rule

/-!
# PcExpression — expressions of the form pc plus constant

Some hand-written code says that the caller's pc is the current pc plus a constant, as an expression
that reads the pc and adds to it. `PcExpression.recognise` finds the constant of such an expression;
of every other expression it says that it is not one.
-/

namespace Unwind

/-- The number as a signed 64-bit one, which it has to fit. -/
def fitInt64 (n : Int) : Except CfiError Int :=
  if -0x8000000000000000 ≤ n ∧ n < 0x8000000000000000 then .ok n else .error .offsetRange

def fitOffset (n : Int) : Except CfiError Int32 :=
  if -0x80000000 ≤ n ∧ n < 0x80000000 then .ok (Int32.ofInt n) else .error .offsetRange

namespace PcExpression

inductive Operation where
  | const (value : Int)
  | plusConst (value : UInt64)
  | plus
deriving DecidableEq, Repr

/-- The operands of an operation, or nothing for an operation that is not among those above. -/
def Operation.readAfter (opcode : UInt8) : Reader (Option Operation) :=
  match opcode.toNat with
  | 0x08 => return some (const (← Reader.uint8).toNat)
  | 0x09 => return some (const (← Reader.int8).toInt)
  | 0x0a => return some (const (← Reader.uint16).toNat)
  | 0x0b => return some (const (← Reader.int16).toInt)
  | 0x0c => return some (const (← Reader.uint32).toNat)
  | 0x0d => return some (const (← Reader.int32).toInt)
  | 0x22 => return some plus
  | 0x23 => return some (plusConst (← Reader.uleb128))
  | _ => return none

def Operation.read : Reader (Option Operation) := do
  Operation.readAfter (← Reader.uint8)

theorem Operation.consumes_readAfter (opcode : UInt8) :
    Consumes (Operation.readAfter opcode) := by
  unfold Operation.readAfter
  split
  · exact .ofBind .ofUint8 fun _ => .ofPure _
  · exact .ofBind .ofInt8 fun _ => .ofPure _
  · exact .ofBind .ofUint16 fun _ => .ofPure _
  · exact .ofBind .ofInt16 fun _ => .ofPure _
  · exact .ofBind .ofUint32 fun _ => .ofPure _
  · exact .ofBind .ofInt32 fun _ => .ofPure _
  · exact .ofPure _
  · exact .ofBind .ofUleb128 fun _ => .ofPure _
  · exact .ofPure _

theorem Operation.size_lt_of_read {s t : Section} {o : Option Operation}
    (h : Operation.read s = .ok o t) : t.size < s.size :=
  Consumes.size_lt_of_uint8 Operation.consumes_readAfter h

/-- Runs operations on a stack whose bottom is the pc plus `offset` and whose top, if there is a
second value, is `operand`. The result is the constant that has been added to the pc in the end, or
nothing if the operations do something else. -/
def run (offset : Int) (operand : Option Int) (unread : Section) : Except CfiError (Option Int) :=
  if unread.bytes.isEmpty then .ok (some offset)
  else
    match _h : Operation.read unread with
    | .error e _ => .error e
    | .ok none _ => .ok none
    | .ok (some (.const value)) rest => run offset (some value) rest
    | .ok (some (.plusConst value)) rest => do
      run (← fitInt64 (offset + (← fitInt64 value.toNat))) operand rest
    | .ok (some .plus) rest =>
      match operand with
      | none => .ok none
      | some value => do run (← fitInt64 (offset + value)) none rest
termination_by unread.size
decreasing_by all_goals exact Operation.size_lt_of_read _h

/-- The opcode that puts the pc plus a constant on the stack. -/
def pcOpcode : UInt8 := 0x70 + Column.pc.number.toUInt8

/-- The constant of an expression of the form pc plus constant. -/
def recognise (expression : Section) : Except CfiError (Option Int32) :=
  let start : Reader (Option Int64) := do
    if (← Reader.uint8) == pcOpcode then return some (← Reader.sleb128) else return none
  match start expression with
  | .error e _ => .error e
  | .ok none _ => .ok none
  | .ok (some offset) rest => do
    match ← run offset.toInt none rest with
    | none => .ok none
    | some delta => return some (← fitOffset delta)

end PcExpression

end Unwind
