import Unwind.Pointer

/-!
# Instruction — call-frame instructions

Call-frame instructions describe, function by function, how the frame changes as the code runs. This
module gives them as data and reads them from their byte form. Operands are kept as they are stored:
scaling by the alignment factors and all checks of range belong to the machine that runs them. A
program is read up to its end or up to the first byte that is wrong.
-/

namespace Unwind

inductive Instruction where
  | nop
  | setLoc (target : UInt64)
  /-- moves forward by a number of code units -/
  | advance (delta : UInt32)
  /-- a register is stored at a multiple of the stack unit -/
  | offset (register : UInt64) (units : UInt64)
  | offsetSigned (register : UInt64) (units : Int64)
  | offsetNegated (register : UInt64) (units : UInt64)
  /-- a register is again where the common entry put it -/
  | restore (register : UInt64)
  | undefined (register : UInt64)
  | sameValue (register : UInt64)
  | inRegister (register : UInt64) (holder : UInt64)
  | rememberState
  | restoreState
  /-- the CFA is a register plus an offset in bytes -/
  | defCfa (register : UInt64) (offset : UInt64)
  /-- the CFA is a register plus a signed multiple of the stack unit -/
  | defCfaSigned (register : UInt64) (units : Int64)
  | defCfaRegister (register : UInt64)
  | defCfaOffset (offset : UInt64)
  | defCfaOffsetSigned (units : Int64)
  | defCfaExpression (expression : Section)
  | expression (register : UInt64) (expression : Section)
  | valOffset (register : UInt64) (units : UInt64)
  | valExpression (register : UInt64) (expression : Section)
  | windowSave
  | argsSize (size : UInt64)
deriving DecidableEq, Repr

namespace Instruction

/-- An expression: a length and that many bytes. -/
def readBlock : Reader Section := do
  let length ← Reader.uleb128
  Reader.split length.toNat

def unary (make : UInt64 → Instruction) : Reader Instruction :=
  return make (← Reader.uleb128)

def binary (make : UInt64 → UInt64 → Instruction) : Reader Instruction := do
  let first ← Reader.uleb128
  return make first (← Reader.uleb128)

def withSigned (make : UInt64 → Int64 → Instruction) : Reader Instruction := do
  let register ← Reader.uleb128
  return make register (← Reader.sleb128)

def withBlock (make : UInt64 → Section → Instruction) : Reader Instruction := do
  let register ← Reader.uleb128
  return make register (← readBlock)

/-- The operands of an instruction whose whole first byte is its opcode. Addresses of code are
stored in `encoding`. -/
def readOperands (encoding opcode : UInt8) : Reader Instruction :=
  match opcode.toNat with
  | 0x00 => return nop
  | 0x01 => return setLoc (← Reader.pointer encoding 0)
  | 0x02 => return advance (← Reader.uint8).toUInt32
  | 0x03 => return advance (← Reader.uint16).toUInt32
  | 0x04 => return advance (← Reader.uint32)
  | 0x05 => binary offset
  | 0x06 => unary restore
  | 0x07 => unary undefined
  | 0x08 => unary sameValue
  | 0x09 => binary inRegister
  | 0x0a => return rememberState
  | 0x0b => return restoreState
  | 0x0c => binary defCfa
  | 0x0d => unary defCfaRegister
  | 0x0e => unary defCfaOffset
  | 0x0f => return defCfaExpression (← readBlock)
  | 0x10 => withBlock expression
  | 0x11 => withSigned offsetSigned
  | 0x12 => withSigned defCfaSigned
  | 0x13 => return defCfaOffsetSigned (← Reader.sleb128)
  | 0x14 => binary valOffset
  | 0x15 => binary valOffset
  | 0x16 => withBlock valExpression
  | 0x2d => return windowSave
  | 0x2e => unary argsSize
  | 0x2f => binary offsetNegated
  | _ => throw (.unknownOpcode opcode)

/-- What follows the first byte of an instruction. Three frequent instructions carry an operand in
the low six bits of that byte. -/
def readAfter (encoding opcode : UInt8) : Reader Instruction :=
  let low := opcode &&& 0x3f
  match (opcode &&& 0xc0).toNat with
  | 0x40 => return advance low.toUInt32
  | 0x80 => return offset low.toUInt64 (← Reader.uleb128)
  | 0xc0 => return restore low.toUInt64
  | _ => readOperands encoding opcode

def read (encoding : UInt8) : Reader Instruction := do
  readAfter encoding (← Reader.uint8)

end Instruction

namespace Consumes

theorem ofBlock : Consumes Instruction.readBlock :=
  ofBind ofUleb128 fun _ => ofSplit _

theorem ofUnary (make : UInt64 → Instruction) : Consumes (Instruction.unary make) :=
  ofBind ofUleb128 fun _ => ofPure _

theorem ofBinary (make : UInt64 → UInt64 → Instruction) : Consumes (Instruction.binary make) :=
  ofBind ofUleb128 fun _ => ofBind ofUleb128 fun _ => ofPure _

theorem ofWithSigned (make : UInt64 → Int64 → Instruction) :
    Consumes (Instruction.withSigned make) :=
  ofBind ofUleb128 fun _ => ofBind ofSleb128 fun _ => ofPure _

theorem ofWithBlock (make : UInt64 → Section → Instruction) :
    Consumes (Instruction.withBlock make) :=
  ofBind ofUleb128 fun _ => ofBind ofBlock fun _ => ofPure _

theorem ofOperands (encoding opcode : UInt8) :
    Consumes (Instruction.readOperands encoding opcode) := by
  unfold Instruction.readOperands
  split
  · exact ofPure _
  · exact ofBind (ofPointer encoding 0) fun _ => ofPure _
  · exact ofBind ofUint8 fun _ => ofPure _
  · exact ofBind ofUint16 fun _ => ofPure _
  · exact ofBind ofUint32 fun _ => ofPure _
  · exact ofBinary _
  · exact ofUnary _
  · exact ofUnary _
  · exact ofUnary _
  · exact ofBinary _
  · exact ofPure _
  · exact ofPure _
  · exact ofBinary _
  · exact ofUnary _
  · exact ofUnary _
  · exact ofBind ofBlock fun _ => ofPure _
  · exact ofWithBlock _
  · exact ofWithSigned _
  · exact ofWithSigned _
  · exact ofBind ofSleb128 fun _ => ofPure _
  · exact ofBinary _
  · exact ofBinary _
  · exact ofWithBlock _
  · exact ofPure _
  · exact ofUnary _
  · exact ofBinary _
  · exact ofThrow _

theorem ofAfter (encoding opcode : UInt8) : Consumes (Instruction.readAfter encoding opcode) := by
  unfold Instruction.readAfter
  split
  · exact ofPure _
  · exact ofBind ofUleb128 fun _ => ofPure _
  · exact ofPure _
  · exact ofOperands encoding opcode

/-- A reader that starts with a byte leaves fewer bytes than it was given. -/
theorem size_lt_of_uint8 {α : Type} {f : UInt8 → Reader α} (hf : ∀ b, Consumes (f b))
    {s t : Section} {a : α} (h : (Reader.uint8 >>= f) s = .ok a t) : t.size < s.size := by
  cases hb : Reader.uint8 s with
  | ok b u =>
    have hu := Reader.size_of_uint8 hb
    simp only [bind, EStateM.bind, hb] at h
    have ht := (hf b).size_le h
    omega
  | error e u => simp [bind, EStateM.bind, hb] at h

end Consumes

namespace Instruction

theorem size_lt_of_read {encoding : UInt8} {s t : Section} {i : Instruction}
    (h : read encoding s = .ok i t) : t.size < s.size :=
  Consumes.size_lt_of_uint8 (Consumes.ofAfter encoding) h

/-- A run of instructions, and the error at which reading stopped short of the end, if it did. -/
structure Program where
  instructions : List Instruction
  error : Option CfiError
deriving Repr

def Program.cons (i : Instruction) (p : Program) : Program :=
  { p with instructions := i :: p.instructions }

def program (encoding : UInt8) (code : Section) : Program :=
  if code.bytes.isEmpty then ⟨[], none⟩
  else
    match _h : read encoding code with
    | .ok i rest => (program encoding rest).cons i
    | .error e _ => ⟨[], some e⟩
termination_by code.size
decreasing_by exact size_lt_of_read _h

end Instruction

end Unwind
