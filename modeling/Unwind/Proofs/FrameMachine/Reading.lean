import Unwind.Proofs.FrameMachine.Track
import Unwind.Proofs.Reader.Exact

/-!
# Reading directives exactly

The operands of a directive are numbers of any size. `Directive.read` takes a directive from the
front of a section with its operands as they are, and `Says` reads a whole program so. The
instructions that a program is read as stand for its directives one by one (`says_of_program`);
what may differ are signed operands, which are cut to a word.
-/

namespace Unwind

namespace FrameMachine

namespace Directive

def readBlock : Reader Bytes := do
  let length ← Reader.natural
  return (← Reader.split length).bytes

def unary (make : Nat → Directive) : Reader (Option Directive) :=
  return some (make (← Reader.natural))

def binary (make : Nat → Nat → Directive) : Reader (Option Directive) := do
  let first ← Reader.natural
  return some (make first (← Reader.natural))

def withSigned (make : Nat → Int → Directive) : Reader (Option Directive) := do
  let register ← Reader.natural
  return some (make register (← Reader.integer))

def withBlock (make : Nat → Bytes → Directive) : Reader (Option Directive) := do
  let register ← Reader.natural
  return some (make register (← readBlock))

/-- The directive whose whole first byte is its opcode; nothing for those that say nothing. -/
def readOperands (encoding opcode : UInt8) : Reader (Option Directive) :=
  match opcode.toNat with
  | 0x00 => return none
  | 0x01 => return some (.setLoc (← Reader.pointer encoding 0).toNat)
  | 0x02 => return some (.advance (← Reader.uint8).toNat)
  | 0x03 => return some (.advance (← Reader.uint16).toNat)
  | 0x04 => return some (.advance (← Reader.uint32).toNat)
  | 0x05 => binary fun r units => .offset r units
  | 0x06 => unary .restore
  | 0x07 => unary .undefined
  | 0x08 => unary .sameValue
  | 0x09 => binary .inRegister
  | 0x0a => return some .rememberState
  | 0x0b => return some .restoreState
  | 0x0c => binary .defCfa
  | 0x0d => unary .defCfaRegister
  | 0x0e => unary .defCfaOffset
  | 0x0f => return some (.defCfaExpression (← readBlock))
  | 0x10 => withBlock .expression
  | 0x11 => withSigned .offset
  | 0x12 => withSigned .defCfaSigned
  | 0x13 => return some (.defCfaOffsetSigned (← Reader.integer))
  | 0x14 => binary fun r units => .valOffset r units
  | 0x15 => withSigned .valOffset
  | 0x16 => withBlock .valExpression
  | 0x2d => return none
  | 0x2e => do
    let _ ← Reader.natural
    return none
  | 0x2f => binary .offsetNegated
  | _ => throw (.unknownOpcode opcode)

/-- What follows the first byte; it may carry an operand in its low six bits. -/
def readAfter (encoding opcode : UInt8) : Reader (Option Directive) :=
  let low := opcode &&& 0x3f
  match (opcode &&& 0xc0).toNat with
  | 0x40 => return some (.advance low.toNat)
  | 0x80 => return some (.offset low.toNat (← Reader.natural))
  | 0xc0 => return some (.restore low.toNat)
  | _ => readOperands encoding opcode

def read (encoding : UInt8) : Reader (Option Directive) := do
  readAfter encoding (← Reader.uint8)

end Directive

/-- The bytes of a section are the directives, one behind the other. -/
inductive Says (encoding : UInt8) : Section → List Directive → Prop
  | nil {s} (h : s.bytes = []) : Says encoding s []
  | silent {s t ds} (h : Directive.read encoding s = .ok none t) (rest : Says encoding t ds) :
      Says encoding s ds
  | cons {s t d ds} (h : Directive.read encoding s = .ok (some d) t) (rest : Says encoding t ds) :
      Says encoding s (d :: ds)

theorem read_of_empty {encoding : UInt8} {s t : Section} {d? : Option Directive}
    (hempty : s.bytes = []) : Directive.read encoding s ≠ .ok d? t := by
  obtain ⟨a, bytes⟩ := s
  cases hempty
  intro h
  cases h

theorem Says.unique {encoding : UInt8} {s : Section} {ds es : List Directive}
    (h : Says encoding s ds) (h' : Says encoding s es) : ds = es := by
  induction h generalizing es with
  | nil hempty =>
    cases h' with
    | nil _ => rfl
    | silent hread _ => exact absurd hread (read_of_empty hempty)
    | cons hread _ => exact absurd hread (read_of_empty hempty)
  | silent hread _ ih =>
    cases h' with
    | nil hempty => exact absurd hread (read_of_empty hempty)
    | silent hread' rest' =>
      cases hread.symm.trans hread'
      exact ih rest'
    | cons hread' rest' => cases hread.symm.trans hread'
  | cons hread _ ih =>
    cases h' with
    | nil hempty => exact absurd hread (read_of_empty hempty)
    | silent hread' rest' => cases hread.symm.trans hread'
    | cons hread' rest' =>
      cases hread.symm.trans hread'
      rw [ih rest']

/-! ## Single instructions -/

/-- The instruction is what is read where the directive is written. -/
inductive Stands : Instruction → Option Directive → Prop
  | same (i : Instruction) : Stands i (directive? i)
  -- Signed operands are cut to a word.
  | offsetSigned (r : UInt64) (z : Int) :
      Stands (.offsetSigned r (Int64.ofInt z)) (some (.offset r.toNat z))
  | defCfaSigned (r : UInt64) (z : Int) :
      Stands (.defCfaSigned r (Int64.ofInt z)) (some (.defCfaSigned r.toNat z))
  | defCfaOffsetSigned (z : Int) :
      Stands (.defCfaOffsetSigned (Int64.ofInt z)) (some (.defCfaOffsetSigned z))
  -- This one is read without its sign.
  | valOffset (r u : UInt64) (z : Int) : Stands (.valOffset r u) (some (.valOffset r.toNat z))

theorem follows_block :
    Follows (fun s bytes => bytes = s.bytes) Instruction.readBlock Directive.readBlock := by
  apply Follows.natural.bind
  rintro u _ rfl
  exact (Follows.refl _).mapExact fun _ _ h => h ▸ rfl

theorem follows_unary {make : UInt64 → Instruction} {makeD : Nat → Directive}
    (h : ∀ u, Stands (make u) (some (makeD u.toNat))) :
    Follows Stands (Instruction.unary make) (Directive.unary makeD) := by
  apply Follows.natural.map
  rintro u _ rfl
  exact h u

theorem follows_binary {make : UInt64 → UInt64 → Instruction} {makeD : Nat → Nat → Directive}
    (h : ∀ u v, Stands (make u v) (some (makeD u.toNat v.toNat))) :
    Follows Stands (Instruction.binary make) (Directive.binary makeD) := by
  apply Follows.natural.bind
  rintro u _ rfl
  apply Follows.natural.map
  rintro v _ rfl
  exact h u v

theorem follows_signed {make : UInt64 → Int64 → Instruction} {makeD : Nat → Int → Directive}
    (h : ∀ u z, Stands (make u (Int64.ofInt z)) (some (makeD u.toNat z))) :
    Follows Stands (Instruction.withSigned make) (Directive.withSigned makeD) := by
  apply Follows.natural.bind
  rintro u _ rfl
  apply Follows.integer.map
  rintro _ z rfl
  exact h u z

theorem follows_withBlock {make : UInt64 → Section → Instruction} {makeD : Nat → Bytes → Directive}
    (h : ∀ u s, Stands (make u s) (some (makeD u.toNat s.bytes))) :
    Follows Stands (Instruction.withBlock make) (Directive.withBlock makeD) := by
  apply Follows.natural.bind
  rintro u _ rfl
  apply follows_block.map
  rintro s _ rfl
  exact h u s

theorem follows_valOffsetSigned :
    Follows Stands (Instruction.binary .valOffset) (Directive.withSigned .valOffset) := by
  apply Follows.natural.bind
  rintro u _ rfl
  -- The signed multiple is read as if it had no sign, which only finds its end.
  exact Follows.integerUnsigned.map fun v z _ => .valOffset u v z

theorem follows_operands (encoding opcode : UInt8) :
    Follows Stands (Instruction.readOperands encoding opcode)
      (Directive.readOperands encoding opcode) := by
  unfold Instruction.readOperands Directive.readOperands
  generalize opcode.toNat = n
  split
  · exact .pure (.same .nop)
  · exact .bindEq fun target => .pure (.same (.setLoc target))
  · exact .bindEq fun b => .pure (.same (.advance b.toUInt32))
  · exact .bindEq fun b => .pure (.same (.advance b.toUInt32))
  · exact .bindEq fun b => .pure (.same (.advance b))
  · exact follows_binary fun u v => .same (.offset u v)
  · exact follows_unary fun u => .same (.restore u)
  · exact follows_unary fun u => .same (.undefined u)
  · exact follows_unary fun u => .same (.sameValue u)
  · exact follows_binary fun u v => .same (.inRegister u v)
  · exact .pure (.same .rememberState)
  · exact .pure (.same .restoreState)
  · exact follows_binary fun u v => .same (.defCfa u v)
  · exact follows_unary fun u => .same (.defCfaRegister u)
  · exact follows_unary fun u => .same (.defCfaOffset u)
  · exact follows_block.map fun s _ h => h ▸ .same (.defCfaExpression s)
  · exact follows_withBlock fun u s => .same (.expression u s)
  · exact follows_signed fun u z => .offsetSigned u z
  · exact follows_signed fun u z => .defCfaSigned u z
  · exact Follows.integer.map fun _ z h => h ▸ .defCfaOffsetSigned z
  · exact follows_binary fun u v => .same (.valOffset u v)
  · exact follows_valOffsetSigned
  · exact follows_withBlock fun u s => .same (.valExpression u s)
  · exact .pure (.same .windowSave)
  · exact Follows.natural.map fun u _ _ => .same (.argsSize u)
  · exact follows_binary fun u v => .same (.offsetNegated u v)
  · exact .throw _ _

section

variable {opcode : UInt8} (encoding : UInt8)

theorem instruction_of_whole (hadvance : (opcode &&& 0xc0).toNat ≠ 0x40)
    (hoffset : (opcode &&& 0xc0).toNat ≠ 0x80) (hrestore : (opcode &&& 0xc0).toNat ≠ 0xc0) :
    Instruction.readAfter encoding opcode = Instruction.readOperands encoding opcode := by
  unfold Instruction.readAfter
  dsimp only
  split
  · exact absurd ‹_› hadvance
  · exact absurd ‹_› hoffset
  · exact absurd ‹_› hrestore
  · rfl

theorem directive_of_whole (hadvance : (opcode &&& 0xc0).toNat ≠ 0x40)
    (hoffset : (opcode &&& 0xc0).toNat ≠ 0x80) (hrestore : (opcode &&& 0xc0).toNat ≠ 0xc0) :
    Directive.readAfter encoding opcode = Directive.readOperands encoding opcode := by
  unfold Directive.readAfter
  dsimp only
  split
  · exact absurd ‹_› hadvance
  · exact absurd ‹_› hoffset
  · exact absurd ‹_› hrestore
  · rfl

end

theorem follows_after (encoding opcode : UInt8) :
    Follows Stands (Instruction.readAfter encoding opcode)
      (Directive.readAfter encoding opcode) := by
  by_cases hadvance : (opcode &&& 0xc0).toNat = 0x40
  · unfold Instruction.readAfter Directive.readAfter
    rw [hadvance]
    exact .pure (.same (.advance (opcode &&& 0x3f).toUInt32))
  by_cases hoffset : (opcode &&& 0xc0).toNat = 0x80
  · unfold Instruction.readAfter Directive.readAfter
    rw [hoffset]
    exact Follows.natural.map fun u _ h => h ▸ .same (.offset (opcode &&& 0x3f).toUInt64 u)
  by_cases hrestore : (opcode &&& 0xc0).toNat = 0xc0
  · unfold Instruction.readAfter Directive.readAfter
    rw [hrestore]
    exact .pure (.same (.restore (opcode &&& 0x3f).toUInt64))
  · -- Without one of these bit patterns the whole byte is the opcode.
    rw [instruction_of_whole encoding hadvance hoffset hrestore,
      directive_of_whole encoding hadvance hoffset hrestore]
    exact follows_operands encoding opcode

theorem follows_read (encoding : UInt8) :
    Follows Stands (Instruction.read encoding) (Directive.read encoding) :=
  .bindEq fun opcode => follows_after encoding opcode

/-! ## Programs -/

/-- The instructions stand for the directives. -/
inductive StandAll : List Instruction → List Directive → Prop
  | nil : StandAll [] []
  | silent {i is ds} (h : Stands i none) (rest : StandAll is ds) : StandAll (i :: is) ds
  | cons {i d is ds} (h : Stands i (some d)) (rest : StandAll is ds) :
      StandAll (i :: is) (d :: ds)

/-- A program that is read to its end has directives, and is read as what stands for them. -/
theorem says_of_program {encoding : UInt8} {s : Section}
    (h : (Instruction.program encoding s).error = none) :
    ∃ ds, Says encoding s ds ∧ StandAll (Instruction.program encoding s).instructions ds := by
  fun_induction Instruction.program encoding s with
  | case1 s hempty => exact ⟨[], .nil (List.isEmpty_iff.mp hempty), .nil⟩
  | case2 s hempty i rest hread ih =>
    obtain ⟨d?, hd, hstands⟩ := follows_read encoding s i rest hread
    obtain ⟨ds, hsays, hall⟩ := ih h
    cases d? with
    | none => exact ⟨ds, .silent hd hsays, .silent hstands hall⟩
    | some d => exact ⟨d :: ds, .cons hd hsays, .cons hstands hall⟩
  | case3 s hempty e rest hread => cases h

end FrameMachine

end Unwind
