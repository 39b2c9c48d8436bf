import Unwind.Instruction
import Unwind.Proofs.FrameMachine.Machine
import Unwind.Proofs.Pointer

/-!
# The byte forms of directives

A directive can be written in many ways: in a compact or an extended form, with padded operands,
with bytes between directives that mean nothing. `Written` has them all. Reading a program written
in any of these ways gives instructions that denote its directives (`program_of_written`).
-/

namespace Unwind

namespace Leb128

theorem magnitude_lt (bytes : Bytes) : magnitude bytes < 128 ^ bytes.length := by
  induction bytes with
  | nil => decide
  | cons b rest ih =>
    have hb := Nat.mod_lt b.toNat (by decide : 128 > 0)
    rw [magnitude, List.length_cons, Nat.pow_succ]
    omega

theorem integer_bounds (bytes : Bytes) :
    -(128 : Int) ^ bytes.length ≤ integer bytes ∧ integer bytes < 128 ^ bytes.length := by
  induction bytes with
  | nil => decide
  | cons b rest ih =>
    have hb := Nat.mod_lt b.toNat (by decide : 128 > 0)
    have hpos : (0 : Int) < 128 ^ rest.length := Int.pow_pos (by decide)
    rw [integer, List.length_cons, pow_succ]
    split
    · rename_i hlast
      have hlt : b.toNat < 128 := hlast
      split <;> constructor <;> omega
    · constructor <;> omega

end Leb128

namespace FrameMachine

open Leb128

/-! ## Operands -/

/-- An unsigned operand, padded to nine bytes at most. -/
structure Operand (n : Nat) (bytes : Bytes) : Prop where
  numeral : IsNumeral bytes
  short : bytes.length ≤ 9
  value : magnitude bytes = n

/-- A signed operand, padded to nine bytes at most. -/
structure SignedOperand (z : Int) (bytes : Bytes) : Prop where
  numeral : IsNumeral bytes
  short : bytes.length ≤ 9
  value : integer bytes = z

structure Block (code bytes : Bytes) : Prop where
  split : ∃ length, Operand code.length length ∧ bytes = length ++ code

namespace Operand

variable {n : Nat} {bytes : Bytes}

instance : Decidable (Operand n bytes) :=
  decidable_of_iff (IsNumeral bytes ∧ bytes.length ≤ 9 ∧ magnitude bytes = n)
    ⟨fun h => ⟨h.1, h.2.1, h.2.2⟩, fun h => ⟨h.numeral, h.short, h.value⟩⟩

theorem lt (h : Operand n bytes) : n < 2 ^ 63 := by
  have hlt := magnitude_lt bytes
  have hle : 128 ^ bytes.length ≤ 128 ^ 9 := Nat.pow_le_pow_right (by decide) h.short
  rw [h.value] at hlt
  omega

theorem reads (h : Operand n bytes) :
    ∃ w : UInt64, w.toNat = n ∧ ∀ a, Reads Reader.uleb128 a bytes w := by
  have hlt := h.lt
  have hshort := h.short
  refine ⟨n.toUInt64, ?_, fun a => ?_⟩
  · rw [Nat.toUInt64_eq, UInt64.toNat_ofNat']
    omega
  · have hreads := Reads.uleb128 a h.numeral (by omega) (by rw [h.value]; omega)
    rwa [h.value] at hreads

end Operand

namespace SignedOperand

variable {z : Int} {bytes : Bytes}

theorem reads (h : SignedOperand z bytes) :
    ∃ w : Int64, w.toInt = z ∧ ∀ a, Reads Reader.sleb128 a bytes w := by
  have hbounds := integer_bounds bytes
  have hle : (128 : Int) ^ bytes.length ≤ 128 ^ 9 := by
    exact_mod_cast Nat.pow_le_pow_right (by decide : 128 > 0) h.short
  rw [h.value] at hbounds
  refine ⟨Int64.ofInt z, ?_, fun a => ?_⟩
  · apply Int64.toInt_ofInt_of_le <;> omega
  · have hreads := Reads.sleb128 a h.numeral
    rwa [h.value] at hreads

theorem toOperand (h : SignedOperand z bytes) : Operand (magnitude bytes) bytes :=
  ⟨h.numeral, h.short, rfl⟩

end SignedOperand

theorem Block.reads {code bytes : Bytes} (h : Block code bytes) (a : UInt64) :
    ∃ s : Section, s.bytes = code ∧ Reads Instruction.readBlock a bytes s := by
  obtain ⟨length, hlength, rfl⟩ := h.split
  obtain ⟨w, hw, hreads⟩ := hlength.reads
  refine ⟨⟨a + length.length.toUInt64, code⟩, rfl, ?_⟩
  unfold Instruction.readBlock
  refine (hreads a).bind ?_
  rw [hw]
  exact Reads.split code

/-! ## Directives -/

/-- The bytes are a form of the directive at the address `a`. Addresses of code are stored in
`encoding`. -/
inductive Form (encoding : UInt8) (a : UInt64) : Directive → Bytes → Prop
  | setLoc (target : UInt64) {field} (h : Pointer.Stores encoding 0 (a + 1) target field) :
      Form encoding a (.setLoc target.toNat) (0x01 :: field)
  | advance {units} (h : units < 2 ^ 6) : Form encoding a (.advance units) [(0x40 + units).toUInt8]
  | advance1 {units} (h : units < 2 ^ 8) :
      Form encoding a (.advance units) (0x02 :: littleEndianBytes 1 units)
  | advance2 {units} (h : units < 2 ^ 16) :
      Form encoding a (.advance units) (0x03 :: littleEndianBytes 2 units)
  | advance4 {units} (h : units < 2 ^ 32) :
      Form encoding a (.advance units) (0x04 :: littleEndianBytes 4 units)
  | offset {r units field} (hr : r < 2 ^ 6) (h : Operand units field) :
      Form encoding a (.offset r units) ((0x80 + r).toUInt8 :: field)
  | offsetExtended {r units front back} (hr : Operand r front) (h : Operand units back) :
      Form encoding a (.offset r units) (0x05 :: (front ++ back))
  | offsetExtendedSigned {r units front back} (hr : Operand r front)
      (h : SignedOperand units back) :
      Form encoding a (.offset r units) (0x11 :: (front ++ back))
  | offsetNegated {r units front back} (hr : Operand r front) (h : Operand units back) :
      Form encoding a (.offsetNegated r units) (0x2f :: (front ++ back))
  | restore {r} (hr : r < 2 ^ 6) : Form encoding a (.restore r) [(0xc0 + r).toUInt8]
  | restoreExtended {r field} (hr : Operand r field) : Form encoding a (.restore r) (0x06 :: field)
  | undefined {r field} (hr : Operand r field) : Form encoding a (.undefined r) (0x07 :: field)
  | sameValue {r field} (hr : Operand r field) : Form encoding a (.sameValue r) (0x08 :: field)
  | inRegister {r holder front back} (hr : Operand r front) (h : Operand holder back) :
      Form encoding a (.inRegister r holder) (0x09 :: (front ++ back))
  | expression {r code front back} (hr : Operand r front) (h : Block code back) :
      Form encoding a (.expression r code) (0x10 :: (front ++ back))
  | valOffset {r units front back} (hr : Operand r front) (h : Operand units back) :
      Form encoding a (.valOffset r units) (0x14 :: (front ++ back))
  | valOffsetSigned {r units front back} (hr : Operand r front) (h : SignedOperand units back) :
      Form encoding a (.valOffset r units) (0x15 :: (front ++ back))
  | valExpression {r code front back} (hr : Operand r front) (h : Block code back) :
      Form encoding a (.valExpression r code) (0x16 :: (front ++ back))
  | rememberState : Form encoding a .rememberState [0x0a]
  | restoreState : Form encoding a .restoreState [0x0b]
  | defCfa {r offset front back} (hr : Operand r front) (h : Operand offset back) :
      Form encoding a (.defCfa r offset) (0x0c :: (front ++ back))
  | defCfaSigned {r units front back} (hr : Operand r front) (h : SignedOperand units back) :
      Form encoding a (.defCfaSigned r units) (0x12 :: (front ++ back))
  | defCfaRegister {r field} (hr : Operand r field) :
      Form encoding a (.defCfaRegister r) (0x0d :: field)
  | defCfaOffset {offset field} (h : Operand offset field) :
      Form encoding a (.defCfaOffset offset) (0x0e :: field)
  | defCfaOffsetSigned {units field} (h : SignedOperand units field) :
      Form encoding a (.defCfaOffsetSigned units) (0x13 :: field)
  | defCfaExpression {code field} (h : Block code field) :
      Form encoding a (.defCfaExpression code) (0x0f :: field)

/-- Bytes between directives that change nothing. -/
inductive Filler : Bytes → Prop
  | nop : Filler [0x00]
  | windowSave : Filler [0x2d]
  | argsSize {size field} (h : Operand size field) : Filler (0x2e :: field)

/-- The bytes at the address `a` are the directives, one behind the other. -/
inductive Written (encoding : UInt8) : UInt64 → List Directive → Bytes → Prop
  | nil {a} : Written encoding a [] []
  | filler {a ds front back} (h : Filler front)
      (rest : Written encoding (a + front.length.toUInt64) ds back) :
      Written encoding a ds (front ++ back)
  | cons {a d ds front back} (h : Form encoding a d front)
      (rest : Written encoding (a + front.length.toUInt64) ds back) :
      Written encoding a (d :: ds) (front ++ back)

/-! ## What instructions denote -/

/-- The instruction is what the directive looks like once read. -/
inductive Denotes : Instruction → Directive → Prop
  | setLoc (target : UInt64) : Denotes (.setLoc target) (.setLoc target.toNat)
  | advance {delta : UInt32} {units} (h : delta.toNat = units) :
      Denotes (.advance delta) (.advance units)
  | offset {r u : UInt64} (h : u.toNat < 2 ^ 63) : Denotes (.offset r u) (.offset r.toNat u.toNat)
  | offsetSigned (r : UInt64) (z : Int64) : Denotes (.offsetSigned r z) (.offset r.toNat z.toInt)
  | offsetNegated {r u : UInt64} (h : u.toNat < 2 ^ 63) :
      Denotes (.offsetNegated r u) (.offsetNegated r.toNat u.toNat)
  | restore (r : UInt64) : Denotes (.restore r) (.restore r.toNat)
  | undefined (r : UInt64) : Denotes (.undefined r) (.undefined r.toNat)
  | sameValue (r : UInt64) : Denotes (.sameValue r) (.sameValue r.toNat)
  | inRegister (r holder : UInt64) :
      Denotes (.inRegister r holder) (.inRegister r.toNat holder.toNat)
  | expression (r : UInt64) (s : Section) :
      Denotes (.expression r s) (.expression r.toNat s.bytes)
  -- A signed multiple is read without its sign, but nothing depends on it.
  | valOffset (r u : UInt64) (z : Int) : Denotes (.valOffset r u) (.valOffset r.toNat z)
  | valExpression (r : UInt64) (s : Section) :
      Denotes (.valExpression r s) (.valExpression r.toNat s.bytes)
  | rememberState : Denotes .rememberState .rememberState
  | restoreState : Denotes .restoreState .restoreState
  | defCfa (r u : UInt64) : Denotes (.defCfa r u) (.defCfa r.toNat u.toNat)
  | defCfaSigned (r : UInt64) (z : Int64) :
      Denotes (.defCfaSigned r z) (.defCfaSigned r.toNat z.toInt)
  | defCfaRegister (r : UInt64) : Denotes (.defCfaRegister r) (.defCfaRegister r.toNat)
  | defCfaOffset (u : UInt64) : Denotes (.defCfaOffset u) (.defCfaOffset u.toNat)
  | defCfaOffsetSigned (z : Int64) : Denotes (.defCfaOffsetSigned z) (.defCfaOffsetSigned z.toInt)
  | defCfaExpression (s : Section) : Denotes (.defCfaExpression s) (.defCfaExpression s.bytes)

inductive Idle : Instruction → Prop
  | nop : Idle .nop
  | windowSave : Idle .windowSave
  | argsSize (size : UInt64) : Idle (.argsSize size)

/-- The instructions denote the directives, apart from idle ones in between. -/
inductive Spells : List Instruction → List Directive → Prop
  | nil : Spells [] []
  | idle {i is ds} (h : Idle i) (rest : Spells is ds) : Spells (i :: is) ds
  | cons {i d is ds} (h : Denotes i d) (rest : Spells is ds) : Spells (i :: is) (d :: ds)

/-! ## Reading -/

/-- Behind its first byte, an instruction is read from its operands. -/
theorem reads_behind {encoding opcode : UInt8} {a : UInt64} {field : Bytes} {i : Instruction}
    (h : Reads (Instruction.readAfter encoding opcode) (a + 1) field i) :
    Reads (Instruction.read encoding) a (opcode :: field) i :=
  (Reads.byte opcode).bind h

/-- The compact forms keep an operand in the low six bits of the first byte. -/
theorem compact_bits {n : Nat} (h : n < 2 ^ 6) :
    (((0x40 + n).toUInt8 &&& 0xc0).toNat = 0x40 ∧
      ((0x40 + n).toUInt8 &&& 0x3f).toUInt32.toNat = n) ∧
    (((0x80 + n).toUInt8 &&& 0xc0).toNat = 0x80 ∧
      ((0x80 + n).toUInt8 &&& 0x3f).toUInt64.toNat = n) ∧
    (((0xc0 + n).toUInt8 &&& 0xc0).toNat = 0xc0 ∧
      ((0xc0 + n).toUInt8 &&& 0x3f).toUInt64.toNat = n) := by
  revert n
  decide

/-- Every form of a directive is read as an instruction that denotes it. -/
theorem reads_of_form {encoding : UInt8} {a : UInt64} {d : Directive} {bytes : Bytes}
    (h : Form encoding a d bytes) :
    ∃ i, Denotes i d ∧ Reads (Instruction.read encoding) a bytes i := by
  cases h with
  | setLoc target h =>
    exact ⟨_, .setLoc target, reads_behind ((Reads.pointer h).map Instruction.setLoc)⟩
  | @advance units h =>
    obtain ⟨⟨hkind, hunits⟩, -⟩ := compact_bits h
    refine ⟨_, .advance hunits, reads_behind ?_⟩
    unfold Instruction.readAfter
    rw [hkind]
    exact Reads.pure _
  | @advance1 units h =>
    refine ⟨.advance units.toUInt8.toUInt32, .advance ?_, reads_behind ?_⟩
    · rw [UInt8.toNat_toUInt32, Nat.toUInt8_eq, UInt8.toNat_ofNat', Nat.mod_eq_of_lt h]
    · exact (Reads.uint8 units).map fun x => Instruction.advance x.toUInt32
  | @advance2 units h =>
    refine ⟨.advance units.toUInt16.toUInt32, .advance ?_, reads_behind ?_⟩
    · rw [UInt16.toNat_toUInt32, Nat.toUInt16_eq, UInt16.toNat_ofNat', Nat.mod_eq_of_lt h]
    · exact (Reads.uint16 units).map fun x => Instruction.advance x.toUInt32
  | @advance4 units h =>
    refine ⟨.advance units.toUInt32, .advance ?_, reads_behind ?_⟩
    · rw [Nat.toUInt32_eq, UInt32.toNat_ofNat', Nat.mod_eq_of_lt h]
    · exact (Reads.uint32 units).map Instruction.advance
  | @offset r units field hr h =>
    have hlt := h.lt
    obtain ⟨u, rfl, hu⟩ := h.reads
    obtain ⟨-, ⟨hkind, hregister⟩, -⟩ := compact_bits hr
    have hd := Denotes.offset (r := ((0x80 + r).toUInt8 &&& 0x3f).toUInt64) hlt
    rw [hregister] at hd
    refine ⟨_, hd, reads_behind ?_⟩
    unfold Instruction.readAfter
    rw [hkind]
    exact (hu _).map (Instruction.offset _)
  | offsetExtended hr h =>
    have hlt := h.lt
    obtain ⟨r, rfl, hregister⟩ := hr.reads
    obtain ⟨u, rfl, hu⟩ := h.reads
    exact ⟨_, .offset hlt,
      reads_behind ((hregister _).bind ((hu _).map (Instruction.offset r)))⟩
  | offsetExtendedSigned hr h =>
    obtain ⟨r, rfl, hregister⟩ := hr.reads
    obtain ⟨z, rfl, hz⟩ := h.reads
    exact ⟨_, .offsetSigned r z,
      reads_behind ((hregister _).bind ((hz _).map (Instruction.offsetSigned r)))⟩
  | offsetNegated hr h =>
    have hlt := h.lt
    obtain ⟨r, rfl, hregister⟩ := hr.reads
    obtain ⟨u, rfl, hu⟩ := h.reads
    exact ⟨_, .offsetNegated hlt,
      reads_behind ((hregister _).bind ((hu _).map (Instruction.offsetNegated r)))⟩
  | @restore r hr =>
    obtain ⟨-, -, ⟨hkind, hregister⟩⟩ := compact_bits hr
    have hd := Denotes.restore ((0xc0 + r).toUInt8 &&& 0x3f).toUInt64
    rw [hregister] at hd
    refine ⟨_, hd, reads_behind ?_⟩
    unfold Instruction.readAfter
    rw [hkind]
    exact Reads.pure _
  | restoreExtended hr =>
    obtain ⟨r, rfl, hregister⟩ := hr.reads
    exact ⟨_, .restore r, reads_behind ((hregister _).map Instruction.restore)⟩
  | undefined hr =>
    obtain ⟨r, rfl, hregister⟩ := hr.reads
    exact ⟨_, .undefined r, reads_behind ((hregister _).map Instruction.undefined)⟩
  | sameValue hr =>
    obtain ⟨r, rfl, hregister⟩ := hr.reads
    exact ⟨_, .sameValue r, reads_behind ((hregister _).map Instruction.sameValue)⟩
  | inRegister hr h =>
    obtain ⟨r, rfl, hregister⟩ := hr.reads
    obtain ⟨holder, rfl, hholder⟩ := h.reads
    exact ⟨_, .inRegister r holder,
      reads_behind ((hregister _).bind ((hholder _).map (Instruction.inRegister r)))⟩
  | expression hr h =>
    obtain ⟨r, rfl, hregister⟩ := hr.reads
    obtain ⟨s, rfl, hs⟩ := h.reads _
    exact ⟨_, .expression r s,
      reads_behind ((hregister _).bind (hs.map (Instruction.expression r)))⟩
  | valOffset hr h =>
    obtain ⟨r, rfl, hregister⟩ := hr.reads
    obtain ⟨u, rfl, hu⟩ := h.reads
    exact ⟨_, .valOffset r u _,
      reads_behind ((hregister _).bind ((hu _).map (Instruction.valOffset r)))⟩
  | valOffsetSigned hr h =>
    obtain ⟨r, rfl, hregister⟩ := hr.reads
    obtain ⟨u, -, hu⟩ := h.toOperand.reads
    exact ⟨_, .valOffset r u _,
      reads_behind ((hregister _).bind ((hu _).map (Instruction.valOffset r)))⟩
  | valExpression hr h =>
    obtain ⟨r, rfl, hregister⟩ := hr.reads
    obtain ⟨s, rfl, hs⟩ := h.reads _
    exact ⟨_, .valExpression r s,
      reads_behind ((hregister _).bind (hs.map (Instruction.valExpression r)))⟩
  | rememberState => exact ⟨_, .rememberState, reads_behind (Reads.pure _)⟩
  | restoreState => exact ⟨_, .restoreState, reads_behind (Reads.pure _)⟩
  | defCfa hr h =>
    obtain ⟨r, rfl, hregister⟩ := hr.reads
    obtain ⟨u, rfl, hu⟩ := h.reads
    exact ⟨_, .defCfa r u,
      reads_behind ((hregister _).bind ((hu _).map (Instruction.defCfa r)))⟩
  | defCfaSigned hr h =>
    obtain ⟨r, rfl, hregister⟩ := hr.reads
    obtain ⟨z, rfl, hz⟩ := h.reads
    exact ⟨_, .defCfaSigned r z,
      reads_behind ((hregister _).bind ((hz _).map (Instruction.defCfaSigned r)))⟩
  | defCfaRegister hr =>
    obtain ⟨r, rfl, hregister⟩ := hr.reads
    exact ⟨_, .defCfaRegister r, reads_behind ((hregister _).map Instruction.defCfaRegister)⟩
  | defCfaOffset h =>
    obtain ⟨u, rfl, hu⟩ := h.reads
    exact ⟨_, .defCfaOffset u, reads_behind ((hu _).map Instruction.defCfaOffset)⟩
  | defCfaOffsetSigned h =>
    obtain ⟨z, rfl, hz⟩ := h.reads
    exact ⟨_, .defCfaOffsetSigned z, reads_behind ((hz _).map Instruction.defCfaOffsetSigned)⟩
  | defCfaExpression h =>
    obtain ⟨s, rfl, hs⟩ := h.reads _
    exact ⟨_, .defCfaExpression s, reads_behind (hs.map Instruction.defCfaExpression)⟩

theorem reads_of_filler {encoding : UInt8} {a : UInt64} {bytes : Bytes} (h : Filler bytes) :
    ∃ i, Idle i ∧ Reads (Instruction.read encoding) a bytes i := by
  cases h with
  | nop => exact ⟨_, .nop, reads_behind (Reads.pure _)⟩
  | windowSave => exact ⟨_, .windowSave, reads_behind (Reads.pure _)⟩
  | argsSize h =>
    obtain ⟨size, -, hsize⟩ := h.reads
    exact ⟨_, .argsSize size, reads_behind ((hsize _).map Instruction.argsSize)⟩

theorem program_nil (encoding : UInt8) (a : UInt64) :
    Instruction.program encoding ⟨a, []⟩ = ⟨[], none⟩ := by
  unfold Instruction.program
  rfl

theorem program_of_reads {encoding : UInt8} {a : UInt64} {front : Bytes} {i : Instruction}
    (h : Reads (Instruction.read encoding) a front i) (back : Bytes) :
    Instruction.program encoding ⟨a, front ++ back⟩ =
      (Instruction.program encoding ⟨a + front.length.toUInt64, back⟩).cons i := by
  have hread := h back
  have hsize := Instruction.size_lt_of_read hread
  -- An instruction is at least one byte long, so the program does not end here.
  have hne : (front ++ back).isEmpty = false := by
    cases hbytes : front ++ back with
    | nil =>
      rw [hbytes] at hsize
      exact absurd hsize (Nat.not_lt_zero _)
    | cons b rest => rfl
  rw [Instruction.program, if_neg (by rw [hne]; decide)]
  split
  · rename_i j rest hj
    rw [hread] at hj
    cases hj
    rfl
  · rename_i e rest he
    rw [hread] at he
    cases he

/-- Reading a written program gives its directives, and no error. -/
theorem program_of_written {encoding : UInt8} {a : UInt64} {ds : List Directive} {bytes : Bytes}
    (h : Written encoding a ds bytes) :
    ∃ is, Instruction.program encoding ⟨a, bytes⟩ = ⟨is, none⟩ ∧ Spells is ds := by
  induction h with
  | nil => exact ⟨[], program_nil encoding _, .nil⟩
  | filler hfront _ ih =>
    obtain ⟨i, hidle, hreads⟩ := reads_of_filler hfront
    obtain ⟨is, hprogram, hspells⟩ := ih
    refine ⟨i :: is, ?_, .idle hidle hspells⟩
    rw [program_of_reads hreads, hprogram]
    rfl
  | cons hfront _ ih =>
    obtain ⟨i, hdenotes, hreads⟩ := reads_of_form hfront
    obtain ⟨is, hprogram, hspells⟩ := ih
    refine ⟨i :: is, ?_, .cons hdenotes hspells⟩
    rw [program_of_reads hreads, hprogram]
    rfl

end FrameMachine

end Unwind
