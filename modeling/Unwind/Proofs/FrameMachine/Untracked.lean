import Unwind.Proofs.FrameMachine.Offsets
import Unwind.Proofs.Placement.Rules
import Unwind.Proofs.RuleTable.Routine

/-!
# Instructions about registers without a column

Rows keep the CFA and the frame pointer, so what an instruction says of another register is lost.
It can be left out of a program as long as its offset is one that a row could hold
(`add_of_deletion`): the offset is checked first and the register is looked at after that. The
expressions of the instructions behind it then lie at other addresses. These show in faults, and in
nothing else.
-/

namespace Unwind

namespace FrameMachine

open Placement (Alike SameRun SameRules changeRow_moved)
open RuleTable

/-- The register whose place an instruction gives or takes back. -/
def placedRegister? : Instruction → Option UInt64
  | .offset r _ | .offsetSigned r _ | .offsetNegated r _ | .restore r | .undefined r
  | .sameValue r | .inRegister r _ | .expression r _ | .valOffset r _ | .valExpression r _ => some r
  | _ => none

/-- The instruction is about a register other than the frame pointer and the return address. -/
def Untracked (i : Instruction) : Prop :=
  ∃ r, placedRegister? i = some r ∧ r.toNat ≠ 6 ∧ r.toNat ≠ 16

/-- The same instruction, with its expression at whatever address. -/
inductive SameInstruction : Instruction → Instruction → Prop
  | refl (i : Instruction) : SameInstruction i i
  | defCfaExpression {s t : Section} (h : t.bytes = s.bytes) :
      SameInstruction (.defCfaExpression s) (.defCfaExpression t)
  | expression (r : UInt64) {s t : Section} (h : t.bytes = s.bytes) :
      SameInstruction (.expression r s) (.expression r t)
  | valExpression (r : UInt64) {s t : Section} (h : t.bytes = s.bytes) :
      SameInstruction (.valExpression r s) (.valExpression r t)

/-- What is left of a list without some of its elements. -/
inductive Without : List Instruction → List Instruction → List Instruction → Prop
  | nil : Without [] [] []
  | keep {i j is dropped kept} (same : SameInstruction i j) (rest : Without is dropped kept) :
      Without (i :: is) dropped (j :: kept)
  | drop {i is dropped kept} (rest : Without is dropped kept) :
      Without (i :: is) (i :: dropped) kept

/-- A program is another one without some instructions about untracked registers. Either both or
neither can be read to the end. -/
structure Deletion (p : Instruction.Program) (dropped : List Instruction)
    (q : Instruction.Program) : Prop where
  instructions : Without p.instructions dropped q.instructions
  error : q.error.isSome = p.error.isSome
  untracked : ∀ i ∈ dropped, Untracked i

/-! ## Runs -/

theorem setFp_of_ne (row : Row) {r : UInt64} (h : r.toNat ≠ 6) (fp : FpRule) :
    row.setFp r fp = row := by
  rw [setFp_eq, if_neg h]

section

variable {f : Frame} {i j : Instruction} {is dropped kept : List Instruction}

theorem changeRow_of_untracked (row : Row) (h : Untracked i) (inRange : InRange f.dataAlign i) :
    f.changeRow row i = .ok row := by
  obtain ⟨r, hplaced, hfp, hpc⟩ := h
  cases i with
  -- The three forms of an offset check it first, and then do with it what the others do.
  | offset r u =>
    cases hplaced
    obtain ⟨o, ho, -⟩ := scaledUnsigned_of_fits inRange.1 inRange.2
    dsimp only [Frame.changeRow]
    rw [ho]
    exact congrArg Except.ok (setFp_of_ne row hfp _)
  | offsetSigned r z =>
    cases hplaced
    obtain ⟨o, ho, -⟩ := fitOffset_of_fits inRange
    dsimp only [Frame.changeRow, Frame.scaled]
    rw [ho]
    exact congrArg Except.ok (setFp_of_ne row hfp _)
  | offsetNegated r u =>
    cases hplaced
    obtain ⟨o, ho, hvalue⟩ := scaledUnsigned_of_fits inRange.1.1 inRange.1.2
    obtain ⟨negated, hnegated, -⟩ := fitOffset_of_fits inRange.2
    dsimp only [Frame.changeRow]
    rw [ho]
    dsimp only [bind, Except.bind]
    rw [hvalue, hnegated]
    exact congrArg Except.ok (setFp_of_ne row hfp _)
  | restore r | undefined r | sameValue r | inRegister r _ | expression r _ =>
    cases hplaced
    exact congrArg Except.ok (setFp_of_ne row hfp _)
  | valOffset r u => rfl
  | valExpression r code =>
    cases hplaced
    exact changeRow_valExpression f row hpc code
  | _ => cases hplaced

theorem step_of_untracked (state : FrameState) (h : Untracked i)
    (inRange : InRange f.dataAlign i) : f.step state i = .ok (none, state) := by
  have hrow := changeRow_of_untracked state.row h inRange
  obtain ⟨r, hplaced, -⟩ := h
  cases i with
  | rememberState => cases hplaced
  | restoreState => cases hplaced
  | setLoc target => cases hplaced
  | advance delta => cases hplaced
  | _ => exact step_of_changeRow rfl nofun nofun hrow

theorem exists_moved {s t : Section} (h : t.bytes = s.bytes) : ∃ d, t = s.moved d := by
  refine ⟨t.address - s.address, ?_⟩
  have haddress : s.address + (t.address - s.address) = t.address := by grind
  rw [Section.moved, haddress, ← h]

theorem changeRow_same (f : Frame) (row : Row) (h : SameInstruction i j) :
    Alike Eq (f.changeRow row i) (f.changeRow row j) := by
  cases h with
  | refl => exact .refl _
  | defCfaExpression h | expression _ h | valExpression _ h =>
    obtain ⟨d, rfl⟩ := exists_moved h
    exact changeRow_moved (d := d) f row _

theorem step_same (f : Frame) (state : FrameState) (h : SameInstruction i j) :
    Alike Eq (f.step state i) (f.step state j) := by
  have hrow := changeRow_same f state.row h
  cases h with
  | refl => exact .refl _
  | defCfaExpression | expression | valExpression => exact hrow.bindEq fun _ => .refl _

theorem runList_without (state : FrameState) (h : Without is dropped kept)
    (untracked : ∀ i ∈ dropped, Untracked i) (inRange : ∀ i ∈ dropped, InRange f.dataAlign i) :
    SameRun (f.runList is state) (f.runList kept state) := by
  -- Both runs are in the same state before each instruction that is kept.
  induction h generalizing state with
  | nil => exact ⟨rfl, .refl _⟩
  | keep same _ ih => exact .cons (step_same f state same) fun _ => ih _ untracked inRange
  | drop _ ih =>
    rw [List.forall_mem_cons] at untracked inRange
    rw [Frame.runList, step_of_untracked state untracked.1 inRange.1]
    exact ih state untracked.2 inRange.2

theorem run_of_deletion {p q : Instruction.Program} (state : FrameState)
    (h : Deletion p dropped q) (inRange : ∀ i ∈ dropped, InRange f.dataAlign i) :
    SameRun (f.run p state) (f.run q state) :=
  .run (runList_without state h.instructions h.untracked inRange) h.error

end

/-! ## Functions -/

section

variable {imageBase : UInt64} {start : UInt32} {fde : Fde} {cie : Cie} {setup body : Section}
  {droppedSetup droppedBody : List Instruction}

theorem rules_of_deletion (start : UInt32)
    (hsetup : Deletion (setupProgram cie) droppedSetup
      (Instruction.program cie.pointerEncoding setup))
    (hbody : Deletion (bodyProgram fde cie) droppedBody
      (Instruction.program cie.pointerEncoding body))
    (inRange : ∀ i ∈ droppedSetup ++ droppedBody, InRange cie.dataAlign i) :
    SameRules (fde.rules imageBase start cie)
      (Fde.rules imageBase start { fde with instructions := body }
        { cie with instructions := setup }) := by
  rw [List.forall_mem_append] at inRange
  refine .of_runs ?_ fun row => run_of_deletion ⟨start, row, []⟩ hbody inRange.2
  -- The instructions of the common entry are run at the start only for the row they lead to.
  have hrun := run_of_deletion (f := ⟨imageBase, cie.codeAlign, cie.dataAlign, .atEntry⟩)
    ⟨start, .atEntry, []⟩ hsetup inRange.1
  rw [Placement.initialRow_eq, Placement.initialRow_eq]
  exact hrun.last.bindEq fun _ => .refl _

/-- Functions at the same place that have the same rules are added alike. -/
theorem add_of_sameRules (b : Builder)
    (h : ∀ start, SameRules (fde.rules b.imageBase start cie)
      (Fde.rules b.imageBase start { fde with instructions := body }
        { cie with instructions := setup })) :
    (b.add { fde with instructions := body } { cie with instructions := setup }).1 =
        (b.add fde cie).1 ∧
      (b.add { fde with instructions := body } { cie with instructions := setup }).2.isOk =
        (b.add fde cie).2.isOk := by
  -- What is recorded and whether there is a refusal decide the outcome. Which one it is does not.
  let r : Routine := (fde, cie)
  let r' : Routine := ({ fde with instructions := body }, { cie with instructions := setup })
  have hrecorded : r'.recorded b.imageBase = r.recorded b.imageBase :=
    congrArg (· ++ _) (h (r.startLoc b.imageBase)).rules
  have hrefusal : (r'.refusal b.imageBase).isSome = (r.refusal b.imageBase).isSome := by
    unfold Routine.refusal
    by_cases hbelow : fde.pcStart < b.imageBase
    · rw [if_pos hbelow, if_pos hbelow]
    · rw [if_neg hbelow, if_neg hbelow]
      exact (h (r.startLoc b.imageBase)).fault
  have hadd : b.add fde cie = _ := b.add_eq r
  have hadd' : b.add { fde with instructions := body } { cie with instructions := setup } = _ :=
    b.add_eq r'
  rw [hadd, hadd', hrecorded]
  generalize r.refusal b.imageBase = fault at hrefusal ⊢
  generalize r'.refusal b.imageBase = fault' at hrefusal ⊢
  cases fault with
  | none =>
    rw [Option.isSome_none, Option.isSome_eq_false_iff, Option.isNone_iff_eq_none] at hrefusal
    subst hrefusal
    exact ⟨rfl, rfl⟩
  | some e =>
    obtain ⟨e', rfl⟩ := Option.isSome_iff_exists.mp hrefusal
    exact ⟨rfl, rfl⟩

theorem Without.mem {is dropped kept : List Instruction} (h : Without is dropped kept) :
    ∀ i ∈ dropped, i ∈ is := by
  induction h with
  | nil => simp
  | keep _ _ ih => exact fun j hj => List.mem_cons_of_mem _ (ih j hj)
  | drop _ ih =>
    rw [List.forall_mem_cons]
    exact ⟨List.mem_cons_self, fun j hj => List.mem_cons_of_mem _ (ih j hj)⟩

/-- Leaving out instructions about untracked registers changes neither the rules nor whether the
function is taken in, as long as their offsets can be represented; a function with one whose offset
cannot be is refused for it. -/
theorem add_of_deletion (b : Builder) (fde : Fde) (cie : Cie) {setup body : Section}
    {droppedSetup droppedBody : List Instruction}
    (hsetup : Deletion (setupProgram cie) droppedSetup
      (Instruction.program cie.pointerEncoding setup))
    (hbody : Deletion (bodyProgram fde cie) droppedBody
      (Instruction.program cie.pointerEncoding body)) :
    ((∀ i ∈ droppedSetup ++ droppedBody, InRange cie.dataAlign i) →
      (b.add { fde with instructions := body } { cie with instructions := setup }).1 =
          (b.add fde cie).1 ∧
        (b.add { fde with instructions := body } { cie with instructions := setup }).2.isOk =
          (b.add fde cie).2.isOk) ∧
    ((∃ i ∈ droppedSetup ++ droppedBody, ¬ InRange cie.dataAlign i) →
      ∃ e, b.add fde cie = (b, .error e)) := by
  refine ⟨fun inRange => add_of_sameRules b fun start => ?_, ?_⟩
  · exact rules_of_deletion start hsetup hbody inRange
  · rintro ⟨i, hi, hout⟩
    have hadd := b.add_eq (fde, cie)
    cases hrefusal : Routine.refusal b.imageBase (fde, cie) with
    | some e =>
      rw [hrefusal] at hadd
      exact ⟨e, hadd⟩
    | none =>
      -- What is taken in has been run to its end, this instruction included.
      have hmem : i ∈ (setupProgram cie).instructions ++ (bodyProgram fde cie).instructions := by
        rw [List.mem_append] at hi ⊢
        exact hi.imp (hsetup.instructions.mem i) (hbody.instructions.mem i)
      exact absurd (inRange_of_rules (Routine.rules_of_refusal hrefusal) i hmem) hout

end

/-! ## Samples -/

theorem deletion_none : Deletion (setupProgram bareCie) [] (Instruction.program 0x1b ⟨0x2014, []⟩)
    where
  instructions := by
    rw [show (setupProgram bareCie).instructions = [] by decide +kernel,
      show (Instruction.program 0x1b ⟨0x2014, []⟩).instructions = [] by decide +kernel]
    exact .nil
  error := by decide +kernel
  untracked := by simp

/-- Behind the first of the two lies an expression, and comes to lie two bytes nearer. -/
theorem deletion_two :
    Deletion
      (bodyProgram (bareFde [0x83, 0x02, 0x41, 0x0f, 0x03, 0x77, 0x08, 0x06, 0x07, 0x03]) bareCie)
      [.offset 3 2, .undefined 3]
      (Instruction.program 0x1b ⟨0x2025, [0x41, 0x0f, 0x03, 0x77, 0x08, 0x06]⟩) where
  instructions := by
    rw [show (bodyProgram _ bareCie).instructions =
        [.offset 3 2, .advance 1, .defCfaExpression ⟨0x202a, [0x77, 0x08, 0x06]⟩,
          .undefined 3] by decide +kernel,
      show (Instruction.program _ _).instructions =
        [.advance 1, .defCfaExpression ⟨0x2028, [0x77, 0x08, 0x06]⟩] by decide +kernel]
    exact .drop (.keep (.refl _) (.keep (.defCfaExpression rfl) (.drop .nil)))
  error := by decide +kernel
  untracked := by
    rw [List.forall_mem_cons, List.forall_mem_singleton]
    exact ⟨⟨3, rfl, by decide, by decide⟩, ⟨3, rfl, by decide, by decide⟩⟩

theorem add_of_deletion_two :
    let long := bareFde [0x83, 0x02, 0x41, 0x0f, 0x03, 0x77, 0x08, 0x06, 0x07, 0x03]
    let short := bareFde [0x41, 0x0f, 0x03, 0x77, 0x08, 0x06]
    ((Builder.new 0).add short bareCie).1 = ((Builder.new 0).add long bareCie).1 ∧
      ((Builder.new 0).add short bareCie).2.isOk = ((Builder.new 0).add long bareCie).2.isOk :=
  (add_of_deletion (.new 0) _ bareCie deletion_none deletion_two).1 (by decide)

def leastNumeral : Bytes := [0x80, 0x80, 0x80, 0x80, 0x80, 0x80, 0x80, 0x80, 0x80, 0x7f]

def greatestNumeral : Bytes := [0xff, 0xff, 0xff, 0xff, 0xff, 0xff, 0xff, 0xff, 0xff, 0x01]

/-- Each of two functions consists of one instruction about register 3, and is refused, though the
operands fit their words: a multiple is a signed one and is read as if it were not, and an offset is
too great for a row. The function without the instruction is taken in. -/
theorem untracked_refused :
    (Leb128.IsNumeral leastNumeral ∧ Leb128.integer leastNumeral = -2 ^ 63 ∧
      Routine.accepted 0 (bareFde ([0x15, 0x03] ++ leastNumeral), bareCie) = false) ∧
    (Leb128.IsNumeral greatestNumeral ∧ Leb128.magnitude greatestNumeral = 2 ^ 64 - 1 ∧
      Routine.accepted 0 (bareFde (0x83 :: greatestNumeral), bareCie) = false) ∧
    Routine.accepted 0 (bareFde [], bareCie) = true := by
  decide +kernel

end FrameMachine

end Unwind
