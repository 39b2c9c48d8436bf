import Unwind.Proofs.Placement.Records
import Unwind.RuleTable

/-!
# Rules in two places

The same function in two places that differ by `d`, together with the base of its image. Its
instructions move along, but locations are relative to the base of the image and expressions are
looked at for their bytes alone. So the rules are the same.
-/

namespace Unwind

/-- The instruction at the same place of a program that is `d` further on. -/
def Instruction.moved (d : UInt64) : Instruction → Instruction
  | .setLoc target => .setLoc (target + d)
  | .defCfaExpression block => .defCfaExpression (block.moved d)
  | .expression register block => .expression register (block.moved d)
  | .valExpression register block => .valExpression register (block.moved d)
  | i => i

def Frame.moved (d : UInt64) (f : Frame) : Frame := { f with imageBase := f.imageBase + d }

namespace Placement

variable {d : UInt64}

/-! ## Programs -/

abbrev MovesInstruction (d : UInt64) (r : Reader Instruction) : Prop :=
  Moves d (fun i j => j = i.moved d) r r

theorem readBlock_moves :
    Moves d (fun s t => t = s.moved d) Instruction.readBlock Instruction.readBlock :=
  Moves.uleb128.bindEq fun _ => .split _

theorem unary_moves {make : UInt64 → Instruction} (h : ∀ n, make n = (make n).moved d) :
    MovesInstruction d (Instruction.unary make) :=
  Moves.uleb128.bindEq fun n => .pure (h n)

theorem binary_moves {make : UInt64 → UInt64 → Instruction}
    (h : ∀ m n, make m n = (make m n).moved d) : MovesInstruction d (Instruction.binary make) :=
  Moves.uleb128.bindEq fun m => Moves.uleb128.bindEq fun n => .pure (h m n)

theorem withSigned_moves {make : UInt64 → Int64 → Instruction}
    (h : ∀ m n, make m n = (make m n).moved d) : MovesInstruction d (Instruction.withSigned make) :=
  Moves.uleb128.bindEq fun m => Moves.sleb128.bindEq fun n => .pure (h m n)

theorem withBlock_moves {make : UInt64 → Section → Instruction}
    (h : ∀ n s, make n (s.moved d) = (make n s).moved d) :
    MovesInstruction d (Instruction.withBlock make) := by
  refine Moves.uleb128.bindEq fun n => readBlock_moves.map fun s t hst => ?_
  rw [hst, h]

theorem readOperands_moves {encoding : UInt8} (h : Relative encoding) (opcode : UInt8) :
    MovesInstruction d (Instruction.readOperands encoding opcode) := by
  unfold Instruction.readOperands
  split
  · exact .pure rfl
  · refine (Moves.pointer (.inl ⟨rfl, rfl⟩) encoding).map fun target target' htarget => ?_
    rw [htarget.relative h]
    rfl
  · exact Moves.uint8.bindEq fun _ => .pure rfl
  · exact Moves.uint16.bindEq fun _ => .pure rfl
  · exact Moves.uint32.bindEq fun _ => .pure rfl
  · exact binary_moves fun _ _ => rfl
  · exact unary_moves fun _ => rfl
  · exact unary_moves fun _ => rfl
  · exact unary_moves fun _ => rfl
  · exact binary_moves fun _ _ => rfl
  · exact .pure rfl
  · exact .pure rfl
  · exact binary_moves fun _ _ => rfl
  · exact unary_moves fun _ => rfl
  · exact unary_moves fun _ => rfl
  · exact readBlock_moves.map fun s t hst => congrArg Instruction.defCfaExpression hst
  · exact withBlock_moves fun _ _ => rfl
  · exact withSigned_moves fun _ _ => rfl
  · exact withSigned_moves fun _ _ => rfl
  · exact Moves.sleb128.bindEq fun _ => .pure rfl
  · exact binary_moves fun _ _ => rfl
  · exact binary_moves fun _ _ => rfl
  · exact withBlock_moves fun _ _ => rfl
  · exact .pure rfl
  · exact unary_moves fun _ => rfl
  · exact binary_moves fun _ _ => rfl
  · exact .throw _ _

theorem readInstruction_moves {encoding : UInt8} (h : Relative encoding) :
    MovesInstruction d (Instruction.read encoding) := by
  refine Moves.uint8.bindEq fun opcode => ?_
  unfold Instruction.readAfter
  dsimp only
  split
  · exact .pure rfl
  · exact Moves.uleb128.bindEq fun _ => .pure rfl
  · exact .pure rfl
  · exact readOperands_moves h opcode

/-- What two programs have in common. -/
structure SameProgram (d : UInt64) (p q : Instruction.Program) : Prop where
  instructions : q.instructions = p.instructions.map (Instruction.moved d)
  error : q.error.isSome = p.error.isSome

theorem program_of_ok {encoding : UInt8} {code rest : Section} {i : Instruction}
    (hne : code.bytes.isEmpty = false) (h : Instruction.read encoding code = .ok i rest) :
    Instruction.program encoding code = (Instruction.program encoding rest).cons i := by
  rw [Instruction.program, if_neg (by rw [hne]; decide)]
  split
  · rename_i j rest' hj
    cases h.symm.trans hj
    rfl
  · rename_i e rest' he
    cases h.symm.trans he

theorem program_of_error {encoding : UInt8} {code rest : Section} {e : CfiError}
    (hne : code.bytes.isEmpty = false) (h : Instruction.read encoding code = .error e rest) :
    Instruction.program encoding code = ⟨[], some e⟩ := by
  rw [Instruction.program, if_neg (by rw [hne]; decide)]
  split
  · rename_i j rest' hj
    cases h.symm.trans hj
  · rename_i e' rest' he
    cases h.symm.trans he
    rfl

theorem program_moved {encoding : UInt8} (h : Relative encoding) (code : Section) :
    SameProgram d (Instruction.program encoding code)
      (Instruction.program encoding (code.moved d)) := by
  -- An instruction takes at least one byte, so the rest of the program is shorter.
  induction hsize : code.size using Nat.strong_induction_on generalizing code with
  | h n ih =>
    subst hsize
    cases hempty : code.bytes.isEmpty with
    | true =>
      have hempty' : (code.moved d).bytes.isEmpty = true := hempty
      rw [Instruction.program, if_pos hempty, Instruction.program, if_pos hempty']
      exact ⟨rfl, rfl⟩
    | false =>
      have hempty' : (code.moved d).bytes.isEmpty = false := hempty
      have hread := readInstruction_moves (d := d) h code
      generalize hx : Instruction.read encoding code = x at hread
      generalize hy : Instruction.read encoding (code.moved d) = y at hread
      cases hread with
      | error e e' =>
        rw [program_of_error hempty hx, program_of_error hempty' hy]
        exact ⟨rfl, rfl⟩
      | @ok i j rest hij =>
        have hrest := ih rest.size (Instruction.size_lt_of_read hx) rest rfl
        rw [program_of_ok hempty hx, program_of_ok hempty' hy]
        exact ⟨congrArg₂ List.cons hij hrest.instructions, hrest.error⟩

/-! ## Expressions -/

theorem operation_moves : Moves d Eq PcExpression.Operation.read PcExpression.Operation.read := by
  refine Moves.uint8.bindEq fun opcode => ?_
  unfold PcExpression.Operation.readAfter
  split
  · exact Moves.uint8.apply _
  · exact Moves.int8.apply _
  · exact Moves.uint16.apply _
  · exact Moves.int16.apply _
  · exact Moves.uint32.apply _
  · exact Moves.int32.apply _
  · exact .pure rfl
  · exact Moves.uleb128.apply _
  · exact .pure rfl

theorem run_eq (offset : Int) (operand : Option Int) (unread : Section) :
    PcExpression.run offset operand unread =
      if unread.bytes.isEmpty then .ok (some offset)
      else
        match PcExpression.Operation.read unread with
        | .error e _ => .error e
        | .ok none _ => .ok none
        | .ok (some (.const value)) rest => PcExpression.run offset (some value) rest
        | .ok (some (.plusConst value)) rest => (do
          PcExpression.run (← fitInt64 (offset + (← fitInt64 value.toNat))) operand rest)
        | .ok (some .plus) rest =>
          match operand with
          | none => .ok none
          | some value => (do PcExpression.run (← fitInt64 (offset + value)) none rest) := by
  rw [PcExpression.run]
  split
  · rfl
  · cases operand <;> split <;> rename_i h <;> simp only [h]

theorem runOperations_moved (offset : Int) (operand : Option Int) (unread : Section) :
    Alike Eq (PcExpression.run offset operand unread)
      (PcExpression.run offset operand (unread.moved d)) := by
  induction hsize : unread.size using Nat.strong_induction_on
    generalizing offset operand unread with
  | h n ih =>
    subst hsize
    have hread := operation_moves (d := d) unread
    rw [run_eq, run_eq offset operand (unread.moved d), Section.bytes_moved]
    generalize hx : PcExpression.Operation.read unread = x at hread ⊢
    generalize PcExpression.Operation.read (unread.moved d) = y at hread ⊢
    split
    · exact .refl _
    cases hread with
    | error e e' => exact .error e e'
    | @ok o o' rest ho =>
      subst ho
      have hrest := fun offset operand =>
        ih rest.size (PcExpression.Operation.size_lt_of_read hx) offset operand rest rfl
      cases o with
      | none => exact .refl _
      | some o =>
        cases o with
        | const value => exact hrest offset (some value)
        | plusConst value =>
          exact Alike.bindEq (.refl _) fun n => Alike.bindEq (.refl _) fun sum => hrest sum operand
        | plus =>
          cases operand with
          | none => exact .refl _
          | some value =>
            exact Alike.bindEq (.refl _) fun sum => hrest sum none

/-- The first operation of an expression of the form pc plus constant. -/
def start? : Reader (Option Int64) := do
  if (← Reader.uint8) == PcExpression.pcOpcode then return some (← Reader.sleb128) else return none

theorem recognise_eq (expression : Section) :
    PcExpression.recognise expression =
      match start? expression with
      | .error e _ => .error e
      | .ok none _ => .ok none
      | .ok (some offset) rest => (do
        match ← PcExpression.run offset.toInt none rest with
        | none => .ok none
        | some delta => return some (← fitOffset delta)) := rfl

theorem recognise_moved (expression : Section) :
    Alike Eq (PcExpression.recognise expression)
      (PcExpression.recognise (expression.moved d)) := by
  have hstart : Moves d Eq start? start? := by
    refine Moves.uint8.bindEq fun opcode => ?_
    split
    · exact Moves.sleb128.apply _
    · exact .pure rfl
  have hread := hstart expression
  rw [recognise_eq, recognise_eq]
  generalize start? expression = x at hread ⊢
  generalize start? (expression.moved d) = y at hread ⊢
  cases hread with
  | error e e' => exact .error e e'
  | @ok o o' rest ho =>
    subst ho
    cases o with
    | none => exact .refl _
    | some offset =>
      refine (runOperations_moved offset.toInt none rest).bindEq fun delta => ?_
      exact .refl _

/-! ## The machine -/

theorem changeRow_moved (f : Frame) (row : Row) (i : Instruction) :
    Alike Eq (f.changeRow row i) ((f.moved d).changeRow row (i.moved d)) := by
  cases i with
  | valExpression register expression =>
    unfold Frame.changeRow
    dsimp only [Instruction.moved]
    -- Where the expression lies shows in errors only.
    split
    · exact (recognise_moved expression).bindEq fun _ => .refl _
    · exact .refl _
  | _ => exact .refl _

theorem destination_moved (f : Frame) (loc : UInt32) (i : Instruction) :
    (f.moved d).destination? loc (i.moved d) = f.destination? loc i := by
  cases i with
  | setLoc target =>
    have h : target + d - (f.imageBase + d) = target - f.imageBase := by grind
    exact congrArg (fun a : UInt64 => some a.toUInt32) h
  | _ => rfl

/-- What an instruction does that neither puts a row aside nor takes one back. -/
def move (f : Frame) (state : FrameState) (i : Instruction) :
    Except CfiError (Option Rule × FrameState) :=
  match f.destination? state.loc i with
  | some loc => .ok (some ⟨state.loc, state.row⟩, { state with loc })
  | none => do return (none, { state with row := ← f.changeRow state.row i })

theorem move_moved (f : Frame) (state : FrameState) (i : Instruction) :
    Alike Eq (move f state i) (move (f.moved d) state (i.moved d)) := by
  unfold move
  rw [destination_moved]
  split
  · exact .refl _
  · exact (changeRow_moved f state.row i).bindEq fun _ => .refl _

theorem step_moved (f : Frame) (state : FrameState) (i : Instruction) :
    Alike Eq (f.step state i) ((f.moved d).step state (i.moved d)) := by
  have hmove := move_moved (d := d) f state i
  cases i with
  | rememberState => exact .refl _
  | restoreState => exact .refl _
  | _ => exact hmove

/-- What two runs have in common: the rules, and the last state or that there is none. -/
structure SameRun {α : Type} (x y : List Rule × Except CfiError α) : Prop where
  rules : y.1 = x.1
  last : Alike Eq x.2 y.2

theorem SameRun.cons {f g : Frame} {i j : Instruction} {is js : List Instruction}
    {state : FrameState} (hstep : Alike Eq (f.step state i) (g.step state j))
    (hrest : ∀ state, SameRun (f.runList is state) (g.runList js state)) :
    SameRun (f.runList (i :: is) state) (g.runList (j :: js) state) := by
  rw [Frame.runList, Frame.runList]
  generalize f.step state i = x at hstep ⊢
  generalize g.step state j = y at hstep ⊢
  cases hstep with
  | error e e' => exact ⟨rfl, .error e e'⟩
  | @ok p q h =>
    subst h
    obtain ⟨hrules, hlast⟩ := hrest p.2
    exact ⟨congrArg (p.1.toList ++ ·) hrules, hlast⟩

theorem runList_moved (f : Frame) (instructions : List Instruction) (state : FrameState) :
    SameRun (f.runList instructions state)
      ((f.moved d).runList (instructions.map (Instruction.moved d)) state) := by
  induction instructions generalizing state with
  | nil => exact ⟨rfl, .refl _⟩
  | cons i rest ih => exact .cons (step_moved f state i) ih

/-- Two programs are alike run to their end if their instructions are, and either both or neither
could be read to the end. -/
theorem SameRun.run {f g : Frame} {p q : Instruction.Program} {state : FrameState}
    (h : SameRun (f.runList p.instructions state) (g.runList q.instructions state))
    (herror : q.error.isSome = p.error.isSome) : SameRun (f.run p state) (g.run q state) := by
  unfold Frame.run
  generalize f.runList p.instructions state = x at h ⊢
  generalize g.runList q.instructions state = y at h ⊢
  generalize p.error = error at herror ⊢
  generalize q.error = error' at herror ⊢
  obtain ⟨rules, last⟩ := x
  obtain ⟨rules', last'⟩ := y
  obtain ⟨hrules, hlast⟩ := h
  dsimp only at hrules hlast
  subst hrules
  cases hlast with
  | error e e' => exact ⟨rfl, .error e e'⟩
  | ok h =>
    cases error with
    | none =>
      rw [Option.isSome_none, Option.isSome_eq_false_iff, Option.isNone_iff_eq_none] at herror
      subst herror
      exact ⟨rfl, .ok h⟩
    | some e =>
      obtain ⟨e', rfl⟩ := Option.isSome_iff_exists.mp herror
      exact ⟨rfl, .error e e'⟩

theorem run_moved (f : Frame) {p q : Instruction.Program} (h : SameProgram d p q)
    (state : FrameState) : SameRun (f.run p state) ((f.moved d).run q state) := by
  refine SameRun.run ?_ h.error
  rw [h.instructions]
  exact runList_moved f p.instructions state

theorem initialRow_eq (imageBase : UInt64) (start : UInt32) (cie : Cie) :
    Fde.initialRow imageBase start cie =
      (Frame.run ⟨imageBase, cie.codeAlign, cie.dataAlign, .atEntry⟩
        (Instruction.program cie.pointerEncoding cie.instructions) ⟨start, .atEntry, []⟩).2 >>=
        fun state => .ok state.row := by
  unfold Fde.initialRow
  dsimp only
  split <;> rename_i h <;> rw [h] <;> rfl

theorem initialRow_moved {cie : Cie} (h : Relative cie.pointerEncoding) (imageBase : UInt64)
    (start : UInt32) :
    Alike Eq (Fde.initialRow imageBase start cie)
      (Fde.initialRow (imageBase + d) start (cie.moved d)) := by
  rw [initialRow_eq, initialRow_eq]
  exact (run_moved _ (program_moved h cie.instructions) _).last.bindEq fun _ => .refl _

/-- What the rules of two functions have in common: they are the same, whole or up to where they
are broken. -/
structure SameRules (x y : List Rule × Option CfiError) : Prop where
  rules : y.1 = x.1
  fault : y.2.isSome = x.2.isSome

/-- Functions have the same rules if their common entries lead to the same row and their own
instructions are alike run from there. -/
theorem SameRules.of_runs {imageBase imageBase' : UInt64} {start : UInt32} {fde fde' : Fde}
    {cie cie' : Cie}
    (hrow : Alike Eq (Fde.initialRow imageBase start cie) (Fde.initialRow imageBase' start cie'))
    (hrun : ∀ row, SameRun
      (Frame.run ⟨imageBase, cie.codeAlign, cie.dataAlign, row⟩
        (Instruction.program cie.pointerEncoding fde.instructions) ⟨start, row, []⟩)
      (Frame.run ⟨imageBase', cie'.codeAlign, cie'.dataAlign, row⟩
        (Instruction.program cie'.pointerEncoding fde'.instructions) ⟨start, row, []⟩)) :
    SameRules (fde.rules imageBase start cie) (fde'.rules imageBase' start cie') := by
  unfold Fde.rules
  generalize Fde.initialRow imageBase start cie = x at hrow ⊢
  generalize Fde.initialRow imageBase' start cie' = y at hrow ⊢
  cases hrow with
  | error e e' => exact ⟨rfl, rfl⟩
  | @ok row row' heq =>
    subst heq
    have hrow := hrun row
    dsimp only at hrow ⊢
    generalize Frame.run ⟨imageBase, cie.codeAlign, cie.dataAlign, row⟩ _ _ = x at hrow ⊢
    generalize Frame.run ⟨imageBase', cie'.codeAlign, cie'.dataAlign, row⟩ _ _ = y at hrow ⊢
    obtain ⟨rules, last⟩ := x
    obtain ⟨rules', last'⟩ := y
    obtain ⟨hrules, hlast⟩ := hrow
    dsimp only at hrules hlast
    subst hrules
    cases hlast with
    | ok heq =>
      subst heq
      exact ⟨rfl, rfl⟩
    | error e e' => exact ⟨rfl, rfl⟩

theorem rules_moved {cie : Cie} (h : Relative cie.pointerEncoding) (imageBase : UInt64)
    (start : UInt32) (fde : Fde) :
    SameRules (fde.rules imageBase start cie)
      ((fde.moved d).rules (imageBase + d) start (cie.moved d)) :=
  .of_runs (initialRow_moved h imageBase start) fun row =>
    run_moved ⟨imageBase, cie.codeAlign, cie.dataAlign, row⟩ (program_moved h fde.instructions)
      ⟨start, row, []⟩

end Placement

end Unwind
