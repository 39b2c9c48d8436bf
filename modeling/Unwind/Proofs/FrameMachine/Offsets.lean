import Unwind.Proofs.FrameMachine.Simulation

/-!
# Steps that go through, and the offsets in them

Every offset is computed as an integer and refused if it does not fit, also for a register that no
row has a column for. `InRange` says that all offsets of an instruction fit; instructions that are
run without a fault are in range, and what they make of a row holds the offset as an exact number.
-/

namespace Unwind

namespace FrameMachine

/-- All offsets of an instruction can be represented. -/
def InRange (dataAlign : Int32) : Instruction → Prop
  -- The multiple by itself has to fit a signed word, even where the stack unit is zero.
  | .offset _ u => u.toNat < 2 ^ 63 ∧ Fits (u.toNat * dataAlign.toInt)
  | .offsetNegated _ u =>
    (u.toNat < 2 ^ 63 ∧ Fits (u.toNat * dataAlign.toInt)) ∧ Fits (-(u.toNat * dataAlign.toInt))
  | .offsetSigned _ z | .defCfaSigned _ z | .defCfaOffsetSigned z =>
    Fits (z.toInt * dataAlign.toInt)
  | .defCfa _ u | .defCfaOffset u => Fits u.toNat
  | _ => True

instance (dataAlign : Int32) : DecidablePred (InRange dataAlign)
  | .offset _ u => inferInstanceAs (Decidable (u.toNat < 2 ^ 63 ∧ Fits (u.toNat * dataAlign.toInt)))
  | .offsetNegated _ u =>
    inferInstanceAs (Decidable ((u.toNat < 2 ^ 63 ∧ Fits (u.toNat * dataAlign.toInt)) ∧
      Fits (-(u.toNat * dataAlign.toInt))))
  | .offsetSigned _ z | .defCfaSigned _ z | .defCfaOffsetSigned z =>
    inferInstanceAs (Decidable (Fits (z.toInt * dataAlign.toInt)))
  | .defCfa _ u | .defCfaOffset u => inferInstanceAs (Decidable (Fits u.toNat))
  | .nop | .setLoc _ | .advance _ | .restore _ | .undefined _ | .sameValue _ | .inRegister _ _
  | .rememberState | .restoreState | .defCfaRegister _ | .defCfaExpression _ | .expression _ _
  | .valOffset _ _ | .valExpression _ _ | .windowSave | .argsSize _ => isTrue trivial

/-! ## Offsets -/

theorem fitOffset_eq (z : Int) :
    fitOffset z = if Fits z then .ok (Int32.ofInt z) else .error .offsetRange := by
  by_cases h : Fits z
  · rw [if_pos h]
    exact if_pos h
  · rw [if_neg h]
    exact if_neg h

theorem fitInt64_of_not_lt {u : UInt64} (h : ¬ u.toNat < 2 ^ 63) :
    fitInt64 u.toNat = .error .offsetRange := by
  unfold fitInt64
  apply if_neg
  omega

theorem scaledUnsigned_eq (f : Frame) (u : UInt64) :
    f.scaledUnsigned u =
      if u.toNat < 2 ^ 63 ∧ Fits (u.toNat * f.dataAlign.toInt) then
        .ok (Int32.ofInt (u.toNat * f.dataAlign.toInt))
      else .error .offsetRange := by
  unfold Frame.scaledUnsigned Frame.scaled
  by_cases h : u.toNat < 2 ^ 63
  · rw [fitInt64_of_lt h, pure_bind, fitOffset_eq]
    simp only [h, true_and]
  · rw [fitInt64_of_not_lt h, if_neg fun hunits => h hunits.1]
    rfl

theorem bytesOffset_eq (u : UInt64) :
    Frame.bytesOffset u =
      if Fits u.toNat then .ok (Int32.ofInt u.toNat) else .error .offsetRange := by
  unfold Frame.bytesOffset
  by_cases h : u.toNat < 2 ^ 63
  · rw [fitInt64_of_lt h, pure_bind, fitOffset_eq]
  · -- What does not even fit a signed word is no offset either.
    have hfits : ¬ Fits u.toNat := by
      unfold Fits
      omega
    rw [fitInt64_of_not_lt h, if_neg hfits]
    rfl

/-- A computation that goes on from a value behind a check. -/
theorem of_guarded {α β : Type} {p : Prop} [Decidable p] {x : α} {e : CfiError}
    {f : α → Except CfiError β} {b : β}
    (h : ((if p then Except.ok x else .error e) >>= f) = .ok b) : p ∧ f x = .ok b := by
  by_cases hp : p
  · rw [if_pos hp] at h
    exact ⟨hp, h⟩
  · rw [if_neg hp] at h
    cases h

theorem toInt_ofInt_of_fits {z : Int} (h : Fits z) : (Int32.ofInt z).toInt = z :=
  Int32.toInt_ofInt_of_le h.1 h.2

/-! A computation that goes on from an offset and goes through. -/

section

variable {β : Type} {g : Int32 → Except CfiError β} {b : β}

theorem of_fitOffset {z : Int} (h : (fitOffset z >>= g) = .ok b) :
    Fits z ∧ ∃ o : Int32, o.toInt = z ∧ g o = .ok b := by
  rw [fitOffset_eq] at h
  obtain ⟨hfits, hg⟩ := of_guarded h
  exact ⟨hfits, _, toInt_ofInt_of_fits hfits, hg⟩

theorem of_scaled {f : Frame} {z : Int} (h : (f.scaled z >>= g) = .ok b) :
    Fits (z * f.dataAlign.toInt) ∧ ∃ o : Int32, o.toInt = z * f.dataAlign.toInt ∧ g o = .ok b :=
  of_fitOffset h

theorem of_scaledUnsigned {f : Frame} {u : UInt64} (h : (f.scaledUnsigned u >>= g) = .ok b) :
    (u.toNat < 2 ^ 63 ∧ Fits (u.toNat * f.dataAlign.toInt)) ∧
      ∃ o : Int32, o.toInt = u.toNat * f.dataAlign.toInt ∧ g o = .ok b := by
  rw [scaledUnsigned_eq] at h
  obtain ⟨hrange, hg⟩ := of_guarded h
  exact ⟨hrange, _, toInt_ofInt_of_fits hrange.2, hg⟩

theorem of_bytesOffset {u : UInt64} (h : (Frame.bytesOffset u >>= g) = .ok b) :
    Fits u.toNat ∧ ∃ o : Int32, o.toInt = u.toNat ∧ g o = .ok b := by
  rw [bytesOffset_eq] at h
  obtain ⟨hfits, hg⟩ := of_guarded h
  exact ⟨hfits, _, toInt_ofInt_of_fits hfits, hg⟩

end

/-! ## Registers -/

theorem setFp_eq (row : Row) (w : UInt64) (fp : FpRule) :
    row.setFp w fp = if w.toNat = 6 then { row with fp } else row := by
  have hiff : (w == Column.fp.number) = true ↔ w.toNat = 6 := by
    rw [beq_iff_eq, ← UInt64.toNat_inj]
    rfl
  unfold Row.setFp
  by_cases h : w.toNat = 6
  · rw [if_pos h, if_pos (hiff.mpr h)]
  · rw [if_neg h, if_neg (mt hiff.mp h)]

/-! ## Changes of a row that go through -/

section

variable {f : Frame} {row changed : Row} {r u : UInt64} {z : Int64}

theorem of_changeRow_offset (h : f.changeRow row (.offset r u) = .ok changed) :
    InRange f.dataAlign (.offset r u) ∧ ∃ o : Int32, o.toInt = u.toNat * f.dataAlign.toInt ∧
      changed = row.setFp r (.saved o) := by
  obtain ⟨hrange, o, ho, hchanged⟩ := of_scaledUnsigned h
  cases hchanged
  exact ⟨hrange, o, ho, rfl⟩

theorem of_changeRow_offsetSigned (h : f.changeRow row (.offsetSigned r z) = .ok changed) :
    InRange f.dataAlign (.offsetSigned r z) ∧ ∃ o : Int32, o.toInt = z.toInt * f.dataAlign.toInt ∧
      changed = row.setFp r (.saved o) := by
  obtain ⟨hrange, o, ho, hchanged⟩ := of_scaled h
  cases hchanged
  exact ⟨hrange, o, ho, rfl⟩

theorem of_changeRow_offsetNegated (h : f.changeRow row (.offsetNegated r u) = .ok changed) :
    InRange f.dataAlign (.offsetNegated r u) ∧
      ∃ o : Int32, o.toInt = -(u.toNat * f.dataAlign.toInt) ∧
        changed = row.setFp r (.saved o) := by
  -- The multiple has to fit before it is negated, and once more after that.
  obtain ⟨hunits, o, ho, hnegated⟩ := of_scaledUnsigned h
  rw [ho] at hnegated
  obtain ⟨hrange, negated, hvalue, hchanged⟩ := of_fitOffset hnegated
  cases hchanged
  exact ⟨⟨hunits, hrange⟩, negated, hvalue, rfl⟩

theorem of_changeRow_defCfa (h : f.changeRow row (.defCfa r u) = .ok changed) :
    InRange f.dataAlign (.defCfa r u) ∧ ∃ o : Int32, o.toInt = u.toNat ∧
      changed = { row with base := .ofColumn r, offset := o } := by
  obtain ⟨hrange, o, ho, hchanged⟩ := of_bytesOffset h
  cases hchanged
  exact ⟨hrange, o, ho, rfl⟩

theorem of_changeRow_defCfaSigned (h : f.changeRow row (.defCfaSigned r z) = .ok changed) :
    InRange f.dataAlign (.defCfaSigned r z) ∧ ∃ o : Int32, o.toInt = z.toInt * f.dataAlign.toInt ∧
      changed = { row with base := .ofColumn r, offset := o } := by
  obtain ⟨hrange, o, ho, hchanged⟩ := of_scaled h
  cases hchanged
  exact ⟨hrange, o, ho, rfl⟩

theorem of_changeRow_defCfaOffset (h : f.changeRow row (.defCfaOffset u) = .ok changed) :
    InRange f.dataAlign (.defCfaOffset u) ∧ ∃ o : Int32, o.toInt = u.toNat ∧
      changed = { row with offset := o } := by
  obtain ⟨hrange, o, ho, hchanged⟩ := of_bytesOffset h
  cases hchanged
  exact ⟨hrange, o, ho, rfl⟩

theorem of_changeRow_defCfaOffsetSigned
    (h : f.changeRow row (.defCfaOffsetSigned z) = .ok changed) :
    InRange f.dataAlign (.defCfaOffsetSigned z) ∧
      ∃ o : Int32, o.toInt = z.toInt * f.dataAlign.toInt ∧ changed = { row with offset := o } := by
  obtain ⟨hrange, o, ho, hchanged⟩ := of_scaled h
  cases hchanged
  exact ⟨hrange, o, ho, rfl⟩

theorem of_changeRow_defCfaExpression {code : Section}
    (h : f.changeRow row (.defCfaExpression code) = .ok changed) :
    changed = if code.bytes.length = 11 then { row with base := .plt, offset := 8 }
      else { row with base := .unsupported } := by
  dsimp only [Frame.changeRow] at h
  have hsize : (code.size == pltExpressionSize) = decide (code.bytes.length = 11) := by
    rw [Bool.eq_iff_iff, beq_iff_eq, decide_eq_true_eq]
    rfl
  rw [hsize] at h
  by_cases hplt : code.bytes.length = 11
  · rw [if_pos (decide_eq_true hplt)] at h
    rw [if_pos hplt]
    cases h
    rfl
  · rw [if_neg (by simpa using hplt)] at h
    rw [if_neg hplt]
    cases h
    rfl

/-- The value of an expression shows only if it is one for the return address that is of use. -/
theorem of_changeRow_valExpression {code : Section}
    (h : f.changeRow row (.valExpression r code) = .ok changed) :
    changed = row ∨ ∃ delta, r = Column.pc.number ∧
      PcExpression.recognise code = .ok (some delta) ∧
      changed = { row with fp := .pcRelative delta } := by
  dsimp only [Frame.changeRow] at h
  split at h
  · rename_i hpc
    cases hrecognise : PcExpression.recognise code with
    | error e =>
      rw [hrecognise] at h
      cases h
    | ok delta? =>
      rw [hrecognise] at h
      cases delta? with
      | none =>
        cases h
        exact .inl rfl
      | some delta =>
        cases h
        exact .inr ⟨delta, eq_of_beq hpc, rfl, rfl⟩
  · cases h
    exact .inl rfl

end

/-! ## Steps -/

section

variable {f : Frame} {state after last : FrameState} {i : Instruction} {ended : Option Rule}

/-- All that a step that goes through can do. -/
theorem step_cases (h : f.step state i = .ok (ended, after)) :
    (i = .rememberState ∧ ended = none ∧
      after = { state with remembered := state.row :: state.remembered }) ∨
    (i = .restoreState ∧ ended = none ∧ ∃ row older, state.remembered = row :: older ∧
      after = { state with row, remembered := older }) ∨
    (∃ loc, f.destination? state.loc i = some loc ∧ ended = some ⟨state.loc, state.row⟩ ∧
      after = { state with loc }) ∨
    (i ≠ .rememberState ∧ i ≠ .restoreState ∧ f.destination? state.loc i = none ∧ ended = none ∧
      ∃ row, f.changeRow state.row i = .ok row ∧ after = { state with row }) := by
  unfold Frame.step at h
  split at h
  · cases h
    exact .inl ⟨rfl, rfl, rfl⟩
  · split at h
    · cases h
    · rename_i row older hremembered
      cases h
      exact .inr (.inl ⟨rfl, rfl, row, older, hremembered, rfl⟩)
  · rename_i hremember hrestore
    split at h
    · rename_i loc hloc
      cases h
      exact .inr (.inr (.inl ⟨loc, hloc, rfl, rfl⟩))
    · rename_i hloc
      cases hrow : f.changeRow state.row i with
      | error e =>
        rw [hrow] at h
        cases h
      | ok row =>
        rw [hrow] at h
        cases h
        exact .inr (.inr (.inr ⟨hremember, hrestore, hloc, rfl, row, rfl, rfl⟩))

theorem inRange_of_changeRow {row changed : Row} (h : f.changeRow row i = .ok changed) :
    InRange f.dataAlign i := by
  cases i with
  | offset r u => exact (of_changeRow_offset h).1
  | offsetSigned r z => exact (of_changeRow_offsetSigned h).1
  | offsetNegated r u => exact (of_changeRow_offsetNegated h).1
  | defCfa r u => exact (of_changeRow_defCfa h).1
  | defCfaSigned r z => exact (of_changeRow_defCfaSigned h).1
  | defCfaOffset u => exact (of_changeRow_defCfaOffset h).1
  | defCfaOffsetSigned z => exact (of_changeRow_defCfaOffsetSigned h).1
  | _ => trivial

theorem inRange_of_step (h : f.step state i = .ok (ended, after)) : InRange f.dataAlign i := by
  rcases step_cases h with ⟨rfl, -⟩ | ⟨rfl, -⟩ | ⟨loc, hloc, -⟩ | ⟨-, -, -, -, row, hrow, -⟩
  · trivial
  · trivial
  · -- Only the two instructions that move have a destination, and they have no offsets.
    cases i with
    | setLoc target => trivial
    | advance delta => trivial
    | _ => cases hloc
  · exact inRange_of_changeRow hrow

theorem runList_cons {is : List Instruction} {rules : List Rule}
    (h : f.runList (i :: is) state = (rules, .ok last)) :
    ∃ ended next rest, f.step state i = .ok (ended, next) ∧
      f.runList is next = (rest, .ok last) ∧ rules = ended.toList ++ rest := by
  rw [Frame.runList] at h
  cases hstep : f.step state i with
  | error e =>
    rw [hstep] at h
    cases h
  | ok result =>
    obtain ⟨ended, next⟩ := result
    rw [hstep] at h
    obtain ⟨hrules, hlast⟩ := Prod.mk.inj h
    exact ⟨ended, next, _, rfl, Prod.ext rfl hlast, hrules.symm⟩

theorem inRange_of_runList {is : List Instruction} {rules : List Rule}
    (h : f.runList is state = (rules, .ok last)) : ∀ i ∈ is, InRange f.dataAlign i := by
  induction is generalizing state rules with
  | nil => simp
  | cons i is ih =>
    obtain ⟨ended, next, rest, hstep, hrest, -⟩ := runList_cons h
    rw [List.forall_mem_cons]
    exact ⟨inRange_of_step hstep, ih hrest⟩

theorem runList_of_run {p : Instruction.Program} {rules : List Rule}
    (h : f.run p state = (rules, .ok last)) :
    p.error = none ∧ f.runList p.instructions state = (rules, .ok last) := by
  unfold Frame.run at h
  split at h
  -- An error of reading is reported behind a run that went through otherwise.
  · cases h
  · rename_i hnot
    refine ⟨?_, h⟩
    cases herror : p.error with
    | none => rfl
    | some e => exact absurd herror (hnot rules last e h)

end

/-! ## Functions -/

section

variable {imageBase : UInt64} {start : UInt32} {fde : Fde} {cie : Cie} {rules : List Rule}

/-- The frame in which the instructions of a common entry and of its functions are run. -/
def frameOf (imageBase : UInt64) (cie : Cie) (initial : Row) : Frame :=
  ⟨imageBase, cie.codeAlign, cie.dataAlign, initial⟩

@[simp] theorem frameOf_dataAlign (imageBase : UInt64) (cie : Cie) (initial : Row) :
    (frameOf imageBase cie initial).dataAlign = cie.dataAlign := rfl

def setupProgram (cie : Cie) : Instruction.Program :=
  Instruction.program cie.pointerEncoding cie.instructions

def bodyProgram (fde : Fde) (cie : Cie) : Instruction.Program :=
  Instruction.program cie.pointerEncoding fde.instructions

theorem initialRow_eq (imageBase : UInt64) (start : UInt32) (cie : Cie) :
    Fde.initialRow imageBase start cie =
      match ((frameOf imageBase cie .atEntry).run (setupProgram cie) ⟨start, .atEntry, []⟩).2 with
      | .ok state => .ok state.row
      | .error e => .error e := rfl

theorem rules_eq (imageBase : UInt64) (start : UInt32) (fde : Fde) (cie : Cie) :
    fde.rules imageBase start cie =
      match Fde.initialRow imageBase start cie with
      | .error e => ([], some e)
      | .ok row =>
        match (frameOf imageBase cie row).run (bodyProgram fde cie) ⟨start, row, []⟩ with
        | (rules, .ok state) => (rules ++ [⟨state.loc, state.row⟩], none)
        | (rules, .error e) => (rules, some e) := rfl

/-- A function that is run to its end: its common entry is, and then its own instructions are. -/
structure RunsTo (imageBase : UInt64) (start : UInt32) (fde : Fde) (cie : Cie)
    (setupRules : List Rule) (entry : FrameState) (ended : List Rule) (last : FrameState) :
    Prop where
  setup : (frameOf imageBase cie .atEntry).runList (setupProgram cie).instructions
    ⟨start, .atEntry, []⟩ = (setupRules, .ok entry)
  setupError : (setupProgram cie).error = none
  body : (frameOf imageBase cie entry.row).runList (bodyProgram fde cie).instructions
    ⟨start, entry.row, []⟩ = (ended, .ok last)
  bodyError : (bodyProgram fde cie).error = none

theorem runsTo_of_rules (h : fde.rules imageBase start cie = (rules, none)) :
    ∃ setupRules entry ended last, RunsTo imageBase start fde cie setupRules entry ended last ∧
      rules = ended ++ [⟨last.loc, last.row⟩] := by
  rw [rules_eq, initialRow_eq] at h
  cases hsetup : (frameOf imageBase cie .atEntry).run (setupProgram cie) ⟨start, .atEntry, []⟩ with
  | mk setupRules final =>
    rw [hsetup] at h
    cases final with
    | error e => cases h
    | ok entry =>
      dsimp only at h
      cases hbody : (frameOf imageBase cie entry.row).run (bodyProgram fde cie)
          ⟨start, entry.row, []⟩ with
      | mk ended final =>
        rw [hbody] at h
        cases final with
        | error e => cases h
        | ok last =>
          cases h
          obtain ⟨hsetupError, hsetupList⟩ := runList_of_run hsetup
          obtain ⟨hbodyError, hbodyList⟩ := runList_of_run hbody
          exact ⟨setupRules, entry, ended, last,
            ⟨hsetupList, hsetupError, hbodyList, hbodyError⟩, rfl⟩

theorem inRange_of_rules (h : fde.rules imageBase start cie = (rules, none)) :
    ∀ i ∈ (setupProgram cie).instructions ++ (bodyProgram fde cie).instructions,
      InRange cie.dataAlign i := by
  obtain ⟨setupRules, entry, ended, last, hruns, -⟩ := runsTo_of_rules h
  have hsetup := inRange_of_runList hruns.setup
  have hbody := inRange_of_runList hruns.body
  rw [frameOf_dataAlign] at hsetup hbody
  rw [List.forall_mem_append]
  exact ⟨hsetup, hbody⟩

end

end FrameMachine

end Unwind
