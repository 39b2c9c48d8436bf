import Unwind.Proofs.FrameMachine.Track
import Unwind.Proofs.RuleTable.Routine

/-!
# The frame pointer of a row and where it is

A row that loads the frame pointer from the stack is right only as long as the register is still
there. `placesAfter` follows the places of all registers, with no regard to the CFA. The rules of
a function agree with the places along its table (`fp_of_places`), but for two instructions: those
that make the frame pointer a computed value leave the row what it was.
-/

namespace Unwind

namespace FrameMachine

open RuleTable

/-! ## Places -/

abbrev Places := Nat → Option Place

def noPlaces : Places := fun _ => none

/-- The register that a directive gives a place or takes it from, and the place. -/
def Directive.placed? (dataAlign : Int) (initial : Places) :
    Directive → Option (Nat × Option Place)
  | .offset r units => some (r, some (.offset (units * dataAlign)))
  | .offsetNegated r units => some (r, some (.offset (-(units * dataAlign))))
  | .restore r => some (r, initial r)
  | .undefined r => some (r, some .undefined)
  | .sameValue r => some (r, some .sameValue)
  | .inRegister r holder => some (r, some (.register holder))
  | .expression r code => some (r, some (.expression code))
  | .valOffset r units => some (r, some (.valOffset (units * dataAlign)))
  | .valExpression r code => some (r, some (.valExpression code))
  | _ => none

/-- The places behind a directive that does not take columns back. -/
def placesAfter (dataAlign : Int) (initial places : Places) (d : Directive) : Places :=
  match d.placed? dataAlign initial with
  | some (r, p) => Function.update places r p
  | none => places

section

variable {u : Surroundings} {s t : State} {d : Directive} {ds : List Directive}

/-- The places of a state and of the columns put aside. -/
def State.places (s : State) : Tracked Places :=
  ⟨s.columns.place, s.saved.map (·.place)⟩

theorem step_places (h : step u s d = .ok t) :
    s.places.step (placesAfter u.dataAlign u.initial) d = some t.places := by
  cases d with
  | restoreState =>
    dsimp only [step] at h
    split at h
    · cases h
    · rename_i columns saved heq
      cases h
      unfold Tracked.step State.places
      rw [heq]
      rfl
  | defCfaRegister _ | defCfaOffset _ | defCfaOffsetSigned _ =>
    dsimp only [step] at h
    split at h
    · cases h
      rfl
    · cases h
  | _ =>
    cases h
    rfl

theorem run_places {lines : List Line} (h : run u ds s = (lines, .ok t)) :
    s.places.run (placesAfter u.dataAlign u.initial) ds =
      some (lines.map (·.columns.place), t.columns.place) := by
  induction ds generalizing s lines with
  | nil =>
    cases h
    rfl
  | cons d ds ih =>
    rw [run] at h
    cases hstep : step u s d with
    | error e =>
      rw [hstep] at h
      cases h
    | ok next =>
      rw [hstep] at h
      obtain ⟨rfl, hlast⟩ := Prod.mk.inj h
      rw [Tracked.run_cons (step_places hstep) (ih (Prod.ext rfl hlast))]
      cases d.moves <;> rfl

/-- Where the table of a function has a meaning, the places along it are the columns of its
lines. -/
theorem track_places {codeAlign start : Nat} {dataAlign : Int} {setup body : List Directive}
    {lines : List Line} (h : table codeAlign dataAlign start setup body = (lines, none)) :
    track (placesAfter dataAlign) noPlaces setup body =
      some (lines.map (·.columns.place)) := by
  unfold table setUp at h
  unfold track
  cases hsetup : run ⟨codeAlign, dataAlign, fun _ => none⟩ setup ⟨⟨start, .atEntry⟩, []⟩ with
  | mk setupLines final =>
    rw [hsetup] at h
    cases final with
    | error e => cases h
    | ok s =>
      dsimp only at h
      cases hbody : run ⟨codeAlign, dataAlign, s.columns.place⟩ body ⟨⟨start, s.columns⟩, []⟩ with
      | mk ended final =>
        rw [hbody] at h
        cases final with
        | error e => cases h
        | ok t =>
          cases h
          rw [List.map_append]
          exact track_of_runs (run_places hsetup) (run_places hbody)

end

/-! ## Rows -/

/-- The value itself is given and not where it is stored. -/
def Place.Computed : Option Place → Prop
  | some (.valOffset _) | some (.valExpression _) => True
  | _ => False

/-- The instruction gives the value of the frame pointer. -/
def ComputesFp : Instruction → Prop
  | .valOffset r _ | .valExpression r _ => r.toNat = 6
  | _ => False

instance : DecidablePred ComputesFp
  | .valOffset r _ | .valExpression r _ => inferInstanceAs (Decidable (r.toNat = 6))
  | .nop | .setLoc _ | .advance _ | .offset _ _ | .offsetSigned _ _ | .offsetNegated _ _
  | .restore _ | .undefined _ | .sameValue _ | .inRegister _ _ | .rememberState | .restoreState
  | .defCfa _ _ | .defCfaSigned _ _ | .defCfaRegister _ | .defCfaOffset _ | .defCfaOffsetSigned _
  | .defCfaExpression _ | .expression _ _ | .windowSave | .argsSize _ => isFalse id

/-- How the rule of a row and the place of the frame pointer belong together in a function with the
instructions `code`. -/
inductive FpOf (code : List Instruction) (fp : FpRule) (p : Option Place) : Prop
  /-- the rule says where the register is, or leaves it alone where it cannot -/
  | shown (h : Place.ShownBy fp p)
  /-- the register was made a computed value, which left the rule what it was -/
  | computed (h : Place.Computed p) (made : ∃ i ∈ code, ComputesFp i)
  /-- the rule is about the return address -/
  | pcRelative (delta : Int32) (h : fp = .pcRelative delta)
      (made : ∃ e, .valExpression Column.pc.number e ∈ code ∧
        PcExpression.recognise e = .ok (some delta))

section

variable {code : List Instruction} {row : Row} {places : Places}

theorem FpOf.put (h : FpOf code row.fp (places 6)) (r : UInt64) {fp : FpRule} {p : Option Place}
    (hfp : r.toNat = 6 → FpOf code fp p) :
    FpOf code (row.setFp r fp).fp (Function.update places r.toNat p 6) := by
  rw [setFp_eq]
  by_cases hr : r.toNat = 6
  · rw [if_pos hr, hr, Function.update_self]
    exact hfp hr
  · rw [if_neg hr, Function.update_of_ne (Ne.symm hr)]
    exact h

theorem FpOf.compute (h : FpOf code row.fp (places 6)) (r : UInt64) {i : Instruction}
    {p : Option Place} (hi : i ∈ code) (hcomputes : r.toNat = 6 → ComputesFp i)
    (hcomputed : Place.Computed p) : FpOf code row.fp (Function.update places r.toNat p 6) := by
  by_cases hr : r.toNat = 6
  · rw [hr, Function.update_self]
    exact .computed hcomputed ⟨i, hi, hcomputes hr⟩
  · rw [Function.update_of_ne (Ne.symm hr)]
    exact h

theorem keeps_fpOf (imageBase : UInt64) (cie : Cie) {initialRow : Row} {initial : Places}
    (hinitial : FpOf code initialRow.fp (initial 6)) :
    Keeps (fun row places => FpOf code row.fp (places 6)) (frameOf imageBase cie initialRow)
      (placesAfter cie.dataAlign.toInt initial) code := by
  intro i hi d denotes row changed places hchange h
  cases denotes with
  | offset _ =>
    obtain ⟨-, o, ho, rfl⟩ := of_changeRow_offset hchange
    exact h.put _ fun _ => .shown ⟨o, rfl, ho⟩
  | offsetSigned r z =>
    obtain ⟨-, o, ho, rfl⟩ := of_changeRow_offsetSigned hchange
    exact h.put r fun _ => .shown ⟨o, rfl, ho⟩
  | offsetNegated _ =>
    obtain ⟨-, o, ho, rfl⟩ := of_changeRow_offsetNegated hchange
    exact h.put _ fun _ => .shown ⟨o, rfl, ho⟩
  | restore r =>
    have hfp : r.toNat = 6 → FpOf code initialRow.fp (initial r.toNat) := by
      intro hr
      rw [hr]
      exact hinitial
    cases hchange
    exact h.put r hfp
  -- Wherever else the register is, the row says that it is unchanged.
  | undefined r | sameValue r | inRegister r _ | expression r _ =>
    cases hchange
    exact h.put r fun _ => .shown rfl
  -- Nothing is done here, also where the register is the frame pointer.
  | valOffset r u z =>
    cases hchange
    exact h.compute r hi id trivial
  | valExpression r e =>
    rcases of_changeRow_valExpression hchange with rfl | ⟨delta, rfl, hrecognise, rfl⟩
    · exact h.compute r hi id trivial
    · exact .pcRelative delta rfl ⟨e, hi, hrecognise⟩
  -- The rest is about the CFA or about nothing.
  | defCfa r u =>
    obtain ⟨-, o, -, rfl⟩ := of_changeRow_defCfa hchange
    exact h
  | defCfaSigned r z =>
    obtain ⟨-, o, -, rfl⟩ := of_changeRow_defCfaSigned hchange
    exact h
  | defCfaOffset u =>
    obtain ⟨-, o, -, rfl⟩ := of_changeRow_defCfaOffset hchange
    exact h
  | defCfaOffsetSigned z =>
    obtain ⟨-, o, -, rfl⟩ := of_changeRow_defCfaOffsetSigned hchange
    exact h
  | defCfaExpression e =>
    rw [of_changeRow_defCfaExpression hchange]
    split <;> exact h
  | _ =>
    cases hchange
    exact h

end

/-- All the instructions of a function, those of the common entry first. -/
def instructionsOf (fde : Fde) (cie : Cie) : List Instruction :=
  (setupProgram cie).instructions ++ (bodyProgram fde cie).instructions

/-- The places of the registers along the table of a function. -/
def placesOf (fde : Fde) (cie : Cie) : Option (List Places) :=
  track (placesAfter cie.dataAlign.toInt) noPlaces
    ((setupProgram cie).instructions.filterMap directive?)
    ((bodyProgram fde cie).instructions.filterMap directive?)

/-- The rule is true to the place of the frame pointer, or about the return address instead. -/
def FpShown (rule : Rule) (p : Places) : Prop :=
  Place.ShownBy rule.row.fp (p 6) ∨ ∃ delta, rule.row.fp = .pcRelative delta

/-- Row by row, a function that is run to its end has the frame pointer where its table has it, or a
rule about the return address instead. The exception are computed values: they leave behind what the
row had before, so a function is free of it if no instruction computes the frame pointer. Where the
table has a meaning, these places are the columns of its lines. -/
theorem fp_of_places {imageBase : UInt64} {start : UInt32} {fde : Fde} {cie : Cie}
    {rules : List Rule} (h : fde.rules imageBase start cie = (rules, none)) :
    ∃ places, placesOf fde cie = some places ∧
      List.Forall₂ (fun rule p => FpOf (instructionsOf fde cie) rule.row.fp (p 6)) rules places ∧
      ((∀ i ∈ instructionsOf fde cie, ¬ ComputesFp i) →
        List.Forall₂ FpShown rules places) ∧
      ∀ lines, table cie.codeAlign.toNat cie.dataAlign.toInt fde.pcStart.toNat
          ((setupProgram cie).instructions.filterMap directive?)
          ((bodyProgram fde cie).instructions.filterMap directive?) = (lines, none) →
        places = lines.map (·.columns.place) := by
  have inRange := inRange_of_rules h
  rw [List.forall_mem_append] at inRange
  -- Before the first instruction no register has a place.
  have hentry : FpOf (instructionsOf fde cie) Row.atEntry.fp (noPlaces 6) := .shown rfl
  obtain ⟨places, hplaces, hfp⟩ :=
    rules_track (R := fun row (p : Places) => FpOf (instructionsOf fde cie) row.fp (p 6))
      (spells_directives inRange.1) (spells_directives inRange.2) hentry
      (fun _ _ hinitial => keeps_fpOf imageBase cie hinitial) h
  refine ⟨places, hplaces, hfp, fun hnone => ?_, fun lines hlines => ?_⟩
  · apply hfp.imp
    rintro rule p (hshown | ⟨-, i, hi, hcomputes⟩ | ⟨delta, hdelta, -⟩)
    · exact .inl hshown
    · exact absurd hcomputes (hnone i hi)
    · exact .inr ⟨delta, hdelta⟩
  · rw [track_places hlines] at hplaces
    exact (Option.some.inj hplaces).symm

theorem fp_of_places_lost :
    ∃ places, placesOf (bareFde [0x86, 0x02, 0x41, 0x07, 0x06]) bareCie = some places ∧
      List.Forall₂ FpShown
        [⟨0x1000, ⟨.sp, 8, .saved (-16)⟩⟩, ⟨0x1001, ⟨.sp, 8, .unchanged⟩⟩] places := by
  have hrules : (bareFde [0x86, 0x02, 0x41, 0x07, 0x06]).rules 0 0x1000 bareCie =
      ([⟨0x1000, ⟨.sp, 8, .saved (-16)⟩⟩, ⟨0x1001, ⟨.sp, 8, .unchanged⟩⟩], none) := by
    decide +kernel
  obtain ⟨places, hplaces, -, hfp, -⟩ := fp_of_places hrules
  exact ⟨places, hplaces, hfp (by decide +kernel)⟩

/-- The frame pointer is saved and then made a computed value, the CFA less 24 bytes in one function
and the value of an expression in the other. The only row of each still loads it from the stack. -/
theorem saved_while_computed :
    (bareFde [0x86, 0x02, 0x14, 0x06, 0x03]).rules 0 0x1000 bareCie =
        ([⟨0x1000, ⟨.sp, 8, .saved (-16)⟩⟩], none) ∧
      (placesOf (bareFde [0x86, 0x02, 0x14, 0x06, 0x03]) bareCie).map (·.map (· 6)) =
        some [some (.valOffset (-24))] ∧
      (bareFde [0x86, 0x02, 0x16, 0x06, 0x01, 0x50]).rules 0 0x1000 bareCie =
        ([⟨0x1000, ⟨.sp, 8, .saved (-16)⟩⟩], none) ∧
      (placesOf (bareFde [0x86, 0x02, 0x16, 0x06, 0x01, 0x50]) bareCie).map (·.map (· 6)) =
        some [some (.valExpression [0x50])] := by
  decide +kernel

end FrameMachine

end Unwind
