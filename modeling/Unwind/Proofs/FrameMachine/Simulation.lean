import Mathlib.Data.List.Forall2
import Unwind.Proofs.FrameMachine.Forms
import Unwind.RuleTable

/-!
# The rules of a function are its table, with all columns but two forgotten

The machine that yields rules keeps the CFA and the column of the frame pointer. `Shows` says which
row is left of the columns of a line; every directive commutes with forgetting the others
(`step_shows`), so the rules of a function show the lines of its table, one by one and in order.
-/

namespace Unwind

namespace FrameMachine

/-! ## What is left of a line -/

/-- The base that a register number names. -/
def baseOf (r : Nat) : CfaBase :=
  if r = 7 then .sp else if r = 6 then .fp else .unsupported

def Cfa.ShownBy (row : Row) : Cfa → Prop
  | .register r n => row.base = baseOf r ∧ row.offset.toInt = n
  | .expression code =>
    -- Expressions of this length are those of the stubs of the procedure linkage table.
    if code.length = 11 then row.base = .plt ∧ row.offset = 8 else row.base = .unsupported

def Place.ShownBy (fp : FpRule) : Option Place → Prop
  | some (.offset n) => ∃ o, fp = .saved o ∧ o.toInt = n
  | _ => fp = .unchanged

/-- The row is what is left of the columns. -/
structure Columns.ShownBy (row : Row) (c : Columns) : Prop where
  cfa : c.cfa.ShownBy row
  fp : Place.ShownBy row.fp (c.place 6)

/-- The rule is what is left of the line. -/
structure Line.ShownBy (imageBase : UInt64) (r : Rule) (l : Line) : Prop where
  loc : (r.loc.toNat : Int) = (l.location - imageBase.toNat) % 2 ^ 32
  columns : l.columns.ShownBy r.row

structure State.ShownBy (imageBase : UInt64) (state : FrameState) (s : State) : Prop where
  line : s.toLine.ShownBy imageBase ⟨state.loc, state.row⟩
  saved : List.Forall₂ Columns.ShownBy state.remembered s.saved

structure Surroundings.ShownBy (f : Frame) (u : Surroundings) : Prop where
  code : f.codeAlign.toNat = u.codeAlign
  data : f.dataAlign.toInt = u.dataAlign
  initial : Place.ShownBy f.initial.fp (u.initial 6)

/-! ## Offsets that can be represented -/

def Fits (z : Int) : Prop :=
  -2 ^ 31 ≤ z ∧ z < 2 ^ 31

instance (z : Int) : Decidable (Fits z) := inferInstanceAs (Decidable (_ ∧ _))

/-- All offsets of the directive can be represented, and it does not make the value of the frame
pointer or of the return address anything but a value in memory. -/
def Directive.Supported (dataAlign : Int) : Directive → Prop
  | .offset _ units | .defCfaSigned _ units | .defCfaOffsetSigned units => Fits (units * dataAlign)
  | .offsetNegated _ units => Fits (units * dataAlign) ∧ Fits (-(units * dataAlign))
  | .defCfa _ n | .defCfaOffset n => Fits n
  | .valOffset r _ | .valExpression r _ => r ≠ 6 ∧ r ≠ 16
  | _ => True

instance (dataAlign : Int) : DecidablePred (Directive.Supported dataAlign)
  | .offset _ units | .defCfaSigned _ units | .defCfaOffsetSigned units =>
    inferInstanceAs (Decidable (Fits (units * dataAlign)))
  | .offsetNegated _ units =>
    inferInstanceAs (Decidable (Fits (units * dataAlign) ∧ Fits (-(units * dataAlign))))
  | .defCfa _ n | .defCfaOffset n => inferInstanceAs (Decidable (Fits n))
  | .valOffset r _ | .valExpression r _ => inferInstanceAs (Decidable (r ≠ 6 ∧ r ≠ 16))
  | .setLoc _ | .advance _ | .restore _ | .undefined _ | .sameValue _ | .inRegister _ _
  | .expression _ _ | .rememberState | .restoreState | .defCfaRegister _ | .defCfaExpression _ =>
    isTrue trivial

theorem fitOffset_of_fits {z : Int} (h : Fits z) :
    ∃ o, fitOffset z = .ok o ∧ o.toInt = z := by
  obtain ⟨hlo, hhi⟩ := h
  refine ⟨Int32.ofInt z, ?_, Int32.toInt_ofInt_of_le hlo hhi⟩
  unfold fitOffset
  rw [if_pos ⟨hlo, hhi⟩]

theorem fitInt64_of_lt {u : UInt64} (h : u.toNat < 2 ^ 63) :
    fitInt64 u.toNat = pure (u.toNat : Int) := by
  unfold fitInt64
  rw [if_pos ⟨by omega, by omega⟩]
  rfl

theorem scaledUnsigned_of_fits {f : Frame} {u : UInt64} (hlt : u.toNat < 2 ^ 63)
    (h : Fits (u.toNat * f.dataAlign.toInt)) :
    ∃ o, f.scaledUnsigned u = .ok o ∧ o.toInt = u.toNat * f.dataAlign.toInt := by
  unfold Frame.scaledUnsigned Frame.scaled
  rw [fitInt64_of_lt hlt, pure_bind]
  exact fitOffset_of_fits h

theorem bytesOffset_of_fits {u : UInt64} (h : Fits u.toNat) :
    ∃ o, Frame.bytesOffset u = .ok o ∧ o.toInt = u.toNat := by
  have hlt : u.toNat < 2 ^ 63 := by
    have hhi := h.2
    omega
  unfold Frame.bytesOffset
  rw [fitInt64_of_lt hlt, pure_bind]
  exact fitOffset_of_fits h

/-! ## Columns and rows change together -/

theorem ofColumn_eq (r : UInt64) : CfaBase.ofColumn r = baseOf r.toNat := by
  unfold CfaBase.ofColumn baseOf
  have hsp : (r == Column.sp.number) = decide (r.toNat = 7) := by
    rw [Bool.eq_iff_iff, beq_iff_eq, decide_eq_true_eq, ← UInt64.toNat_inj]
    rfl
  have hfp : (r == Column.fp.number) = decide (r.toNat = 6) := by
    rw [Bool.eq_iff_iff, beq_iff_eq, decide_eq_true_eq, ← UInt64.toNat_inj]
    rfl
  simp only [hsp, hfp, decide_eq_true_eq]

namespace Columns.ShownBy

variable {row : Row} {c : Columns}

theorem put_other (h : c.ShownBy row) {r : Nat} (hr : r ≠ 6) (p : Option Place) :
    (c.put r p).ShownBy row := by
  refine ⟨h.cfa, ?_⟩
  unfold Columns.put
  dsimp only
  rw [Function.update_of_ne (Ne.symm hr)]
  exact h.fp

/-- A register gets another place. -/
theorem put (h : c.ShownBy row) (r : UInt64) {fp : FpRule} {p : Option Place}
    (hfp : r.toNat = 6 → Place.ShownBy fp p) : (c.put r.toNat p).ShownBy (row.setFp r fp) := by
  unfold Row.setFp
  by_cases hr : r = 6
  · subst hr
    refine ⟨h.cfa, ?_⟩
    change Place.ShownBy fp (Function.update c.place 6 p 6)
    rw [Function.update_self]
    exact hfp rfl
  · have hne : r.toNat ≠ 6 := fun heq => hr (UInt64.toNat_inj.mp heq)
    rw [if_neg (by rwa [beq_iff_eq])]
    exact h.put_other hne p

theorem setCfa (h : c.ShownBy row) (base : CfaBase) (offset : Int32) {cfa : Cfa}
    (hcfa : cfa.ShownBy { row with base, offset }) :
    Columns.ShownBy { row with base, offset } { c with cfa } :=
  ⟨hcfa, h.fp⟩

end Columns.ShownBy

section

variable {f : Frame} {row : Row} {c : Columns}

theorem changeRow_offset (h : c.ShownBy row) (r : UInt64) {v : UInt64} (hlt : v.toNat < 2 ^ 63)
    (hfits : Fits (v.toNat * f.dataAlign.toInt)) :
    ∃ next, f.changeRow row (.offset r v) = .ok next ∧
      (c.put r.toNat (some (.offset (v.toNat * f.dataAlign.toInt)))).ShownBy next := by
  obtain ⟨o, ho, hvalue⟩ := scaledUnsigned_of_fits hlt hfits
  refine ⟨_, ?_, h.put r fun _ => ⟨o, rfl, hvalue⟩⟩
  dsimp only [Frame.changeRow]
  rw [ho]
  rfl

theorem changeRow_offsetSigned (h : c.ShownBy row) (r : UInt64) {z : Int64}
    (hfits : Fits (z.toInt * f.dataAlign.toInt)) :
    ∃ next, f.changeRow row (.offsetSigned r z) = .ok next ∧
      (c.put r.toNat (some (.offset (z.toInt * f.dataAlign.toInt)))).ShownBy next := by
  obtain ⟨o, ho, hvalue⟩ := fitOffset_of_fits hfits
  refine ⟨_, ?_, h.put r fun _ => ⟨o, rfl, hvalue⟩⟩
  dsimp only [Frame.changeRow, Frame.scaled]
  rw [ho]
  rfl

/-- The multiple is checked before it is negated, and once more after that. -/
theorem changeRow_offsetNegated (h : c.ShownBy row) (r : UInt64) {v : UInt64}
    (hlt : v.toNat < 2 ^ 63) (hfits : Fits (v.toNat * f.dataAlign.toInt))
    (hnegated : Fits (-(v.toNat * f.dataAlign.toInt))) :
    ∃ next, f.changeRow row (.offsetNegated r v) = .ok next ∧
      (c.put r.toNat (some (.offset (-(v.toNat * f.dataAlign.toInt))))).ShownBy next := by
  obtain ⟨o, ho, hvalue⟩ := scaledUnsigned_of_fits hlt hfits
  obtain ⟨negated, hok, hvalue'⟩ := fitOffset_of_fits hnegated
  refine ⟨_, ?_, h.put r fun _ => ⟨negated, rfl, hvalue'⟩⟩
  dsimp only [Frame.changeRow]
  rw [ho]
  dsimp only [bind, Except.bind]
  rw [hvalue, hok]
  rfl

theorem changeRow_valExpression (f : Frame) (row : Row) {r : UInt64} (hr : r.toNat ≠ 16)
    (code : Section) : f.changeRow row (.valExpression r code) = .ok row := by
  have hne : r ≠ Column.pc.number := fun heq => hr (congrArg UInt64.toNat heq)
  dsimp only [Frame.changeRow]
  rw [if_neg (by rwa [beq_iff_eq])]
  rfl

theorem changeRow_defCfa (h : c.ShownBy row) (r : UInt64) {v : UInt64} (hfits : Fits v.toNat) :
    ∃ next, f.changeRow row (.defCfa r v) = .ok next ∧
      Columns.ShownBy next { c with cfa := .register r.toNat v.toNat } := by
  obtain ⟨o, ho, hvalue⟩ := bytesOffset_of_fits hfits
  refine ⟨_, ?_, h.setCfa (.ofColumn r) o ⟨ofColumn_eq r, hvalue⟩⟩
  dsimp only [Frame.changeRow]
  rw [ho]
  rfl

theorem changeRow_defCfaSigned (h : c.ShownBy row) (r : UInt64) {z : Int64}
    (hfits : Fits (z.toInt * f.dataAlign.toInt)) :
    ∃ next, f.changeRow row (.defCfaSigned r z) = .ok next ∧
      Columns.ShownBy next { c with cfa := .register r.toNat (z.toInt * f.dataAlign.toInt) } := by
  obtain ⟨o, ho, hvalue⟩ := fitOffset_of_fits hfits
  refine ⟨_, ?_, h.setCfa (.ofColumn r) o ⟨ofColumn_eq r, hvalue⟩⟩
  dsimp only [Frame.changeRow, Frame.scaled]
  rw [ho]
  rfl

theorem changeRow_defCfaOffset (h : c.ShownBy row) {r : Nat} {n : Int}
    (hcfa : c.cfa = .register r n) {v : UInt64} (hfits : Fits v.toNat) :
    ∃ next, f.changeRow row (.defCfaOffset v) = .ok next ∧
      Columns.ShownBy next { c with cfa := .register r v.toNat } := by
  obtain ⟨o, ho, hvalue⟩ := bytesOffset_of_fits hfits
  have hbase := h.cfa
  rw [hcfa] at hbase
  refine ⟨_, ?_, h.setCfa row.base o ⟨hbase.1, hvalue⟩⟩
  dsimp only [Frame.changeRow]
  rw [ho]
  rfl

theorem changeRow_defCfaOffsetSigned (h : c.ShownBy row) {r : Nat} {n : Int}
    (hcfa : c.cfa = .register r n) {z : Int64} (hfits : Fits (z.toInt * f.dataAlign.toInt)) :
    ∃ next, f.changeRow row (.defCfaOffsetSigned z) = .ok next ∧
      Columns.ShownBy next { c with cfa := .register r (z.toInt * f.dataAlign.toInt) } := by
  obtain ⟨o, ho, hvalue⟩ := fitOffset_of_fits hfits
  have hbase := h.cfa
  rw [hcfa] at hbase
  refine ⟨_, ?_, h.setCfa row.base o ⟨hbase.1, hvalue⟩⟩
  dsimp only [Frame.changeRow, Frame.scaled]
  rw [ho]
  rfl

theorem changeRow_defCfaExpression (h : c.ShownBy row) (code : Section) :
    ∃ next, f.changeRow row (.defCfaExpression code) = .ok next ∧
      Columns.ShownBy next { c with cfa := .expression code.bytes } := by
  dsimp only [Frame.changeRow]
  by_cases hsize : code.bytes.length = 11
  · rw [if_pos (show (code.size == pltExpressionSize) = true from beq_iff_eq.mpr hsize)]
    refine ⟨_, rfl, h.setCfa .plt 8 ?_⟩
    dsimp only [Cfa.ShownBy]
    rw [if_pos hsize]
    exact ⟨rfl, rfl⟩
  · rw [if_neg (show ¬ (code.size == pltExpressionSize) = true by rwa [beq_iff_eq])]
    -- The offset is left as it was; nothing is read from it any more.
    refine ⟨_, rfl, h.setCfa .unsupported row.offset ?_⟩
    dsimp only [Cfa.ShownBy]
    rw [if_neg hsize]

end

/-! ## Steps -/

/-- An instruction that only changes the row. -/
theorem step_of_changeRow {f : Frame} {state : FrameState} {row : Row} {i : Instruction}
    (hstay : f.destination? state.loc i = none) (hremember : i ≠ .rememberState)
    (hrestore : i ≠ .restoreState) (hrow : f.changeRow state.row i = .ok row) :
    f.step state i = .ok (none, { state with row }) := by
  unfold Frame.step
  split
  · exact absurd rfl hremember
  · exact absurd rfl hrestore
  · rw [hstay, hrow]
    rfl

theorem step_of_idle {f : Frame} {state : FrameState} {i : Instruction} (h : Idle i) :
    f.step state i = .ok (none, state) := by
  cases h with
  | nop => exact step_of_changeRow rfl (by decide) (by decide) rfl
  | windowSave => exact step_of_changeRow rfl (by decide) (by decide) rfl
  | argsSize size => exact step_of_changeRow rfl nofun nofun rfl

variable {f : Frame} {u : Surroundings} {state : FrameState} {s t : State} {i : Instruction}
  {d : Directive}

theorem State.ShownBy.withColumns (h : s.ShownBy f.imageBase state) {row : Row} {c : Columns}
    (hrow : c.ShownBy row) :
    State.ShownBy f.imageBase { state with row } { s with columns := c } :=
  ⟨⟨h.line.loc, hrow⟩, h.saved⟩

/-- A step of the full machine is a step of the one that keeps two columns, and the line that it
ends is yielded as a rule. -/
theorem step_shows (hu : u.ShownBy f) (hs : s.ShownBy f.imageBase state) (denotes : Denotes i d)
    (supported : d.Supported u.dataAlign) (hstep : step u s d = .ok t) :
    ∃ next, f.step state i =
        .ok (if d.moves then some ⟨state.loc, state.row⟩ else none, next) ∧
      t.ShownBy f.imageBase next := by
  obtain ⟨hcode, hdata, hinitial⟩ := hu
  have hloc := hs.line.loc
  have hcolumns := hs.line.columns
  rw [← hdata] at supported
  -- One case for each instruction; those that change the row differ in what they make of it.
  cases denotes with
  | setLoc target =>
    cases hstep
    refine ⟨_, rfl, ⟨?_, hcolumns⟩, hs.saved⟩
    rw [UInt64.toNat_toUInt32, UInt64.toNat_sub]
    have hbase := f.imageBase.toNat_lt
    dsimp only
    omega
  | @advance delta units h =>
    cases hstep
    refine ⟨_, rfl, ⟨?_, hcolumns⟩, hs.saved⟩
    rw [UInt32.toNat_add, UInt32.toNat_mul, h, hcode]
    dsimp only at hloc ⊢
    push_cast
    generalize (units : Int) * u.codeAlign = distance
    omega
  | @offset r _ hlt =>
    obtain ⟨row, hrow, hshown⟩ := changeRow_offset hcolumns r hlt supported
    rw [hdata] at hshown
    cases hstep
    exact ⟨_, step_of_changeRow rfl nofun nofun hrow, hs.withColumns hshown⟩
  | offsetSigned r _ =>
    obtain ⟨row, hrow, hshown⟩ := changeRow_offsetSigned hcolumns r supported
    rw [hdata] at hshown
    cases hstep
    exact ⟨_, step_of_changeRow rfl nofun nofun hrow, hs.withColumns hshown⟩
  | @offsetNegated r _ hlt =>
    obtain ⟨row, hrow, hshown⟩ :=
      changeRow_offsetNegated hcolumns r hlt supported.1 supported.2
    rw [hdata] at hshown
    cases hstep
    exact ⟨_, step_of_changeRow rfl nofun nofun hrow, hs.withColumns hshown⟩
  | restore r =>
    have hfp : r.toNat = 6 → Place.ShownBy f.initial.fp (u.initial r.toNat) := by
      intro hr
      rw [hr]
      exact hinitial
    cases hstep
    exact ⟨_, step_of_changeRow rfl nofun nofun rfl, hs.withColumns (hcolumns.put r hfp)⟩
  -- Wherever else a register is, the walk goes on with the one it has.
  | undefined r | sameValue r | inRegister r _ | expression r _ =>
    cases hstep
    exact ⟨_, step_of_changeRow rfl nofun nofun rfl,
      hs.withColumns (hcolumns.put r fun _ => rfl)⟩
  | valOffset _ _ _ =>
    cases hstep
    exact ⟨_, step_of_changeRow rfl nofun nofun rfl,
      hs.withColumns (hcolumns.put_other supported.1 _)⟩
  | valExpression _ code =>
    have hrow := changeRow_valExpression f state.row supported.2 code
    cases hstep
    exact ⟨_, step_of_changeRow rfl nofun nofun hrow,
      hs.withColumns (hcolumns.put_other supported.1 _)⟩
  | rememberState =>
    cases hstep
    exact ⟨_, rfl, hs.line, .cons hcolumns hs.saved⟩
  | restoreState =>
    have hsaved := hs.saved
    dsimp only [step] at hstep
    split at hstep
    · cases hstep
    · rename_i columns saved heq
      cases hstep
      rw [heq] at hsaved
      obtain ⟨row, older, hrow, holder, hremembered⟩ := List.forall₂_cons_right_iff.mp hsaved
      refine ⟨{ state with row, remembered := older }, ?_, ⟨hloc, hrow⟩, holder⟩
      unfold Frame.step
      rw [hremembered]
      rfl
  | defCfa r _ =>
    obtain ⟨row, hrow, hshown⟩ := changeRow_defCfa hcolumns r supported
    cases hstep
    exact ⟨_, step_of_changeRow rfl nofun nofun hrow, hs.withColumns hshown⟩
  | defCfaSigned r _ =>
    obtain ⟨row, hrow, hshown⟩ := changeRow_defCfaSigned hcolumns r supported
    rw [hdata] at hshown
    cases hstep
    exact ⟨_, step_of_changeRow rfl nofun nofun hrow, hs.withColumns hshown⟩
  -- The next three only have a meaning where the CFA is a register plus an offset.
  | defCfaRegister r =>
    dsimp only [step] at hstep
    split at hstep
    · rename_i heq
      have hcfa := hcolumns.cfa
      rw [heq] at hcfa
      cases hstep
      exact ⟨_, step_of_changeRow rfl nofun nofun rfl,
        hs.withColumns (hcolumns.setCfa _ _ ⟨ofColumn_eq r, hcfa.2⟩)⟩
    · cases hstep
  | defCfaOffset _ =>
    dsimp only [step] at hstep
    split at hstep
    · rename_i heq
      obtain ⟨row, hrow, hshown⟩ := changeRow_defCfaOffset hcolumns heq supported
      cases hstep
      exact ⟨_, step_of_changeRow rfl nofun nofun hrow, hs.withColumns hshown⟩
    · cases hstep
  | defCfaOffsetSigned _ =>
    dsimp only [step] at hstep
    split at hstep
    · rename_i heq
      obtain ⟨row, hrow, hshown⟩ := changeRow_defCfaOffsetSigned hcolumns heq supported
      rw [hdata] at hshown
      cases hstep
      exact ⟨_, step_of_changeRow rfl nofun nofun hrow, hs.withColumns hshown⟩
    · cases hstep
  | defCfaExpression code =>
    obtain ⟨row, hrow, hshown⟩ := changeRow_defCfaExpression hcolumns code
    cases hstep
    exact ⟨_, step_of_changeRow rfl nofun nofun hrow, hs.withColumns hshown⟩

/-- Where the full machine finds nothing put aside, so does the other one. -/
theorem step_faults (hs : s.ShownBy f.imageBase state) (denotes : Denotes i d)
    (hstep : step u s d = .error .nothingSaved) : f.step state i = .error .nothingRemembered := by
  cases denotes with
  | restoreState =>
    have hsaved := hs.saved
    dsimp only [step] at hstep
    split at hstep
    · rename_i heq
      rw [heq, List.forall₂_nil_right_iff] at hsaved
      unfold Frame.step
      rw [hsaved]
    · cases hstep
  | defCfaRegister _ | defCfaOffset _ | defCfaOffsetSigned _ =>
    dsimp only [step] at hstep
    split at hstep <;> cases hstep
  | _ => cases hstep

/-! ## Runs -/

/-- Both runs end in states that belong together, or with the same fault. -/
def EndsShownBy (imageBase : UInt64) (last : Except CfiError FrameState) :
    Except Fault State → Prop
  | .ok t => ∃ state, last = .ok state ∧ t.ShownBy imageBase state
  | .error .nothingSaved => last = .error .nothingRemembered
  | .error .noRegister => True

/-- The rules of a run show the lines of the full run. -/
theorem run_shows {is : List Instruction} {ds : List Directive} (hu : u.ShownBy f)
    (hspells : Spells is ds) (hs : s.ShownBy f.imageBase state)
    (supported : ∀ d ∈ ds, d.Supported u.dataAlign)
    (hregister : (run u ds s).2 ≠ .error .noRegister) :
    List.Forall₂ (Line.ShownBy f.imageBase) (f.runList is state).1 (run u ds s).1 ∧
      EndsShownBy f.imageBase (f.runList is state).2 (run u ds s).2 := by
  -- What carries the induction is that both machines are in states that belong together.
  induction hspells generalizing state s with
  | nil => exact ⟨.nil, state, rfl, hs⟩
  | idle hidle _ ih =>
    rw [Frame.runList, step_of_idle hidle]
    exact ih hs supported hregister
  | @cons i d is ds denotes _ ih =>
    have hhead : d.Supported u.dataAlign := supported d List.mem_cons_self
    have htail : ∀ e ∈ ds, e.Supported u.dataAlign :=
      fun e he => supported e (List.mem_cons_of_mem d he)
    rw [run] at hregister ⊢
    cases hstep : step u s d with
    | error e =>
      rw [hstep] at hregister
      cases e with
      | nothingSaved =>
        rw [Frame.runList, step_faults hs denotes hstep]
        exact ⟨.nil, rfl⟩
      | noRegister => exact absurd rfl hregister
    | ok t =>
      obtain ⟨next, hnext, ht⟩ := step_shows hu hs denotes hhead hstep
      rw [hstep] at hregister
      obtain ⟨hlines, hlast⟩ := ih ht htail hregister
      rw [Frame.runList, hnext]
      refine ⟨?_, hlast⟩
      dsimp only
      cases d.moves with
      | true => exact .cons hs.line hlines
      | false => exact hlines

theorem run_of_written {encoding : UInt8} {code : Section} {ds : List Directive}
    (hu : u.ShownBy f) (hs : s.ShownBy f.imageBase state)
    (written : Written encoding code.address ds code.bytes)
    (supported : ∀ d ∈ ds, d.Supported u.dataAlign)
    (hregister : (run u ds s).2 ≠ .error .noRegister) :
    List.Forall₂ (Line.ShownBy f.imageBase) (f.run (Instruction.program encoding code) state).1
        (run u ds s).1 ∧
      EndsShownBy f.imageBase (f.run (Instruction.program encoding code) state).2
        (run u ds s).2 := by
  obtain ⟨is, hprogram, hspells⟩ := program_of_written written
  change Instruction.program encoding code = _ at hprogram
  have hrun : f.run ⟨is, none⟩ state = f.runList is state := by
    unfold Frame.run
    cases f.runList is state with
    | mk rules last => cases last <;> rfl
  rw [hprogram, hrun]
  exact run_shows hu hspells hs supported hregister

/-! ## Functions -/

theorem shownBy_atEntry : Columns.ShownBy .atEntry .atEntry :=
  ⟨⟨rfl, rfl⟩, rfl⟩

theorem loc_of_start (imageBase pcStart : UInt64) :
    ((pcStart - imageBase).toUInt32.toNat : Int) =
      (pcStart.toNat - imageBase.toNat : Int) % 2 ^ 32 := by
  have hbase := imageBase.toNat_lt
  rw [UInt64.toNat_toUInt32, UInt64.toNat_sub]
  omega

/-- The common entry sets up the row that is left of the first line, or fails where the full machine
does. -/
theorem initialRow_shows {imageBase : UInt64} {start : UInt32} {pcStart : Nat} (cie : Cie)
    {setup : List Directive} (hloc : (start.toNat : Int) = (pcStart - imageBase.toNat) % 2 ^ 32)
    (written : Written cie.pointerEncoding cie.instructions.address setup cie.instructions.bytes)
    (supported : ∀ d ∈ setup, d.Supported cie.dataAlign.toInt)
    (hregister : setUp cie.codeAlign.toNat cie.dataAlign.toInt pcStart setup ≠
      .error .noRegister) :
    match setUp cie.codeAlign.toNat cie.dataAlign.toInt pcStart setup with
    | .ok s => ∃ row, Fde.initialRow imageBase start cie = .ok row ∧ s.columns.ShownBy row
    | .error _ => Fde.initialRow imageBase start cie = .error .nothingRemembered := by
  have hu : Surroundings.ShownBy ⟨imageBase, cie.codeAlign, cie.dataAlign, .atEntry⟩
      ⟨cie.codeAlign.toNat, cie.dataAlign.toInt, fun _ => none⟩ := ⟨rfl, rfl, rfl⟩
  have hs : State.ShownBy imageBase ⟨start, .atEntry, []⟩ ⟨⟨pcStart, .atEntry⟩, []⟩ :=
    ⟨⟨hloc, shownBy_atEntry⟩, .nil⟩
  have hends := (run_of_written hu hs written supported hregister).2
  unfold Fde.initialRow
  dsimp only
  generalize (Frame.run ⟨imageBase, cie.codeAlign, cie.dataAlign, .atEntry⟩ _ _).2 = last at hends ⊢
  change EndsShownBy _ _ (setUp cie.codeAlign.toNat cie.dataAlign.toInt pcStart setup) at hends
  cases hsetUp : setUp cie.codeAlign.toNat cie.dataAlign.toInt pcStart setup with
  | ok s =>
    rw [hsetUp] at hends
    obtain ⟨state, rfl, hshown⟩ := hends
    exact ⟨state.row, rfl, hshown.line.columns⟩
  | error e =>
    rw [hsetUp] at hends hregister
    cases e with
    | nothingSaved =>
      change last = _ at hends
      rw [hends]
    | noRegister => exact absurd rfl hregister

/-- What a function yields is its table with all columns but the CFA and the frame pointer
forgotten, line by line, up to the end or to the same fault. -/
theorem rules_show_table (imageBase : UInt64) (fde : Fde) (cie : Cie) {setup body : List Directive}
    (hsetup : Written cie.pointerEncoding cie.instructions.address setup cie.instructions.bytes)
    (hbody : Written cie.pointerEncoding fde.instructions.address body fde.instructions.bytes)
    (supported : ∀ d ∈ setup ++ body, d.Supported cie.dataAlign.toInt)
    (hregister : (table cie.codeAlign.toNat cie.dataAlign.toInt fde.pcStart.toNat setup body).2 ≠
      some .noRegister) :
    List.Forall₂ (Line.ShownBy imageBase)
        (fde.rules imageBase (fde.pcStart - imageBase).toUInt32 cie).1
        (table cie.codeAlign.toNat cie.dataAlign.toInt fde.pcStart.toNat setup body).1 ∧
      (fde.rules imageBase (fde.pcStart - imageBase).toUInt32 cie).2 =
        (table cie.codeAlign.toNat cie.dataAlign.toInt fde.pcStart.toNat setup body).2.map
          fun _ => .nothingRemembered := by
  have hloc := loc_of_start imageBase fde.pcStart
  generalize (fde.pcStart - imageBase).toUInt32 = start at hloc ⊢
  have hinitial := initialRow_shows cie hloc hsetup
    (fun d hd => supported d (List.mem_append_left body hd))
  unfold table at hregister ⊢
  unfold Fde.rules
  cases hsetUp : setUp cie.codeAlign.toNat cie.dataAlign.toInt fde.pcStart.toNat setup with
  | error e =>
    rw [hsetUp] at hinitial hregister
    have hfault : e ≠ .noRegister := fun heq => hregister (congrArg some heq)
    rw [hinitial fun heq => hfault (Except.error.inj heq)]
    exact ⟨.nil, rfl⟩
  | ok s =>
    rw [hsetUp] at hinitial hregister
    obtain ⟨row, hrow, hcolumns⟩ := hinitial nofun
    rw [hrow]
    dsimp only at hregister ⊢
    have hu : Surroundings.ShownBy ⟨imageBase, cie.codeAlign, cie.dataAlign, row⟩
        ⟨cie.codeAlign.toNat, cie.dataAlign.toInt, s.columns.place⟩ := ⟨rfl, rfl, hcolumns.fp⟩
    have hs : State.ShownBy imageBase ⟨start, row, []⟩ ⟨⟨fde.pcStart.toNat, s.columns⟩, []⟩ :=
      ⟨⟨hloc, hcolumns⟩, .nil⟩
    have hrun := run_of_written hu hs hbody
      (fun d hd => supported d (List.mem_append_right setup hd))
    cases hfull : run ⟨cie.codeAlign.toNat, cie.dataAlign.toInt, s.columns.place⟩ body
        ⟨⟨fde.pcStart.toNat, s.columns⟩, []⟩ with
    | mk lines last =>
    cases hkept : Frame.run ⟨imageBase, cie.codeAlign, cie.dataAlign, row⟩
        (Instruction.program cie.pointerEncoding fde.instructions) ⟨start, row, []⟩ with
    | mk rules final =>
    rw [hfull, hkept] at hrun
    rw [hfull] at hregister
    dsimp only at hrun hregister ⊢
    cases last with
    | ok t =>
      obtain ⟨hlines, state, rfl, ht⟩ := hrun nofun
      exact ⟨List.rel_append hlines (.cons ht.line .nil), rfl⟩
    | error e =>
      cases e with
      | nothingSaved =>
        obtain ⟨hlines, rfl⟩ := hrun nofun
        exact ⟨hlines, rfl⟩
      | noRegister => exact absurd rfl hregister

/-- A common entry for addresses stored in four bytes relative to themselves. -/
def pushCie : Cie where
  start := 0x3000
  instructions := ⟨0x3010, [0x0c, 0x07, 0x08] ++ ([0x90, 0x01] ++ ([0x00] ++ []))⟩
  pointerEncoding := 0x1b
  lsdaEncoding := Pointer.omitted
  codeAlign := 1
  dataAlign := -8
  returnColumn := 16
  signalFrame := false
  augmented := true
  secondKey := false

/-- A function that pushes the frame pointer. -/
def pushFde : Fde where
  start := 0x3020
  instructions := ⟨0x3040, [0x41] ++ ([0x0e, 0x90, 0x00] ++ ([0x2e, 0x80, 0x00] ++
    ([0x05, 0x06, 0x82, 0x00] ++ ([0x0a] ++ ([0x01, 0xc3, 0xdf, 0xff, 0xff] ++
    ([0x0d, 0x06] ++ ([0x0b] ++ ([0x02, 0x03] ++ ([0xc6] ++ [])))))))))⟩
  pcStart := 0x1000
  pcStop := 0x1100

def pushSetup : List Directive := [.defCfa 7 8, .offset 16 1]

def pushBody : List Directive :=
  [.advance 1, .defCfaOffset 16, .offset 6 2, .rememberState, .setLoc 0x1010, .defCfaRegister 6,
    .restoreState, .advance 3, .restore 6]

theorem written_setup : Written 0x1b 0x3010 pushSetup pushCie.instructions.bytes :=
  .cons (.defCfa (by decide : Operand 7 [0x07]) (by decide : Operand 8 [0x08])) <|
  .cons (.offset (by decide) (by decide)) <|
  .filler .nop .nil

theorem form_setLoc : Form 0x1b 0x304c (.setLoc 0x1010) [0x01, 0xc3, 0xdf, 0xff, 0xff] :=
  have stores : Pointer.Stores 0x1b 0 0x304d 0x1010 [0xc3, 0xdf, 0xff, 0xff] :=
    ⟨.pcRelative, 0x304d, .sdata4, -0x203d, rfl, rfl, rfl, .sdata4 (by decide) (by decide), rfl⟩
  .setLoc 0x1010 stores

theorem written_body : Written 0x1b 0x3040 pushBody pushFde.instructions.bytes :=
  .cons (.advance (by decide)) <|
  .cons (.defCfaOffset (by decide)) <|
  .filler (.argsSize (by decide : Operand 0 [0x80, 0x00])) <|
  .cons (.offsetExtended (by decide : Operand 6 [0x06]) (by decide : Operand 2 [0x82, 0x00])) <|
  .cons .rememberState <|
  .cons form_setLoc <|
  .cons (.defCfaRegister (by decide)) <|
  .cons .restoreState <|
  .cons (.advance1 (by decide)) <|
  .cons (.restore (by decide)) .nil

theorem rules_show_table_push :
    List.Forall₂ (Line.ShownBy 0) (pushFde.rules 0 0x1000 pushCie).1
        (table 1 (-8) 0x1000 pushSetup pushBody).1 ∧
      (pushFde.rules 0 0x1000 pushCie).2 = none :=
  rules_show_table 0 pushFde pushCie written_setup written_body (by decide) (by decide)

end FrameMachine

end Unwind
