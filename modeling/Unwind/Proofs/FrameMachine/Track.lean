import Unwind.Proofs.FrameMachine.Offsets

/-!
# Following one aspect of the columns

Often only part of the columns matters, such as the places of the registers or the offset of the
CFA. A tracker keeps such a value along with the columns: each directive changes it, and it is put
aside and taken back together with them. A relation between rows and values that single directives
keep holds between the rules of a function and the values along its table (`rules_track`).
-/

namespace Unwind

namespace FrameMachine

/-- A value that goes with the columns, and the values put aside with them. -/
structure Tracked (α : Type) where
  value : α
  -- the latest first
  saved : List α

namespace Tracked

variable {α : Type} (next : α → Directive → α)

/-- What a directive makes of the value is `next`; the two that put columns aside and take them back
do the same with it. -/
def step (t : Tracked α) : Directive → Option (Tracked α)
  | .rememberState => some { t with saved := t.value :: t.saved }
  | .restoreState =>
    match t.saved with
    | [] => none
    | value :: saved => some ⟨value, saved⟩
  | d => some { t with value := next t.value d }

/-- The values of the lines that end on the way, and the last one. -/
def run : List Directive → Tracked α → Option (List α × α)
  | [], t => some ([], t.value)
  | d :: ds, t => do
    let u ← step next t d
    let (ended, last) ← run ds u
    return (if d.moves then t.value :: ended else ended, last)

theorem run_cons {next : α → Directive → α} {t u : Tracked α} {d : Directive}
    {ds : List Directive} {values : List α} {value : α} (hstep : t.step next d = some u)
    (hrun : u.run next ds = some (values, value)) :
    t.run next (d :: ds) = some (if d.moves then t.value :: values else values, value) := by
  rw [run, hstep]
  change (run next ds u).bind _ = _
  rw [hrun]
  rfl

end Tracked

/-- The values along the table of a function. What a directive makes of a value may depend on the
value after the common entry, which restored registers go back to. -/
def track {α : Type} (next : α → α → Directive → α) (entry : α) (setup body : List Directive) :
    Option (List α) := do
  let (_, initial) ← Tracked.run (next entry) setup ⟨entry, []⟩
  let (ended, last) ← Tracked.run (next initial) body ⟨initial, []⟩
  return ended ++ [last]

theorem track_of_runs {α : Type} {next : α → α → Directive → α} {entry initial last : α}
    {setup body : List Directive} {passed ended : List α}
    (hsetup : Tracked.run (next entry) setup ⟨entry, []⟩ = some (passed, initial))
    (hbody : Tracked.run (next initial) body ⟨initial, []⟩ = some (ended, last)) :
    track next entry setup body = some (ended ++ [last]) := by
  unfold track
  rw [hsetup]
  change (Tracked.run (next initial) body ⟨initial, []⟩).bind _ = _
  rw [hbody]
  rfl

/-! ## Directives of instructions -/

/-- What an instruction says, unless it says nothing. -/
def directive? : Instruction → Option Directive
  | .setLoc target => some (.setLoc target.toNat)
  | .advance delta => some (.advance delta.toNat)
  | .offset r u => some (.offset r.toNat u.toNat)
  | .offsetSigned r z => some (.offset r.toNat z.toInt)
  | .offsetNegated r u => some (.offsetNegated r.toNat u.toNat)
  | .restore r => some (.restore r.toNat)
  | .undefined r => some (.undefined r.toNat)
  | .sameValue r => some (.sameValue r.toNat)
  | .inRegister r holder => some (.inRegister r.toNat holder.toNat)
  | .rememberState => some .rememberState
  | .restoreState => some .restoreState
  | .defCfa r u => some (.defCfa r.toNat u.toNat)
  | .defCfaSigned r z => some (.defCfaSigned r.toNat z.toInt)
  | .defCfaRegister r => some (.defCfaRegister r.toNat)
  | .defCfaOffset u => some (.defCfaOffset u.toNat)
  | .defCfaOffsetSigned z => some (.defCfaOffsetSigned z.toInt)
  | .defCfaExpression s => some (.defCfaExpression s.bytes)
  | .expression r s => some (.expression r.toNat s.bytes)
  | .valOffset r u => some (.valOffset r.toNat u.toNat)
  | .valExpression r s => some (.valExpression r.toNat s.bytes)
  | .nop | .windowSave | .argsSize _ => none

section

variable {dataAlign : Int32} {i : Instruction}

theorem idle_of_directive? (h : directive? i = none) : Idle i := by
  cases i with
  | nop => exact .nop
  | windowSave => exact .windowSave
  | argsSize size => exact .argsSize size
  | _ => cases h

theorem denotes_of_directive? {d : Directive} (inRange : InRange dataAlign i)
    (h : directive? i = some d) : Denotes i d := by
  cases i with
  | offset r u =>
    cases h
    exact .offset inRange.1
  | offsetNegated r u =>
    cases h
    exact .offsetNegated inRange.1.1
  | advance delta =>
    cases h
    exact .advance rfl
  | nop | windowSave | argsSize _ => cases h
  | _ =>
    cases h
    constructor

theorem spells_directives {is : List Instruction} (inRange : ∀ i ∈ is, InRange dataAlign i) :
    Spells is (is.filterMap directive?) := by
  induction is with
  | nil => exact .nil
  | cons i is ih =>
    rw [List.forall_mem_cons] at inRange
    cases h : directive? i with
    | none =>
      rw [List.filterMap_cons_none h]
      exact .idle (idle_of_directive? h) (ih inRange.2)
    | some d =>
      rw [List.filterMap_cons_some h]
      exact .cons (denotes_of_directive? inRange.1 h) (ih inRange.2)

end

/-! ## Relations that directives keep -/

section

variable {α : Type} {R : Row → α → Prop} {f : Frame} {next : α → Directive → α}
  {state after last : FrameState} {t : Tracked α} {i : Instruction} {d : Directive}
  {ended : Option Rule}

/-- What the instructions make of a row belongs to what their directives make of the value. -/
def Keeps (R : Row → α → Prop) (f : Frame) (next : α → Directive → α) (is : List Instruction) :
    Prop :=
  ∀ i ∈ is, ∀ d, Denotes i d → ∀ row changed a,
    f.changeRow row i = .ok changed → R row a → R changed (next a d)

/-- The rows of the state belong to the tracked values. -/
structure Tracked.Of (R : Row → α → Prop) (state : FrameState) (t : Tracked α) : Prop where
  row : R state.row t.value
  saved : List.Forall₂ R state.remembered t.saved

theorem Tracked.step_of_ne (hremember : d ≠ .rememberState) (hrestore : d ≠ .restoreState) :
    t.step next d = some { t with value := next t.value d } := by
  unfold Tracked.step
  split
  · exact absurd rfl hremember
  · exact absurd rfl hrestore
  · rfl

theorem step_track (hkeeps : ∀ row changed a, f.changeRow row i = .ok changed → R row a →
      R changed (next a d))
    (denotes : Denotes i d) (hstate : t.Of R state) (h : f.step state i = .ok (ended, after)) :
    ended = (if d.moves then some ⟨state.loc, state.row⟩ else none) ∧
      ∃ u, t.step next d = some u ∧ u.Of R after := by
  obtain ⟨hrow, hsaved⟩ := hstate
  rcases step_cases h with ⟨rfl, rfl, rfl⟩ | ⟨rfl, rfl, row, older, hremembered, rfl⟩ |
    ⟨loc, hloc, rfl, rfl⟩ | ⟨hremember, hrestore, hstay, rfl, row, hchange, rfl⟩
  · cases denotes
    exact ⟨rfl, _, rfl, hrow, .cons hrow hsaved⟩
  · cases denotes
    rw [hremembered] at hsaved
    obtain ⟨a, values, ha, hvalues, heq⟩ := List.forall₂_cons_left_iff.mp hsaved
    refine ⟨rfl, ⟨a, values⟩, ?_, ha, hvalues⟩
    unfold Tracked.step
    rw [heq]
  · -- Moving leaves the row alone, so the value it belongs to may change only within the relation.
    have hnext : R state.row (next t.value d) := by
      apply hkeeps _ _ _ _ hrow
      cases i with
      | setLoc target => rfl
      | advance delta => rfl
      | _ => cases hloc
    have hmoves : d.moves = true := by
      cases denotes with
      | setLoc target => rfl
      | advance hdelta => rfl
      | _ => cases hloc
    refine ⟨by rw [hmoves]; rfl, _, Tracked.step_of_ne ?_ ?_, hnext, hsaved⟩
    · rintro rfl
      cases hmoves
    · rintro rfl
      cases hmoves
  · have hmoves : d.moves = false := by
      cases denotes with
      | setLoc target => cases hstay
      | advance hdelta => cases hstay
      | _ => rfl
    refine ⟨by rw [hmoves]; rfl, _, Tracked.step_of_ne ?_ ?_, hkeeps _ _ _ hchange hrow, hsaved⟩
    · rintro rfl
      cases denotes
      exact hremember rfl
    · rintro rfl
      cases denotes
      exact hrestore rfl

theorem runList_track {is : List Instruction} {ds : List Directive} {rules : List Rule}
    (hkeeps : Keeps R f next is) (hspells : Spells is ds) (hstate : t.Of R state)
    (h : f.runList is state = (rules, .ok last)) :
    ∃ values value, t.run next ds = some (values, value) ∧
      List.Forall₂ (fun rule a => R rule.row a) rules values ∧ R last.row value := by
  -- What carries the induction is that the rows of the state belong to the tracked values.
  induction hspells generalizing state t rules with
  | nil =>
    cases h
    exact ⟨[], t.value, rfl, .nil, hstate.row⟩
  | idle hidle _ ih =>
    rw [Frame.runList, step_of_idle hidle] at h
    exact ih (fun i hi => hkeeps i (List.mem_cons_of_mem _ hi)) hstate h
  | @cons i d is ds denotes _ ih =>
    obtain ⟨ended, after, rest, hstep, hrest, rfl⟩ := runList_cons h
    obtain ⟨rfl, u, hu, hafter⟩ :=
      step_track (hkeeps i List.mem_cons_self d denotes) denotes hstate hstep
    obtain ⟨values, value, hrun, hvalues, hlast⟩ :=
      ih (fun i hi => hkeeps i (List.mem_cons_of_mem _ hi)) hafter hrest
    refine ⟨_, value, Tracked.run_cons hu hrun, ?_, hlast⟩
    cases d.moves with
    | true => exact .cons hstate.row hvalues
    | false => exact hvalues

end

/-- The rules of a function that is run to its end belong to the values along its table. -/
theorem rules_track {α : Type} {R : Row → α → Prop} {next : α → α → Directive → α} {entry : α}
    {imageBase : UInt64} {start : UInt32} {fde : Fde} {cie : Cie} {rules : List Rule}
    {setup body : List Directive} (hsetup : Spells (setupProgram cie).instructions setup)
    (hbody : Spells (bodyProgram fde cie).instructions body) (hentry : R .atEntry entry)
    (hkeeps : ∀ row a, R row a → Keeps R (frameOf imageBase cie row) (next a)
      ((setupProgram cie).instructions ++ (bodyProgram fde cie).instructions))
    (h : fde.rules imageBase start cie = (rules, none)) :
    ∃ values, track next entry setup body = some values ∧
      List.Forall₂ (fun rule a => R rule.row a) rules values := by
  obtain ⟨setupRules, entered, ended, last, hruns, rfl⟩ := runsTo_of_rules h
  have hstart : Tracked.Of R ⟨start, .atEntry, []⟩ ⟨entry, []⟩ := ⟨hentry, .nil⟩
  obtain ⟨setupValues, initial, hinitial, -, hrow⟩ := runList_track
    (fun i hi => hkeeps .atEntry entry hentry i (List.mem_append_left _ hi)) hsetup hstart
    hruns.setup
  have hentered : Tracked.Of R ⟨start, entered.row, []⟩ ⟨initial, []⟩ := ⟨hrow, .nil⟩
  obtain ⟨values, value, hvalue, hvalues, hlast⟩ := runList_track
    (fun i hi => hkeeps entered.row initial hrow i (List.mem_append_right _ hi)) hbody hentered
    hruns.body
  exact ⟨values ++ [value], track_of_runs hinitial hvalue,
    List.rel_append hvalues (.cons hlast .nil)⟩

end FrameMachine

end Unwind
