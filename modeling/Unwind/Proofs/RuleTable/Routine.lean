import Unwind.Proofs.RuleTable.Record
import Unwind.RuleTable.Compile

/-!
# Routines — what a builder makes of one function, and of many

A routine is a function as the frame records describe it. A builder either takes in all its rows
followed by the default rule at its end, or refuses it and stays what it was (`Builder.add_eq`).
Which of the two happens depends on the routine and the image base and not on what was added before,
so compiling a search table is recording the rows of the accepted routines one after the other
(`table_of_compile`).
-/

namespace Unwind

/-- One instruction leaves the location alone, or ends the row that started there. -/
theorem Frame.step_loc {f : Frame} {state after : FrameState} {i : Instruction}
    {ended : Option Rule} (h : f.step state i = .ok (ended, after)) :
    (ended = none ∧ after.loc = state.loc) ∨ ended = some ⟨state.loc, state.row⟩ := by
  unfold Frame.step at h
  split at h
  · cases h
    exact Or.inl ⟨rfl, rfl⟩
  · split at h
    · cases h
    · cases h
      exact Or.inl ⟨rfl, rfl⟩
  · split at h
    · cases h
      exact Or.inr rfl
    · cases hrow : f.changeRow state.row i with
      | error e => rw [hrow] at h; cases h
      | ok row =>
        rw [hrow] at h
        cases h
        exact Or.inl ⟨rfl, rfl⟩

/-- The first of the rows of a run starts where the run does. -/
theorem Frame.runList_head {f : Frame} {is : List Instruction} {state last : FrameState}
    {rules : List Rule} (h : f.runList is state = (rules, .ok last)) :
    ∃ r rest, rules ++ [⟨last.loc, last.row⟩] = r :: rest ∧ r.loc = state.loc := by
  induction is generalizing state rules with
  | nil =>
    cases h
    exact ⟨_, [], rfl, rfl⟩
  | cons i is ih =>
    unfold Frame.runList at h
    cases hstep : f.step state i with
    | error e => rw [hstep] at h; cases h
    | ok result =>
      obtain ⟨ended, after⟩ := result
      rw [hstep] at h
      simp only [Prod.mk.injEq] at h
      obtain ⟨hrules, hlast⟩ := h
      subst hrules
      rcases Frame.step_loc hstep with ⟨rfl, hloc⟩ | rfl
      · rw [← hloc]
        exact ih (Prod.ext rfl hlast)
      · exact ⟨_, _, rfl, rfl⟩

theorem Frame.run_head {f : Frame} {p : Instruction.Program} {state last : FrameState}
    {rules : List Rule} (h : f.run p state = (rules, .ok last)) :
    ∃ r rest, rules ++ [⟨last.loc, last.row⟩] = r :: rest ∧ r.loc = state.loc := by
  unfold Frame.run at h
  split at h
  · cases h
  · exact Frame.runList_head h

namespace RuleTable

/-- A function as the frame records describe it: its own entry and the common one. -/
abbrev Routine := Fde × Cie

namespace Routine

/-- The location of the first instruction. -/
def startLoc (imageBase : UInt64) (r : Routine) : UInt32 :=
  (r.1.pcStart - imageBase).toUInt32

/-- The location right behind the last instruction. -/
def stopLoc (imageBase : UInt64) (r : Routine) : UInt32 :=
  r.startLoc imageBase + (r.1.pcStop - r.1.pcStart).toUInt32

/-- The rows that the instructions of the common entry and of the function itself give. -/
def rows (imageBase : UInt64) (r : Routine) : List Rule :=
  (r.1.rules imageBase (r.startLoc imageBase) r.2).1

def recorded (imageBase : UInt64) (r : Routine) : List Rule :=
  r.rows imageBase ++ [Rule.default.movedTo (r.stopLoc imageBase)]

def refusal (imageBase : UInt64) (r : Routine) : Option CfiError :=
  if r.1.pcStart < imageBase then some (.belowImage r.1.pcStart)
  else (r.1.rules imageBase (r.startLoc imageBase) r.2).2

def accepted (imageBase : UInt64) (r : Routine) : Bool :=
  ((Builder.new imageBase).add r.1 r.2).2.isOk

end Routine

/-- Adding a routine records all of it or nothing. -/
theorem Builder.add_eq (b : Builder) (r : Routine) :
    b.add r.1 r.2 =
      match r.refusal b.imageBase with
      | some e => (b, .error e)
      | none => (b.recordAll (r.recorded b.imageBase), .ok ()) := by
  unfold Builder.add Routine.refusal Routine.recorded Routine.rows Routine.stopLoc Routine.startLoc
  by_cases hbelow : r.1.pcStart < b.imageBase
  · rw [if_pos hbelow, if_pos hbelow]
  · rw [if_neg hbelow, if_neg hbelow]
    dsimp only
    rcases r.1.rules b.imageBase (r.1.pcStart - b.imageBase).toUInt32 r.2 with ⟨rules, e | e⟩
    · simp only [Builder.recordAll, List.foldl_append]
    · simp only [Builder.rollback_recordAll]

namespace Routine

theorem accepted_iff (imageBase : UInt64) (r : Routine) :
    r.accepted imageBase = true ↔ r.refusal imageBase = none := by
  rw [accepted, Builder.add_eq]
  change (match r.refusal imageBase with
    | some e => (_, Except.error e)
    | none => (_, Except.ok ())).2.isOk = true ↔ _
  cases r.refusal imageBase with
  | none => simp [Except.isOk, Except.toBool]
  | some e => simp [Except.isOk, Except.toBool]

theorem rules_of_refusal {imageBase : UInt64} {r : Routine} (h : r.refusal imageBase = none) :
    r.1.rules imageBase (r.startLoc imageBase) r.2 = (r.rows imageBase, none) := by
  unfold refusal at h
  split at h
  · cases h
  · exact Prod.ext rfl h

theorem start_of_accepted {imageBase : UInt64} {r : Routine} (h : r.accepted imageBase = true) :
    imageBase ≤ r.1.pcStart := by
  rw [accepted_iff, refusal] at h
  split at h
  · cases h
  · exact UInt64.not_lt.mp ‹_›

/-- The first row of an accepted routine starts where the routine does. -/
theorem rows_of_accepted {imageBase : UInt64} {r : Routine} (h : r.accepted imageBase = true) :
    ∃ s rest, r.rows imageBase = s :: rest ∧ s.loc = r.startLoc imageBase := by
  rw [accepted_iff, refusal] at h
  split at h
  · cases h
  · unfold rows Fde.rules at *
    split at h
    · cases h
    · rename_i row hrow
      dsimp only at h ⊢
      split at h
      · rename_i hrun
        exact Frame.run_head hrun
      · cases h

end Routine

/-! ## Many routines -/

/-- The routine whose record an entry of the search table gives, if it can be decoded. -/
def routineOf (frames : Section) (entry : Except CfiError FrameHeader.Entry) : Option Routine :=
  entry.toOption.bind fun entry => (Fde.decode frames entry.record).toOption

/-- The routines of a search table that can be decoded and that a builder takes in, in the order of
the table. -/
def acceptedOf (frames : Section) (imageBase : UInt64)
    (entries : List (Except CfiError FrameHeader.Entry)) : List Routine :=
  (entries.filterMap (routineOf frames)).filter (·.accepted imageBase)

/-- The routines of an image that its table is made from. -/
def acceptedRoutines (header frames : Section) (imageBase : UInt64) : List Routine :=
  match FrameHeader.decode header with
  | .error _ => []
  | .ok h => acceptedOf frames imageBase (h.entries header)

theorem accepted_of_mem {header frames : Section} {imageBase : UInt64} {r : Routine}
    (h : r ∈ acceptedRoutines header frames imageBase) : r.accepted imageBase = true := by
  unfold acceptedRoutines at h
  split at h
  · cases h
  · exact (List.mem_filter.mp h).2

/-- Adding the function of a record: an accepted routine is recorded, everything else leaves the
builder alone. -/
theorem addRecord_eq (frames : Section) (b : Builder) (entry : FrameHeader.Entry) :
    (addRecord frames b entry.record).2 =
      b.recordAll
        ((acceptedOf frames b.imageBase [.ok entry]).flatMap (·.recorded b.imageBase)) := by
  unfold addRecord acceptedOf routineOf
  cases hdecode : Fde.decode frames entry.record with
  | error e => simp [Except.toOption, hdecode, Builder.recordAll]
  | ok r =>
    have hadd := b.add_eq r
    have haccepted := Routine.accepted_iff b.imageBase r
    dsimp only
    rw [hadd]
    cases hr : Routine.refusal b.imageBase r with
    | none =>
      rw [hr] at haccepted
      simp [Except.toOption, hdecode, haccepted]
    | some e =>
      rw [hr] at haccepted
      simp [Except.toOption, hdecode, haccepted, Builder.recordAll]

theorem Builder.recordAll_append (b : Builder) (rules more : List Rule) :
    b.recordAll (rules ++ more) = (b.recordAll rules).recordAll more := by
  simp only [Builder.recordAll, List.foldl_append]

/-- The builder that has been given routines one after the other. -/
def Builder.addAll (b : Builder) (routines : List Routine) : Builder :=
  routines.foldl (fun b r => (b.add r.1 r.2).1) b

theorem Builder.addAll_of_accepted (b : Builder) {routines : List Routine}
    (accepted : ∀ r ∈ routines, r.accepted b.imageBase = true) :
    b.addAll routines = b.recordAll (routines.flatMap (·.recorded b.imageBase)) := by
  unfold addAll
  induction routines generalizing b with
  | nil => rfl
  | cons r rest ih =>
    have hr := (Routine.accepted_iff b.imageBase r).mp (accepted r List.mem_cons_self)
    rw [List.foldl_cons, b.add_eq r, hr, List.flatMap_cons, recordAll_append]
    exact ih (b.recordAll _) fun s hs => accepted s (List.mem_cons_of_mem r hs)

theorem acceptedOf_cons (frames : Section) (imageBase : UInt64)
    (entry : Except CfiError FrameHeader.Entry)
    (rest : List (Except CfiError FrameHeader.Entry)) :
    acceptedOf frames imageBase (entry :: rest) =
      acceptedOf frames imageBase [entry] ++ acceptedOf frames imageBase rest := by
  unfold acceptedOf
  rw [← List.filter_append, ← List.filterMap_append]
  rfl

/-- A search table that is read to its end leaves the rows of its accepted routines. -/
theorem builder_of_addEntries {frames : Section}
    {entries : List (Except CfiError FrameHeader.Entry)} {b final : Builder}
    (h : (addEntries frames entries b).2 = .ok final) :
    final = b.recordAll
      ((acceptedOf frames b.imageBase entries).flatMap (·.recorded b.imageBase)) := by
  induction entries generalizing b with
  | nil =>
    cases h
    rfl
  | cons entry rest ih =>
    cases entry with
    | error e => cases h
    | ok entry =>
      change (addEntries frames rest (addRecord frames b entry.record).2).2 = .ok final at h
      rw [addRecord_eq] at h
      rw [acceptedOf_cons frames b.imageBase (.ok entry) rest, List.flatMap_append,
        Builder.recordAll_append]
      exact ih h

/-- The compiled table holds the rows of the accepted routines, sorted. -/
theorem table_of_compile {header frames : Section} {imageBase : UInt64} {table : Array Rule}
    (h : (compile header frames imageBase).table = .ok table) :
    table = ((Builder.new imageBase).recordAll
      ((acceptedRoutines header frames imageBase).flatMap (·.recorded imageBase))).finish := by
  unfold compile at h
  unfold acceptedRoutines
  cases hdecode : FrameHeader.decode header with
  | error e => rw [hdecode] at h; cases h
  | ok fixed =>
    rw [hdecode] at h
    dsimp only at h ⊢
    cases hentries : (addEntries frames (fixed.entries header) (.new imageBase)).2 with
    | error e => rw [hentries] at h; cases h
    | ok final =>
      rw [hentries] at h
      cases h
      exact congrArg Builder.finish (builder_of_addEntries hentries)

/-! ## Samples -/

/-- A common entry without instructions. -/
def bareCie : Cie where
  start := 0x2000
  instructions := ⟨0x2014, []⟩
  pointerEncoding := 0x1b
  lsdaEncoding := Pointer.omitted
  codeAlign := 1
  dataAlign := -8
  returnColumn := 16
  signalFrame := false
  augmented := true
  secondKey := false

/-- A function of the bare common entry with the instructions `code`. -/
def bareFde (code : Bytes) : Fde :=
  ⟨0x2014, ⟨0x2025, code⟩, 0x1000, 0x1040⟩

/-- A function that pushes a word with its first instruction. -/
def lowRoutine : Routine :=
  (⟨0x2014, ⟨0x2025, [0x41, 0x0e, 0x10]⟩, 0x1000, 0x1040⟩, bareCie)

end RuleTable

end Unwind
