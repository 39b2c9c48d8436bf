import Mathlib.Data.List.Induction
import Unwind.Description

/-!
# The source line of an address

Debug information knows several functions at an address, inlined into one another. File and line of
the resolution are those of the innermost one that has a usable file. If none has, the line is that
of the outermost one all the same and stands without a file (`placed_exactly`). A description then
shows it beside the path of the module, and beside a question mark if the function is not known
either.
-/

namespace Unwind

namespace DebugFrame

/-- The path of the source file, if it can be handed out. -/
def source (f : DebugFrame) : Option Bytes :=
  f.file.bind Resolution.terminated?

/-- The line, with zero for none. -/
def lineNumber (f : DebugFrame) : UInt64 :=
  (f.line.getD 0).toUInt64

/-- The innermost function with a source file. -/
def innermost (frames : List DebugFrame) : Option DebugFrame :=
  frames.find? (·.source.isSome)

/-- The name of the outermost function that has one, if that can be handed out. -/
def outermostName (frames : List DebugFrame) : Option Bytes :=
  (frames.reverse.findSome? (·.name)).bind Resolution.terminated?

end DebugFrame

open DebugFrame

namespace Resolution

namespace Gathered

variable {g : Gathered} {frames : List DebugFrame}

/-- Once there is a file the place does not change any more. -/
theorem foldl_add_of_file {file : Bytes} (h : g.file = some file) :
    (frames.foldl add g).file = some file ∧ (frames.foldl add g).line = g.line := by
  induction frames generalizing g with
  | nil => exact ⟨h, rfl⟩
  | cons f frames ih =>
    have hfile : (g.add f).file = some file := by simp [add, h]
    have hline : (g.add f).line = g.line := by simp [add, h]
    rw [List.foldl_cons, ← hline]
    exact ih hfile

theorem add_file_of_none (f : DebugFrame) (h : g.file = none) : (g.add f).file = f.source := by
  rw [add, h]
  rfl

theorem add_line_of_none (f : DebugFrame) (h : g.file = none) :
    (g.add f).line = f.lineNumber := by
  rw [add, h]
  rfl

/-- The place is taken from the first function with a source file. -/
theorem foldl_add_of_innermost {f : DebugFrame} (h : g.file = none)
    (hf : innermost frames = some f) :
    (frames.foldl add g).file = f.source ∧ (frames.foldl add g).line = f.lineNumber := by
  induction frames generalizing g with
  | nil => cases hf
  | cons first frames ih =>
    rw [List.foldl_cons]
    rw [innermost, List.find?_cons] at hf
    cases hsource : first.source with
    | some file =>
      rw [hsource] at hf
      obtain rfl : first = f := Option.some.inj hf
      rw [hsource, ← add_line_of_none first h]
      exact foldl_add_of_file ((add_file_of_none first h).trans hsource)
    | none =>
      rw [hsource] at hf
      exact ih ((add_file_of_none first h).trans hsource) hf

/-- Without any the line of the last function is left over. -/
theorem foldl_add_of_no_source (h : g.file = none) (hf : innermost frames = none) :
    (frames.foldl add g).file = none ∧
      (frames.foldl add g).line = (frames.getLast?.map lineNumber).getD g.line := by
  induction frames generalizing g with
  | nil => exact ⟨h, rfl⟩
  | cons first frames ih =>
    rw [innermost, List.find?_cons] at hf
    cases hsource : first.source with
    | some file =>
      rw [hsource] at hf
      cases hf
    | none =>
      rw [hsource] at hf
      obtain ⟨hfile, hline⟩ := ih ((add_file_of_none first h).trans hsource) hf
      refine ⟨hfile, ?_⟩
      rw [List.foldl_cons, hline, add_line_of_none first h, List.getLast?_cons]
      cases frames.getLast? <;> rfl

theorem foldl_add_name (frames : List DebugFrame) (g : Gathered) :
    (frames.foldl add g).name =
      ((frames.reverse.findSome? (·.name)).map terminated?).getD g.name := by
  induction frames using List.reverseRecOn with
  | nil => rfl
  | append_singleton frames last ih =>
    rw [List.foldl_append, List.foldl_cons, List.foldl_nil, List.reverse_append,
      List.reverse_singleton, List.singleton_append, List.findSome?_cons, add, ih]
    cases last.name <;> rfl

end Gathered

variable (demangle : Bytes → FunctionName) (frames : List DebugFrame)
  (loader : Option LoaderSymbol)

theorem function_ofDebugInfo :
    (ofDebugInfo demangle frames loader).function =
      ((outermostName frames).or (loader.bind (·.name))).map demangle := by
  rw [ofDebugInfo, Gathered.foldl_add_name, outermostName]
  cases frames.reverse.findSome? (·.name) <;> rfl

def outermostLine (frames : List DebugFrame) : UInt64 :=
  (frames.getLast?.map lineNumber).getD 0

theorem ofDebugInfo_of_innermost {f : DebugFrame} (hf : innermost frames = some f) :
    (ofDebugInfo demangle frames loader).file = f.source ∧
      (ofDebugInfo demangle frames loader).line = f.lineNumber :=
  Gathered.foldl_add_of_innermost rfl hf

theorem ofDebugInfo_of_no_source (hf : innermost frames = none) :
    (ofDebugInfo demangle frames loader).file = none ∧
      (ofDebugInfo demangle frames loader).line = outermostLine frames :=
  Gathered.foldl_add_of_no_source rfl hf

theorem isSome_file_ofDebugInfo :
    (ofDebugInfo demangle frames loader).file.isSome = (innermost frames).isSome := by
  cases hf : innermost frames with
  | none => rw [(ofDebugInfo_of_no_source demangle frames loader hf).1]; rfl
  | some f =>
    rw [(ofDebugInfo_of_innermost demangle frames loader hf).1]
    rw [innermost] at hf
    have hsource := List.find?_some hf
    exact hsource

/-- File and line are those of the innermost function with a source file. Without one there is
neither. -/
structure Placed (frames : List DebugFrame) (r : Resolution) : Prop where
  source : ∀ f, innermost frames = some f → r.file = f.source ∧ r.line = f.lineNumber
  nowhere : innermost frames = none → r.file = none ∧ r.line = 0

theorem placed_ofDebugInfo_iff :
    Placed frames (ofDebugInfo demangle frames loader) ↔
      (innermost frames).isSome = true ∨ outermostLine frames = 0 := by
  cases hf : innermost frames with
  | some f =>
    refine iff_of_true ⟨fun g hg => ?_, fun hnone => ?_⟩ (.inl rfl)
    · exact ofDebugInfo_of_innermost demangle frames loader hg
    · rw [hf] at hnone
      cases hnone
  | none =>
    obtain ⟨hfile, hline⟩ := ofDebugInfo_of_no_source demangle frames loader hf
    constructor
    · intro h
      exact .inr (hline.symm.trans (h.nowhere hf).2)
    · rintro (hsome | hzero)
      · cases hsome
      · refine ⟨fun f hsome => ?_, fun _ => ⟨hfile, hline.trans hzero⟩⟩
        rw [hf] at hsome
        cases hsome

/-- Debug information as a source of symbols, from the functions and the loader's answer at each
address. -/
def debugSource (demangle : Bytes → FunctionName) (frames : UInt64 → List DebugFrame)
    (loader : UInt64 → Option LoaderSymbol) (pc : UInt64) : Resolution :=
  ofDebugInfo demangle (frames pc) (loader pc)

end Resolution

open Resolution

namespace Description

/-- A line is described only beside the source file that it is in. -/
def Sourced (d : Description) (r : Resolution) : Prop :=
  d.line = 0 ∨ ∃ file, r.file = some file ∧ d.file = .lasting file

theorem sourced_enter_iff (d : Description) (names : Names) (r : Resolution) :
    (d.enter names r).1.Sourced r ↔
      r.line = 0 ∨ r.file.isSome = true ∧ r.function.isSome = true := by
  obtain ⟨module, function, file, line, entry⟩ := r
  cases function with
  | none => cases file <;> simp [enter, Sourced]
  | some name => cases name <;> cases file <;> simp [enter, Sourced]

theorem serve_of_ne_zero {d : Description} (names : Names) (resolve : UInt64 → Resolution)
    (hpc : d.pc ≠ 0) :
    d.serve resolve names = ((d.letGo names).1.enter (d.letGo names).2 (resolve d.pc)) := by
  have hletGo : (d.letGo names).1.pc = d.pc := by
    unfold letGo
    cases d.held <;> rfl
  simp only [serve, hletGo, beq_iff_eq, if_neg hpc]

end Description

/-- If some function at the address has a source file, file and line of the resolution are those of
the innermost of them. Otherwise there is no file, and the line is that of the outermost function.
A line is described without its source file exactly if there is a line, and either no function has a
source file or no function has a name. -/
theorem placed_exactly (demangle : Bytes → FunctionName) (frames : UInt64 → List DebugFrame)
    (loader : UInt64 → Option LoaderSymbol) (pc : UInt64) :
    (∀ f, innermost (frames pc) = some f →
      (debugSource demangle frames loader pc).file = f.source ∧
        (debugSource demangle frames loader pc).line = f.lineNumber) ∧
    (innermost (frames pc) = none →
      (debugSource demangle frames loader pc).file = none ∧
        (debugSource demangle frames loader pc).line = outermostLine (frames pc)) ∧
    (Placed (frames pc) (debugSource demangle frames loader pc) ↔
      (innermost (frames pc)).isSome = true ∨ outermostLine (frames pc) = 0) ∧
    ∀ (d : Description) (names : Names), d.pc = pc → pc ≠ 0 →
      ((d.serve (ofAddress (debugSource demangle frames loader)) names).1.Sourced
          (debugSource demangle frames loader pc) ↔
        (debugSource demangle frames loader pc).line = 0 ∨
          (innermost (frames pc)).isSome = true ∧
            ((outermostName (frames pc)).isSome = true ∨
              ((loader pc).bind (·.name)).isSome = true)) := by
  refine ⟨fun f => ofDebugInfo_of_innermost demangle _ _, ofDebugInfo_of_no_source demangle _ _,
    placed_ofDebugInfo_iff demangle _ _, ?_⟩
  rintro d names rfl hpc
  have hresolve : ofAddress (debugSource demangle frames loader) d.pc =
      debugSource demangle frames loader d.pc := by simp [ofAddress, hpc]
  rw [Description.serve_of_ne_zero names _ hpc, hresolve, Description.sourced_enter_iff,
    debugSource, isSome_file_ofDebugInfo, function_ofDebugInfo, Option.isSome_map,
    Option.isSome_or, Bool.or_eq_true]

/-- A function with a line but no file, in a module that the loader knows. -/
def fileless : DebugFrame := ⟨some [0x66], none, some 5, none⟩

/-- A function with a file and a line but no name, in no module. -/
def nameless : DebugFrame := ⟨none, some [0x61], some 5, none⟩

/-- The description of address 1 by debug information that is the same everywhere. -/
def describedBy (frames : List DebugFrame) (loader : Option LoaderSymbol) : Description :=
  (Description.serve (ofAddress (debugSource .borrowed (fun _ => frames) fun _ => loader))
    { Description.new with pc := 1 } .empty).1

/-- The line of a function without a file is described beside the path of the module, and that of
one without a name beside a question mark. -/
theorem line_beside_module :
    ¬ Placed [fileless] (ofDebugInfo .borrowed [fileless] (some ⟨some [0x6c], none, 0⟩)) ∧
    (describedBy [fileless] (some ⟨some [0x6c], none, 0⟩)).file = .lasting [0x6c] ∧
    (describedBy [fileless] (some ⟨some [0x6c], none, 0⟩)).line = 5 ∧
    (describedBy [nameless] none).file = .unknown ∧
    (describedBy [nameless] none).line = 5 := by
  refine ⟨fun h => ?_, by decide, by decide, by decide, by decide⟩
  have hline := (h.nowhere rfl).2
  exact absurd hline (by decide)

end Unwind
