import Unwind.Module
import Unwind.Proofs.RuleTable.Separation

/-!
# How far locations reach

A location is the distance of an address from the image base, cut to 32 bits, wherever one is
computed: at the start and the end of a routine, where its instructions set the location, and where
an address is looked up. So a look-up cannot tell addresses apart that differ by a multiple of 4 GiB
(`findRule_of_congruent`), and a routine that lies that far from another one shadows it
(`findRule_shadowed`). Within 4 GiB that start a multiple of 4 GiB above the image base nothing is
confused (`findRule_of_window`).
-/

namespace Unwind

/-- Bases whose low halves agree are a multiple of 4 GiB apart, and give every address the same
location. -/
theorem toUInt32_sub_of_congruent {a b : UInt64} (h : b.toUInt32 = a.toUInt32) (c : UInt64) :
    (c - b).toUInt32 = (c - a).toUInt32 := by
  rw [UInt64.toUInt32_sub, UInt64.toUInt32_sub, h]

/-! ## Instructions counted from another base -/

namespace Frame

/-- The frame of the same function, with locations counted from another address. -/
def countedFrom (f : Frame) (origin : UInt64) : Frame := { f with imageBase := origin }

variable {f : Frame} {origin : UInt64} (aligned : origin.toUInt32 = f.imageBase.toUInt32)

include aligned

/-- Only an instruction that sets the location looks at the base. -/
theorem step_countedFrom (state : FrameState) (i : Instruction) :
    (f.countedFrom origin).step state i = f.step state i := by
  cases i with
  | setLoc target =>
    have hloc := toUInt32_sub_of_congruent aligned target
    change Except.ok (some _, { state with loc := (target - origin).toUInt32 }) = _
    rw [hloc]
    rfl
  | _ => rfl

theorem runList_countedFrom (instructions : List Instruction) (state : FrameState) :
    (f.countedFrom origin).runList instructions state = f.runList instructions state := by
  induction instructions generalizing state with
  | nil => rfl
  | cons i rest ih =>
    rw [runList, runList, step_countedFrom aligned]
    simp only [ih]

theorem run_countedFrom (p : Instruction.Program) (state : FrameState) :
    (f.countedFrom origin).run p state = f.run p state := by
  unfold run
  rw [runList_countedFrom aligned]

end Frame

section

variable {imageBase origin : UInt64} (aligned : origin.toUInt32 = imageBase.toUInt32)

include aligned

theorem Fde.initialRow_of_congruent (start : UInt32) (cie : Cie) :
    Fde.initialRow origin start cie = Fde.initialRow imageBase start cie := by
  have hrun := @Frame.run_countedFrom ⟨imageBase, cie.codeAlign, cie.dataAlign, .atEntry⟩ origin
    aligned (Instruction.program cie.pointerEncoding cie.instructions) ⟨start, .atEntry, []⟩
  unfold Fde.initialRow
  dsimp only [Frame.countedFrom] at hrun ⊢
  rw [hrun]

theorem Fde.rules_of_congruent (start : UInt32) (fde : Fde) (cie : Cie) :
    fde.rules origin start cie = fde.rules imageBase start cie := by
  unfold Fde.rules
  rw [Fde.initialRow_of_congruent aligned]
  cases Fde.initialRow imageBase start cie with
  | error e => rfl
  | ok row =>
    have hrun := @Frame.run_countedFrom ⟨imageBase, cie.codeAlign, cie.dataAlign, row⟩ origin
      aligned (Instruction.program cie.pointerEncoding fde.instructions) ⟨start, row, []⟩
    dsimp only [Frame.countedFrom] at hrun ⊢
    rw [hrun]

namespace RuleTable

open Rule

namespace Routine

theorem rows_of_congruent (r : Routine) : r.rows origin = r.rows imageBase := by
  unfold rows startLoc
  rw [toUInt32_sub_of_congruent aligned, Fde.rules_of_congruent aligned]

theorem recorded_of_congruent (r : Routine) : r.recorded origin = r.recorded imageBase := by
  unfold recorded stopLoc startLoc
  rw [rows_of_congruent aligned, toUInt32_sub_of_congruent aligned]

/-- Where a routine lies above both bases, they make no difference to whether it is accepted. -/
theorem accepted_of_congruent {r : Routine} (h : r.accepted imageBase = true)
    (start : origin ≤ r.1.pcStart) : r.accepted origin = true := by
  have hbelow : ¬ r.1.pcStart < imageBase := UInt64.not_lt.mpr (start_of_accepted h)
  rw [accepted_iff, refusal, if_neg hbelow, startLoc] at h
  rw [accepted_iff, refusal, if_neg (UInt64.not_lt.mpr start), startLoc,
    toUInt32_sub_of_congruent aligned, Fde.rules_of_congruent aligned, h]

end Routine

end RuleTable

end

namespace RuleTable

open Rule

/-! ## Look-ups -/

/-- The module of an image whose rules are those of the routines. -/
def moduleOf (name : String) (imageBase : UInt64) (text : Range) (routines : List Routine) :
    Module :=
  ⟨name, imageBase, text, ((Builder.new imageBase).addAll routines).finish⟩

theorem row_findRule_moduleOf {name : String} {imageBase pc : UInt64} {text : Range}
    {routines : List Routine} (above : imageBase ≤ pc) :
    ((moduleOf name imageBase text routines).findRule pc).row =
      rowOf (latest ((Builder.new imageBase).addAll routines).rules.toList
        (pc - imageBase).toUInt32) := by
  unfold Module.findRule moduleOf
  dsimp only
  rw [if_neg (UInt64.not_lt.mpr above), Builder.row_find_finish]

/-- A module has the same rule for addresses that are a multiple of 4 GiB apart. -/
theorem findRule_of_congruent (m : Module) {a b : UInt64} (ha : m.imageBase ≤ a)
    (hb : m.imageBase ≤ b) (h : b.toUInt32 = a.toUInt32) : m.findRule b = m.findRule a := by
  unfold Module.findRule
  rw [if_neg (UInt64.not_lt.mpr ha), if_neg (UInt64.not_lt.mpr hb), UInt64.toUInt32_sub,
    UInt64.toUInt32_sub, h]

/-- All code of an image lies within 4 GiB, which may start any multiple of 4 GiB above the image
base, and the routines lie apart in there. -/
structure InWindow (imageBase origin : UInt64) (routines : List Routine) : Prop where
  aligned : origin.toUInt32 = imageBase.toUInt32
  base : imageBase ≤ origin
  apart : routines.IsChain fun r s => r.1.pcStop ≤ s.1.pcStart
  ordered : ∀ r ∈ routines, r.1.pcStart ≤ r.1.pcStop
  start : ∀ r ∈ routines, r.accepted imageBase = true → origin ≤ r.1.pcStart
  stop : ∀ r ∈ routines, r.accepted imageBase = true →
    r.1.pcStop.toNat < origin.toNat + 0x100000000

namespace InWindow

variable {imageBase origin : UInt64} {routines : List Routine}

/-- The table is the one that is compiled for the start of the window. -/
theorem rules_addAll (h : InWindow imageBase origin routines) :
    ((Builder.new imageBase).addAll routines).rules =
      ((routines.filter (·.accepted imageBase)).flatMap (·.recorded origin)).foldl record #[] := by
  have hrecorded : (fun r : Routine => r.recorded imageBase) = fun r => r.recorded origin :=
    funext fun r => (Routine.recorded_of_congruent h.aligned r).symm
  rw [Builder.rules_addAll, hrecorded]

theorem separates (h : InWindow imageBase origin routines)
    (confined : ∀ r ∈ routines, r.accepted imageBase = true → r.Confined origin) :
    Separates origin ((Builder.new imageBase).addAll routines).rules
      (routines.filter (·.accepted imageBase)) := by
  have hmem : ∀ r ∈ routines.filter (·.accepted imageBase),
      r ∈ routines ∧ r.accepted imageBase = true := fun r hr => List.mem_filter.mp hr
  rw [h.rules_addAll]
  refine Separates.nil.flatMap (fun r hr => ?_) (fun r hr => ?_) (fun r hr => ?_) ?_ fun r hr => ?_
  · obtain ⟨hr, haccepted⟩ := hmem r hr
    exact Routine.accepted_of_congruent h.aligned haccepted (h.start r hr haccepted)
  · obtain ⟨hr, haccepted⟩ := hmem r hr
    have hordered := UInt64.le_iff_toNat_le.mp (h.ordered r hr)
    have hstop := h.stop r hr haccepted
    exact ⟨h.ordered r hr, by omega, Nat.le_of_lt hstop⟩
  · obtain ⟨hr, haccepted⟩ := hmem r hr
    exact confined r hr haccepted
  · exact (pairwise_of_isChain h.ordered h.apart).filter _
  · obtain ⟨hr, haccepted⟩ := hmem r hr
    exact h.stop r hr haccepted

end InWindow

theorem covers_distance {origin pc : UInt64} (above : origin ≤ pc)
    (near : pc.toNat < origin.toNat + 0x100000000) (r : Routine) :
    r.Covers origin (pc - origin).toUInt32 ↔ r.1.contains pc = true := by
  have habove := UInt64.le_iff_toNat_le.mp above
  unfold Routine.Covers Fde.contains
  rw [toNat_distance above near, Bool.and_eq_true, decide_eq_true_eq, decide_eq_true_eq,
    UInt64.le_iff_toNat_le, UInt64.lt_iff_toNat_lt]
  omega

/-- An address in the window has a rule of the routine that holds it, or the default where no
routine is. -/
theorem findRule_of_window {name : String} {imageBase origin pc : UInt64} {text : Range}
    {routines : List Routine} (window : InWindow imageBase origin routines)
    (confined : ∀ r ∈ routines, r.accepted imageBase = true → r.Confined origin)
    (above : origin ≤ pc) (near : pc.toNat < origin.toNat + 0x100000000) :
    (∀ r ∈ routines, r.accepted imageBase = true → r.1.contains pc = true →
      ∃ s ∈ r.rows imageBase, s.loc ≤ (pc - imageBase).toUInt32 ∧
        ((moduleOf name imageBase text routines).findRule pc).sameUnwind s = true) ∧
    ((∀ r ∈ routines, r.accepted imageBase = true → ¬ r.1.contains pc = true) →
      ((moduleOf name imageBase text routines).findRule pc).sameUnwind .default = true) := by
  have separates := window.separates confined
  have hrow := @row_findRule_moduleOf name imageBase pc text routines
    (UInt64.le_trans window.base above)
  rw [← toUInt32_sub_of_congruent window.aligned] at hrow ⊢
  constructor
  · intro r hr haccepted hcontains
    obtain ⟨s, hs, hle, hforce⟩ := separates.inside r (List.mem_filter.mpr ⟨hr, haccepted⟩) _
      ((covers_distance above near r).mpr hcontains)
    rw [Routine.rows_of_congruent window.aligned] at hs
    exact ⟨s, hs, hle, (sameUnwind_iff _ _).mpr (hrow.trans hforce)⟩
  · intro hnone
    refine (sameUnwind_iff _ _).mpr (hrow.trans (separates.outside _ fun r hr hcovers => ?_))
    obtain ⟨hr, haccepted⟩ := List.mem_filter.mp hr
    exact hnone r hr haccepted ((covers_distance above near r).mp hcovers)

/-- A function that lies 4 GiB above the other ones. -/
def beyondRoutine : Routine :=
  (⟨0x2048, ⟨0x2059, [0x0e, 0x40]⟩, 0x100001000, 0x100001020⟩, bareCie)

theorem findRule_of_window_beyond :
    (∀ r ∈ [beyondRoutine], r.accepted 0x1000 = true → r.1.contains 0x100001010 = true →
      ∃ s ∈ r.rows 0x1000, s.loc ≤ (0x100001010 - 0x1000 : UInt64).toUInt32 ∧
        ((moduleOf "beyond" 0x1000 ⟨0x1000, 0x200002000⟩ [beyondRoutine]).findRule
          0x100001010).sameUnwind s = true) ∧
    ((∀ r ∈ [beyondRoutine], r.accepted 0x1000 = true → ¬ r.1.contains 0x100001010 = true) →
      ((moduleOf "beyond" 0x1000 ⟨0x1000, 0x200002000⟩ [beyondRoutine]).findRule
        0x100001010).sameUnwind .default = true) :=
  have window : InWindow 0x1000 0x100001000 [beyondRoutine] :=
    ⟨by decide, by decide, by decide +kernel, by decide +kernel, by decide +kernel,
      by decide +kernel⟩
  findRule_of_window window (by decide +kernel) (by decide) (by decide)

/-- The code of both functions in one module. -/
def bothModule : Module :=
  moduleOf "both" 0x1000 ⟨0x1000, 0x100001020⟩ [lowRoutine, beyondRoutine]

/-- A routine out of the reach of a location is accepted nevertheless. An address in it then has a
rule of the routine 4 GiB below, and the end of the one cuts the other short. Without it, its
addresses still have the rules of the other. -/
theorem findRule_shadowed :
    beyondRoutine.accepted 0x1000 = true ∧ lowRoutine.1.pcStop ≤ beyondRoutine.1.pcStart ∧
      beyondRoutine.1.contains 0x100001010 = true ∧
      (bothModule.findRule 0x100001010).row ∉ (beyondRoutine.rows 0x1000).map Rule.row ∧
      lowRoutine.1.contains 0x1030 = true ∧
      (bothModule.findRule 0x1030).row ∉ (lowRoutine.rows 0x1000).map Rule.row ∧
      lowRoutine.1.contains 0x100001010 = false ∧
      ((moduleOf "low" 0x1000 ⟨0x1000, 0x200002000⟩ [lowRoutine]).findRule 0x100001010).row ≠
        .linked := by
  unfold bothModule
  rw [row_findRule_moduleOf (by decide), row_findRule_moduleOf (by decide),
    row_findRule_moduleOf (by decide)]
  decide +kernel

end RuleTable

end Unwind
