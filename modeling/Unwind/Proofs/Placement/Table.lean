import Unwind.Proofs.Placement.Rules
import Unwind.Proofs.RuleTable.Lookup

/-!
# Tables do not depend on where an image is

An image whose tables refer to places only relative to a place can be put anywhere: the compiled
table is the same, or there is none in either place (`compile_moved`).
-/

namespace Unwind

namespace Placement

open RuleTable

variable {d : UInt64}

/-- The routines that the search table leads to, as far as they can be decoded. -/
def listed (header frames : Section) : List Routine :=
  match FrameHeader.decode header with
  | .error _ => []
  | .ok h => (h.entries header).filterMap (routineOf frames)

/-- The image refers to places only relative to a place. -/
structure Relocatable (header frames : Section) : Prop where
  count : FixedCount header
  table : RelativeTable header
  code : ∀ r ∈ listed header frames, Relative r.2.pointerEncoding

/-- The image can be where it is, and no routine of it starts below its base. -/
structure Placed (header frames : Section) (imageBase : UInt64) : Prop where
  header_ne : header.address ≠ 0
  header_fits : header.Fits
  frames_fits : frames.Fits
  above : ∀ r ∈ listed header frames, imageBase ≤ r.1.pcStart

theorem mem_listed {header frames : Section} {h : FrameHeader} {entry : FrameHeader.Entry}
    {r : Routine} (hheader : FrameHeader.decode header = .ok h)
    (hentry : .ok entry ∈ h.entries header) (hr : Fde.decode frames entry.record = .ok r) :
    r ∈ listed header frames := by
  unfold listed
  rw [hheader]
  refine List.mem_filterMap.mpr ⟨.ok entry, hentry, ?_⟩
  change (Fde.decode frames entry.record).toOption = some r
  rw [hr]
  rfl

/-! ## Routines -/

def moveRoutine (d : UInt64) (r : Routine) : Routine := (r.1.moved d, r.2.moved d)

section

variable {r : Routine} (relative : Relative r.2.pointerEncoding) (imageBase : UInt64)

theorem startLoc_moved :
    Routine.startLoc (imageBase + d) (moveRoutine d r) = r.startLoc imageBase := by
  have h : r.1.pcStart + d - (imageBase + d) = r.1.pcStart - imageBase := by grind
  exact congrArg UInt64.toUInt32 h

theorem stopLoc_moved :
    Routine.stopLoc (imageBase + d) (moveRoutine d r) = r.stopLoc imageBase := by
  have h : r.1.pcStop + d - (r.1.pcStart + d) = r.1.pcStop - r.1.pcStart := by grind
  unfold Routine.stopLoc
  rw [startLoc_moved]
  exact congrArg (fun a : UInt64 => r.startLoc imageBase + a.toUInt32) h

include relative

theorem recorded_moved :
    Routine.recorded (imageBase + d) (moveRoutine d r) = Routine.recorded imageBase r := by
  unfold Routine.recorded Routine.rows
  rw [startLoc_moved, stopLoc_moved]
  exact congrArg (· ++ _) (rules_moved relative imageBase _ r.1).rules

theorem refusal_moved (above : imageBase ≤ r.1.pcStart)
    (above' : imageBase + d ≤ (moveRoutine d r).1.pcStart) :
    (Routine.refusal (imageBase + d) (moveRoutine d r)).isSome =
      (Routine.refusal imageBase r).isSome := by
  unfold Routine.refusal
  rw [startLoc_moved, if_neg (UInt64.not_lt.mpr above), if_neg (UInt64.not_lt.mpr above')]
  exact (rules_moved relative imageBase _ r.1).fault

end

/-! ## The table -/

/-- The same rules, for an image that is `d` further on. -/
def moveBuilder (d : UInt64) (b : Builder) : Builder := { b with imageBase := b.imageBase + d }

theorem add_fst (b : Builder) (r : Routine) :
    (b.add r.1 r.2).1 =
      if (r.refusal b.imageBase).isSome then b else b.recordAll (r.recorded b.imageBase) := by
  rw [b.add_eq]
  cases r.refusal b.imageBase <;> rfl

theorem add_moved {r : Routine} (relative : Relative r.2.pointerEncoding) {b : Builder}
    (above : b.imageBase ≤ r.1.pcStart)
    (above' : b.imageBase + d ≤ (moveRoutine d r).1.pcStart) :
    ((moveBuilder d b).add (moveRoutine d r).1 (moveRoutine d r).2).1 =
      moveBuilder d (b.add r.1 r.2).1 := by
  rw [add_fst, add_fst]
  change (if (Routine.refusal (b.imageBase + d) (moveRoutine d r)).isSome then _
    else (moveBuilder d b).recordAll (Routine.recorded (b.imageBase + d) (moveRoutine d r))) = _
  rw [refusal_moved relative b.imageBase above above', recorded_moved relative]
  split <;> rfl

theorem addRecord_snd (frames : Section) (b : Builder) (record : UInt64) :
    (addRecord frames b record).2 =
      match Fde.decode frames record with
      | .error _ => b
      | .ok r => (b.add r.1 r.2).1 := by
  unfold addRecord
  cases Fde.decode frames record with
  | error e => rfl
  | ok r =>
    dsimp only
    generalize b.add r.1 r.2 = x
    obtain ⟨after, result⟩ := x
    cases result <;> rfl

theorem imageBase_addRecord (frames : Section) (b : Builder) (record : UInt64) :
    (addRecord frames b record).2.imageBase = b.imageBase := by
  rw [addRecord_snd]
  split
  · rfl
  · rw [add_fst]
    split <;> rfl

/-- A record whose function does not start below the image, in either place. -/
structure Suits (d : UInt64) (frames : Section) (imageBase record : UInt64) : Prop where
  relative : ∀ r, Fde.decode frames record = .ok r → Relative r.2.pointerEncoding
  above : ∀ r, Fde.decode frames record = .ok r → imageBase ≤ r.1.pcStart
  above' : ∀ r, Fde.decode (frames.moved d) (record + d) = .ok r → imageBase + d ≤ r.1.pcStart

section

variable {frames : Section} (fits : frames.Fits) (fits' : (frames.moved d).Fits)

include fits fits'

theorem addRecord_moved {b : Builder} {record : UInt64}
    (h : Suits d frames b.imageBase record) :
    (addRecord (frames.moved d) (moveBuilder d b) (record + d)).2 =
      moveBuilder d (addRecord frames b record).2 := by
  have hdecode := decodeFde_moved fits fits' record
  rw [addRecord_snd, addRecord_snd]
  generalize hx : Fde.decode frames record = x at hdecode ⊢
  generalize hy : Fde.decode (frames.moved d) (record + d) = y at hdecode ⊢
  cases hdecode with
  | error e e' => rfl
  | @ok r r' hsame =>
    have hrelative := h.relative r hx
    have hr : r' = moveRoutine d r := Prod.ext (hsame.fde hrelative) hsame.cie
    subst hr
    exact add_moved hrelative (h.above r hx) (h.above' _ hy)

theorem addEntries_moved {entries entries' : List (Except CfiError FrameHeader.Entry)}
    (hentries : SameEntries d entries entries') {b : Builder}
    (h : ∀ entry, .ok entry ∈ entries → Suits d frames b.imageBase entry.record) :
    Alike (fun b c => c = moveBuilder d b) (addEntries frames entries b).2
      (addEntries (frames.moved d) entries' (moveBuilder d b)).2 := by
  induction hentries generalizing b with
  | nil => exact .ok rfl
  | cons hentry _ ih =>
    cases hentry with
    | error e e' => exact .error e e'
    | @ok entry entry' heq =>
      subst heq
      -- Adding a record leaves the base of the image alone, so the rest still suits the builder.
      have hadd := addRecord_moved fits fits' (h entry (List.mem_cons_self ..))
      have hrest := @ih (addRecord frames b entry.record).2 fun other hmem => by
        rw [imageBase_addRecord]
        exact h other (List.mem_cons_of_mem _ hmem)
      rw [← hadd] at hrest
      exact hrest

end

theorem mem_moved {entries entries' : List (Except CfiError FrameHeader.Entry)}
    (h : SameEntries d entries entries') {entry : FrameHeader.Entry}
    (hmem : .ok entry ∈ entries) : .ok (entry.moved d) ∈ entries' := by
  induction h with
  | nil => cases hmem
  | cons hentry _ ih =>
    rcases List.mem_cons.mp hmem with heq | hmem
    · cases hentry with
      | error e e' => cases heq
      | ok h =>
        cases heq
        exact h ▸ List.mem_cons_self
    · exact List.mem_cons_of_mem _ (ih hmem)

/-- A relocatable image gives the same table wherever it is, or none wherever it is. -/
theorem compile_moved {header frames : Section} {imageBase : UInt64}
    (relocatable : Relocatable header frames) (placed : Placed header frames imageBase)
    (placed' : Placed (header.moved d) (frames.moved d) (imageBase + d)) :
    Alike Eq (compile header frames imageBase).table
      (compile (header.moved d) (frames.moved d) (imageBase + d)).table := by
  have hbase : Bases d header.address (header.moved d).address :=
    .inr ⟨placed.header_ne, placed'.header_ne, rfl⟩
  have hheader : Alike (SameTable d) (FrameHeader.decode header)
      (FrameHeader.decode (header.moved d)) :=
    Outcome.on (readHeader_moved hbase relocatable.count relocatable.table)
  unfold compile
  generalize hx : FrameHeader.decode header = x at hheader ⊢
  generalize hy : FrameHeader.decode (header.moved d) = y at hheader ⊢
  cases hheader with
  | error e e' => exact .error e e'
  | @ok h k hsame =>
    have hentries := entries_moved hsame placed.header_fits placed'.header_fits placed.header_ne
      placed'.header_ne
    have hsuits : ∀ entry, .ok entry ∈ h.entries header →
        Suits d frames imageBase entry.record := by
      intro entry hmem
      have hmem' := mem_moved hentries hmem
      exact ⟨fun r hr => relocatable.code r (mem_listed hx hmem hr),
        fun r hr => placed.above r (mem_listed hx hmem hr),
        fun r hr => placed'.above r (mem_listed hy hmem' hr)⟩
    have hadded := addEntries_moved placed.frames_fits placed'.frames_fits hentries
      (b := .new imageBase) hsuits
    dsimp only
    generalize (addEntries frames (h.entries header) (.new imageBase)).2 = x at hadded ⊢
    change Alike Eq _ (Except.map Builder.finish (addEntries (frames.moved d)
      (k.entries (header.moved d)) (moveBuilder d (.new imageBase))).2)
    generalize (addEntries (frames.moved d) _ _).2 = y at hadded ⊢
    cases hadded with
    | error e e' => exact .error e e'
    | ok hb =>
      subst hb
      exact .ok rfl

theorem adjacent_relocatable : Relocatable adjacentHeader adjacentFrames where
  count := by
    intro encoding h
    cases h
    exact .inr rfl
  table := by
    intro encoding h
    cases h
    exact .inr (.inr rfl)
  code := by
    have h : ∀ r ∈ listed adjacentHeader adjacentFrames, r.2.pointerEncoding = 0x1b := by
      decide +kernel
    intro r hr
    rw [h r hr]
    exact .inl rfl

/-- The same three functions in another place, with the same rules. -/
theorem compile_moved_adjacent :
    (compile (adjacentHeader.moved 0x7f0000000000) (adjacentFrames.moved 0x7f0000000000)
      (0x1000 + 0x7f0000000000)).table = .ok adjacentTable := by
  have placed : Placed adjacentHeader adjacentFrames 0x1000 :=
    ⟨by decide, by decide, by decide, by decide +kernel⟩
  have placed' : Placed (adjacentHeader.moved 0x7f0000000000) (adjacentFrames.moved 0x7f0000000000)
      (0x1000 + 0x7f0000000000) :=
    ⟨by decide, by decide, by decide, by decide +kernel⟩
  have h := compile_moved adjacent_relocatable placed placed'
  rw [compile_adjacent] at h
  generalize (compile (adjacentHeader.moved _) _ _).table = moved at h ⊢
  cases h with
  | ok h => exact congrArg Except.ok h.symm

end Placement

end Unwind
