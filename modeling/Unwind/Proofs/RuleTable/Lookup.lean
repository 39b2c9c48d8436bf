import Mathlib.Data.List.Chain
import Unwind.Proofs.RuleTable.Routine

/-!
# The compiled table against a look-up without a table

Without a table, the rule for an address is found by taking the routine whose code holds the
address, running its instructions and keeping the last row at or below the address. If the routines
lie apart and their rows inside them, the compiled table unwinds every address alike
(`find_like_direct`): the rows of the routines before the right one end at its start, those of the
routines behind it start too late, and in a gap the rule that closes the routine before it is in
force.
-/

namespace Unwind

namespace RuleTable

open Rule

namespace Routine

/-- The routine lies above the image base in one piece, within the reach of a location, and its rows
go forward inside it. -/
structure Placed (imageBase : UInt64) (r : Routine) : Prop where
  ordered : r.1.pcStart ≤ r.1.pcStop
  near : r.1.pcStop.toNat < imageBase.toNat + 0x100000000
  ascending : Ascending (r.rows imageBase)
  inside : ∀ s ∈ r.rows imageBase,
    r.1.pcStart.toNat ≤ imageBase.toNat + s.loc.toNat ∧
      imageBase.toNat + s.loc.toNat ≤ r.1.pcStop.toNat

instance (imageBase : UInt64) (r : Routine) : Decidable (r.Placed imageBase) :=
  decidable_of_iff
    (r.1.pcStart ≤ r.1.pcStop ∧ r.1.pcStop.toNat < imageBase.toNat + 0x100000000 ∧
      Ascending (r.rows imageBase) ∧
      ∀ s ∈ r.rows imageBase,
        r.1.pcStart.toNat ≤ imageBase.toNat + s.loc.toNat ∧
          imageBase.toNat + s.loc.toNat ≤ r.1.pcStop.toNat)
    ⟨fun h => ⟨h.1, h.2.1, h.2.2.1, h.2.2.2⟩,
      fun h => ⟨h.ordered, h.near, h.ascending, h.inside⟩⟩

/-- The last of the routine's rows that starts at or below an address. -/
def rowAt (imageBase : UInt64) (r : Routine) (pc : UInt64) : Option Rule :=
  ((r.rows imageBase).filter fun s =>
    decide (imageBase.toNat + s.loc.toNat ≤ pc.toNat)).getLast?

end Routine

/-- The rule for an address without a table: the row of the routine that holds it, or the default
where there is none. -/
def directRule (imageBase : UInt64) (routines : List Routine) (pc : UInt64) : Option Rule :=
  match routines.find? (·.1.contains pc) with
  | some r => r.rowAt imageBase pc
  | none => some .default

/-! ## Locations as distances from the image base -/

/-- The distance from the image base, where a location can hold it. -/
theorem toNat_distance {imageBase a : UInt64} (above : imageBase ≤ a)
    (near : a.toNat < imageBase.toNat + 0x100000000) :
    (a - imageBase).toUInt32.toNat = a.toNat - imageBase.toNat := by
  rw [UInt64.toNat_toUInt32, UInt64.toNat_sub_of_le _ _ above]
  omega

namespace Routine

variable {imageBase : UInt64} {r : Routine}

theorem toNat_startLoc (placed : r.Placed imageBase) (above : imageBase ≤ r.1.pcStart) :
    (r.startLoc imageBase).toNat = r.1.pcStart.toNat - imageBase.toNat := by
  have hle := UInt64.le_iff_toNat_le.mp placed.ordered
  have hnear := placed.near
  exact toNat_distance above (by omega)

theorem toNat_stopLoc (placed : r.Placed imageBase) (above : imageBase ≤ r.1.pcStart) :
    (r.stopLoc imageBase).toNat = r.1.pcStop.toNat - imageBase.toNat := by
  have hle := UInt64.le_iff_toNat_le.mp placed.ordered
  have habove := UInt64.le_iff_toNat_le.mp above
  have hnear := placed.near
  rw [stopLoc, UInt32.toNat_add, toNat_startLoc placed above, UInt64.toNat_toUInt32,
    UInt64.toNat_sub_of_le _ _ placed.ordered]
  omega

/-- Everything that is recorded of a placed routine lies between its ends, and in order. -/
theorem recorded_bounds (placed : r.Placed imageBase) (above : imageBase ≤ r.1.pcStart)
    {s : Rule} (hs : s ∈ r.recorded imageBase) :
    r.1.pcStart.toNat ≤ imageBase.toNat + s.loc.toNat ∧
      imageBase.toNat + s.loc.toNat ≤ r.1.pcStop.toNat := by
  rcases List.mem_append.mp hs with hs | hs
  · exact placed.inside s hs
  · have hle := UInt64.le_iff_toNat_le.mp placed.ordered
    have habove := UInt64.le_iff_toNat_le.mp above
    have hstop := toNat_stopLoc placed above
    rw [List.mem_singleton.mp hs]
    change _ ≤ imageBase.toNat + (r.stopLoc imageBase).toNat ∧
      imageBase.toNat + (r.stopLoc imageBase).toNat ≤ _
    omega

theorem ascending_recorded (placed : r.Placed imageBase) (above : imageBase ≤ r.1.pcStart) :
    Ascending (r.recorded imageBase) := by
  unfold recorded Ascending
  rw [List.pairwise_append]
  refine ⟨placed.ascending, List.pairwise_singleton _ _, fun s hs t ht => ?_⟩
  rw [List.mem_singleton.mp ht, UInt32.le_iff_toNat_le]
  change s.loc.toNat ≤ (r.stopLoc imageBase).toNat
  have hinside := (placed.inside s hs).2
  have habove := UInt64.le_iff_toNat_le.mp above
  rw [toNat_stopLoc placed above]
  omega

end Routine

/-- Where the code of routines lies apart, everything recorded of them is in order. -/
theorem ascending_flatMap {imageBase : UInt64} {routines : List Routine}
    (placed : ∀ r ∈ routines, r.Placed imageBase)
    (above : ∀ r ∈ routines, imageBase ≤ r.1.pcStart)
    (apart : routines.Pairwise fun r s => r.1.pcStop ≤ s.1.pcStart) :
    Ascending (routines.flatMap (·.recorded imageBase)) := by
  unfold Ascending
  rw [List.pairwise_flatMap]
  refine ⟨fun r hr => r.ascending_recorded (placed r hr) (above r hr), ?_⟩
  apply apart.imp_of_mem
  intro r s hr hs hapart x hx y hy
  have hx' := (Routine.recorded_bounds (placed r hr) (above r hr) hx).2
  have hy' := (Routine.recorded_bounds (placed s hs) (above s hs) hy).1
  rw [UInt64.le_iff_toNat_le] at hapart
  rw [UInt32.le_iff_toNat_le]
  omega

/-- Routines of which each ends before the next one starts lie apart. -/
theorem pairwise_of_isChain {routines : List Routine}
    (ordered : ∀ r ∈ routines, r.1.pcStart ≤ r.1.pcStop)
    (apart : routines.IsChain fun r s => r.1.pcStop ≤ s.1.pcStart) :
    routines.Pairwise fun r s => r.1.pcStop ≤ s.1.pcStart := by
  induction routines with
  | nil => exact List.Pairwise.nil
  | cons r rest ih =>
    have hrest := ih (fun s hs => ordered s (List.mem_cons_of_mem _ hs)) apart.tail
    refine List.pairwise_cons.mpr ⟨fun s hs => ?_, hrest⟩
    cases rest with
    | nil => cases hs
    | cons next rest =>
      have hnext := (List.isChain_cons_cons.mp apart).1
      rcases List.mem_cons.mp hs with rfl | hs
      · exact hnext
      · have hmid := ordered next (List.mem_cons_of_mem _ (List.mem_cons_self ..))
        exact UInt64.le_trans hnext
          (UInt64.le_trans hmid ((List.pairwise_cons.mp hrest).1 s hs))

/-! ## The last row at or below an address -/

section

variable {imageBase pc : UInt64}

/-- A location at or below the one of an address, in terms of addresses. -/
theorem le_distance_iff (above : imageBase ≤ pc)
    (near : pc.toNat < imageBase.toNat + 0x100000000) (loc : UInt32) :
    loc ≤ (pc - imageBase).toUInt32 ↔ imageBase.toNat + loc.toNat ≤ pc.toNat := by
  rw [UInt32.le_iff_toNat_le, toNat_distance above near]
  rw [UInt64.le_iff_toNat_le] at above
  omega

theorem lastUpTo_eq_none {rules : List Rule} {target : UInt32}
    (h : ∀ s ∈ rules, ¬ s.loc ≤ target) : lastUpTo rules target = none := by
  rw [lastUpTo, List.getLast?_eq_none_iff, List.filter_eq_nil_iff]
  intro s hs
  rw [decide_eq_true_eq]
  exact h s hs

/-- Of an accepted routine that holds the address, one of its own rows is in force. -/
theorem lastUpTo_recorded_of_contains {r : Routine} (above : imageBase ≤ pc)
    (near : pc.toNat < imageBase.toNat + 0x100000000) (placed : r.Placed imageBase)
    (accepted : r.accepted imageBase = true) (holds : r.1.contains pc = true) :
    ∃ s, r.rowAt imageBase pc = some s ∧
      lastUpTo (r.recorded imageBase) (pc - imageBase).toUInt32 = some s := by
  have hstart := Routine.start_of_accepted accepted
  unfold Fde.contains at holds
  rw [Bool.and_eq_true, decide_eq_true_eq, decide_eq_true_eq, UInt64.le_iff_toNat_le,
    UInt64.lt_iff_toNat_lt] at holds
  have hrows : lastUpTo (r.rows imageBase) (pc - imageBase).toUInt32 = r.rowAt imageBase pc := by
    unfold lastUpTo Routine.rowAt
    simp only [le_distance_iff above near]
  have hclosing : ¬ (Rule.default.movedTo (r.stopLoc imageBase)).loc ≤
      (pc - imageBase).toUInt32 := by
    rw [le_distance_iff above near]
    change ¬ imageBase.toNat + (r.stopLoc imageBase).toNat ≤ pc.toNat
    rw [Routine.toNat_stopLoc placed hstart]
    omega
  rw [Routine.recorded, lastUpTo_concat_of_not_le hclosing, hrows]
  obtain ⟨first, rest, hfirst, hloc⟩ := Routine.rows_of_accepted accepted
  have hkept : first ∈ (r.rows imageBase).filter fun s =>
      decide (imageBase.toNat + s.loc.toNat ≤ pc.toNat) := by
    rw [List.mem_filter, decide_eq_true_eq, hloc, Routine.toNat_startLoc placed hstart, hfirst]
    rw [UInt64.le_iff_toNat_le] at hstart
    exact ⟨List.mem_cons_self .., by omega⟩
  obtain ⟨s, hs⟩ := Option.isSome_iff_exists.mp
    (List.getLast?_isSome.mpr (List.ne_nil_of_mem hkept))
  exact ⟨s, hs, hs⟩

/-- Of a routine that does not hold the address, at most the closing rule is in force. -/
theorem lastUpTo_recorded_of_not_contains {r : Routine} (above : imageBase ≤ pc)
    (near : pc.toNat < imageBase.toNat + 0x100000000) (placed : r.Placed imageBase)
    (start : imageBase ≤ r.1.pcStart) (misses : ¬ r.1.contains pc = true) {s : Rule}
    (hs : lastUpTo (r.recorded imageBase) (pc - imageBase).toUInt32 = some s) :
    s.row = .linked := by
  by_cases hbefore : pc < r.1.pcStart
  · rw [lastUpTo_eq_none] at hs
    · cases hs
    · intro t ht
      have hlow := (Routine.recorded_bounds placed start ht).1
      rw [le_distance_iff above near]
      rw [UInt64.lt_iff_toNat_lt] at hbefore
      omega
  · have hbehind : r.1.pcStop.toNat ≤ pc.toNat := by
      unfold Fde.contains at misses
      rw [Bool.and_eq_true, decide_eq_true_eq, decide_eq_true_eq, UInt64.le_iff_toNat_le,
        UInt64.lt_iff_toNat_lt] at misses
      rw [UInt64.lt_iff_toNat_lt] at hbefore
      omega
    have hclosing : (Rule.default.movedTo (r.stopLoc imageBase)).loc ≤
        (pc - imageBase).toUInt32 := by
      rw [le_distance_iff above near]
      change imageBase.toNat + (r.stopLoc imageBase).toNat ≤ pc.toNat
      rw [Routine.toNat_stopLoc placed start]
      rw [UInt64.le_iff_toNat_le] at above
      omega
    rw [Routine.recorded, lastUpTo_concat_of_le hclosing] at hs
    cases hs
    rfl

/-- Routines that start above the address yield nothing for it. -/
theorem lastUpTo_of_above {routines : List Routine} (above : imageBase ≤ pc)
    (near : pc.toNat < imageBase.toNat + 0x100000000)
    (placed : ∀ r ∈ routines, r.Placed imageBase)
    (accepted : ∀ r ∈ routines, r.accepted imageBase = true)
    (behind : ∀ r ∈ routines, pc < r.1.pcStart) :
    lastUpTo (routines.flatMap (·.recorded imageBase)) (pc - imageBase).toUInt32 = none := by
  apply lastUpTo_eq_none
  intro t ht
  obtain ⟨r, hr, ht⟩ := List.mem_flatMap.mp ht
  have hlow := (Routine.recorded_bounds (placed r hr)
    (Routine.start_of_accepted (accepted r hr)) ht).1
  have hbehind := UInt64.lt_iff_toNat_lt.mp (behind r hr)
  rw [le_distance_iff above near]
  omega

/-- Routines that do not contain the address yield the default rule for it, if any. -/
theorem lastUpTo_of_outside {routines : List Routine} (above : imageBase ≤ pc)
    (near : pc.toNat < imageBase.toNat + 0x100000000)
    (placed : ∀ r ∈ routines, r.Placed imageBase)
    (accepted : ∀ r ∈ routines, r.accepted imageBase = true)
    (outside : ∀ r ∈ routines, ¬ r.1.contains pc = true) :
    ((lastUpTo (routines.flatMap (·.recorded imageBase)) (pc - imageBase).toUInt32).map
      Rule.row).getD .linked = .linked := by
  induction routines with
  | nil => rfl
  | cons r rest ih =>
    have hrest := ih (fun s hs => placed s (List.mem_cons_of_mem _ hs))
      (fun s hs => accepted s (List.mem_cons_of_mem _ hs))
      (fun s hs => outside s (List.mem_cons_of_mem _ hs))
    have hr : r ∈ r :: rest := List.mem_cons_self
    rw [List.flatMap_cons, lastUpTo_append]
    cases hlast : lastUpTo (rest.flatMap (·.recorded imageBase)) (pc - imageBase).toUInt32 with
    | some s => rwa [hlast] at hrest
    | none =>
      rw [Option.none_or]
      cases hown : lastUpTo (r.recorded imageBase) (pc - imageBase).toUInt32 with
      | none => rfl
      | some s =>
        exact lastUpTo_recorded_of_not_contains above near (placed r hr)
          (Routine.start_of_accepted (accepted r hr)) (outside r hr) hown

/-- In the rows of many routines, the last at or below an address is the one that the routine
holding the address gives; where there is none it is like the default. -/
theorem lastUpTo_flatMap {routines : List Routine} (above : imageBase ≤ pc)
    (near : pc.toNat < imageBase.toNat + 0x100000000)
    (placed : ∀ r ∈ routines, r.Placed imageBase)
    (accepted : ∀ r ∈ routines, r.accepted imageBase = true)
    (apart : routines.Pairwise fun r s => r.1.pcStop ≤ s.1.pcStart) :
    ∃ s, directRule imageBase routines pc = some s ∧
      ((lastUpTo (routines.flatMap (·.recorded imageBase)) (pc - imageBase).toUInt32).map
        Rule.row).getD .linked = s.row := by
  unfold directRule
  cases hfind : routines.find? (·.1.contains pc) with
  | some r =>
    obtain ⟨holds, front, back, rfl, -⟩ := List.find?_eq_some_iff_append.mp hfind
    have hr : r ∈ front ++ r :: back := List.mem_append_right _ (List.mem_cons_self ..)
    obtain ⟨s, hrow, hlast⟩ :=
      lastUpTo_recorded_of_contains above near (placed r hr) (accepted r hr) holds
    refine ⟨s, hrow, ?_⟩
    -- The routines behind this one start above the address.
    have hback : lastUpTo (back.flatMap (·.recorded imageBase)) (pc - imageBase).toUInt32 =
        none := by
      have hmem : ∀ s ∈ back, s ∈ front ++ r :: back :=
        fun s hs => List.mem_append_right _ (List.mem_cons_of_mem _ hs)
      refine lastUpTo_of_above above near (fun s hs => placed s (hmem s hs))
        (fun s hs => accepted s (hmem s hs)) fun s hs => ?_
      have hbetween := (List.pairwise_cons.mp (List.pairwise_append.mp apart).2.1).1 s hs
      unfold Fde.contains at holds
      rw [Bool.and_eq_true, decide_eq_true_eq, decide_eq_true_eq] at holds
      exact UInt64.lt_of_lt_of_le holds.2 hbetween
    rw [List.flatMap_append, List.flatMap_cons, lastUpTo_append, lastUpTo_append, hback, hlast]
    rfl
  | none =>
    refine ⟨.default, rfl, ?_⟩
    exact lastUpTo_of_outside above near placed accepted (List.find?_eq_none.mp hfind)

end

/-- The compiled table unwinds an address like the routine that holds it, and by default where there
is none. -/
theorem find_like_direct {header frames : Section} {imageBase : UInt64} {table : Array Rule}
    (compiled : (compile header frames imageBase).table = .ok table)
    (placed : ∀ r ∈ acceptedRoutines header frames imageBase, r.Placed imageBase)
    (apart : (acceptedRoutines header frames imageBase).IsChain fun r s =>
      r.1.pcStop ≤ s.1.pcStart)
    (pc : UInt64) (above : imageBase ≤ pc) (near : pc.toNat < imageBase.toNat + 0x100000000) :
    ∃ s, directRule imageBase (acceptedRoutines header frames imageBase) pc = some s ∧
      (Rule.find table (pc - imageBase).toUInt32).sameUnwind s = true := by
  have accepted : ∀ r ∈ acceptedRoutines header frames imageBase,
      r.accepted imageBase = true := fun r hr => accepted_of_mem hr
  have pairwise := pairwise_of_isChain (fun r hr => (placed r hr).ordered) apart
  have ordered := ascending_flatMap placed
    (fun r hr => Routine.start_of_accepted (accepted r hr)) pairwise
  obtain ⟨s, hdirect, hrow⟩ := lastUpTo_flatMap above near placed accepted pairwise
  refine ⟨s, hdirect, ?_⟩
  have records := records_foldl ordered
  have htable : table.toList =
      (((acceptedRoutines header frames imageBase).flatMap (·.recorded imageBase)).foldl
        record #[]).toList := by
    rw [table_of_compile compiled, Builder.toList_finish]
    · rfl
    · exact records.ascending
  rw [sameUnwind_iff, row_find (htable ▸ records.ascending), htable, records.rows, hrow]

/-- Three functions, of which the second overlaps the first and has an unknown instruction; the
third starts where the first one ends. -/
def adjacentFrames : Section := ⟨0x2000, [
  0x10, 0x00, 0x00, 0x00, 0x00, 0x00, 0x00, 0x00, 0x01, 0x7a, 0x52, 0x00, 0x01, 0x78, 0x10, 0x01,
  0x1b, 0x0c, 0x07, 0x08,
  0x10, 0x00, 0x00, 0x00, 0x18, 0x00, 0x00, 0x00, 0xe4, 0xef, 0xff, 0xff, 0x40, 0x00, 0x00, 0x00,
  0x00, 0x41, 0x0e, 0x10,
  0x0f, 0x00, 0x00, 0x00, 0x2c, 0x00, 0x00, 0x00, 0x08, 0xf0, 0xff, 0xff, 0x10, 0x00, 0x00, 0x00,
  0x00, 0x42, 0x3f,
  0x0d, 0x00, 0x00, 0x00, 0x3f, 0x00, 0x00, 0x00, 0xfd, 0xef, 0xff, 0xff, 0x20, 0x00, 0x00, 0x00,
  0x00]⟩

/-- The search table of the three functions. -/
def adjacentHeader : Section := ⟨0x3000, [
  0x01, 0x1b, 0x03, 0x3b, 0xfc, 0xef, 0xff, 0xff, 0x03, 0x00, 0x00, 0x00,
  0x00, 0xe0, 0xff, 0xff, 0x14, 0xf0, 0xff, 0xff,
  0x38, 0xe0, 0xff, 0xff, 0x28, 0xf0, 0xff, 0xff,
  0x40, 0xe0, 0xff, 0xff, 0x3b, 0xf0, 0xff, 0xff]⟩

/-- The rules of the first and the third function. -/
def adjacentTable : Array Rule :=
  #[⟨0, .atEntry⟩, ⟨1, ⟨.sp, 16, .unchanged⟩⟩, ⟨0x40, .atEntry⟩, ⟨0x60, .linked⟩]

theorem compile_adjacent :
    (compile adjacentHeader adjacentFrames 0x1000).table = .ok adjacentTable := by
  have hok : (compile adjacentHeader adjacentFrames 0x1000).table.isOk = true := by decide +kernel
  have hrules : ((acceptedRoutines adjacentHeader adjacentFrames 0x1000).flatMap
      (·.recorded 0x1000)).foldl record #[] = adjacentTable := by
    decide +kernel
  cases h : (compile adjacentHeader adjacentFrames 0x1000).table with
  | error e => rw [h] at hok; cases hok
  | ok table =>
    rw [table_of_compile h]
    change Except.ok (Builder.finish ⟨0x1000, _⟩) = _
    rw [Builder.new, hrules]
    congr 1
    apply Array.toList_inj.mp
    exact Builder.toList_finish _ (by decide)

theorem find_like_direct_adjacent :
    ∃ s, directRule 0x1000 (acceptedRoutines adjacentHeader adjacentFrames 0x1000) 0x1041 = some s ∧
      (Rule.find adjacentTable (0x1041 - 0x1000 : UInt64).toUInt32).sameUnwind s = true :=
  find_like_direct compile_adjacent (by decide +kernel) (by decide +kernel) 0x1041 (by decide)
    (by decide)

end RuleTable

end Unwind
