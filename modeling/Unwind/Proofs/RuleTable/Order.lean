import Unwind.Proofs.RuleTable.Lookup
import Unwind.Proofs.RuleTable.Sorted

/-!
# Routines added out of order

A builder may be given routines in any order; the table is sorted at the end. Each routine then
unwinds as if it had been added alone (`Serves`), because a builder always ends with a row like the
default, and what it drops or replaces is told apart by no target. There is one exception. A routine
that is added after the one which starts where it ends closes with a rule at the other's first
location, which sorting puts behind the other's first row (`find_differs_reversed`). Without such a
pair the order does not matter (`find_of_perm`).
-/

namespace Unwind

namespace RuleTable

open Rule

/-! ## Recording behind what is there already -/

theorem record_ne_empty (table : Array Rule) (r : Rule) : record table r ≠ #[] := by
  rcases record_cases table r with ⟨front, last, rfl, -, hrecord⟩ |
    ⟨front, last, rfl, -, hrecord⟩ | hrecord
  all_goals
    rw [hrecord]
    exact Array.push_ne_empty

/-- Recording looks at the last rule only, so it does not see what is in front of a part. -/
theorem record_append (front : Array Rule) {part : Array Rule} (h : part ≠ #[]) (r : Rule) :
    record (front ++ part) r = front ++ record part r := by
  rcases eq_empty_or_push part with rfl | ⟨inner, last, rfl⟩
  · exact absurd rfl h
  · rw [Array.append_push, record_push, record_push]
    split
    · rw [Array.append_push]
    · split
      · rw [Array.append_push]
      · rw [Array.append_push, Array.append_push]

theorem foldl_record_append (front : Array Rule) {part : Array Rule} (h : part ≠ #[])
    (rules : List Rule) : rules.foldl record (front ++ part) = front ++ rules.foldl record part := by
  induction rules generalizing part with
  | nil => rfl
  | cons r rest ih =>
    rw [List.foldl_cons, record_append front h, ih (record_ne_empty part r), List.foldl_cons]

/-- A first rule at the location of the last one takes its place. -/
theorem foldl_record_replacing (front : Array Rule) {last r : Rule} (h : last.loc = r.loc)
    (rest : List Rule) :
    (r :: rest).foldl record (front.push last) = front ++ (r :: rest).foldl record #[] := by
  have hfirst : record (front.push last) r = front ++ #[r] := by
    rw [record_push, if_pos h, Array.push_eq_append]
  rw [List.foldl_cons, hfirst, foldl_record_append front (by simp)]
  rfl

/-- Behind a rule like the default, and away from its location, what is dropped are the rules like
the default at the front. -/
theorem foldl_record_apart {table : Array Rule} {last : Rule} (hlast : table.back? = some last)
    (closed : last.row = .linked) (rules : List Rule) (apart : ∀ s ∈ rules, last.loc ≠ s.loc) :
    rules.foldl record table =
      table ++ (rules.dropWhile fun s => s.row == .linked).foldl record #[] := by
  induction rules with
  | nil => rw [List.dropWhile_nil, List.foldl_nil, List.foldl_nil, Array.append_empty]
  | cons r rest ih =>
    have hloc : ¬ (last.loc == r.loc) = true := by
      rw [beq_iff_eq]
      exact apart r List.mem_cons_self
    have hsame : last.sameUnwind r = (r.row == .linked) := by
      rw [Bool.eq_iff_iff, sameUnwind_iff, beq_iff_eq, closed]
      exact eq_comm
    rw [List.foldl_cons, List.dropWhile_cons]
    unfold record
    rw [hlast]
    dsimp only
    rw [if_neg hloc, hsame]
    by_cases hr : (r.row == .linked) = true
    · rw [if_pos hr, if_pos hr]
      exact ih fun s hs => apart s (List.mem_cons_of_mem r hs)
    · rw [if_neg hr, if_neg hr, Array.push_eq_append]
      exact foldl_record_append table (by simp) rest

theorem mem_record {table : Array Rule} {r s : Rule} (h : s ∈ (record table r).toList) :
    s ∈ table.toList ∨ s = r := by
  rcases record_cases table r with ⟨front, last, rfl, -, hrecord⟩ | ⟨-, -, -, -, hrecord⟩ | hrecord
  · rw [hrecord, Array.toList_push] at h
    rw [Array.toList_push]
    exact (List.mem_append.mp h).imp (List.mem_append_left [last]) List.mem_singleton.mp
  · rw [hrecord] at h
    exact Or.inl h
  · rw [hrecord, Array.toList_push] at h
    exact (List.mem_append.mp h).imp id List.mem_singleton.mp

theorem mem_foldl_record {rules : List Rule} {table : Array Rule} {s : Rule}
    (h : s ∈ (rules.foldl record table).toList) : s ∈ table.toList ∨ s ∈ rules := by
  induction rules generalizing table with
  | nil => exact Or.inl h
  | cons r rest ih =>
    rcases ih h with hs | hs
    · rcases mem_record hs with hs | rfl
      · exact Or.inl hs
      · exact Or.inr List.mem_cons_self
    · exact Or.inr (List.mem_cons_of_mem r hs)

/-- The last rule of a table unwinds like the one that was recorded last. -/
theorem row_back?_record (table : Array Rule) (r : Rule) :
    (record table r).back?.map Rule.row = some r.row := by
  rcases record_cases table r with ⟨front, last, -, -, hrecord⟩ |
    ⟨front, last, rfl, hrow, hrecord⟩ | hrecord
  · rw [hrecord, Array.back?_push]
    rfl
  · rw [hrecord, Array.back?_push, Option.map_some, hrow]
  · rw [hrecord, Array.back?_push]
    rfl

/-- Dropping rules like the default from the front changes no row. -/
theorem rowOf_lastUpTo_dropWhile (rules : List Rule) (target : UInt32) :
    rowOf (lastUpTo (rules.dropWhile fun s => s.row == .linked) target) =
      rowOf (lastUpTo rules target) := by
  induction rules with
  | nil => rfl
  | cons r rest ih =>
    rw [List.dropWhile_cons]
    split
    · rename_i hr
      rw [ih, ← List.singleton_append, lastUpTo_append]
      cases hrest : lastUpTo rest target with
      | some s => rfl
      | none =>
        rw [Option.none_or]
        cases hown : lastUpTo [r] target with
        | none => rfl
        | some s =>
          rw [List.mem_singleton.mp (mem_of_lastUpTo hown).1, rowOf_some, beq_iff_eq.mp hr]
          rfl
    · rfl

/-- What is left of ordered rules that are recorded behind others: some of them, which give the same
rows and are found as if nothing had been replaced. -/
theorem latest_foldl_record {table : Array Rule} {r : Rule} {rest : List Rule}
    (closed : ∀ last, table.back? = some last → last.row = .linked)
    (ordered : Ascending (r :: rest))
    (apart : ∀ last, table.back? = some last → ∀ s ∈ r :: rest, s.loc = last.loc →
      s.loc = r.loc) :
    ∃ left : List Rule, (∀ s ∈ left, s ∈ r :: rest) ∧
      (∀ target, rowOf (lastUpTo left target) = rowOf (lastUpTo (r :: rest) target)) ∧
      ∀ target, latest ((r :: rest).foldl record table).toList target =
        later (latest table.toList target) (lastUpTo left target) := by
  have records := records_foldl ordered
  have hrows : ∀ target, rowOf (lastUpTo ((r :: rest).foldl record #[]).toList target) =
      rowOf (lastUpTo (r :: rest) target) := by
    intro target
    unfold rowOf
    rw [records.rows target]
  rcases eq_empty_or_push table with rfl | ⟨front, last, rfl⟩
  · refine ⟨_, records.subset, hrows, fun target => ?_⟩
    rw [latest_of_ascending records.ascending]
    exact (none_later _).symm
  · by_cases hloc : last.loc = r.loc
    · refine ⟨_, records.subset, hrows, fun target => ?_⟩
      rw [foldl_record_replacing front hloc, Array.toList_append, latest_append,
        latest_of_ascending records.ascending, Array.toList_push, latest_append, later_assoc]
      congr 1
      -- The rule that was replaced hides behind the one that took its place.
      by_cases hle : last.loc ≤ target
      · have hsome : (lastUpTo (r :: rest) target).isSome := by
          rw [lastUpTo, List.getLast?_isSome]
          apply List.ne_nil_of_mem (a := r)
          rw [List.mem_filter, decide_eq_true_eq, ← hloc]
          exact ⟨List.mem_cons_self, hle⟩
        have hrow := records.rows target
        cases hfound : lastUpTo ((r :: rest).foldl record #[]).toList target with
        | none =>
          rw [hfound, Option.map_none, eq_comm, Option.map_eq_none_iff] at hrow
          rw [hrow] at hsome
          cases hsome
        | some s =>
          have hmem := records.subset s (mem_of_lastUpTo hfound).1
          have hrs : r.loc ≤ s.loc := by
            rcases List.mem_cons.mp hmem with rfl | hs
            · exact UInt32.le_refl _
            · exact (List.pairwise_cons.mp ordered).1 s hs
          rw [latest_singleton_of_le hle, later_of_le (by rwa [hloc])]
      · rw [latest_singleton_of_not_le hle, none_later]
    · have hback : (front.push last).back? = some last := Array.back?_push
      have hapart : ∀ s ∈ r :: rest, last.loc ≠ s.loc := by
        intro s hs heq
        exact hloc (heq.trans (apart last hback s hs heq.symm))
      have hsublist := List.dropWhile_sublist (l := r :: rest) fun s => s.row == .linked
      have hkept := records_foldl (ordered.sublist hsublist)
      refine ⟨_, fun s hs => hsublist.subset (hkept.subset s hs), fun target => ?_,
        fun target => ?_⟩
      · unfold rowOf
        rw [hkept.rows target]
        exact rowOf_lastUpTo_dropWhile (r :: rest) target
      · rw [foldl_record_apart hback (closed last hback) _ hapart, Array.toList_append,
          latest_append, latest_of_ascending hkept.ascending]

/-! ## Routines by their locations -/

namespace Routine

/-- The location lies in the routine. -/
def Holds (imageBase : UInt64) (r : Routine) (target : UInt32) : Prop :=
  r.startLoc imageBase ≤ target ∧ target < r.stopLoc imageBase

/-- What is recorded of the routine covers a stretch of locations. -/
structure Spans (imageBase : UInt64) (r : Routine) : Prop where
  nonempty : r.startLoc imageBase < r.stopLoc imageBase
  ordered : Ascending (r.recorded imageBase)
  inside : ∀ s ∈ r.recorded imageBase,
    r.startLoc imageBase ≤ s.loc ∧ s.loc ≤ r.stopLoc imageBase
  head : ∃ first rest, r.recorded imageBase = first :: rest ∧ first.loc = r.startLoc imageBase

/-- The routine may be added after the other: they share no location, and it does not end where the
other starts. -/
structure MayFollow (imageBase : UInt64) (earlier r : Routine) : Prop where
  apart : earlier.stopLoc imageBase ≤ r.startLoc imageBase ∨
    r.stopLoc imageBase ≤ earlier.startLoc imageBase
  notBehind : r.stopLoc imageBase ≠ earlier.startLoc imageBase

variable {imageBase : UInt64} {r earlier : Routine} {target : UInt32}

/-- Behind a routine its closing rule is found. -/
theorem rowOf_recorded_behind (h : r.stopLoc imageBase ≤ target) :
    rowOf (lastUpTo (r.recorded imageBase) target) = .linked := by
  have hclosing : (Rule.default.movedTo (r.stopLoc imageBase)).loc ≤ target := h
  rw [recorded, lastUpTo_concat_of_le hclosing]
  rfl

theorem MayFollow.not_holds (h : MayFollow imageBase earlier r) (holds : r.Holds imageBase target) :
    ¬ earlier.Holds imageBase target := by
  rintro ⟨hstart, hstop⟩
  rcases h.apart with hbefore | hbehind
  · exact UInt32.not_le.mpr hstop (UInt32.le_trans hbefore holds.1)
  · exact UInt32.not_le.mpr holds.2 (UInt32.le_trans hbehind hstart)

/-- A rule of an earlier routine is not behind the start of this one, or it is behind its end. -/
theorem MayFollow.outside (h : MayFollow imageBase earlier r) {loc : UInt32}
    (hstart : earlier.startLoc imageBase ≤ loc) (hstop : loc ≤ earlier.stopLoc imageBase) :
    loc ≤ r.startLoc imageBase ∨ r.stopLoc imageBase < loc := by
  rcases h.apart with hbefore | hbehind
  · exact Or.inl (UInt32.le_trans hstop hbefore)
  · refine Or.inr (UInt32.lt_of_le_of_ne (UInt32.le_trans hbehind hstart) ?_)
    rintro rfl
    exact h.notBehind (UInt32.le_antisymm hbehind hstart)

end Routine

/-- A table that was recorded from routines, in this order, serves each of them as if it were
alone. -/
structure Serves (imageBase : UInt64) (table : Array Rule) (routines : List Routine) : Prop where
  closed : ∀ last, table.back? = some last → last.row = .linked
  located : ∀ s ∈ table.toList, ∃ r ∈ routines,
    r.startLoc imageBase ≤ s.loc ∧ s.loc ≤ r.stopLoc imageBase
  within : ∀ r ∈ routines, ∀ target, r.Holds imageBase target →
    rowOf (latest table.toList target) = rowOf (lastUpTo (r.recorded imageBase) target)
  elsewhere : ∀ target, (∀ r ∈ routines, ¬ r.Holds imageBase target) →
    rowOf (latest table.toList target) = .linked

namespace Serves

variable {imageBase : UInt64} {table : Array Rule} {routines : List Routine} {r : Routine}

theorem nil : Serves imageBase #[] [] where
  closed := nofun
  located := nofun
  within := nofun
  elsewhere _ _ := rfl

/-- What recording one more routine does to look-ups. -/
theorem latest_recorded (h : Serves imageBase table routines) (spans : r.Spans imageBase)
    (follows : ∀ earlier ∈ routines, Routine.MayFollow imageBase earlier r) :
    ∃ left : List Rule, (∀ s ∈ left, s ∈ r.recorded imageBase) ∧
      (∀ target, rowOf (lastUpTo left target) =
        rowOf (lastUpTo (r.recorded imageBase) target)) ∧
      ∀ target, latest ((r.recorded imageBase).foldl record table).toList target =
        later (latest table.toList target) (lastUpTo left target) := by
  obtain ⟨first, rest, hrecorded, hfirst⟩ := spans.head
  have hordered := spans.ordered
  have hinside := spans.inside
  rw [hrecorded] at hordered hinside ⊢
  apply latest_foldl_record h.closed hordered
  intro last hlast s hs heq
  obtain ⟨earlier, hearlier, hstart, hstop⟩ :=
    h.located last (Array.mem_toList_iff.mpr (Array.mem_of_back? hlast))
  obtain ⟨hlow, hhigh⟩ := hinside s hs
  rw [hfirst, heq]
  rw [heq] at hlow hhigh
  rcases (follows earlier hearlier).outside hstart hstop with hle | hlt
  · exact UInt32.le_antisymm hle hlow
  · exact absurd hhigh (UInt32.not_le.mpr hlt)

/-- Outside a routine nothing changes when it is recorded. -/
theorem rowOf_outside (h : Serves imageBase table routines) (spans : r.Spans imageBase)
    (follows : ∀ earlier ∈ routines, Routine.MayFollow imageBase earlier r) {target : UInt32}
    (outside : ¬ r.Holds imageBase target) :
    rowOf (latest ((r.recorded imageBase).foldl record table).toList target) =
      rowOf (latest table.toList target) := by
  obtain ⟨left, hsub, hrows, hlatest⟩ := h.latest_recorded spans follows
  rw [hlatest]
  cases hleft : lastUpTo left target with
  | none => rw [later_none]
  | some s =>
    obtain ⟨hmem, hle⟩ := mem_of_lastUpTo hleft
    obtain ⟨hlow, hhigh⟩ := spans.inside s (hsub s hmem)
    -- Something of the routine is at or below the target, so the target is behind the routine.
    have hbehind : r.stopLoc imageBase ≤ target := by
      rw [← UInt32.not_lt]
      exact fun hlt => outside ⟨UInt32.le_trans hlow hle, hlt⟩
    have hrow := hrows target
    rw [hleft, Routine.rowOf_recorded_behind hbehind, rowOf_some] at hrow
    cases hfound : latest table.toList target with
    | none => rw [none_later, rowOf_some, hrow, rowOf_none]
    | some q =>
      obtain ⟨hq, hqle⟩ := mem_of_latest hfound
      obtain ⟨earlier, hearlier, hstart, hstop⟩ := h.located q hq
      rcases (follows earlier hearlier).outside hstart hstop with hbefore | hafter
      · -- The same rule is found at the start of the routine, which no earlier one holds.
        have hqrow : q.row = .linked := by
          have hstarts := latest_of_between hfound hbefore
            (UInt32.le_trans (UInt32.le_of_lt spans.nonempty) hbehind)
          have helse := h.elsewhere (r.startLoc imageBase) fun other hother =>
            (follows other hother).not_holds ⟨UInt32.le_refl _, spans.nonempty⟩
          rwa [hstarts] at helse
        by_cases hqs : q.loc ≤ s.loc
        · rw [later_of_le hqs, rowOf_some, rowOf_some, hrow, hqrow]
        · rw [later_of_lt (UInt32.not_le.mp hqs)]
      · rw [later_of_lt (UInt32.lt_of_le_of_lt hhigh hafter)]

/-- Inside a routine its own rows are found. -/
theorem rowOf_inside (h : Serves imageBase table routines) (spans : r.Spans imageBase)
    (follows : ∀ earlier ∈ routines, Routine.MayFollow imageBase earlier r) {target : UInt32}
    (inside : r.Holds imageBase target) :
    rowOf (latest ((r.recorded imageBase).foldl record table).toList target) =
      rowOf (lastUpTo (r.recorded imageBase) target) := by
  obtain ⟨left, hsub, hrows, hlatest⟩ := h.latest_recorded spans follows
  have helse := h.elsewhere target fun other hother => (follows other hother).not_holds inside
  rw [hlatest, ← hrows]
  cases hleft : lastUpTo left target with
  | none => rw [later_none, helse, rowOf_none]
  | some s =>
    cases hfound : latest table.toList target with
    | none => rw [none_later]
    | some q =>
      obtain ⟨hq, hqle⟩ := mem_of_latest hfound
      obtain ⟨earlier, hearlier, hstart, hstop⟩ := h.located q hq
      have hlow := (spans.inside s (hsub s (mem_of_lastUpTo hleft).1)).1
      rcases (follows earlier hearlier).outside hstart hstop with hbefore | hafter
      · rw [later_of_le (UInt32.le_trans hbefore hlow)]
      · exact absurd (UInt32.lt_of_lt_of_le hafter hqle) (UInt32.not_lt.mpr
          (UInt32.le_of_lt inside.2))

/-- One more routine is served, and all those before it still are. -/
theorem concat (h : Serves imageBase table routines) (spans : r.Spans imageBase)
    (follows : ∀ earlier ∈ routines, Routine.MayFollow imageBase earlier r) :
    Serves imageBase ((r.recorded imageBase).foldl record table) (routines ++ [r]) where
  closed last hlast := by
    unfold Routine.recorded at hlast
    rw [List.foldl_append, List.foldl_cons, List.foldl_nil] at hlast
    have hrow := row_back?_record ((r.rows imageBase).foldl record table)
      (Rule.default.movedTo (r.stopLoc imageBase))
    rw [hlast] at hrow
    exact Option.some.inj hrow
  located s hs := by
    rcases mem_foldl_record hs with hs | hs
    · obtain ⟨earlier, hearlier, hbounds⟩ := h.located s hs
      exact ⟨earlier, List.mem_append_left _ hearlier, hbounds⟩
    · exact ⟨r, List.mem_append_right _ (List.mem_singleton_self r), spans.inside s hs⟩
  within other hother target hholds := by
    rcases List.mem_append.mp hother with hother | hother
    · have houtside : ¬ r.Holds imageBase target := fun hr =>
        (follows other hother).not_holds hr hholds
      rw [h.rowOf_outside spans follows houtside, h.within other hother target hholds]
    · rw [List.mem_singleton.mp hother] at hholds ⊢
      exact h.rowOf_inside spans follows hholds
  elsewhere target houtside := by
    have hr := houtside r (List.mem_append_right _ (List.mem_singleton_self r))
    rw [h.rowOf_outside spans follows hr]
    exact h.elsewhere target fun other hother => houtside other (List.mem_append_left _ hother)

/-- Routine after routine, in an order in which each may follow those before it. -/
theorem flatMap {more : List Routine} (h : Serves imageBase table routines)
    (spans : ∀ r ∈ more, r.Spans imageBase)
    (order : (routines ++ more).Pairwise (Routine.MayFollow imageBase)) :
    Serves imageBase ((more.flatMap (·.recorded imageBase)).foldl record table)
      (routines ++ more) := by
  induction more generalizing table routines with
  | nil => rwa [List.append_nil]
  | cons r rest ih =>
    rw [List.append_cons] at order ⊢
    rw [List.flatMap_cons, List.foldl_append]
    have hfollows := (List.pairwise_append.mp (List.pairwise_append.mp order).1).2.2
    exact ih (h.concat (spans r List.mem_cons_self) fun earlier hearlier =>
        hfollows earlier hearlier r (List.mem_singleton_self r))
      (fun s hs => spans s (List.mem_cons_of_mem r hs)) order

end Serves

/-! ## Any order -/

/-- Accepted routines in the order of their code, none of them empty and no two with an address in
common. -/
structure SideBySide (imageBase : UInt64) (routines : List Routine) : Prop where
  accepted : ∀ r ∈ routines, r.accepted imageBase = true
  placed : ∀ r ∈ routines, r.Placed imageBase
  nonempty : ∀ r ∈ routines, r.1.pcStart < r.1.pcStop
  ascending : routines.Pairwise fun r s => r.1.pcStop ≤ s.1.pcStart

instance (imageBase : UInt64) (routines : List Routine) :
    Decidable (SideBySide imageBase routines) :=
  decidable_of_iff
    ((∀ r ∈ routines, r.accepted imageBase = true) ∧ (∀ r ∈ routines, r.Placed imageBase) ∧
      (∀ r ∈ routines, r.1.pcStart < r.1.pcStop) ∧
      routines.Pairwise fun r s => r.1.pcStop ≤ s.1.pcStart)
    ⟨fun h => ⟨h.1, h.2.1, h.2.2.1, h.2.2.2⟩,
      fun h => ⟨h.accepted, h.placed, h.nonempty, h.ascending⟩⟩

namespace Routine

variable {imageBase : UInt64} {r earlier : Routine}

theorem spans_of_placed (accepted : r.accepted imageBase = true) (placed : r.Placed imageBase)
    (nonempty : r.1.pcStart < r.1.pcStop) : r.Spans imageBase := by
  have above := start_of_accepted accepted
  have hstart := toNat_startLoc placed above
  have hstop := toNat_stopLoc placed above
  have hbase := UInt64.le_iff_toNat_le.mp above
  refine ⟨?_, ascending_recorded placed above, fun s hs => ?_, ?_⟩
  · rw [UInt64.lt_iff_toNat_lt] at nonempty
    rw [UInt32.lt_iff_toNat_lt]
    omega
  · have hbounds := recorded_bounds placed above hs
    rw [UInt32.le_iff_toNat_le, UInt32.le_iff_toNat_le]
    omega
  · obtain ⟨first, rest, hrows, hfirst⟩ := rows_of_accepted accepted
    refine ⟨first, rest ++ [Rule.default.movedTo (r.stopLoc imageBase)], ?_, hfirst⟩
    rw [recorded, hrows, List.cons_append]

theorem startLoc_of_stop (accepted : r.accepted imageBase = true) (placed : r.Placed imageBase)
    (hearlier : earlier.accepted imageBase = true) (placed' : earlier.Placed imageBase) :
    (r.stopLoc imageBase ≤ earlier.startLoc imageBase ↔ r.1.pcStop ≤ earlier.1.pcStart) ∧
      (r.stopLoc imageBase = earlier.startLoc imageBase ↔ r.1.pcStop = earlier.1.pcStart) := by
  have hstop := toNat_stopLoc placed (start_of_accepted accepted)
  have hstart := toNat_startLoc placed' (start_of_accepted hearlier)
  have hbase := UInt64.le_iff_toNat_le.mp (start_of_accepted accepted)
  have hbase' := UInt64.le_iff_toNat_le.mp (start_of_accepted hearlier)
  have hordered := UInt64.le_iff_toNat_le.mp placed.ordered
  rw [UInt32.le_iff_toNat_le, UInt64.le_iff_toNat_le, ← UInt32.toNat_inj, ← UInt64.toNat_inj]
  omega

end Routine

/-- The table of routines that are side by side serves all of them, in whatever order they are
added, as long as none is added after the one that starts where it ends. -/
theorem serves_of_perm {imageBase : UInt64} {ascending permuted : List Routine}
    (side : SideBySide imageBase ascending) (perm : permuted.Perm ascending)
    (order : permuted.Pairwise fun earlier r => r.1.pcStop ≠ earlier.1.pcStart) :
    Serves imageBase ((Builder.new imageBase).addAll permuted).rules permuted := by
  have accepted : ∀ r ∈ permuted, r.accepted imageBase = true :=
    fun r hr => side.accepted r (perm.mem_iff.mp hr)
  have placed : ∀ r ∈ permuted, r.Placed imageBase :=
    fun r hr => side.placed r (perm.mem_iff.mp hr)
  have apart : permuted.Pairwise fun earlier r =>
      earlier.1.pcStop ≤ r.1.pcStart ∨ r.1.pcStop ≤ earlier.1.pcStart := by
    rw [perm.pairwise_iff Or.symm]
    exact side.ascending.imp Or.inl
  have follows : permuted.Pairwise (Routine.MayFollow imageBase) := by
    refine (apart.and order).imp_of_mem fun {earlier r} hearlier hr h => ⟨?_, ?_⟩
    · exact h.1.imp
        (Routine.startLoc_of_stop (accepted _ hearlier) (placed _ hearlier) (accepted _ hr)
          (placed _ hr)).1.mpr
        (Routine.startLoc_of_stop (accepted _ hr) (placed _ hr) (accepted _ hearlier)
          (placed _ hearlier)).1.mpr
    · exact fun heq => h.2
        ((Routine.startLoc_of_stop (accepted _ hr) (placed _ hr) (accepted _ hearlier)
          (placed _ hearlier)).2.mp heq)
  have spans : ∀ r ∈ permuted, r.Spans imageBase := fun r hr =>
    Routine.spans_of_placed (accepted r hr) (placed r hr) (side.nonempty r (perm.mem_iff.mp hr))
  rw [Builder.addAll_of_accepted _ accepted]
  exact Serves.nil.flatMap spans follows

/-- Two tables that serve the same routines unwind every target alike. -/
theorem Serves.row_eq {imageBase : UInt64} {table table' : Array Rule}
    {routines routines' : List Routine} (h : Serves imageBase table routines)
    (h' : Serves imageBase table' routines') (same : ∀ r, r ∈ routines ↔ r ∈ routines')
    (target : UInt32) :
    rowOf (latest table.toList target) = rowOf (latest table'.toList target) := by
  by_cases hholds : ∃ r ∈ routines, r.Holds imageBase target
  · obtain ⟨r, hr, hrholds⟩ := hholds
    rw [h.within r hr target hrholds, h'.within r ((same r).mp hr) target hrholds]
  · rw [h.elsewhere target fun r hr hrholds => hholds ⟨r, hr, hrholds⟩,
      h'.elsewhere target fun r hr hrholds => hholds ⟨r, (same r).mpr hr, hrholds⟩]

/-- Routines that are side by side may be added in any order in which none comes after the one that
starts where it ends: the table unwinds every target like the one of the ascending order. -/
theorem find_of_perm {imageBase : UInt64} {ascending permuted : List Routine}
    (side : SideBySide imageBase ascending) (perm : permuted.Perm ascending)
    (order : permuted.Pairwise fun earlier r => r.1.pcStop ≠ earlier.1.pcStart)
    (target : UInt32) :
    (Rule.find ((Builder.new imageBase).addAll permuted).finish target).sameUnwind
      (Rule.find ((Builder.new imageBase).addAll ascending).finish target) = true := by
  -- In ascending order nothing ends where an earlier routine starts, since none is empty.
  have orderAscending : ascending.Pairwise fun earlier r => r.1.pcStop ≠ earlier.1.pcStart := by
    refine side.ascending.imp_of_mem fun {earlier r} hearlier hr hle heq => ?_
    have hlt := UInt64.lt_of_lt_of_le (side.nonempty earlier hearlier) hle
    rw [← heq] at hlt
    exact UInt64.lt_irrefl _ (UInt64.lt_trans hlt (side.nonempty r hr))
  have hpermuted := serves_of_perm side perm order
  have hascending := serves_of_perm side (List.Perm.refl ascending) orderAscending
  rw [sameUnwind_iff, Builder.row_find_finish, Builder.row_find_finish]
  exact hpermuted.row_eq hascending (fun r => perm.mem_iff) target

/-- The function right behind it, which leaves the stack alone. -/
def highRoutine : Routine := (⟨0x2028, ⟨0x2039, []⟩, 0x1040, 0x1060⟩, bareCie)

/-- A function further on. -/
def farRoutine : Routine := (⟨0x2048, ⟨0x2059, []⟩, 0x2000, 0x2010⟩, bareCie)

theorem find_of_perm_far :
    (Rule.find ((Builder.new 0x1000).addAll [farRoutine, lowRoutine, highRoutine]).finish
        0x45).sameUnwind
      (Rule.find ((Builder.new 0x1000).addAll [lowRoutine, highRoutine, farRoutine]).finish
        0x45) = true :=
  find_of_perm (by decide +kernel) (by decide +kernel) (by decide +kernel) 0x45

/-- If the function behind is added first, the rule that closes the other one hides its first row. -/
theorem find_differs_reversed :
    SideBySide 0x1000 [lowRoutine, highRoutine] ∧
      [highRoutine, lowRoutine].Perm [lowRoutine, highRoutine] ∧
      (Rule.find ((Builder.new 0x1000).addAll [highRoutine, lowRoutine]).finish 0x40).sameUnwind
        (Rule.find ((Builder.new 0x1000).addAll [lowRoutine, highRoutine]).finish 0x40) =
          false := by
  refine ⟨by decide +kernel, List.Perm.swap _ _ _, ?_⟩
  rw [← Bool.not_eq_true, sameUnwind_iff, Builder.row_find_finish, Builder.row_find_finish]
  decide +kernel

end RuleTable

end Unwind
