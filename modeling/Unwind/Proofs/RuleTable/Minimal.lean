import Mathlib.Data.List.Chain
import Unwind.Proofs.RuleTable.Separation

/-!
# Rules that change nothing

A rule that unwinds like the one before it is dropped when it is recorded. But it may also take the
place of a rule that was there, and then nobody looks at the one before: a rule that changes nothing
stays in the table where another one had changed something. `Undone` says from the recorded rules
alone where that happens, and the finished table has superfluous rules there and nowhere else
(`finish_minimal_iff`). It does happen between two functions of which one ends where the other
starts (`not_minimal_touching`).
-/

namespace Unwind

namespace Rule

/-- The row that is in force right below a location, if rules start there. -/
def rowBefore (rules : List Rule) (loc : UInt32) : Option Row :=
  (rules.filter fun r => decide (r.loc < loc)).getLast?.map Rule.row

/-- A rule for the location is unlike what is in force up to there. -/
def Changes (rules : List Rule) (loc : UInt32) : Prop :=
  ∃ r ∈ rules, r.loc = loc ∧ rowBefore rules loc ≠ some r.row

/-- A rule for the location is unlike what is in force up to there, but the last one for it is
not. -/
structure Undone (rules : List Rule) (loc : UInt32) : Prop where
  changes : Changes rules loc
  back : (lastUpTo rules loc).map Rule.row = rowBefore rules loc

instance (rules : List Rule) (loc : UInt32) : Decidable (Changes rules loc) :=
  inferInstanceAs (Decidable (∃ r ∈ rules, r.loc = loc ∧ rowBefore rules loc ≠ some r.row))

instance (rules : List Rule) (loc : UInt32) : Decidable (Undone rules loc) :=
  decidable_of_iff (Changes rules loc ∧ (lastUpTo rules loc).map Rule.row = rowBefore rules loc)
    ⟨fun h => ⟨h.1, h.2⟩, fun h => ⟨h.changes, h.back⟩⟩

/-- Two neighbours unwind alike, so the second, which is at the location, could be left out. -/
def Superfluous (table : List Rule) (loc : UInt32) : Prop :=
  ∃ front r s back, table = front ++ r :: s :: back ∧ s.loc = loc ∧ r.sameUnwind s = true

/-! ## What is in force below a location -/

theorem rowBefore_zero (rules : List Rule) : rowBefore rules 0 = none := by
  have hnone : rules.filter (fun r => decide (r.loc < 0)) = [] := by
    rw [List.filter_eq_nil_iff]
    intro r _
    rw [decide_eq_true_eq]
    exact UInt32.not_lt_zero
  rw [rowBefore, hnone]
  rfl

theorem rowBefore_of_ne_zero (rules : List Rule) {loc : UInt32} (h : loc ≠ 0) :
    rowBefore rules loc = (lastUpTo rules (loc - 1)).map Rule.row := by
  have hpos : 1 ≤ loc := by
    rw [UInt32.le_iff_toNat_le]
    exact Nat.one_le_iff_ne_zero.mpr fun hzero => h (UInt32.toNat_inj.mp hzero)
  unfold rowBefore lastUpTo
  congr 2
  apply List.filter_congr
  intro r _
  rw [decide_eq_decide, UInt32.lt_iff_toNat_lt, UInt32.le_iff_toNat_le,
    UInt32.toNat_sub_of_le _ _ hpos]
  rw [UInt32.le_iff_toNat_le] at hpos
  change 1 ≤ _ at hpos
  change _ ↔ r.loc.toNat ≤ loc.toNat - 1
  omega

theorem rowBefore_concat_of_not_lt {rules : List Rule} {r : Rule} {loc : UInt32}
    (h : ¬ r.loc < loc) : rowBefore (rules ++ [r]) loc = rowBefore rules loc := by
  have hnone : [r].filter (fun r => decide (r.loc < loc)) = [] :=
    List.filter_cons_of_neg (by rwa [decide_eq_true_eq])
  rw [rowBefore, List.filter_append, hnone, List.append_nil]
  rfl

theorem rowBefore_concat_of_lt {rules : List Rule} {r : Rule} {loc : UInt32} (h : r.loc < loc) :
    rowBefore (rules ++ [r]) loc = some r.row := by
  have hkept : [r].filter (fun r => decide (r.loc < loc)) = [r] :=
    List.filter_cons_of_pos (p := fun r : Rule => decide (r.loc < loc)) (decide_eq_true h)
  rw [rowBefore, List.filter_append, hkept, List.getLast?_append]
  rfl

/-- One more rule, not below the others, may be the first to change something at its place. -/
theorem changes_concat {rules : List Rule} {r : Rule} (beyond : ∀ s ∈ rules, s.loc ≤ r.loc)
    (loc : UInt32) :
    Changes (rules ++ [r]) loc ↔
      Changes rules loc ∨ r.loc = loc ∧ rowBefore rules r.loc ≠ some r.row := by
  unfold Changes
  by_cases hlt : r.loc < loc
  · -- No rule is at a location behind the last of them.
    have hnone : ∀ s ∈ rules ++ [r], s.loc ≠ loc := by
      intro s hs hloc
      have hle : s.loc ≤ r.loc := by
        rcases List.mem_append.mp hs with hs | hs
        · exact beyond s hs
        · exact UInt32.le_of_eq (congrArg Rule.loc (List.mem_singleton.mp hs))
      exact UInt32.lt_irrefl loc (UInt32.lt_of_le_of_lt (hloc ▸ hle) hlt)
    constructor
    · rintro ⟨s, hs, hloc, -⟩
      exact absurd hloc (hnone s hs)
    · rintro (⟨s, hs, hloc, -⟩ | ⟨hloc, -⟩)
      · exact absurd hloc (hnone s (List.mem_append_left _ hs))
      · exact absurd hloc (hnone r (List.mem_append_right _ (List.mem_singleton_self r)))
  · rw [rowBefore_concat_of_not_lt hlt]
    constructor
    · rintro ⟨s, hs, hloc, hne⟩
      rcases List.mem_append.mp hs with hs | hs
      · exact .inl ⟨s, hs, hloc, hne⟩
      · rw [List.mem_singleton.mp hs] at hloc hne
        exact .inr ⟨hloc, hloc ▸ hne⟩
    · rintro (⟨s, hs, hloc, hne⟩ | ⟨rfl, hne⟩)
      · exact ⟨s, List.mem_append_left _ hs, hloc, hne⟩
      · exact ⟨r, List.mem_append_right _ (List.mem_singleton_self r), rfl, hne⟩

/-! ## Around a rule of an increasing table -/

section

variable {front back : List Rule} {s : Rule}

theorem rowBefore_of_increasing
    (increasing : (front ++ s :: back).Pairwise fun r t => r.loc < t.loc) :
    rowBefore (front ++ s :: back) s.loc = front.getLast?.map Rule.row := by
  obtain ⟨-, hback, hfront⟩ := List.pairwise_append.mp increasing
  have hbelow : front.filter (fun r => decide (r.loc < s.loc)) = front := by
    rw [List.filter_eq_self]
    exact fun r hr => decide_eq_true (hfront r hr s List.mem_cons_self)
  have habove : (s :: back).filter (fun r => decide (r.loc < s.loc)) = [] := by
    rw [List.filter_eq_nil_iff]
    intro r hr
    rw [decide_eq_true_eq]
    rcases List.mem_cons.mp hr with rfl | hr
    · exact UInt32.lt_irrefl _
    · exact UInt32.lt_asymm ((List.pairwise_cons.mp hback).1 r hr)
  rw [rowBefore, List.filter_append, hbelow, habove, List.append_nil]

theorem lastUpTo_of_increasing
    (increasing : (front ++ s :: back).Pairwise fun r t => r.loc < t.loc) :
    lastUpTo (front ++ s :: back) s.loc = some s := by
  obtain ⟨-, hback, -⟩ := List.pairwise_append.mp increasing
  have habove : lastUpTo back s.loc = none := by
    rw [lastUpTo, List.getLast?_eq_none_iff, List.filter_eq_nil_iff]
    intro r hr
    rw [decide_eq_true_eq, UInt32.not_le]
    exact (List.pairwise_cons.mp hback).1 r hr
  rw [List.append_cons, lastUpTo_append, habove, Option.none_or,
    lastUpTo_concat_of_le (UInt32.le_refl _)]

end

end Rule

namespace RuleTable

open Rule

/-! ## Where rules are kept -/

theorem Records.rowBefore {table rules : List Rule} (h : Records table rules) (loc : UInt32) :
    rowBefore table loc = rowBefore rules loc := by
  by_cases hzero : loc = 0
  · rw [hzero, rowBefore_zero, rowBefore_zero]
  · rw [rowBefore_of_ne_zero table hzero, rowBefore_of_ne_zero rules hzero, h.rows]

theorem exists_loc_push (table : Array Rule) (r : Rule) (loc : UInt32) :
    (∃ s ∈ (table.push r).toList, s.loc = loc) ↔
      (∃ s ∈ table.toList, s.loc = loc) ∨ r.loc = loc := by
  rw [Array.toList_push]
  constructor
  · rintro ⟨s, hs, hloc⟩
    rcases List.mem_append.mp hs with hs | hs
    · exact .inl ⟨s, hs, hloc⟩
    · exact .inr (List.mem_singleton.mp hs ▸ hloc)
  · rintro (⟨s, hs, hloc⟩ | hloc)
    · exact ⟨s, List.mem_append_left _ hs, hloc⟩
    · exact ⟨r, List.mem_append_right _ (List.mem_singleton_self r), hloc⟩

/-- Recording a rule puts one at its location, unless it changes nothing and there was none. -/
theorem exists_loc_record {table : Array Rule} {rules : List Rule} {r : Rule}
    (h : Records table.toList rules) (beyond : ∀ s ∈ rules, s.loc ≤ r.loc) (loc : UInt32) :
    (∃ s ∈ (record table r).toList, s.loc = loc) ↔
      (∃ s ∈ table.toList, s.loc = loc) ∨ r.loc = loc ∧ rowBefore rules r.loc ≠ some r.row := by
  rcases eq_empty_or_push table with rfl | ⟨front, last, rfl⟩
  · obtain rfl := h.eq_nil
    have hne : rowBefore [] r.loc ≠ some r.row := nofun
    rw [show record #[] r = #[].push r from rfl, exists_loc_push]
    exact or_congr_right (and_iff_left hne).symm
  · rw [record_push]
    have hbefore := h.rowBefore r.loc
    rw [Array.toList_push] at h hbefore
    have hle := beyond last (h.subset last (List.mem_append_right _ (List.mem_singleton_self last)))
    -- The last rule is at the location already, or it is the one in force up to there.
    by_cases hloc : last.loc = r.loc
    · rw [if_pos hloc, exists_loc_push, exists_loc_push, hloc]
      exact (or_iff_left_of_imp fun hr => .inr hr.1).symm
    · rw [rowBefore_concat_of_lt (UInt32.lt_of_le_of_ne hle hloc)] at hbefore
      rw [if_neg hloc, ← hbefore]
      by_cases hrow : last.row = r.row
      · rw [if_pos hrow]
        exact (or_iff_left fun hr => hr.2 (congrArg some hrow)).symm
      · rw [if_neg hrow, exists_loc_push]
        exact or_congr_right (and_iff_left fun hsome => hrow (Option.some.inj hsome)).symm

/-- A table that is recorded from ordered rules has rules at the locations where one changes
something, whether or not it is undone afterwards. -/
theorem exists_loc_foldl {rules : List Rule} (ordered : Ascending rules) (loc : UInt32) :
    (∃ s ∈ (rules.foldl record #[]).toList, s.loc = loc) ↔ Changes rules loc := by
  -- The induction is on the rule that is recorded last.
  induction rules using List.reverseRecOn with
  | nil =>
    constructor
    · rintro ⟨s, hs, -⟩
      cases hs
    · rintro ⟨s, hs, -⟩
      cases hs
  | append_singleton rules r ih =>
    obtain ⟨hordered, -, hbeyond⟩ := List.pairwise_append.mp ordered
    have beyond : ∀ s ∈ rules, s.loc ≤ r.loc :=
      fun s hs => hbeyond s hs r (List.mem_singleton_self r)
    rw [List.foldl_append, List.foldl_cons, List.foldl_nil,
      exists_loc_record (records_foldl hordered) beyond, ih hordered, changes_concat beyond]

/-! ## Neighbours -/

/-- A table that stands for rules has superfluous ones where what a rule had changed is undone. -/
theorem superfluous_iff {table rules : List Rule} (h : Records table rules) {loc : UInt32}
    (kept : (∃ s ∈ table, s.loc = loc) ↔ Changes rules loc) :
    Superfluous table loc ↔ Undone rules loc := by
  -- What is in force at the location and below it is the same for the rules as for the table, and
  -- in the table it is the rule at the location and the one before that.
  constructor
  · rintro ⟨front, r, s, back, rfl, rfl, hsame⟩
    have hincreasing := h.increasing
    rw [List.append_cons] at h hincreasing kept
    have hchanges := kept.mp ⟨s, List.mem_append_right _ List.mem_cons_self, rfl⟩
    refine ⟨hchanges, ?_⟩
    rw [← h.rows, ← h.rowBefore, lastUpTo_of_increasing hincreasing,
      rowBefore_of_increasing hincreasing, List.getLast?_concat]
    exact congrArg some ((sameUnwind_iff r s).mp hsame).symm
  · rintro ⟨hchanges, hback⟩
    obtain ⟨s, hs, rfl⟩ := kept.mpr hchanges
    obtain ⟨front, back, rfl⟩ := List.append_of_mem hs
    rw [← h.rows, ← h.rowBefore, lastUpTo_of_increasing h.increasing,
      rowBefore_of_increasing h.increasing, Option.map_some, eq_comm,
      Option.map_eq_some_iff] at hback
    obtain ⟨r, hlast, hrow⟩ := hback
    obtain ⟨front, rfl⟩ := List.getLast?_eq_some_iff.mp hlast
    exact ⟨front, r, s, back, (List.append_cons front r (s :: back)).symm, rfl,
      (sameUnwind_iff r s).mpr hrow⟩

theorem isChain_iff_not_superfluous (table : List Rule) :
    (table.IsChain fun r s => r.sameUnwind s = false) ↔ ∀ loc, ¬ Superfluous table loc := by
  rw [List.isChain_iff_forall_rel_of_append_cons_cons]
  constructor
  · rintro h loc ⟨front, r, s, back, htable, -, hsame⟩
    rw [h htable] at hsame
    cases hsame
  · intro h r s front back htable
    rw [← Bool.not_eq_true]
    exact fun hsame => h s.loc ⟨front, r, s, back, htable, rfl, hsame⟩

/-- The finished table of routines that lie apart. Its locations increase, so no location has two
rules. It has two neighbours that unwind alike where what a recorded rule had changed is undone by
the one that takes its place, and only there; so it is minimal if that happens nowhere. -/
theorem finish_minimal_iff {imageBase : UInt64} {routines : List Routine}
    (accepted : ∀ r ∈ routines, r.accepted imageBase = true)
    (placed : ∀ r ∈ routines, r.Placed imageBase)
    (apart : routines.IsChain fun r s => r.1.pcStop ≤ s.1.pcStart) :
    let table := ((Builder.new imageBase).addAll routines).finish.toList
    let recorded := routines.flatMap (·.recorded imageBase)
    (table.Pairwise fun r s => r.loc < s.loc) ∧
    (∀ loc, Superfluous table loc ↔ Undone recorded loc) ∧
    ((table.IsChain fun r s => r.sameUnwind s = false) ↔ ∀ loc, ¬ Undone recorded loc) := by
  intro table recorded
  have ordered : Ascending recorded :=
    ascending_flatMap placed (fun r hr => Routine.start_of_accepted (accepted r hr))
      (pairwise_of_isChain (fun r hr => (placed r hr).ordered) apart)
  have records := records_foldl ordered
  have htable : table = (recorded.foldl record #[]).toList := by
    change ((Builder.new imageBase).addAll routines).finish.toList = _
    rw [Builder.addAll_of_accepted _ accepted, Builder.toList_finish]
    · rfl
    · exact records.ascending
  have hsuperfluous : ∀ loc, Superfluous table loc ↔ Undone recorded loc := by
    intro loc
    rw [htable]
    exact superfluous_iff records (exists_loc_foldl ordered loc)
  refine ⟨htable ▸ records.increasing, hsuperfluous, ?_⟩
  rw [isChain_iff_not_superfluous]
  exact forall_congr' fun loc => not_congr (hsuperfluous loc)

theorem finish_minimal_iff_far :
    ((Builder.new 0x1000).addAll [lowRoutine, highRoutine, farRoutine]).finish.toList.IsChain
      fun r s => r.sameUnwind s = false := by
  obtain ⟨-, -, hminimal⟩ := @finish_minimal_iff 0x1000 [lowRoutine, highRoutine, farRoutine]
    (by decide +kernel) (by decide +kernel) (by decide +kernel)
  refine hminimal.mpr fun loc hundone => ?_
  obtain ⟨r, hr, rfl, -⟩ := hundone.changes
  revert r
  decide +kernel

/-- The first row of a function takes the place of the rule that closes the function before it, and
does not differ from the row of that function. -/
theorem not_minimal_touching :
    let routines : List Routine := [(bareFde [], bareCie), highRoutine]
    (∀ r ∈ routines, r.accepted 0x1000 = true) ∧ (∀ r ∈ routines, r.Placed 0x1000) ∧
      (routines.IsChain fun r s => r.1.pcStop ≤ s.1.pcStart) ∧
      ((Builder.new 0x1000).addAll routines).finish.toList =
        [⟨0, .atEntry⟩, ⟨0x40, .atEntry⟩, ⟨0x60, .linked⟩] ∧
      Superfluous ((Builder.new 0x1000).addAll routines).finish.toList 0x40 := by
  intro routines
  have htable : ((Builder.new 0x1000).addAll routines).finish.toList =
      [⟨0, .atEntry⟩, ⟨0x40, .atEntry⟩, ⟨0x60, .linked⟩] := by
    rw [Builder.toList_finish _ (by decide +kernel)]
    decide +kernel
  refine ⟨by decide +kernel, by decide +kernel, by decide +kernel, htable, ?_⟩
  rw [htable]
  exact ⟨[], ⟨0, .atEntry⟩, ⟨0x40, .atEntry⟩, [⟨0x60, .linked⟩], rfl, rfl, by decide⟩

end RuleTable

end Unwind
