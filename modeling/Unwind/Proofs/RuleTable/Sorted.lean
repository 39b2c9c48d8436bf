import Unwind.Proofs.RuleTable.Record

/-!
# Look-ups in a table that was sorted last

Finishing a builder sorts its rules by location and leaves rules of one location in the order in
which they were recorded. So a look-up gives the rule with the largest location that is not behind
the target, and among several of one location the one recorded last. `latest` says this of the rules
as they were recorded, and it can be computed part by part (`latest_append`).
-/

namespace Unwind

namespace Rule

/-- The one of two rules that a sorted table has further back; `r` was recorded behind `q`. -/
def later : Option Rule → Option Rule → Option Rule
  | q, none => q
  | none, some r => some r
  | some q, some r => if q.loc ≤ r.loc then some r else some q

/-- The rule that a look-up finds after sorting, from the rules in the order they were recorded. -/
def latest : List Rule → UInt32 → Option Rule
  | [], _ => none
  | r :: rest, target => later (if r.loc ≤ target then some r else none) (latest rest target)

/-- The row that is in force where a look-up finds this. -/
def rowOf (found : Option Rule) : Row :=
  (found.map row).getD .linked

@[simp] theorem rowOf_none : rowOf none = .linked := rfl

@[simp] theorem rowOf_some (r : Rule) : rowOf (some r) = r.row := rfl

@[simp] theorem later_none (q : Option Rule) : later q none = q := by
  cases q <;> rfl

@[simp] theorem none_later (r : Option Rule) : later none r = r := by
  cases r <;> rfl

theorem later_of_le {q r : Rule} (h : q.loc ≤ r.loc) : later (some q) (some r) = some r :=
  if_pos h

theorem later_of_lt {q r : Rule} (h : r.loc < q.loc) : later (some q) (some r) = some q :=
  if_neg (UInt32.not_le.mpr h)

theorem later_assoc (p q r : Option Rule) : later (later p q) r = later p (later q r) := by
  cases r with
  | none => simp
  | some r =>
    cases q with
    | none => simp
    | some q =>
      cases p with
      | none => simp
      | some p =>
        -- Which comparisons decide depends on the order of the three locations.
        by_cases hpq : p.loc ≤ q.loc <;> by_cases hqr : q.loc ≤ r.loc <;>
          simp only [later, hpq, hqr, if_true, if_false]
        · rw [if_pos (UInt32.le_trans hpq hqr)]
        · have hpr : ¬ p.loc ≤ r.loc := fun h =>
            hpq (UInt32.le_trans h (UInt32.le_of_lt (UInt32.not_le.mp hqr)))
          rw [if_neg hpr]

theorem latest_append (front back : List Rule) (target : UInt32) :
    latest (front ++ back) target = later (latest front target) (latest back target) := by
  induction front with
  | nil => rw [latest, none_later, List.nil_append]
  | cons r rest ih => rw [List.cons_append, latest, ih, latest, later_assoc]

theorem latest_singleton_of_le {r : Rule} {target : UInt32} (h : r.loc ≤ target) :
    latest [r] target = some r := by
  rw [latest, latest, if_pos h, later_none]

theorem latest_singleton_of_not_le {r : Rule} {target : UInt32} (h : ¬ r.loc ≤ target) :
    latest [r] target = none := by
  rw [latest, latest, if_neg h, later_none]

theorem mem_of_lastUpTo {rules : List Rule} {target : UInt32} {r : Rule}
    (h : lastUpTo rules target = some r) : r ∈ rules ∧ r.loc ≤ target := by
  have hmem := List.mem_of_getLast? h
  rw [List.mem_filter, decide_eq_true_eq] at hmem
  exact hmem

/-- What is found for a target is found for every target from there down to its own location. -/
theorem lastUpTo_of_between {rules : List Rule} {target between : UInt32} {r : Rule}
    (h : lastUpTo rules target = some r) (low : r.loc ≤ between) (high : between ≤ target) :
    lastUpTo rules between = some r := by
  have hfilter : (rules.filter fun s => decide (s.loc ≤ between)) =
      (rules.filter fun s => decide (s.loc ≤ target)).filter
        fun s => decide (s.loc ≤ between) := by
    rw [List.filter_filter]
    apply List.filter_congr
    intro s _
    rw [Bool.eq_iff_iff, Bool.and_eq_true, decide_eq_true_eq, decide_eq_true_eq]
    exact ⟨fun hs => ⟨hs, UInt32.le_trans hs high⟩, And.left⟩
  obtain ⟨front, hfront⟩ := List.getLast?_eq_some_iff.mp h
  have hkept : [r].filter (fun s => decide (s.loc ≤ between)) = [r] :=
    List.filter_cons_of_pos (p := fun s : Rule => decide (s.loc ≤ between)) (decide_eq_true low)
  rw [lastUpTo, hfilter, hfront, List.filter_append, hkept, List.getLast?_append]
  rfl

/-! ## Sorting -/

theorem loc_trans (a b c : Rule) (hab : decide (a.loc ≤ b.loc) = true)
    (hbc : decide (b.loc ≤ c.loc) = true) : decide (a.loc ≤ c.loc) = true := by
  rw [decide_eq_true_eq] at hab hbc ⊢
  exact UInt32.le_trans hab hbc

theorem loc_total (a b : Rule) : (decide (a.loc ≤ b.loc) || decide (b.loc ≤ a.loc)) = true := by
  rw [Bool.or_eq_true, decide_eq_true_eq, decide_eq_true_eq]
  exact UInt32.le_total a.loc b.loc

theorem ascending_mergeSort (rules : List Rule) :
    Ascending (rules.mergeSort fun r s => decide (r.loc ≤ s.loc)) :=
  (List.pairwise_mergeSort loc_trans loc_total rules).imp of_decide_eq_true

/-- Sorting puts a rule behind those before its location, and in front of those that were recorded
after it at the same one. -/
theorem lastUpTo_mergeSort (rules : List Rule) (target : UInt32) :
    lastUpTo (rules.mergeSort fun r s => decide (r.loc ≤ s.loc)) target = latest rules target := by
  induction rules with
  | nil =>
    rw [List.mergeSort_nil]
    rfl
  | cons r rest ih =>
    obtain ⟨before, behind, hsorted, hrest, hbefore⟩ :=
      List.mergeSort_cons loc_trans loc_total r rest
    have hordered := ascending_mergeSort (r :: rest)
    rw [hsorted] at hordered
    have hbehind := (List.pairwise_cons.mp (List.pairwise_append.mp hordered).2.1).1
    rw [hrest, lastUpTo_append] at ih
    rw [hsorted, latest, ← ih, List.append_cons, lastUpTo_append, lastUpTo_append]
    cases hlast : lastUpTo behind target with
    | some s =>
      rw [Option.some_or, Option.some_or]
      split
      · rw [later_of_le (hbehind s (mem_of_lastUpTo hlast).1)]
      · rw [none_later]
    | none =>
      rw [Option.none_or, Option.none_or]
      by_cases hr : r.loc ≤ target
      · have hown : lastUpTo [r] target = some r := @lastUpTo_concat_of_le [] r target hr
        rw [if_pos hr, hown, Option.some_or]
        cases hfirst : lastUpTo before target with
        | none => rw [later_none]
        | some q =>
          have hlt := hbefore q (mem_of_lastUpTo hfirst).1
          rw [Bool.not_eq_true', decide_eq_false_iff_not, UInt32.not_le] at hlt
          rw [later_of_lt hlt]
      · have hown : lastUpTo [r] target = none := @lastUpTo_concat_of_not_le [] r target hr
        rw [if_neg hr, hown, Option.none_or, none_later]

/-- Of rules that are in order already, the latest is the last. -/
theorem latest_of_ascending {rules : List Rule} (ordered : Ascending rules) (target : UInt32) :
    latest rules target = lastUpTo rules target := by
  rw [← lastUpTo_mergeSort, List.mergeSort_of_pairwise]
  exact ordered.imp decide_eq_true

theorem mem_of_latest {rules : List Rule} {target : UInt32} {r : Rule}
    (h : latest rules target = some r) : r ∈ rules ∧ r.loc ≤ target := by
  rw [← lastUpTo_mergeSort] at h
  obtain ⟨hmem, hle⟩ := mem_of_lastUpTo h
  exact ⟨List.mem_mergeSort.mp hmem, hle⟩

theorem latest_of_between {rules : List Rule} {target between : UInt32} {r : Rule}
    (h : latest rules target = some r) (low : r.loc ≤ between) (high : between ≤ target) :
    latest rules between = some r := by
  rw [← lastUpTo_mergeSort] at h ⊢
  exact lastUpTo_of_between h low high

end Rule

namespace RuleTable

open Rule

/-- The row that a finished table has for a location. -/
theorem Builder.row_find_finish (b : Builder) (target : UInt32) :
    (Rule.find b.finish target).row = rowOf (latest b.rules.toList target) := by
  have ordered : Ascending b.finish.toList := ascending_mergeSort b.rules.toList
  rw [row_find ordered, ← lastUpTo_mergeSort]
  rfl

end RuleTable

end Unwind
