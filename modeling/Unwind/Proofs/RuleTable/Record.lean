import Unwind.Proofs.Bisect
import Unwind.RuleTable

/-!
# What recording keeps

Recording a list of rules whose locations do not decrease loses nothing that a look-up can see: the
table answers every target like the last of the recorded rules at or below it (`Records.find`).
Replaced and dropped rules are those that no target can tell apart. Of what was there before,
recording touches at most the last rule, which is why a savepoint is enough to take everything back
(`rollback_recordAll`).
-/

namespace Unwind

namespace Rule

/-- The last of the rules that start at or below a location. -/
def lastUpTo (rules : List Rule) (target : UInt32) : Option Rule :=
  (rules.filter fun r => decide (r.loc ≤ target)).getLast?

theorem lastUpTo_append (rules more : List Rule) (target : UInt32) :
    lastUpTo (rules ++ more) target = (lastUpTo more target).or (lastUpTo rules target) := by
  rw [lastUpTo, List.filter_append, List.getLast?_append]
  rfl

theorem lastUpTo_concat_of_le {rules : List Rule} {r : Rule} {target : UInt32}
    (h : r.loc ≤ target) : lastUpTo (rules ++ [r]) target = some r := by
  rw [lastUpTo_append]
  simp [lastUpTo, h]

theorem lastUpTo_concat_of_not_le {rules : List Rule} {r : Rule} {target : UInt32}
    (h : ¬ r.loc ≤ target) : lastUpTo (rules ++ [r]) target = lastUpTo rules target := by
  rw [lastUpTo_append]
  simp [lastUpTo, h]

/-- The rules are in the order of their locations. -/
def Ascending (rules : List Rule) : Prop :=
  rules.Pairwise fun r s => r.loc ≤ s.loc

instance (rules : List Rule) : Decidable (Ascending rules) :=
  inferInstanceAs (Decidable (rules.Pairwise _))

theorem row_find {table : Array Rule} (ordered : Ascending table.toList) (target : UInt32) :
    (find table target).row = ((lastUpTo table.toList target).map row).getD .linked := by
  have split := Split.of_pairwise UInt32.le_trans Rule.loc target ordered
  rw [find, lastSatisfying?_eq _ _ split, ← lastUpTo]
  cases lastUpTo table.toList target with
  | none => rfl
  | some r => rfl

theorem sameUnwind_iff (r s : Rule) : r.sameUnwind s = true ↔ r.row = s.row := by
  rw [sameUnwind, beq_iff_eq]

end Rule

namespace RuleTable

open Rule

theorem eq_empty_or_push (table : Array Rule) :
    table = #[] ∨ ∃ (front : Array Rule) (last : Rule), table = front.push last := by
  by_cases h : table = #[]
  · exact Or.inl h
  · obtain ⟨front, last, rfl⟩ := Array.exists_push_of_ne_empty h
    exact Or.inr ⟨front, last, rfl⟩

theorem record_push (front : Array Rule) (last r : Rule) :
    record (front.push last) r =
      if last.loc = r.loc then front.push r
      else if last.row = r.row then front.push last
      else (front.push last).push r := by
  unfold record
  rw [Array.back?_push]
  dsimp only
  rw [Array.pop_push]
  simp only [beq_iff_eq, sameUnwind_iff]

/-- Recording replaces the last rule, or drops the new one, or appends it. -/
theorem record_cases (table : Array Rule) (r : Rule) :
    (∃ (front : Array Rule) (last : Rule), table = front.push last ∧ last.loc = r.loc ∧
        record table r = front.push r) ∨
      (∃ (front : Array Rule) (last : Rule), table = front.push last ∧ last.row = r.row ∧
        record table r = table) ∨
      record table r = table.push r := by
  rcases eq_empty_or_push table with rfl | ⟨front, last, rfl⟩
  · exact Or.inr (Or.inr rfl)
  · rw [record_push]
    by_cases hloc : last.loc = r.loc
    · rw [if_pos hloc]
      exact Or.inl ⟨front, last, rfl, hloc, rfl⟩
    · rw [if_neg hloc]
      by_cases hrow : last.row = r.row
      · rw [if_pos hrow]
        exact Or.inr (Or.inl ⟨front, last, rfl, hrow, rfl⟩)
      · rw [if_neg hrow]
        exact Or.inr (Or.inr rfl)

/-- A table stands for a list of rules: it holds some of them, each location once and in order, and
no target tells the difference. -/
structure Records (table : List Rule) (rules : List Rule) : Prop where
  subset : ∀ r ∈ table, r ∈ rules
  increasing : table.Pairwise fun r s => r.loc < s.loc
  rows : ∀ target, (lastUpTo table target).map Rule.row = (lastUpTo rules target).map Rule.row

namespace Records

variable {table rules : List Rule} {r last : Rule}

theorem nil : Records [] [] := ⟨fun _ h => h, List.Pairwise.nil, fun _ => rfl⟩

theorem ascending (h : Records table rules) : Ascending table :=
  h.increasing.imp UInt32.le_of_lt

theorem eq_nil (h : Records [] rules) : rules = [] := by
  rcases rules.eq_nil_or_concat with rfl | ⟨front, r, rfl⟩
  · rfl
  · have hrow := h.rows r.loc
    rw [List.concat_eq_append, lastUpTo_concat_of_le (UInt32.le_refl _)] at hrow
    cases hrow

/-- The next rule, further on, is appended. -/
theorem push (h : Records table rules) (beyond : ∀ s ∈ table, s.loc < r.loc) :
    Records (table ++ [r]) (rules ++ [r]) where
  subset s hs := by
    rcases List.mem_append.mp hs with hs | hs
    · exact List.mem_append_left _ (h.subset s hs)
    · exact List.mem_append_right _ hs
  increasing := by
    rw [List.pairwise_append]
    refine ⟨h.increasing, List.pairwise_singleton _ _, fun s hs t ht => ?_⟩
    rw [List.mem_singleton.mp ht]
    exact beyond s hs
  rows target := by
    by_cases hr : r.loc ≤ target
    · rw [lastUpTo_concat_of_le hr, lastUpTo_concat_of_le hr]
    · rw [lastUpTo_concat_of_not_le hr, lastUpTo_concat_of_not_le hr, h.rows]

/-- The next rule, at the location of the last one, takes its place. -/
theorem replace (h : Records (table ++ [last]) rules) (same : last.loc = r.loc) :
    Records (table ++ [r]) (rules ++ [r]) where
  subset s hs := by
    rcases List.mem_append.mp hs with hs | hs
    · exact List.mem_append_left _ (h.subset s (List.mem_append_left _ hs))
    · exact List.mem_append_right _ hs
  increasing := by
    have hinc := List.pairwise_append.mp h.increasing
    rw [List.pairwise_append]
    refine ⟨hinc.1, List.pairwise_singleton _ _, fun s hs t ht => ?_⟩
    rw [List.mem_singleton.mp ht, ← same]
    exact hinc.2.2 s hs last (List.mem_singleton_self _)
  rows target := by
    by_cases hr : r.loc ≤ target
    · rw [lastUpTo_concat_of_le hr, lastUpTo_concat_of_le hr]
    · have hrow := h.rows target
      rw [lastUpTo_concat_of_not_le (same ▸ hr)] at hrow
      rw [lastUpTo_concat_of_not_le hr, lastUpTo_concat_of_not_le hr, hrow]

/-- The next rule, if it unwinds like the last one, adds nothing. -/
theorem drop (h : Records (table ++ [last]) rules) (same : last.row = r.row)
    (beyond : last.loc ≤ r.loc) : Records (table ++ [last]) (rules ++ [r]) where
  subset s hs := List.mem_append_left _ (h.subset s hs)
  increasing := h.increasing
  rows target := by
    by_cases hr : r.loc ≤ target
    · rw [lastUpTo_concat_of_le hr, lastUpTo_concat_of_le (UInt32.le_trans beyond hr)]
      exact congrArg some same
    · rw [lastUpTo_concat_of_not_le hr, h.rows]

theorem record {table : Array Rule} (h : Records table.toList rules)
    (beyond : ∀ s ∈ rules, s.loc ≤ r.loc) :
    Records (RuleTable.record table r).toList (rules ++ [r]) := by
  rcases eq_empty_or_push table with rfl | ⟨front, last, rfl⟩
  · obtain rfl := h.eq_nil
    exact push nil (fun s hs => absurd hs List.not_mem_nil)
  · rw [Array.toList_push] at h
    have hlast := beyond last (h.subset last (List.mem_append_right _ (List.mem_singleton_self _)))
    rw [record_push]
    split
    · rename_i hloc
      rw [Array.toList_push]
      exact h.replace hloc
    · rename_i hloc
      split
      · rename_i hrow
        rw [Array.toList_push]
        exact h.drop hrow hlast
      · rw [Array.toList_push, Array.toList_push]
        refine h.push fun s hs => ?_
        have hlt : last.loc < r.loc := UInt32.lt_of_le_of_ne hlast hloc
        rcases List.mem_append.mp hs with hs | hs
        · have hinc := (List.pairwise_append.mp h.increasing).2.2
          exact UInt32.lt_trans (hinc s hs last (List.mem_singleton_self _)) hlt
        · rw [List.mem_singleton.mp hs]
          exact hlt

theorem foldl {table : Array Rule} (more : List Rule) (h : Records table.toList rules)
    (ordered : Ascending (rules ++ more)) :
    Records (more.foldl RuleTable.record table).toList (rules ++ more) := by
  induction more generalizing table rules with
  | nil => rwa [List.append_nil]
  | cons r rest ih =>
    rw [List.foldl_cons, List.append_cons]
    rw [List.append_cons] at ordered
    apply ih _ ordered
    apply h.record
    intro s hs
    have hfront := (List.pairwise_append.mp ordered).1
    exact (List.pairwise_append.mp hfront).2.2 s hs r (List.mem_singleton_self _)

end Records

/-- The table that is recorded from ordered rules stands for them. -/
theorem records_foldl {rules : List Rule} (ordered : Ascending rules) :
    Records (rules.foldl record #[]).toList rules :=
  Records.foldl rules Records.nil ordered

/-- Finishing does not change a table that is in order. -/
theorem Builder.toList_finish (b : Builder) (ordered : Ascending b.rules.toList) :
    b.finish.toList = b.rules.toList := by
  unfold Builder.finish
  rw [List.mergeSort_of_pairwise]
  apply ordered.imp
  intro r s h
  exact decide_eq_true h

/-! ## Taking back what was recorded -/

/-- Recording keeps all rules but the last as they are, and does not shorten the table. -/
theorem record_keeps (table : Array Rule) (r : Rule) (n : Nat) (h : n < table.size) :
    table.size ≤ (record table r).size ∧
      (record table r).toList.take n = table.toList.take n := by
  rcases record_cases table r with ⟨front, last, rfl, -, hrecord⟩ |
    ⟨front, last, rfl, -, hrecord⟩ | hrecord
  · rw [Array.size_push] at h
    have hfront : n ≤ front.toList.length := by rw [Array.length_toList]; omega
    rw [hrecord, Array.size_push, Array.size_push]
    simp only [Array.toList_push, List.take_append_of_le_length hfront]
    exact ⟨Nat.le_refl _, trivial⟩
  · rw [hrecord]
    exact ⟨Nat.le_refl _, rfl⟩
  · rw [hrecord, Array.toList_push, List.take_append_of_le_length]
    · exact ⟨by simp only [Array.size_push]; omega, rfl⟩
    · rw [Array.length_toList]
      omega

theorem foldl_record_keeps (rules : List Rule) (table : Array Rule) (n : Nat) (h : n < table.size) :
    table.size ≤ (rules.foldl record table).size ∧
      (rules.foldl record table).toList.take n = table.toList.take n := by
  induction rules generalizing table with
  | nil => exact ⟨Nat.le_refl _, rfl⟩
  | cons r rest ih =>
    obtain ⟨hsize, hkeep⟩ := record_keeps table r n h
    obtain ⟨hsize', hkeep'⟩ := ih (record table r) (by omega)
    rw [List.foldl_cons]
    exact ⟨by omega, hkeep'.trans hkeep⟩

namespace Builder

/-- A builder that goes back to its savepoint is what it was. -/
theorem rollback_recordAll (b : Builder) (rules : List Rule) :
    (b.recordAll rules).rollback b.savepoint = b := by
  obtain ⟨imageBase, table⟩ := b
  rcases eq_empty_or_push table with rfl | ⟨front, last, rfl⟩
  · simp [rollback, savepoint, recordAll]
  · obtain ⟨hsize, hkeep⟩ := foldl_record_keeps rules (front.push last) front.size (by simp)
    simp only [rollback, savepoint, recordAll, Array.back?_push, Builder.mk.injEq, true_and]
    apply Array.toList_inj.mp
    rw [Array.toList_push, Array.toList_pop, Array.toList_shrink, Array.toList_push]
    rw [Array.size_push] at hsize ⊢
    congr 1
    rw [List.dropLast_eq_take, List.length_take, Array.length_toList, Nat.min_eq_left hsize,
      List.take_take, Nat.add_sub_cancel, Nat.min_eq_left (Nat.le_succ _), hkeep, Array.toList_push]
    simp

end Builder

end RuleTable

end Unwind
