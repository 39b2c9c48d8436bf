import Unwind.Proofs.RuleTable.Order

/-!
# Locations inside and outside of routines

A routine is closed by the default rule at its end, so behind it everything unwinds by default up to
the next routine, and inside it only its own rows are in force. This depends on the rows of a
routine staying inside it, which nothing checks: rows elsewhere are in force there (`find_escapes`).
It also depends on the closing rule not being dropped in favour of a row that sorting puts in front
of others; so the rows go forward, or the last one does not unwind by default itself.
-/

namespace Unwind

namespace RuleTable

open Rule

/-! ## Recording one rule -/

theorem latest_push (table : Array Rule) (r : Rule) (target : UInt32) :
    latest (table.push r).toList target =
      later (latest table.toList target) (if r.loc ≤ target then some r else none) := by
  rw [Array.toList_push, latest_append, latest, latest, later_none]

/-- A rule behind the target changes nothing for it, also where it replaces another one. -/
theorem latest_record_of_not_le (table : Array Rule) {r : Rule} {target : UInt32}
    (h : ¬ r.loc ≤ target) : latest (record table r).toList target = latest table.toList target := by
  rcases record_cases table r with
    ⟨front, last, rfl, hloc, hrecord⟩ | ⟨-, -, -, -, hrecord⟩ | hrecord
  · rw [hrecord, latest_push, latest_push, hloc, if_neg h, if_neg h]
  · rw [hrecord]
  · rw [hrecord, latest_push, if_neg h, later_none]

theorem latest_foldl_record_of_not_le {rules : List Rule} {target : UInt32} (table : Array Rule)
    (h : ∀ r ∈ rules, ¬ r.loc ≤ target) :
    latest (rules.foldl record table).toList target = latest table.toList target := by
  induction rules generalizing table with
  | nil => rfl
  | cons r rest ih =>
    rw [List.foldl_cons, ih _ fun s hs => h s (List.mem_cons_of_mem r hs),
      latest_record_of_not_le table (h r List.mem_cons_self)]

theorem rowOf_later {P : Row → Prop} {q : Option Rule} {r : Rule} (hr : P r.row)
    (hq : ∀ p, q = some p → r.loc < p.loc → P p.row) : P (rowOf (later q (some r))) := by
  cases q with
  | none => exact hr
  | some p =>
    by_cases hle : p.loc ≤ r.loc
    · rw [later_of_le hle]
      exact hr
    · rw [later_of_lt (UInt32.not_le.mp hle)]
      exact hq p rfl (UInt32.not_le.mp hle)

/-- After a rule was recorded, either its row is in force or the one that was before. -/
theorem rowOf_record {P : Row → Prop} {table : Array Rule} {r : Rule} {target : UInt32}
    (htable : P (rowOf (latest table.toList target))) (hr : r.loc ≤ target → P r.row) :
    P (rowOf (latest (record table r).toList target)) := by
  by_cases hle : r.loc ≤ target
  · rcases record_cases table r with
      ⟨front, last, rfl, hloc, hrecord⟩ | ⟨-, -, -, -, hrecord⟩ | hrecord
    · rw [latest_push, if_pos (hloc ▸ hle)] at htable
      rw [hrecord, latest_push, if_pos hle]
      -- What hides the new rule has hidden the one that it replaces.
      refine rowOf_later (hr hle) fun p hp hlt => ?_
      rwa [hp, later_of_lt (hloc ▸ hlt)] at htable
    · rwa [hrecord]
    · rw [hrecord, latest_push, if_pos hle]
      refine rowOf_later (hr hle) fun p hp _ => ?_
      rwa [hp] at htable
  · rwa [latest_record_of_not_le table hle]

theorem rowOf_foldl_record {P : Row → Prop} {rules : List Rule} {table : Array Rule}
    {target : UInt32} (htable : P (rowOf (latest table.toList target)))
    (hrules : ∀ r ∈ rules, r.loc ≤ target → P r.row) :
    P (rowOf (latest (rules.foldl record table).toList target)) := by
  induction rules generalizing table with
  | nil => exact htable
  | cons r rest ih =>
    exact ih (rowOf_record htable (hrules r List.mem_cons_self))
      fun s hs => hrules s (List.mem_cons_of_mem r hs)

/-! ## Tables whose last rule is the furthest -/

/-- No rule lies behind the one recorded last. -/
def Forward (table : Array Rule) : Prop :=
  ∀ last, table.back? = some last → ∀ s ∈ table.toList, s.loc ≤ last.loc

theorem forward_push {table : Array Rule} {r : Rule} (h : ∀ s ∈ table.toList, s.loc ≤ r.loc) :
    Forward (table.push r) := by
  intro last hlast s hs
  rw [Array.back?_push] at hlast
  cases hlast
  rw [Array.toList_push] at hs
  rcases List.mem_append.mp hs with hs | hs
  · exact h s hs
  · rw [List.mem_singleton.mp hs]
    exact UInt32.le_refl _

/-- A rule at least as far as all others is the furthest, unless it is dropped behind one that is
not. -/
theorem forward_record {table : Array Rule} {r : Rule} (beyond : ∀ s ∈ table.toList, s.loc ≤ r.loc)
    (kept : Forward table ∨ table.back?.map Rule.row ≠ some r.row) : Forward (record table r) := by
  rcases record_cases table r with
    ⟨front, last, rfl, -, hrecord⟩ |
    ⟨front, last, rfl, hrow, hrecord⟩ | hrecord
  · rw [hrecord]
    refine forward_push fun s hs => beyond s ?_
    rw [Array.toList_push]
    exact List.mem_append_left _ hs
  · rw [hrecord]
    rw [Array.back?_push] at kept
    exact kept.resolve_right (not_not_intro (congrArg some hrow))
  · rw [hrecord]
    exact forward_push beyond

theorem row_of_back?_record {table : Array Rule} {r last : Rule}
    (h : (record table r).back? = some last) : last.row = r.row := by
  have hrow := row_back?_record table r
  rw [h] at hrow
  exact Option.some.inj hrow

theorem row_back?_foldl_record (table : Array Rule) {rules : List Rule} (h : rules ≠ []) :
    (rules.foldl record table).back?.map Rule.row = rules.getLast?.map Rule.row := by
  obtain ⟨front, last, rfl⟩ := rules.eq_nil_or_concat.resolve_left h
  rw [List.concat_eq_append, List.foldl_append, List.getLast?_append]
  exact row_back?_record _ last

theorem forward_foldl_record {rules : List Rule} {table : Array Rule} (h : Forward table)
    (ordered : Ascending rules) (beyond : ∀ s ∈ table.toList, ∀ r ∈ rules, s.loc ≤ r.loc) :
    Forward (rules.foldl record table) := by
  induction rules generalizing table with
  | nil => exact h
  | cons r rest ih =>
    obtain ⟨hfirst, hrest⟩ := List.pairwise_cons.mp ordered
    refine ih (forward_record (fun s hs => beyond s hs r List.mem_cons_self) (.inl h)) hrest ?_
    intro s hs t ht
    rcases mem_record hs with hs | rfl
    · exact beyond s hs t (List.mem_cons_of_mem r ht)
    · exact hfirst t ht

/-- If the rule recorded last is the furthest, its row is in force from there on. -/
theorem rowOf_record_of_forward {table : Array Rule} {r : Rule} {target : UInt32}
    (h : Forward (record table r)) (reached : ∀ s ∈ (record table r).toList, s.loc ≤ target) :
    rowOf (latest (record table r).toList target) = r.row := by
  obtain ⟨front, last, hlast⟩ := Array.exists_push_of_ne_empty (record_ne_empty table r)
  have hback : (record table r).back? = some last := by
    rw [hlast, Array.back?_push]
  have hmem : ∀ s ∈ (record table r).toList, s.loc ≤ last.loc := h last hback
  rw [← row_of_back?_record hback]
  rw [hlast, Array.toList_push] at hmem reached
  rw [hlast, latest_push,
    if_pos (reached last (List.mem_append_right _ (List.mem_singleton_self last)))]
  refine rowOf_later (P := (· = last.row)) rfl fun p hp hlt => ?_
  have hle := hmem p (List.mem_append_left _ (mem_of_latest hp).1)
  exact absurd hlt (UInt32.not_lt.mpr hle)

/-! ## One routine -/

namespace Routine

/-- A location lies in the code of the routine. -/
def Covers (imageBase : UInt64) (r : Routine) (target : UInt32) : Prop :=
  r.1.pcStart.toNat ≤ imageBase.toNat + target.toNat ∧
    imageBase.toNat + target.toNat < r.1.pcStop.toNat

/-- The code of the routine is a range, which locations reach. -/
structure Reachable (imageBase : UInt64) (r : Routine) : Prop where
  ordered : r.1.pcStart ≤ r.1.pcStop
  start : r.1.pcStart.toNat < imageBase.toNat + 0x100000000
  stop : r.1.pcStop.toNat ≤ imageBase.toNat + 0x100000000

/-- The rows of the routine stay between its ends. They go forward, or the last one unwinds unlike
the default. -/
structure Confined (imageBase : UInt64) (r : Routine) : Prop where
  inside : ∀ s ∈ r.rows imageBase,
    r.1.pcStart.toNat ≤ imageBase.toNat + s.loc.toNat ∧
      imageBase.toNat + s.loc.toNat ≤ r.1.pcStop.toNat
  closed : Ascending (r.rows imageBase) ∨
    (r.rows imageBase).getLast?.map Rule.row ≠ some .linked

instance (imageBase : UInt64) (r : Routine) (target : UInt32) :
    Decidable (r.Covers imageBase target) :=
  inferInstanceAs (Decidable (_ ∧ _))

instance (imageBase : UInt64) (r : Routine) : Decidable (r.Reachable imageBase) :=
  decidable_of_iff
    (r.1.pcStart ≤ r.1.pcStop ∧ r.1.pcStart.toNat < imageBase.toNat + 0x100000000 ∧
      r.1.pcStop.toNat ≤ imageBase.toNat + 0x100000000)
    ⟨fun h => ⟨h.1, h.2.1, h.2.2⟩, fun h => ⟨h.ordered, h.start, h.stop⟩⟩

instance (imageBase : UInt64) (r : Routine) : Decidable (r.Confined imageBase) :=
  decidable_of_iff
    ((∀ s ∈ r.rows imageBase, r.1.pcStart.toNat ≤ imageBase.toNat + s.loc.toNat ∧
        imageBase.toNat + s.loc.toNat ≤ r.1.pcStop.toNat) ∧
      (Ascending (r.rows imageBase) ∨ (r.rows imageBase).getLast?.map Rule.row ≠ some .linked))
    ⟨fun h => ⟨h.1, h.2⟩, fun h => ⟨h.inside, h.closed⟩⟩

variable {imageBase : UInt64} {r : Routine}

theorem start_of_reachable (accepted : r.accepted imageBase = true)
    (reachable : r.Reachable imageBase) :
    imageBase.toNat + (r.startLoc imageBase).toNat = r.1.pcStart.toNat := by
  have above := start_of_accepted accepted
  have hbase := UInt64.le_iff_toNat_le.mp above
  rw [startLoc, toNat_distance above reachable.start]
  omega

/-- Only an end that is the first location out of reach comes out as another one. -/
theorem stop_of_reachable (accepted : r.accepted imageBase = true)
    (reachable : r.Reachable imageBase)
    (short : r.1.pcStop.toNat < imageBase.toNat + 0x100000000) :
    imageBase.toNat + (r.stopLoc imageBase).toNat = r.1.pcStop.toNat := by
  have hstart := start_of_reachable accepted reachable
  have hordered := UInt64.le_iff_toNat_le.mp reachable.ordered
  rw [stopLoc, UInt32.toNat_add, UInt64.toNat_toUInt32,
    UInt64.toNat_sub_of_le _ _ reachable.ordered]
  omega

theorem latest_rows_of_before (confined : r.Confined imageBase) {target : UInt32}
    (before : imageBase.toNat + target.toNat < r.1.pcStart.toNat) (table : Array Rule) :
    latest ((r.rows imageBase).foldl record table).toList target = latest table.toList target := by
  refine latest_foldl_record_of_not_le table fun s hs hle => ?_
  have hinside := (confined.inside s hs).1
  rw [UInt32.le_iff_toNat_le] at hle
  omega

/-- The closing rule is the last step of recording a routine. -/
theorem foldl_recorded (r : Routine) (table : Array Rule) :
    (r.recorded imageBase).foldl record table =
      record ((r.rows imageBase).foldl record table)
        (Rule.default.movedTo (r.stopLoc imageBase)) := by
  rw [recorded, List.foldl_append, List.foldl_cons, List.foldl_nil]

theorem latest_recorded_of_before (accepted : r.accepted imageBase = true)
    (reachable : r.Reachable imageBase)
    (short : r.1.pcStop.toNat < imageBase.toNat + 0x100000000) {target : UInt32}
    (before : imageBase.toNat + target.toNat < r.1.pcStop.toNat) (table : Array Rule) :
    latest ((r.recorded imageBase).foldl record table).toList target =
      latest ((r.rows imageBase).foldl record table).toList target := by
  have hstop := stop_of_reachable accepted reachable short
  rw [foldl_recorded]
  apply latest_record_of_not_le
  rw [UInt32.le_iff_toNat_le]
  change ¬ (r.stopLoc imageBase).toNat ≤ target.toNat
  omega

end Routine

/-! ## Routine after routine -/

/-- A table that was recorded from routines keeps them apart. It ends with a rule like the default,
behind which there is none, gives the default for whatever the routines do not cover, and rows of a
routine for what it covers. -/
structure Separates (imageBase : UInt64) (table : Array Rule) (routines : List Routine) :
    Prop where
  forward : Forward table
  closed : ∀ last, table.back? = some last → last.row = .linked
  bounded : ∀ s ∈ table.toList, ∃ r ∈ routines, imageBase.toNat + s.loc.toNat ≤ r.1.pcStop.toNat
  inside : ∀ r ∈ routines, ∀ target, r.Covers imageBase target →
    ∃ s ∈ r.rows imageBase, s.loc ≤ target ∧ rowOf (latest table.toList target) = s.row
  outside : ∀ target, (∀ r ∈ routines, ¬ r.Covers imageBase target) →
    rowOf (latest table.toList target) = .linked

namespace Separates

variable {imageBase : UInt64} {table : Array Rule} {routines : List Routine} {r : Routine}

theorem nil : Separates imageBase #[] [] where
  forward := nofun
  closed := nofun
  bounded := nofun
  inside := nofun
  outside _ _ := rfl

theorem loc_le_start (h : Separates imageBase table routines)
    (behind : ∀ earlier ∈ routines, earlier.1.pcStop ≤ r.1.pcStart) {s : Rule}
    (hs : s ∈ table.toList) : imageBase.toNat + s.loc.toNat ≤ r.1.pcStart.toNat := by
  obtain ⟨earlier, hmem, hle⟩ := h.bounded s hs
  exact Nat.le_trans hle (UInt64.le_iff_toNat_le.mp (behind earlier hmem))

/-- From the start of a routine on, its rows are in force. -/
theorem row_mem_rows (h : Separates imageBase table routines)
    (accepted : r.accepted imageBase = true) (reachable : r.Reachable imageBase)
    (behind : ∀ earlier ∈ routines, earlier.1.pcStop ≤ r.1.pcStart) {target : UInt32}
    (start : r.1.pcStart.toNat ≤ imageBase.toNat + target.toNat) :
    ∃ s ∈ r.rows imageBase, s.loc ≤ target ∧
      rowOf (latest ((r.rows imageBase).foldl record table).toList target) = s.row := by
  obtain ⟨first, rest, hrows, hloc⟩ := Routine.rows_of_accepted accepted
  have hstart := Routine.start_of_reachable accepted reachable
  have hfirst : first.loc ≤ target := by
    rw [hloc, UInt32.le_iff_toNat_le]
    omega
  have beyond : ∀ s ∈ table.toList, s.loc ≤ first.loc := by
    intro s hs
    have hle := h.loc_le_start behind hs
    rw [hloc, UInt32.le_iff_toNat_le]
    omega
  have reached : ∀ s ∈ (record table first).toList, s.loc ≤ target := by
    intro s hs
    rcases mem_record hs with hs | rfl
    · exact UInt32.le_trans (beyond s hs) hfirst
    · exact hfirst
  -- The first row is in force at its place, and only rows of the routine can take over.
  have hrow := rowOf_record_of_forward (forward_record beyond (.inl h.forward)) reached
  rw [hrows, List.foldl_cons]
  refine rowOf_foldl_record (P := fun row => ∃ s ∈ first :: rest, s.loc ≤ target ∧ row = s.row)
    ⟨first, List.mem_cons_self, hfirst, hrow⟩ fun s hs hle => ?_
  exact ⟨s, List.mem_cons_of_mem first hs, hle, rfl⟩

/-- The closing rule of a routine is not dropped unless the furthest of its rows is like it. -/
theorem closing_kept (h : Separates imageBase table routines)
    (accepted : r.accepted imageBase = true) (confined : r.Confined imageBase)
    (behind : ∀ earlier ∈ routines, earlier.1.pcStop ≤ r.1.pcStart) :
    Forward ((r.rows imageBase).foldl record table) ∨
      ((r.rows imageBase).foldl record table).back?.map Rule.row ≠ some .linked := by
  rcases confined.closed with hascending | hlast
  · -- Rows that go forward leave the furthest of them last.
    refine Or.inl (forward_foldl_record h.forward hascending fun s hs t ht => ?_)
    have hle := h.loc_le_start behind hs
    have hinside := (confined.inside t ht).1
    rw [UInt32.le_iff_toNat_le]
    omega
  · obtain ⟨first, rest, hrows, -⟩ := Routine.rows_of_accepted accepted
    rw [row_back?_foldl_record table (by rw [hrows]; exact List.cons_ne_nil _ _)]
    exact Or.inr hlast

theorem loc_le_stop (h : Separates imageBase table routines)
    (accepted : r.accepted imageBase = true) (reachable : r.Reachable imageBase)
    (confined : r.Confined imageBase)
    (behind : ∀ earlier ∈ routines, earlier.1.pcStop ≤ r.1.pcStart)
    (short : r.1.pcStop.toNat < imageBase.toNat + 0x100000000) {s : Rule}
    (hs : s ∈ table.toList ∨ s ∈ r.recorded imageBase) : s.loc ≤ r.stopLoc imageBase := by
  have hstop := Routine.stop_of_reachable accepted reachable short
  have hordered := UInt64.le_iff_toNat_le.mp reachable.ordered
  rw [UInt32.le_iff_toNat_le]
  rcases hs with hs | hs
  · have hle := h.loc_le_start behind hs
    omega
  · rcases List.mem_append.mp hs with hs | hs
    · have hinside := (confined.inside s hs).2
      omega
    · rw [List.mem_singleton.mp hs]
      exact Nat.le_refl _

/-- One more routine, which ends within the reach of a location. -/
theorem concat (h : Separates imageBase table routines) (accepted : r.accepted imageBase = true)
    (reachable : r.Reachable imageBase) (confined : r.Confined imageBase)
    (behind : ∀ earlier ∈ routines, earlier.1.pcStop ≤ r.1.pcStart)
    (short : r.1.pcStop.toNat < imageBase.toNat + 0x100000000) :
    Separates imageBase ((r.recorded imageBase).foldl record table) (routines ++ [r]) := by
  have hstop := Routine.stop_of_reachable accepted reachable short
  have hordered := UInt64.le_iff_toNat_le.mp reachable.ordered
  have hmem : r ∈ routines ++ [r] := List.mem_append_right _ (List.mem_singleton_self r)
  have hrows : ∀ s ∈ ((r.rows imageBase).foldl record table).toList,
      s.loc ≤ r.stopLoc imageBase := fun s hs =>
    h.loc_le_stop accepted reachable confined behind short
      ((mem_foldl_record hs).imp_right (List.mem_append_left _))
  have hlocs : ∀ s ∈ ((r.recorded imageBase).foldl record table).toList,
      s.loc ≤ r.stopLoc imageBase := fun s hs =>
    h.loc_le_stop accepted reachable confined behind short (mem_foldl_record hs)
  have hforward : Forward ((r.recorded imageBase).foldl record table) := by
    rw [Routine.foldl_recorded]
    exact forward_record hrows (h.closing_kept accepted confined behind)
  have hbefore : ∀ target : UInt32, imageBase.toNat + target.toNat < r.1.pcStop.toNat →
      latest ((r.recorded imageBase).foldl record table).toList target =
        latest ((r.rows imageBase).foldl record table).toList target := fun target before =>
    Routine.latest_recorded_of_before accepted reachable short before table
  refine ⟨hforward, fun last hlast => ?_, fun s hs => ?_, fun routine hroutine target hcovers => ?_,
    fun target houtside => ?_⟩
  · rw [Routine.foldl_recorded] at hlast
    exact row_of_back?_record hlast
  · have hle := UInt32.le_iff_toNat_le.mp (hlocs s hs)
    exact ⟨r, hmem, by omega⟩
  · rcases List.mem_append.mp hroutine with hroutine | hroutine
    · -- What an earlier routine covers lies in front of all that is recorded.
      have hbehind := UInt64.le_iff_toNat_le.mp (behind routine hroutine)
      have hbefore_stop := hcovers.2
      rw [hbefore target (by omega), Routine.latest_rows_of_before confined (by omega)]
      exact h.inside routine hroutine target hcovers
    · rw [List.mem_singleton.mp hroutine] at hcovers ⊢
      rw [hbefore target hcovers.2]
      exact h.row_mem_rows accepted reachable behind hcovers.1
  · have hr := houtside r hmem
    unfold Routine.Covers at hr
    by_cases before : imageBase.toNat + target.toNat < r.1.pcStart.toNat
    · rw [hbefore target (by omega), Routine.latest_rows_of_before confined before]
      exact h.outside target fun earlier hearlier =>
        houtside earlier (List.mem_append_left _ hearlier)
    · rw [Routine.foldl_recorded] at hforward hlocs ⊢
      refine rowOf_record_of_forward hforward fun s hs => UInt32.le_trans (hlocs s hs) ?_
      rw [UInt32.le_iff_toNat_le]
      omega

theorem flatMap {more : List Routine} (h : Separates imageBase table routines)
    (accepted : ∀ r ∈ more, r.accepted imageBase = true)
    (reachable : ∀ r ∈ more, r.Reachable imageBase) (confined : ∀ r ∈ more, r.Confined imageBase)
    (apart : (routines ++ more).Pairwise fun r s => r.1.pcStop ≤ s.1.pcStart)
    (short : ∀ r ∈ more, r.1.pcStop.toNat < imageBase.toNat + 0x100000000) :
    Separates imageBase ((more.flatMap (·.recorded imageBase)).foldl record table)
      (routines ++ more) := by
  induction more generalizing table routines with
  | nil =>
    rw [List.append_nil]
    exact h
  | cons r rest ih =>
    rw [List.append_cons] at apart ⊢
    rw [List.flatMap_cons, List.foldl_append]
    have hr : r ∈ r :: rest := List.mem_cons_self
    have hbehind := (List.pairwise_append.mp (List.pairwise_append.mp apart).1).2.2
    have hstep := h.concat (accepted r hr) (reachable r hr) (confined r hr)
      (fun earlier hmem => hbehind earlier hmem r (List.mem_singleton_self r)) (short r hr)
    exact ih hstep (fun s hs => accepted s (List.mem_cons_of_mem r hs))
      (fun s hs => reachable s (List.mem_cons_of_mem r hs))
      (fun s hs => confined s (List.mem_cons_of_mem r hs)) apart
      (fun s hs => short s (List.mem_cons_of_mem r hs))

/-- Behind a routine that ends where the reach of a location does there is nothing to look up. Its
closing rule comes out at location zero, and does no harm in front of all the others. -/
theorem outside_last (h : Separates imageBase table routines) (confined : r.Confined imageBase)
    (long : ¬ r.1.pcStop.toNat < imageBase.toNat + 0x100000000) {target : UInt32}
    (outside : ∀ routine ∈ routines ++ [r], ¬ routine.Covers imageBase target) :
    rowOf (latest ((r.recorded imageBase).foldl record table).toList target) = .linked := by
  have hr := outside r (List.mem_append_right _ (List.mem_singleton_self r))
  have hreach := target.toNat_lt
  unfold Routine.Covers at hr
  rw [Routine.foldl_recorded]
  refine rowOf_record (P := (· = .linked)) ?_ fun _ => rfl
  rw [Routine.latest_rows_of_before confined (by omega)]
  exact h.outside target fun earlier hmem => outside earlier (List.mem_append_left _ hmem)

end Separates

/-- Only the last of several routines can end where the reach of a location does. -/
theorem rowOf_flatMap_outside {imageBase : UInt64} {routines : List Routine}
    (accepted : ∀ r ∈ routines, r.accepted imageBase = true)
    (reachable : ∀ r ∈ routines, r.Reachable imageBase)
    (confined : ∀ r ∈ routines, r.Confined imageBase)
    (apart : routines.Pairwise fun r s => r.1.pcStop ≤ s.1.pcStart) {target : UInt32}
    (outside : ∀ r ∈ routines, ¬ r.Covers imageBase target) :
    rowOf (latest ((routines.flatMap (·.recorded imageBase)).foldl record #[]).toList target) =
      .linked := by
  rcases routines.eq_nil_or_concat with rfl | ⟨front, last, rfl⟩
  · rfl
  · rw [List.concat_eq_append] at *
    have hlast : last ∈ front ++ [last] :=
      List.mem_append_right _ (List.mem_singleton_self last)
    obtain ⟨hfront, -, hbehind⟩ := List.pairwise_append.mp apart
    have behind : ∀ r ∈ front, r.1.pcStop ≤ last.1.pcStart :=
      fun r hr => hbehind r hr last (List.mem_singleton_self last)
    have hseparates := Separates.nil.flatMap
      (fun r hr => accepted r (List.mem_append_left _ hr))
      (fun r hr => reachable r (List.mem_append_left _ hr))
      (fun r hr => confined r (List.mem_append_left _ hr)) hfront fun r hr =>
        Nat.lt_of_le_of_lt (UInt64.le_iff_toNat_le.mp (behind r hr)) (reachable last hlast).start
    rw [List.flatMap_append, List.flatMap_singleton, List.foldl_append]
    by_cases short : last.1.pcStop.toNat < imageBase.toNat + 0x100000000
    · exact (hseparates.concat (accepted last hlast) (reachable last hlast) (confined last hlast)
        behind short).outside target outside
    · exact hseparates.outside_last (confined last hlast) short outside

/-! ## Lists of routines -/

/-- Routines that are refused do not matter. -/
theorem Builder.addAll_filter (b : Builder) (routines : List Routine) :
    b.addAll routines = b.addAll (routines.filter (·.accepted b.imageBase)) := by
  unfold addAll
  induction routines generalizing b with
  | nil => rfl
  | cons r rest ih =>
    have hbase : (b.add r.1 r.2).1.imageBase = b.imageBase := by
      rw [b.add_eq r]
      cases Routine.refusal b.imageBase r <;> rfl
    have hrest := ih (b.add r.1 r.2).1
    rw [hbase] at hrest
    by_cases hr : r.accepted b.imageBase = true
    · rw [List.filter_cons_of_pos hr, List.foldl_cons, List.foldl_cons, hrest]
    · have hsame : (b.add r.1 r.2).1 = b := by
        rw [Routine.accepted_iff] at hr
        rw [b.add_eq r]
        cases hrefusal : Routine.refusal b.imageBase r with
        | none => exact absurd hrefusal hr
        | some e => rfl
      rw [List.filter_cons_of_neg hr, List.foldl_cons, hrest, hsame]

theorem Builder.rules_addAll (imageBase : UInt64) (routines : List Routine) :
    ((Builder.new imageBase).addAll routines).rules =
      ((routines.filter (·.accepted imageBase)).flatMap (·.recorded imageBase)).foldl
        record #[] := by
  rw [Builder.addAll_filter, Builder.addAll_of_accepted _ fun r hr => (List.mem_filter.mp hr).2]
  rfl

/-- Where no routine is, the finished table unwinds by default. -/
theorem find_outside {imageBase : UInt64} {routines : List Routine}
    (reachable : ∀ r ∈ routines, r.Reachable imageBase)
    (apart : routines.IsChain fun r s => r.1.pcStop ≤ s.1.pcStart)
    (confined : ∀ r ∈ routines, r.accepted imageBase = true → r.Confined imageBase)
    {target : UInt32} (outside : ∀ r ∈ routines, ¬ r.Covers imageBase target) :
    (Rule.find ((Builder.new imageBase).addAll routines).finish target).sameUnwind .default =
      true := by
  have haccepted : ∀ r ∈ routines.filter (·.accepted imageBase), r.accepted imageBase = true :=
    fun r hr => (List.mem_filter.mp hr).2
  have hmem : ∀ r ∈ routines.filter (·.accepted imageBase), r ∈ routines :=
    fun r hr => (List.mem_filter.mp hr).1
  have hapart := (pairwise_of_isChain (fun r hr => (reachable r hr).ordered) apart).filter
    (·.accepted imageBase)
  rw [sameUnwind_iff, Builder.row_find_finish, Builder.rules_addAll]
  exact rowOf_flatMap_outside haccepted (fun r hr => reachable r (hmem r hr))
    (fun r hr => confined r (hmem r hr) (haccepted r hr)) hapart
    fun r hr => outside r (hmem r hr)

/-- A function that goes back to its sixteenth byte after half of its code. -/
def returningRoutine (last : Bytes) : Routine :=
  (⟨0x2014, ⟨0x2025, [0x60, 0x0e, 0x10, 0x01, 0xe7, 0xef, 0xff, 0xff] ++ last⟩, 0x1000, 0x1040⟩,
    bareCie)

/-- A function that moves on by four times its size. -/
def escapingRoutine : Routine :=
  (⟨0x2014, ⟨0x2025, [0x04, 0x00, 0x01, 0x00, 0x00, 0x0e, 0x10]⟩, 0x1000, 0x1040⟩, bareCie)

theorem find_outside_returning :
    (Rule.find ((Builder.new 0x1000).addAll [returningRoutine [0x0e, 0x18], farRoutine]).finish
      0x100).sameUnwind .default = true :=
  find_outside (by decide +kernel) (by decide +kernel) (by decide +kernel) (by decide +kernel)

/-- A row behind the end of a function is in force there. The last row of a function that has gone
back, if it is like the default, makes the closing rule be dropped, and a row before it in time but
behind it in place stays in force. -/
theorem find_escapes :
    (escapingRoutine.Reachable 0x1000 ∧ escapingRoutine.accepted 0x1000 = true ∧
      ¬ escapingRoutine.Covers 0x1000 0x200 ∧
      (Rule.find ((Builder.new 0x1000).addAll [escapingRoutine]).finish 0x200).sameUnwind .default =
        false) ∧
    ((returningRoutine [0x0c, 0x06, 0x10, 0x86, 0x02]).Reachable 0x1000 ∧
      (returningRoutine [0x0c, 0x06, 0x10, 0x86, 0x02]).accepted 0x1000 = true ∧
      ¬ (returningRoutine [0x0c, 0x06, 0x10, 0x86, 0x02]).Covers 0x1000 0x50 ∧
      (Rule.find ((Builder.new 0x1000).addAll
        [returningRoutine [0x0c, 0x06, 0x10, 0x86, 0x02]]).finish 0x50).sameUnwind .default =
        false) := by
  refine ⟨⟨by decide, by decide +kernel, by decide, ?_⟩,
    by decide, by decide +kernel, by decide, ?_⟩
  · rw [← Bool.not_eq_true, sameUnwind_iff, Builder.row_find_finish]
    decide +kernel
  · rw [← Bool.not_eq_true, sameUnwind_iff, Builder.row_find_finish]
    decide +kernel

end RuleTable

end Unwind
