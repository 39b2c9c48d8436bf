import Unwind.Range

/-!
# The smallest range around others

Taking unions one after the other gives the smallest range around all the ranges that are not empty
(`hull_foldl`), in whatever order they come. Empty ranges do not count, even where the union is one
of them.
-/

namespace Unwind

namespace Range

variable {r s c : Range} {rs : List Range}

/-- The range goes at least as far as the other to either side. -/
def Covers (r s : Range) : Prop :=
  r.start ≤ s.start ∧ s.stop ≤ r.stop

theorem Covers.refl (r : Range) : r.Covers r :=
  ⟨UInt64.le_refl _, UInt64.le_refl _⟩

theorem Covers.trans (hc : c.Covers r) (hr : r.Covers s) : c.Covers s :=
  ⟨UInt64.le_trans hc.1 hr.1, UInt64.le_trans hr.2 hc.2⟩

theorem Covers.antisymm (hr : r.Covers s) (hs : s.Covers r) : r = s := by
  cases r
  cases s
  rw [mk.injEq]
  exact ⟨UInt64.le_antisymm hr.1 hs.1, UInt64.le_antisymm hs.2 hr.2⟩

theorem Covers.lt (h : r.Covers s) (hs : s.start < s.stop) : r.start < r.stop :=
  UInt64.lt_of_le_of_lt h.1 (UInt64.lt_of_lt_of_le hs h.2)

/-! ## Unions -/

theorem union_of_le (h : r.stop ≤ r.start) : r.union s = s := by
  rw [union, if_pos ((isEmpty_iff r).mpr h)]

theorem union_of_le_right (hr : r.start < r.stop) (hs : s.stop ≤ s.start) : r.union s = r := by
  rw [union, if_neg (by rw [isEmpty_iff, UInt64.not_le]; exact hr),
    if_pos ((isEmpty_iff s).mpr hs)]

theorem union_of_lt (hr : r.start < r.stop) (hs : s.start < s.stop) :
    r.union s = ⟨min r.start s.start, max r.stop s.stop⟩ := by
  rw [union, if_neg (by rw [isEmpty_iff, UInt64.not_le]; exact hr),
    if_neg (by rw [isEmpty_iff, UInt64.not_le]; exact hs)]

/-- A range covers the union exactly if it covers both ranges. -/
theorem covers_union_iff (hr : r.start < r.stop) (hs : s.start < s.stop) :
    c.Covers (r.union s) ↔ c.Covers r ∧ c.Covers s := by
  have hmin (a b c : UInt64) : c ≤ min a b ↔ c ≤ a ∧ c ≤ b := Std.le_min_iff
  have hmax (a b c : UInt64) : max a b ≤ c ↔ a ≤ c ∧ b ≤ c := by
    change (if a ≤ b then b else a) ≤ c ↔ _
    simp only [UInt64.le_iff_toNat_le]
    grind
  rw [union_of_lt hr hs]
  unfold Covers
  rw [hmin, hmax]
  grind

/-! ## The smallest range -/

/-- The range covers all those that are not empty. If it is not empty itself there is no smaller
one. -/
structure Hull (rs : List Range) (r : Range) : Prop where
  covers : ∀ s ∈ rs, s.start < s.stop → r.Covers s
  least : r.start < r.stop → ∀ c : Range, (∀ s ∈ rs, s.start < s.stop → c.Covers s) → c.Covers r

namespace Hull

theorem nil : Hull [] empty :=
  ⟨nofun, fun h => absurd h (UInt64.lt_irrefl _)⟩

theorem union (h : Hull rs r) (s : Range) : Hull (rs ++ [s]) (r.union s) := by
  by_cases hr : r.start < r.stop
  · by_cases hs : s.start < s.stop
    · obtain ⟨hur, hus⟩ := (covers_union_iff hr hs).mp (Covers.refl _)
      refine ⟨fun t ht hlt => ?_, fun _ c hc => ?_⟩
      · rcases List.mem_append.mp ht with ht | ht
        · exact hur.trans (h.covers t ht hlt)
        · rwa [List.mem_singleton.mp ht]
      · refine (covers_union_iff hr hs).mpr ⟨h.least hr c fun t ht => hc t ?_, hc s ?_ hs⟩
        · exact List.mem_append_left _ ht
        · exact List.mem_append_right _ List.mem_cons_self
    · rw [union_of_le_right hr (UInt64.not_lt.mp hs)]
      refine ⟨fun t ht hlt => ?_, fun _ c hc => ?_⟩
      · rcases List.mem_append.mp ht with ht | ht
        · exact h.covers t ht hlt
        · rw [List.mem_singleton.mp ht] at hlt
          exact absurd hlt hs
      · exact h.least hr c fun t ht => hc t (List.mem_append_left _ ht)
  · -- What the union was around so far is empty, so all that counts is the new range.
    rw [union_of_le (UInt64.not_lt.mp hr)]
    refine ⟨fun t ht hlt => ?_, fun hs c hc => ?_⟩
    · rcases List.mem_append.mp ht with ht | ht
      · exact absurd ((h.covers t ht hlt).lt hlt) hr
      · rw [List.mem_singleton.mp ht]
        exact Covers.refl s
    · exact hc s (List.mem_append_right _ List.mem_cons_self) hs

theorem lt_iff (h : Hull rs r) : r.start < r.stop ↔ ∃ s ∈ rs, s.start < s.stop := by
  refine ⟨fun hr => ?_, fun ⟨s, hs, hlt⟩ => (h.covers s hs hlt).lt hlt⟩
  refine Classical.byContradiction fun hall => ?_
  -- Otherwise any range would cover them all, an empty one for instance.
  have hleast := h.least hr empty fun s hs hlt => absurd ⟨s, hs, hlt⟩ hall
  exact absurd (hleast.lt hr) (UInt64.lt_irrefl _)

end Hull

theorem hull_foldl (h : Hull rs r) (more : List Range) :
    Hull (rs ++ more) (more.foldl union r) := by
  induction more generalizing rs r with
  | nil => rwa [List.append_nil]
  | cons s more ih =>
    have hmore := ih (h.union s)
    rwa [List.append_assoc, List.singleton_append] at hmore

end Range

end Unwind
