import Unwind.Proofs.Walk.Cursor

/-!
# What a walk yields

A walk yields one address for every step beyond those it passes over, up to its depth and as long as
the steps succeed (`pcs_of_yields`). Once it has ended it yields nothing more.
-/

namespace Unwind

namespace Cursor

variable (w : Walker) (c : Cursor)

/-- The first `n` tries succeed. -/
def Goes (n : Nat) : Prop :=
  ∀ i < n, ((c.nth w i).step w).recovered = true

instance (n : Nat) : Decidable (c.Goes w n) :=
  inferInstanceAs (Decidable (∀ i < n, ((c.nth w i).step w).recovered = true))

theorem goes_add (m n : Nat) : c.Goes w (m + n) ↔ c.Goes w m ∧ (c.nth w m).Goes w n := by
  constructor
  · intro h
    refine ⟨fun i hi => h i (by omega), fun i hi => ?_⟩
    rw [← nth_add]
    exact h (m + i) (by omega)
  · rintro ⟨hm, hn⟩ i hi
    by_cases him : i < m
    · exact hm i him
    · have h := hn (i - m) (by omega)
      rwa [← nth_add, show m + (i - m) = i by omega] at h

theorem goes_one : c.Goes w 1 ↔ (c.step w).recovered = true := by
  constructor
  · exact fun h => h 0 Nat.one_pos
  · intro h i hi
    rw [Nat.lt_one_iff.mp hi]
    exact h

end Cursor

namespace Frames

variable {w : Walker}

/-- The number of frames still to pass over. -/
def debt (f : Frames) : Nat := (-f.depth).toNat

/-! ## One address -/

/-- The steps still to pass over and one more succeed: the address reached is yielded. -/
theorem next_of_goes {f : Frames} {n : Nat} (hn : f.debt = n)
    (hmax : f.depth + n < f.maxDepth) (hgoes : f.cursor.Goes w (n + 1)) :
    (f.next w).pc = some (f.cursor.nth w (n + 1)).context.pc ∧
      (f.next w).frames = ⟨f.cursor.nth w (n + 1), f.depth + n + 1, f.maxDepth⟩ := by
  -- The induction is on the frames that are still to be passed over.
  unfold debt at hn
  induction n generalizing f with
  | zero =>
    have hrecovered := (f.cursor.goes_one w).mp hgoes
    rw [next, if_pos (by omega), if_pos hrecovered, if_pos (by dsimp only; omega)]
    refine ⟨rfl, ?_⟩
    rw [Int.natCast_zero, Int.add_zero]
    rfl
  | succ n ih =>
    rw [Nat.add_comm (n + 1), Cursor.goes_add, Cursor.goes_one] at hgoes
    obtain ⟨hrecovered, hgoes⟩ := hgoes
    rw [next, if_pos (by omega), if_pos hrecovered, if_neg (by dsimp only; omega)]
    have h := @ih ⟨f.cursor.after (f.cursor.step w), f.depth + 1, f.maxDepth⟩
      (by dsimp only; omega) (by dsimp only; omega) hgoes
    rw [Nat.add_comm (n + 1), Cursor.nth_add]
    refine ⟨h.1, h.2.trans ?_⟩
    dsimp only
    congr 1
    omega

/-- The walk is over: because it is deep enough, or because one of the steps fails. -/
theorem next_of_ends {f : Frames} {n : Nat} (hn : f.debt = n)
    (hends : ¬ (f.depth + n < f.maxDepth ∧ f.cursor.Goes w (n + 1))) :
    (f.next w).pc = none ∧ (f.next w).frames.maxDepth ≤ (f.next w).frames.depth := by
  unfold debt at hn
  induction n generalizing f with
  | zero =>
    rw [next]
    by_cases hdepth : f.depth < f.maxDepth
    · have hfailed : ¬ (f.cursor.step w).recovered = true := by
        intro hrecovered
        exact hends ⟨by omega, (f.cursor.goes_one w).mpr hrecovered⟩
      rw [if_pos hdepth, if_neg hfailed]
      exact ⟨rfl, Int.le_refl _⟩
    · rw [if_neg hdepth]
      exact ⟨rfl, Int.not_lt.mp hdepth⟩
  | succ n ih =>
    rw [next]
    by_cases hdepth : f.depth < f.maxDepth
    · rw [if_pos hdepth]
      by_cases hrecovered : (f.cursor.step w).recovered = true
      · rw [if_pos hrecovered, if_neg (by dsimp only; omega)]
        refine @ih ⟨f.cursor.after (f.cursor.step w), f.depth + 1, f.maxDepth⟩
          (by dsimp only; omega) ?_
        rintro ⟨hmax, hgoes⟩
        dsimp only at hmax
        refine hends ⟨by omega, ?_⟩
        rw [Nat.add_comm (n + 1), Cursor.goes_add, Cursor.goes_one]
        exact ⟨hrecovered, hgoes⟩
      · rw [if_neg hrecovered]
        exact ⟨rfl, Int.le_refl _⟩
    · rw [if_neg hdepth]
      exact ⟨rfl, Int.not_lt.mp hdepth⟩

/-! ## All addresses -/

/-- What the `j`-th request yields, counted from zero: the address after the steps passed over and
`j + 1` more, if the walk gets there. -/
def pcAt (w : Walker) (f : Frames) (j : Nat) : Option UInt64 :=
  if f.depth + f.debt + j < f.maxDepth ∧ f.cursor.Goes w (f.debt + j + 1) then
    some (f.cursor.nth w (f.debt + j + 1)).context.pc
  else none

theorem pc_of_next (f : Frames) : (f.next w).pc = f.pcAt w 0 := by
  unfold pcAt
  rw [Int.natCast_zero, Int.add_zero, Nat.add_zero]
  by_cases hgoes : f.depth + f.debt < f.maxDepth ∧ f.cursor.Goes w (f.debt + 1)
  · rw [if_pos hgoes, (next_of_goes rfl hgoes.1 hgoes.2).1]
  · rw [if_neg hgoes, (next_of_ends rfl hgoes).1]

/-- A walk goes on where the request before has left it. -/
theorem pcAt_of_next (f : Frames) (j : Nat) :
    (f.next w).frames.pcAt w j = f.pcAt w (j + 1) := by
  have hsum : f.debt + (j + 1) + 1 = (f.debt + 1) + (j + 1) := by omega
  unfold pcAt
  rw [hsum]
  by_cases hgoes : f.depth + f.debt < f.maxDepth ∧ f.cursor.Goes w (f.debt + 1)
  · obtain ⟨_, hframes⟩ := next_of_goes rfl hgoes.1 hgoes.2
    -- From the first address on there is nothing to pass over any more.
    have hdebt : (f.next w).frames.debt = 0 := by
      rw [hframes]
      unfold debt
      dsimp only
      omega
    rw [hdebt, Nat.zero_add, hframes]
    dsimp only
    rw [← Cursor.nth_add]
    have hiff : (f.depth + f.debt + 1 + (0 : Nat) + j < f.maxDepth ∧
          (f.cursor.nth w (f.debt + 1)).Goes w (j + 1)) ↔
        f.depth + f.debt + (j + 1 : Nat) < f.maxDepth ∧
          f.cursor.Goes w (f.debt + 1 + (j + 1)) := by
      rw [Cursor.goes_add w f.cursor (f.debt + 1) (j + 1)]
      constructor
      · rintro ⟨hdepth, hnext⟩
        exact ⟨by omega, hgoes.2, hnext⟩
      · rintro ⟨hdepth, _, hnext⟩
        exact ⟨by omega, hnext⟩
    exact if_congr hiff rfl rfl
  · obtain ⟨_, hends⟩ := next_of_ends rfl hgoes
    rw [if_neg (by omega), if_neg]
    rintro ⟨hdepth, hnext⟩
    rw [Cursor.goes_add] at hnext
    exact hgoes ⟨by omega, hnext.1⟩

/-- Asking `n` times yields the addresses in order, and nothing once the walk is deep enough or a
step has failed. -/
theorem pcs_of_yields (n : Nat) (f : Frames) :
    (yields w n f).map (·.pc) = (List.range n).map (f.pcAt w) := by
  induction n generalizing f with
  | zero => rfl
  | succ n ih =>
    have htail : (f.next w).frames.pcAt w = f.pcAt w ∘ Nat.succ := funext (pcAt_of_next f)
    rw [yields, List.map_cons, List.range_succ_eq_map, List.map_cons, List.map_map, ih,
      pc_of_next, htail]

end Frames

end Unwind
