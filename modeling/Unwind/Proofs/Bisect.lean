import Unwind.Bisect

/-!
# The element that a search by halving finds

`Split p xs` says that the elements with `p` come first, which is what a search by halving relies
on. For such an array `lastSatisfying?` is the last element with `p`.
-/

namespace Unwind

/-- The elements with `p` come before all the others. -/
def Split {α : Type} (p : α → Bool) (xs : List α) : Prop :=
  xs.Pairwise fun x y => p y = true → p x = true

namespace Split

theorem nil {α : Type} (p : α → Bool) : Split p [] := List.Pairwise.nil

/-- An element in front of one with `p` has `p`. -/
theorem getElem {α : Type} {p : α → Bool} {xs : List α} (h : Split p xs) {i j : Nat}
    (hj : j < xs.length) (hij : i ≤ j) (hp : p xs[j] = true) : p xs[i] = true := by
  rcases Nat.lt_or_eq_of_le hij with hlt | rfl
  · exact List.pairwise_iff_getElem.mp h i j (by omega) hj hlt hp
  · exact hp

/-- A list ordered by a key is split by every upper bound on the key. -/
theorem of_pairwise {α κ : Type} [LE κ] [DecidableLE κ]
    (trans : ∀ {a b c : κ}, a ≤ b → b ≤ c → a ≤ c) (key : α → κ) (bound : κ) {xs : List α}
    (h : xs.Pairwise fun x y => key x ≤ key y) : Split (fun x => decide (key x ≤ bound)) xs := by
  apply h.imp
  intro x y hxy hy
  rw [decide_eq_true_eq] at hy ⊢
  exact trans hxy hy

end Split

/-- What lies below the boundary satisfies the predicate, and the rest does not. -/
theorem partitionPointIn_spec {α : Type} (p : α → Bool) (xs : Array α) (lo hi : Nat)
    (bound : hi ≤ xs.size) (split : Split p xs.toList) (ordered : lo ≤ hi)
    (below : ∀ i (h : i < xs.size), i < lo → p xs[i] = true)
    (above : ∀ i (h : i < xs.size), hi ≤ i → p xs[i] = false) :
    ∀ i (h : i < xs.size), p xs[i] = decide (i < partitionPointIn p xs lo hi bound) := by
  fun_induction partitionPointIn p xs lo hi bound with
  | case1 lo hi bound hlt mid inside hp ih =>
    apply ih (by omega) _ above
    intro i hi' hile
    exact split.getElem (by rwa [Array.length_toList]) (by omega : i ≤ mid) hp
  | case2 lo hi bound hlt mid inside hp ih =>
    apply ih (by omega) below
    intro i hi' hmid
    rw [Bool.eq_false_iff]
    intro htrue
    exact hp (split.getElem (by rwa [Array.length_toList]) hmid htrue)
  | case3 lo hi bound hlt =>
    intro i hi'
    have hends : lo = hi := by omega
    rcases Nat.lt_or_ge i lo with hi'' | hi''
    · rw [below i hi' hi'', decide_eq_true hi'']
    · rw [above i hi' (by omega), decide_eq_false (by omega)]

/-- The elements up to the partition point are the ones that satisfy the predicate. -/
theorem take_partitionPoint {α : Type} (p : α → Bool) (xs : Array α) (split : Split p xs.toList) :
    xs.toList.take (partitionPoint p xs) = xs.toList.filter p := by
  have spec := partitionPointIn_spec p xs 0 xs.size (Nat.le_refl _) split (Nat.zero_le _)
    (fun _ _ h => absurd h (Nat.not_lt_zero _)) (fun i h hge => absurd h (by omega))
  change ∀ i (h : i < xs.size), p xs[i] = decide (i < partitionPoint p xs) at spec
  generalize partitionPoint p xs = k at spec ⊢
  have htake : (xs.toList.take k).filter p = xs.toList.take k := by
    rw [List.filter_eq_self]
    intro x hx
    obtain ⟨i, hi, rfl⟩ := List.mem_take_iff_getElem.mp hx
    rw [Array.getElem_toList, spec i (by rw [Array.length_toList] at hi; omega)]
    exact decide_eq_true (by omega)
  have hdrop : (xs.toList.drop k).filter p = [] := by
    rw [List.filter_eq_nil_iff]
    intro x hx
    obtain ⟨i, hi, rfl⟩ := List.mem_drop_iff_getElem.mp hx
    rw [Array.getElem_toList, spec (k + i) (by rw [Array.length_toList] at hi; omega)]
    simp
  rw [← List.take_append_drop k xs.toList, List.filter_append, htake, hdrop]
  simp

/-- The search by halving finds the last element that satisfies the predicate. -/
theorem lastSatisfying?_eq {α : Type} (p : α → Bool) (xs : Array α) (split : Split p xs.toList) :
    lastSatisfying? p xs = (xs.toList.filter p).getLast? := by
  rw [← take_partitionPoint p xs split]
  have hle := (partitionPointIn_bounds p xs 0 xs.size (Nat.le_refl _) (Nat.zero_le _)).2
  change partitionPoint p xs ≤ xs.size at hle
  unfold lastSatisfying?
  cases h : partitionPoint p xs with
  | zero => simp
  | succ n =>
    rw [h] at hle
    rw [List.getLast?_take, if_neg (by omega)]
    simp [Array.getElem?_eq_getElem hle]

end Unwind
