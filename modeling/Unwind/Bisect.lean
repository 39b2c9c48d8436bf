/-!
# Bisect — the point where a predicate turns false

For an array in which the elements that satisfy a predicate come first, `partitionPoint` finds how
many there are by halving the interval that can still hold the boundary.
-/

namespace Unwind

/-- The boundary within `[lo, hi)`, given that everything below `lo` satisfies `p` and nothing from
`hi` on does. -/
def partitionPointIn {α : Type} (p : α → Bool) (xs : Array α) (lo hi : Nat)
    (bound : hi ≤ xs.size) : Nat :=
  if h : lo < hi then
    let mid := lo + (hi - lo) / 2
    have inside : mid < xs.size := by omega
    if p xs[mid] then partitionPointIn p xs (mid + 1) hi bound
    else partitionPointIn p xs lo mid (by omega)
  else lo
termination_by hi - lo

/-- The number of leading elements that satisfy `p`, provided none satisfies it after one that does
not. -/
def partitionPoint {α : Type} (p : α → Bool) (xs : Array α) : Nat :=
  partitionPointIn p xs 0 xs.size (Nat.le_refl _)

def lastSatisfying? {α : Type} (p : α → Bool) (xs : Array α) : Option α :=
  match partitionPoint p xs with
  | 0 => none
  | n + 1 => xs[n]?

theorem partitionPointIn_bounds {α : Type} (p : α → Bool) (xs : Array α) (lo hi : Nat)
    (bound : hi ≤ xs.size) (h : lo ≤ hi) :
    lo ≤ partitionPointIn p xs lo hi bound ∧ partitionPointIn p xs lo hi bound ≤ hi := by
  fun_induction partitionPointIn p xs lo hi bound with
  | case1 lo hi bound hlt mid inside hp ih =>
    have := ih (by omega)
    omega
  | case2 lo hi bound hlt mid inside hp ih =>
    have := ih (by omega)
    omega
  | case3 lo hi bound hlt => omega

end Unwind
