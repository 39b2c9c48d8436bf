/-!
# Range — half-open ranges of addresses

A range holds the addresses from `start` up to but not including `stop`. A range whose `stop` does
not lie above its `start` is empty. The union of two ranges is the smallest range that covers both,
where an empty range covers nothing and so does not widen the other.
-/

namespace Unwind

/-- The addresses from `start` up to but not including `stop`. -/
structure Range where
  start : UInt64
  stop : UInt64
deriving DecidableEq, Repr, Inhabited

namespace Range

/-- The empty range that unions start from. -/
def empty : Range := ⟨0, 0⟩

def contains (r : Range) (a : UInt64) : Bool :=
  r.start ≤ a && a < r.stop

def size (r : Range) : UInt64 :=
  if r.start ≤ r.stop then r.stop - r.start else 0

def isEmpty (r : Range) : Bool :=
  r.size == 0

/-- The smallest range that covers both. -/
def union (r s : Range) : Range :=
  if r.isEmpty then s
  else if s.isEmpty then r
  else ⟨min r.start s.start, max r.stop s.stop⟩

theorem contains_iff (r : Range) (a : UInt64) :
    r.contains a = true ↔ r.start ≤ a ∧ a < r.stop := by
  simp [contains]

theorem isEmpty_iff (r : Range) : r.isEmpty = true ↔ r.stop ≤ r.start := by
  have hs := r.start.toNat_lt
  have ht := r.stop.toNat_lt
  simp only [isEmpty, size, beq_iff_eq, UInt64.le_iff_toNat_le]
  split
  · rename_i h
    rw [← UInt64.toNat_inj, UInt64.toNat_sub]
    simp only [UInt64.toNat_ofNat]
    omega
  · rename_i h
    simp only [true_iff]
    omega

end Range

end Unwind
