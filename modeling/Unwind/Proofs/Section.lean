import Unwind.Section

/-!
# Sections inside the address space

A section that `Fits` ends before the address space does, so that the address behind its last byte
is a larger number than those of its bytes. Only then does looking up an address in it mean what it
should.
-/

namespace Unwind

namespace Section

/-- The address right behind the last byte is an address. -/
def Fits (s : Section) : Prop := s.address.toNat + s.size < wordCount

instance (s : Section) : Decidable s.Fits := inferInstanceAs (Decidable (_ < _))

theorem contains_iff {s : Section} (h : s.Fits) (a : UInt64) :
    s.contains a = true ↔ (a - s.address).toNat < s.size := by
  unfold Fits wordCount at h
  have ha := a.toNat_lt
  have hstop : s.stop.toNat = s.address.toNat + s.size := by
    unfold stop
    rw [UInt64.toNat_add, Nat.toUInt64_eq, UInt64.toNat_ofNat']
    omega
  unfold contains
  rw [Bool.and_eq_true, decide_eq_true_eq, decide_eq_true_eq, UInt64.le_iff_toNat_le,
    UInt64.lt_iff_toNat_lt, hstop, UInt64.toNat_sub]
  -- The difference wraps to a large number when the address is below the section.
  omega

theorem startingAt_append {a : UInt64} {front back : Bytes} (hne : back ≠ [])
    (h : Fits ⟨a, front ++ back⟩) :
    startingAt ⟨a, front ++ back⟩ (a + front.length.toUInt64) =
      .ok ⟨a + front.length.toUInt64, back⟩ := by
  have hback := List.length_pos_iff.mpr hne
  have hsize : size ⟨a, front ++ back⟩ = front.length + back.length := List.length_append
  have hdistance : (a + front.length.toUInt64 - a).toNat = front.length := by
    rw [Fits, hsize] at h
    dsimp only [wordCount] at h
    rw [UInt64.toNat_sub, UInt64.toNat_add, Nat.toUInt64_eq, UInt64.toNat_ofNat']
    omega
  have hcontains : contains ⟨a, front ++ back⟩ (a + front.length.toUInt64) = true := by
    rw [contains_iff h, hdistance, hsize]
    omega
  unfold startingAt
  rw [if_pos hcontains, hdistance]
  unfold drop
  rw [List.drop_left]

end Section

end Unwind
