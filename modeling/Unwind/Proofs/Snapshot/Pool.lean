import Mathlib.Logic.Basic
import Unwind.Snapshot

/-!
# The pool of a thread as a map

`Pool.get?` is the map that a pool stands for. Acquiring sets the lowest free number, releasing
clears one number, and replaying copies what the map has. A pool is sound if no slot claims to hold
more words than it does; only of such a pool can the whole snapshot be copied.
-/

namespace Unwind

namespace Handle

theorem toNat_raw_pos (h : Handle) : 0 < h.raw.toNat := by
  apply Nat.pos_of_ne_zero
  intro hzero
  exact h.raw_ne_zero (UInt64.toNat_inj.mp hzero)

theorem index_inj {h k : Handle} : h.index = k.index ↔ h = k := by
  have hpos := h.toNat_raw_pos
  have kpos := k.toNat_raw_pos
  constructor
  · intro heq
    unfold index at heq
    have hraw : h.raw = k.raw := UInt64.toNat_inj.mp (by omega)
    cases h
    cases k
    cases hraw
    rfl
  · rintro rfl
    rfl

theorem toNat_raw_ofIndex (i : Fin poolCapacity) : (ofIndex i).raw.toNat = i.val + 1 := by
  have hpos := (ofIndex i).toNat_raw_pos
  have hindex := index_ofIndex i
  unfold index at hindex
  omega

end Handle

namespace Pool

variable (p : Pool)

/-- No slot claims to hold more words than it does. -/
def Sound : Prop :=
  ∀ (i : Nat) (slot : Slot), p.slots[i]? = some slot → slot.size ≤ slot.stack.length

/-! ## The map -/

theorem get?_of_slot {i : Nat} {slot : Slot} (hslot : p.slots[i]? = some slot) :
    p.get? i = slot.snapshot? := by
  unfold get?
  rw [hslot, Option.bind_some]

theorem get?_empty (i : Nat) : empty.get? i = none := by
  unfold get? empty
  rw [Vector.getElem?_replicate]
  by_cases hi : i < poolCapacity
  · rw [if_pos hi]
    rfl
  · rw [if_neg hi]
    rfl

theorem get?_eq_none_iff {i : Nat} (hi : i < poolCapacity) :
    p.get? i = none ↔ p.slots[i].inUse = false := by
  rw [p.get?_of_slot (Vector.getElem?_eq_getElem hi)]
  unfold Slot.snapshot?
  cases p.slots[i].inUse with
  | false => exact ⟨fun _ => rfl, fun _ => rfl⟩
  | true => exact ⟨nofun, nofun⟩

theorem get?_set (i : Fin poolCapacity) (slot : Slot) (j : Nat) :
    (⟨p.slots.set i slot i.isLt⟩ : Pool).get? j = if j = i then slot.snapshot? else p.get? j := by
  unfold get?
  rw [Vector.getElem?_set]
  by_cases hj : j = i
  · rw [if_pos hj.symm, if_pos hj, Option.bind_some]
  · rw [if_neg fun h => hj h.symm, if_neg hj]

/-! ## Acquiring -/

/-- A snapshot is put aside under the lowest free number, or there is no free number. -/
theorem acquire_cases (stack : List UInt64) (size : Nat) :
    (∃ i : Fin poolCapacity, p.get? i = none ∧ (∀ j < i.val, p.get? j ≠ none) ∧
      p.acquire true stack size = some (.ofIndex i, ⟨p.slots.set i ⟨stack, size, true⟩ i.isLt⟩)) ∨
    (∀ i < poolCapacity, p.get? i ≠ none) ∧ p.acquire true stack size = none := by
  have hfind : p.slots.findFinIdx? (!·.inUse) =
      (p.slots.toArray.findFinIdx? (!·.inUse)).map (Fin.cast p.slots.size_toArray) := rfl
  unfold acquire
  rw [if_pos rfl, hfind]
  cases hfound : p.slots.toArray.findFinIdx? (!·.inUse) with
  | none =>
    rw [Array.findFinIdx?_eq_none_iff] at hfound
    refine .inr ⟨fun i hi hnone => ?_, rfl⟩
    have huse := (p.get?_eq_none_iff hi).mp hnone
    apply hfound p.slots[i] (Vector.getElem_mem hi).val
    rw [huse, Bool.not_false]
  | some i =>
    rw [Array.findFinIdx?_eq_some_iff] at hfound
    obtain ⟨hfree, hleast⟩ := hfound
    have hsize : p.slots.toArray.size = poolCapacity := p.slots.size_toArray
    have hi : i.val < poolCapacity := by omega
    refine .inl ⟨i.cast hsize, ?_, fun j hj hnone => ?_, rfl⟩
    · rw [p.get?_eq_none_iff (i := (i.cast hsize).val) hi]
      rwa [Bool.not_eq_true'] at hfree
    · have hji : j < i.val := hj
      rw [p.get?_eq_none_iff (by omega)] at hnone
      apply hleast ⟨j, by omega⟩ hji
      rw [Bool.not_eq_true']
      exact hnone

/-! ## Releasing -/

theorem get?_release (h : Handle) (j : Nat) :
    (p.release h).get? j = if j = h.index then none else p.get? j := by
  unfold release
  cases hslot : p.slots[h.index]? with
  | none =>
    have hnone : p.get? h.index = none := by
      unfold get?
      rw [hslot, Option.bind_none]
    dsimp only
    by_cases hj : j = h.index
    · rw [if_pos hj, hj, hnone]
    · rw [if_neg hj]
  | some slot =>
    unfold get?
    dsimp only
    rw [Vector.getElem?_setIfInBounds]
    by_cases hj : j = h.index
    · rw [if_pos hj.symm, if_pos hj]
      by_cases hlt : h.index < poolCapacity
      · rw [if_pos hlt]
        rfl
      · rw [if_neg hlt]
        rfl
    · rw [if_neg fun h => hj h.symm, if_neg hj]

/-! ## Replaying -/

/-- A snapshot is copied as far as it and the buffer reach; the rest of the buffer stays. -/
theorem replay_of_get? {h : Handle} {addresses : List UInt64} (hsound : p.Sound)
    (hget : p.get? h.index = some addresses) (buffer : List UInt64) :
    p.replay true h buffer =
      (addresses.take buffer.length ++ buffer.drop addresses.length,
        min addresses.length buffer.length) := by
  unfold replay
  rw [if_pos rfl]
  cases hslot : p.slots[h.index]? with
  | none =>
    unfold get? at hget
    rw [hslot] at hget
    cases hget
  | some slot =>
    have hsize := hsound h.index slot hslot
    rw [p.get?_of_slot hslot] at hget
    unfold Slot.snapshot? at hget
    by_cases huse : slot.inUse = true
    · rw [if_pos huse, Option.some.injEq] at hget
      have hlength : addresses.length = slot.size := by
        rw [← hget, List.length_take, Nat.min_eq_left hsize]
      have hdrop : buffer.drop (min slot.size buffer.length) = buffer.drop slot.size := by
        by_cases hle : slot.size ≤ buffer.length
        · rw [Nat.min_eq_left hle]
        · rw [Nat.min_eq_right (by omega), List.drop_length,
            List.drop_of_length_le (by omega)]
      dsimp only
      rw [if_pos huse, hlength, hdrop, ← hget, List.take_take, Nat.min_comm buffer.length]
    · rw [if_neg huse] at hget
      cases hget

theorem replay_of_get?_none {h : Handle} (hget : p.get? h.index = none) (enabled : Bool)
    (buffer : List UInt64) : p.replay enabled h buffer = (buffer, 0) := by
  unfold replay
  cases enabled with
  | false => rfl
  | true =>
    rw [if_pos rfl]
    cases hslot : p.slots[h.index]? with
    | none => rfl
    | some slot =>
      rw [p.get?_of_slot hslot] at hget
      unfold Slot.snapshot? at hget
      by_cases huse : slot.inUse = true
      · rw [if_pos huse] at hget
        cases hget
      · dsimp only
        rw [if_neg huse]

/-! ## Soundness -/

theorem sound_empty : empty.Sound := by
  intro i slot hslot
  unfold empty at hslot
  rw [Vector.getElem?_replicate] at hslot
  by_cases hi : i < poolCapacity
  · rw [if_pos hi, Option.some.injEq] at hslot
    rw [← hslot]
    exact Nat.zero_le _
  · rw [if_neg hi] at hslot
    cases hslot

variable {p}

theorem sound_set (hp : p.Sound) (i : Fin poolCapacity) {slot : Slot}
    (hsize : slot.size ≤ slot.stack.length) : (⟨p.slots.set i slot i.isLt⟩ : Pool).Sound := by
  intro j other hother
  rw [Vector.getElem?_set] at hother
  by_cases hj : i.val = j
  · rw [if_pos hj, Option.some.injEq] at hother
    rwa [← hother]
  · rw [if_neg hj] at hother
    exact hp j other hother

theorem sound_acquire (hp : p.Sound) {enabled : Bool} {stack : List UInt64} {size : Nat}
    (hsize : size ≤ stack.length) {h : Handle} {after : Pool}
    (hacquire : p.acquire enabled stack size = some (h, after)) : after.Sound := by
  cases enabled with
  | false => cases hacquire
  | true =>
    obtain ⟨i, -, -, hsome⟩ | ⟨-, hnone⟩ := p.acquire_cases stack size
    · rw [hsome, Option.some.injEq, Prod.mk.injEq] at hacquire
      rw [← hacquire.2]
      exact sound_set hp i hsize
    · rw [hnone] at hacquire
      cases hacquire

theorem sound_release (hp : p.Sound) (h : Handle) : (p.release h).Sound := by
  unfold release
  cases hslot : p.slots[h.index]? with
  | none => exact hp
  | some slot =>
    intro i other hother
    dsimp only at hother
    rw [Vector.getElem?_setIfInBounds] at hother
    by_cases hi : h.index = i
    · rw [if_pos hi] at hother
      by_cases hlt : h.index < poolCapacity
      · rw [if_pos hlt, Option.some.injEq] at hother
        rw [← hother]
        exact Nat.zero_le _
      · rw [if_neg hlt] at hother
        cases hother
    · rw [if_neg hi] at hother
      exact hp i other hother

end Pool

end Unwind
