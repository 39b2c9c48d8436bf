import Unwind.Reader

/-!
# Reader lemmas — a reader only consumes

`Consumes r` says that whatever the reader does, and whether it succeeds or fails, what it leaves is
the section it was given without some bytes at the front. The property is closed under sequencing,
so it holds of every reader built from the primitives; it is what lets a loop over readers end.
-/

namespace Unwind

/-- The section that a reader leaves, after success or failure. -/
def Reader.leaves {α : Type} (r : Reader α) (s : Section) : Section :=
  match r s with
  | .ok _ t => t
  | .error _ t => t

/-- The reader leaves its section without some of the bytes at the front. -/
def Consumes {α : Type} (r : Reader α) : Prop :=
  ∀ s : Section, ∃ k ≤ s.size, r.leaves s = s.drop k

namespace Consumes

theorem ofPure {α : Type} (a : α) : Consumes (pure a : Reader α) :=
  fun s => ⟨0, Nat.zero_le _, by simp [Reader.leaves, pure, EStateM.pure]⟩

theorem ofThrow {α : Type} (e : CfiError) : Consumes (throw e : Reader α) :=
  fun s => ⟨0, Nat.zero_le _, (Section.drop_zero s).symm⟩

theorem ofBind {α β : Type} {r : Reader α} {f : α → Reader β} (hr : Consumes r)
    (hf : ∀ a, Consumes (f a)) : Consumes (r >>= f) := by
  intro s
  obtain ⟨j, hj, hleaves⟩ := hr s
  simp only [Reader.leaves] at hleaves
  cases h : r s with
  | ok a t =>
    rw [h] at hleaves
    subst hleaves
    obtain ⟨k, hk, hrest⟩ := hf a (s.drop j)
    rw [Section.size_drop] at hk
    refine ⟨j + k, by omega, ?_⟩
    rw [← Section.drop_drop, ← hrest]
    simp [Reader.leaves, bind, EStateM.bind, h]
  | error e t =>
    rw [h] at hleaves
    exact ⟨j, hj, by simp [Reader.leaves, bind, EStateM.bind, h, hleaves]⟩

theorem ofUnread : Consumes Reader.unread :=
  fun s => ⟨0, Nat.zero_le _, by simp [Reader.leaves, Reader.unread]⟩

theorem ofAddress : Consumes Reader.address :=
  fun s => ⟨0, Nat.zero_le _, by simp [Reader.leaves, Reader.address]⟩

theorem ofTake (n : Nat) : Consumes (Reader.take n) := by
  intro s
  by_cases h : s.size < n
  · exact ⟨0, Nat.zero_le _, by simp [Reader.leaves, Reader.take, h]⟩
  · exact ⟨n, by omega, by simp [Reader.leaves, Reader.take, h]⟩

theorem ofSkip (n : Nat) : Consumes (Reader.skip n) :=
  ofBind (ofTake n) fun _ => ofPure ()

theorem ofSplit (n : Nat) : Consumes (Reader.split n) :=
  ofBind ofAddress fun _ => ofBind (ofTake n) fun _ => ofPure _

theorem ofUint8 : Consumes Reader.uint8 := ofBind (ofTake 1) fun _ => ofPure _

theorem ofUint16 : Consumes Reader.uint16 := ofBind (ofTake 2) fun _ => ofPure _

theorem ofUint32 : Consumes Reader.uint32 := ofBind (ofTake 4) fun _ => ofPure _

theorem ofUint64 : Consumes Reader.uint64 := ofBind (ofTake 8) fun _ => ofPure _

theorem ofInt8 : Consumes Reader.int8 := ofBind ofUint8 fun _ => ofPure _

theorem ofInt16 : Consumes Reader.int16 := ofBind ofUint16 fun _ => ofPure _

theorem ofInt32 : Consumes Reader.int32 := ofBind ofUint32 fun _ => ofPure _

theorem ofInt64 : Consumes Reader.int64 := ofBind ofUint64 fun _ => ofPure _

theorem size_le {α : Type} {r : Reader α} (h : Consumes r) {s t : Section} {a : α}
    (heq : r s = .ok a t) : t.size ≤ s.size := by
  obtain ⟨k, _, hk⟩ := h s
  simp only [Reader.leaves, heq] at hk
  rw [hk, Section.size_drop]
  omega

end Consumes

theorem Reader.size_of_uint8 {s t : Section} {b : UInt8} (h : Reader.uint8 s = .ok b t) :
    t.size + 1 = s.size := by
  by_cases hs : s.size < 1
  · simp [Reader.uint8, bind, EStateM.bind, Reader.take, hs] at h
  · simp only [Reader.uint8, bind, EStateM.bind, Reader.take, hs, if_false, pure, EStateM.pure,
      EStateM.Result.ok.injEq] at h
    rw [← h.2, Section.size_drop]
    omega

end Unwind
