import Unwind.Pointer

/-!
# Reading in two places

Bytes are placed at an address, and the same bytes `d` further on. `Moves d R r q` says of two
readers that on such a pair of sections either both fail, or both succeed with values that `R`
relates and leave the same bytes. Addresses that are stored relative to a place move along with it.
-/

namespace Unwind

/-- The same bytes, `d` further on. -/
def Section.moved (d : UInt64) (s : Section) : Section := ⟨s.address + d, s.bytes⟩

namespace Section

variable (d : UInt64) (s : Section)

@[simp] theorem bytes_moved : (s.moved d).bytes = s.bytes := rfl

@[simp] theorem size_moved : (s.moved d).size = s.size := rfl

@[simp] theorem address_moved : (s.moved d).address = s.address + d := rfl

theorem drop_moved (k : Nat) : (s.moved d).drop k = (s.drop k).moved d := by
  have h : s.address + d + k.toUInt64 = s.address + k.toUInt64 + d := by grind
  simp only [drop, moved, h]

end Section

namespace Placement

/-! ## Results -/

/-- Both computations fail, or both succeed with related values. Their errors may differ, since they
carry addresses. -/
inductive Alike {α β : Type} (R : α → β → Prop) : Except CfiError α → Except CfiError β → Prop
  | ok {a b} (h : R a b) : Alike R (.ok a) (.ok b)
  | error (e e') : Alike R (.error e) (.error e')

/-- The same for readers, of which one leaves the same bytes as the other, `d` further on. -/
inductive Outcome (d : UInt64) {α β : Type} (R : α → β → Prop) :
    EStateM.Result CfiError Section α → EStateM.Result CfiError Section β → Prop
  | ok {a b s} (h : R a b) : Outcome d R (.ok a s) (.ok b (s.moved d))
  | error (e e' s s') : Outcome d R (.error e s) (.error e' s')

/-- Wherever the bytes are, the one reader does with them what the other does `d` further on. -/
def Moves (d : UInt64) {α β : Type} (R : α → β → Prop) (r : Reader α) (q : Reader β) : Prop :=
  ∀ s : Section, Outcome d R (r s) (q (s.moved d))

variable {d : UInt64} {α β γ δ : Type} {R : α → β → Prop} {S : γ → δ → Prop}

namespace Alike

theorem refl (x : Except CfiError α) : Alike Eq x x := by
  cases x with
  | ok a => exact .ok rfl
  | error e => exact .error e e

theorem bind {x : Except CfiError α} {y : Except CfiError β} {f : α → Except CfiError γ}
    {g : β → Except CfiError δ} (h : Alike R x y) (hf : ∀ a b, R a b → Alike S (f a) (g b)) :
    Alike S (x >>= f) (y >>= g) := by
  cases h with
  | ok h => exact hf _ _ h
  | error e e' => exact .error e e'

theorem bindEq {x y : Except CfiError α} {f : α → Except CfiError γ} {g : α → Except CfiError δ}
    (h : Alike Eq x y) (hf : ∀ a, Alike S (f a) (g a)) : Alike S (x >>= f) (y >>= g) :=
  h.bind fun a _ hab => hab ▸ hf a

end Alike

namespace Outcome

/-- Sequencing, with what the first reader did on the section at hand. -/
theorem bind {r : Reader α} {q : Reader β} {f : α → Reader γ} {g : β → Reader δ} {s : Section}
    (h : Outcome d R (r s) (q (s.moved d)))
    (hf : ∀ a b t, r s = .ok a t → R a b → Outcome d S (f a t) (g b (t.moved d))) :
    Outcome d S ((r >>= f) s) ((q >>= g) (s.moved d)) := by
  change Outcome d S (EStateM.bind r f s) (EStateM.bind q g (s.moved d))
  unfold EStateM.bind
  -- The first run is kept as an equation: what follows may depend on which bytes were read.
  generalize hr : r s = x at h
  generalize q (s.moved d) = y at h
  cases h with
  | ok h => exact hf _ _ _ hr h
  | error e e' t t' => exact .error e e' t t'

theorem on {r : Reader α} {q : Reader β} {s : Section} (h : Outcome d R (r s) (q (s.moved d))) :
    Alike R (r.on s) (q.on (s.moved d)) := by
  unfold Reader.on
  generalize r s = x at h
  generalize q (s.moved d) = y at h
  cases h with
  | ok h => exact .ok h
  | error e e' => exact .error e e'

end Outcome

namespace Moves

theorem pure {a : α} {b : β} (h : R a b) : Moves d R (Pure.pure a) (Pure.pure b) :=
  fun _ => .ok h

theorem throw (e e' : CfiError) : Moves d R (throw e : Reader α) (throw e' : Reader β) :=
  fun s => .error e e' s (s.moved d)

theorem bind {r : Reader α} {q : Reader β} {f : α → Reader γ} {g : β → Reader δ}
    (h : Moves d R r q) (hf : ∀ a b, R a b → Moves d S (f a) (g b)) :
    Moves d S (r >>= f) (q >>= g) :=
  fun s => (h s).bind fun a b t _ hab => hf a b hab t

theorem bindEq {r q : Reader α} {f : α → Reader γ} {g : α → Reader δ} (h : Moves d Eq r q)
    (hf : ∀ a, Moves d S (f a) (g a)) : Moves d S (r >>= f) (q >>= g) :=
  h.bind fun a _ hab => hab ▸ hf a

/-- Either reader may come first, by a condition that does not depend on the place. -/
theorem ite_bind {r r' : Reader α} {f : α → Reader γ} {g : α → Reader δ} {c : Bool}
    (h : Moves d Eq r r) (h' : Moves d Eq r' r') (hf : ∀ a, Moves d S (f a) (g a)) :
    Moves d S (if c then r >>= f else r' >>= f) (if c then r >>= g else r' >>= g) := by
  split
  · exact h.bindEq hf
  · exact h'.bindEq hf

theorem throw_bind (e e' : CfiError) (f : α → Reader γ) (g : β → Reader δ) :
    Moves d S (MonadExcept.throw e >>= f) (MonadExcept.throw e' >>= g) :=
  (throw (R := fun _ _ => False) e e').bind fun _ _ h => h.elim

theorem map {r : Reader α} {q : Reader β} {f : α → γ} {g : β → δ} (h : Moves d R r q)
    (hf : ∀ a b, R a b → S (f a) (g b)) :
    Moves d S (r >>= fun a => Pure.pure (f a)) (q >>= fun b => Pure.pure (g b)) :=
  h.bind fun a b hab => pure (hf a b hab)

theorem lift {x : Except CfiError α} {y : Except CfiError β} (h : Alike R x y) :
    Moves d R (Reader.lift x) (Reader.lift y) := by
  cases h with
  | ok h => exact pure h
  | error e e' => exact throw e e'

/-! ## Bytes and numbers -/

theorem unread : Moves d (fun s t => t = s.moved d) Reader.unread Reader.unread :=
  fun _ => .ok rfl

theorem address : Moves d (fun a b => b = a + d) Reader.address Reader.address :=
  fun _ => .ok rfl

theorem take (n : Nat) : Moves d Eq (Reader.take n) (Reader.take n) := by
  intro s
  unfold Reader.take
  rw [Section.size_moved, Section.bytes_moved, Section.drop_moved]
  split
  · exact .error _ _ _ _
  · exact .ok rfl

theorem skip (n : Nat) : Moves d Eq (Reader.skip n) (Reader.skip n) :=
  (take n).map fun _ _ _ => rfl

theorem split (n : Nat) : Moves d (fun s t => t = s.moved d) (Reader.split n) (Reader.split n) := by
  refine address.bind fun a b hab => (take n).bindEq fun bytes => pure ?_
  rw [hab]
  rfl

theorem zeroTerminated : Moves d Eq Reader.zeroTerminated Reader.zeroTerminated := by
  intro s
  unfold Reader.zeroTerminated
  rw [Section.bytes_moved]
  split
  · rw [Section.drop_moved]
    exact .ok rfl
  · exact .error _ _ _ _

theorem apply {r : Reader α} (h : Moves d Eq r r) (f : α → γ) :
    Moves d Eq (r >>= fun a => Pure.pure (f a)) (r >>= fun a => Pure.pure (f a)) :=
  h.bindEq fun _ => pure rfl

theorem uint8 : Moves d Eq Reader.uint8 Reader.uint8 := (take 1).apply _

theorem uint16 : Moves d Eq Reader.uint16 Reader.uint16 := (take 2).apply _

theorem uint32 : Moves d Eq Reader.uint32 Reader.uint32 := (take 4).apply _

theorem uint64 : Moves d Eq Reader.uint64 Reader.uint64 := (take 8).apply _

theorem int8 : Moves d Eq Reader.int8 Reader.int8 := uint8.apply _

theorem int16 : Moves d Eq Reader.int16 Reader.int16 := uint16.apply _

theorem int32 : Moves d Eq Reader.int32 Reader.int32 := uint32.apply _

theorem int64 : Moves d Eq Reader.int64 Reader.int64 := uint64.apply _

theorem uleb128 : Moves d Eq Reader.uleb128 Reader.uleb128 := by
  intro s
  unfold Reader.uleb128
  rw [Section.bytes_moved]
  split
  · rw [Section.drop_moved]
    exact .ok rfl
  · exact .error _ _ _ _
  · exact .error _ _ _ _

theorem sleb128 : Moves d Eq Reader.sleb128 Reader.sleb128 := by
  intro s
  unfold Reader.sleb128
  rw [Section.bytes_moved]
  split
  · rw [Section.drop_moved]
    exact .ok rfl
  · exact .error _ _ _ _

end Moves

/-! ## Pointers -/

/-- The encoding is relative to a place that moves along. -/
def Relative (encoding : UInt8) : Prop :=
  Pointer.Application.of encoding = .ok .pcRelative ∨
    Pointer.Application.of encoding = .ok .dataRelative

/-- The encoding is relative to nothing. -/
def Absolute (encoding : UInt8) : Prop :=
  Pointer.Application.of encoding = .ok .absolute

/-- What a pointer becomes when it moves: its encoding decides. -/
structure Shift (encoding : UInt8) (d x y : UInt64) : Prop where
  relative : Relative encoding → y = x + d
  absolute : Absolute encoding → y = x

/-- Data bases that move along, or none. -/
def Bases (d base base' : UInt64) : Prop :=
  base = 0 ∧ base' = 0 ∨ base ≠ 0 ∧ base' ≠ 0 ∧ base' = base + d

namespace Moves

theorem format (f : Pointer.Format) : Moves d Eq f.read f.read := by
  cases f with
  | word => exact uint64
  | uleb128 => exact uleb128
  | udata2 => exact uint16.apply _
  | udata4 => exact uint32.apply _
  | udata8 => exact uint64
  | sleb128 => exact sleb128.apply _
  | sdata2 => exact int16.apply _
  | sdata4 => exact int32.apply _
  | sdata8 => exact int64.apply _

/-- What the stored number is added to moves unless it is nothing. -/
theorem base {base base' : UInt64} (hbase : Bases d base base')
    (application : Pointer.Application) (field : UInt64) :
    Alike (fun x y => y = if application = .absolute then x else x + d)
      (application.base field base) (application.base (field + d) base') := by
  cases application with
  | absolute => exact .ok rfl
  | pcRelative => exact .ok rfl
  | dataRelative =>
    unfold Pointer.Application.base
    obtain ⟨hzero, hzero'⟩ | ⟨hne, hne', hmoved⟩ := hbase
    · rw [hzero, hzero']
      exact .error _ _
    · dsimp only
      rw [if_neg (by rwa [beq_iff_eq]), if_neg (by rwa [beq_iff_eq])]
      exact .ok hmoved

theorem pointer {base base' : UInt64} (hbase : Bases d base base') (encoding : UInt8) :
    Moves d (Shift encoding d) (Reader.pointer encoding base) (Reader.pointer encoding base') := by
  unfold Reader.pointer
  cases happlication : Pointer.Application.of encoding with
  | error e => exact throw e e
  | ok application =>
    refine (pure (R := fun x y => application = x ∧ application = y) ⟨rfl, rfl⟩).bind ?_
    rintro _ _ ⟨rfl, rfl⟩
    refine address.bind fun field field' hfield => ?_
    subst hfield
    refine (lift (Moves.base hbase application field)).bind fun x y hxy => ?_
    refine (lift (Alike.refl _)).bindEq fun f => (format f).bindEq fun n => pure ⟨?_, ?_⟩
    -- The same number is added to a base that has moved, or to nothing in both places.
    · intro hrelative
      have hne : application ≠ .absolute := by
        rintro rfl
        rw [Relative, happlication] at hrelative
        simp at hrelative
      rw [if_neg hne] at hxy
      subst hxy
      grind
    · intro habsolute
      rw [Absolute, happlication, Except.ok.injEq] at habsolute
      rw [if_pos habsolute] at hxy
      rw [hxy]

end Moves

end Placement

end Unwind
