import Mathlib.Data.FinEnum
import Mathlib.Data.Fintype.Pigeonhole
import Mathlib.Data.Nat.Count
import Unwind.Proofs.Walk.Frames

/-!
# How long a walk goes on

The stack pointer of a walk never moves down, and every time that it moves up it gets to a higher
word of the stack. So the size of the walk bounds how often that can happen, whatever the rules and
the memory are (`count_rises_le`). But a frame may be empty: its CFA is then the stack pointer that
was there before. Nothing bounds how many such frames follow each other, and a walk among them can
come back to a context that it has been at. From there it goes around for ever, and no other walk is
endless (`goes_iff_revisits`).
-/

namespace Unwind

namespace Context

def registers (ctx : Context) : UInt64 × UInt64 × UInt64 := (ctx.pc, ctx.sp, ctx.fp)

theorem registers_injective : Function.Injective registers := by
  rintro ⟨pc, sp, fp⟩ ⟨pc', sp', fp'⟩ h
  cases h
  rfl

instance : Finite Context := Finite.of_injective registers registers_injective

end Context

namespace Cursor

variable (w : Walker) (c : Cursor)

/-! ## Moving up -/

/-- The `n`-th try, counted from zero, moves the stack pointer up. -/
def Rises (n : Nat) : Prop :=
  (c.nth w n).context.sp < (c.nth w (n + 1)).context.sp

instance : DecidablePred (c.Rises w) :=
  fun n => inferInstanceAs (Decidable ((c.nth w n).context.sp < (c.nth w (n + 1)).context.sp))

theorem sp_mono (ctx : Context) :
    Monotone fun n => ((start w.limits ctx).nth w n).context.sp.toNat :=
  monotone_nat_of_le_succ fun n => (enveloped_nth w ctx n).mono

/-- A try that succeeds leaves the stack pointer at a CFA that was accepted. -/
theorem window_of_goes (ctx : Context) {n : Nat} (hgoes : (start w.limits ctx).Goes w (n + 1)) :
    w.limits.Window ctx.sp ((start w.limits ctx).nth w n).context.sp
      ((start w.limits ctx).nth w (n + 1)).context.sp :=
  (enveloped_nth w ctx n).sp (hgoes n (Nat.lt_succ_self n))

/-- The word that the stack pointer is in is higher by at least the number of times it has moved
up. -/
theorem count_rises_le_words (ctx : Context) {n : Nat} (hgoes : (start w.limits ctx).Goes w n) :
    ctx.sp.toNat / 8 + Nat.count ((start w.limits ctx).Rises w) n ≤
      ((start w.limits ctx).nth w n).context.sp.toNat / 8 := by
  induction n with
  | zero => exact Nat.le_refl _
  | succ n ih =>
    have hwords := ih fun i hi => hgoes i (Nat.lt_succ_of_lt hi)
    have hwindow := window_of_goes w ctx hgoes
    have habove := hwindow.above
    rw [Nat.count_succ]
    by_cases hrises : (start w.limits ctx).Rises w n
    · -- The stack pointer was below a word boundary and has got to it or past it.
      rw [if_pos hrises]
      have haligned := hwindow.aligned
      unfold Rises at hrises
      rw [UInt64.lt_iff_toNat_lt] at hrises
      omega
    · rw [if_neg hrises]
      omega

theorem count_rises_le (ctx : Context) {n : Nat} (hgoes : (start w.limits ctx).Goes w n) :
    Nat.count ((start w.limits ctx).Rises w) n ≤ (w.limits.maxWalkSize.toNat + 6) / 8 := by
  cases n with
  | zero => exact Nat.zero_le _
  | succ n =>
    have hwords := count_rises_le_words w ctx hgoes
    have hwindow := window_of_goes w ctx hgoes
    have hwithin := hwindow.within
    have haligned := hwindow.aligned
    omega

/-- Without empty frames a walk ends. -/
theorem goes_le_of_rises (ctx : Context) {n : Nat} (hgoes : (start w.limits ctx).Goes w n)
    (hrises : ∀ i < n, (start w.limits ctx).Rises w i) :
    n ≤ (w.limits.maxWalkSize.toNat + 6) / 8 := by
  have hcount := count_rises_le w ctx hgoes
  rwa [Nat.count_of_forall hrises] at hcount

/-! ## Going around -/

/-- The walk gets to a context for the second time. The frame that it starts from does not count:
the rule for it is looked up in another way. -/
def Revisits (i j : Nat) : Prop :=
  0 < i ∧ i < j ∧ c.Goes w j ∧ (c.nth w i).context = (c.nth w j).context

instance (i j : Nat) : Decidable (c.Revisits w i j) :=
  inferInstanceAs (Decidable (_ ∧ _ ∧ _ ∧ _))

theorem nth_succ_eq_mk (n : Nat) :
    c.nth w (n + 1) = ⟨(c.nth w (n + 1)).context, c.bottom, false⟩ := by
  rw [← bottom_nth w c (n + 1)]
  rfl

theorem nth_eq_of_context {i j : Nat} (hi : 0 < i) (hj : 0 < j)
    (h : (c.nth w i).context = (c.nth w j).context) : c.nth w i = c.nth w j := by
  obtain ⟨i, rfl⟩ := Nat.exists_eq_add_one.mpr hi
  obtain ⟨j, rfl⟩ := Nat.exists_eq_add_one.mpr hj
  rw [nth_succ_eq_mk, h, ← nth_succ_eq_mk]

/-- From a context that is visited twice the walk never gets away. -/
theorem goes_of_revisits {i j : Nat} (h : c.Revisits w i j) (n : Nat) : c.Goes w n := by
  obtain ⟨hi, hij, hgoes, hcontext⟩ := h
  have hsame := nth_eq_of_context w c hi (Nat.lt_trans hi hij) hcontext
  intro k _
  induction k using Nat.strong_induction_on with
  | h k ih =>
    by_cases hk : k < j
    · exact hgoes k hk
    · -- A whole turn earlier the walk was in the same place.
      have hturn : c.nth w k = c.nth w (i + (k - j)) := by
        rw [nth_add, hsame, ← nth_add, Nat.add_sub_cancel' (Nat.not_lt.mp hk)]
      rw [hturn]
      exact ih (i + (k - j)) (by omega) (by omega)

/-- The contexts are too few for a walk that does not end. -/
theorem exists_revisits (h : ∀ n, c.Goes w n) : ∃ i j, c.Revisits w i j := by
  obtain ⟨m, n, hne, hcontext⟩ :=
    Finite.exists_ne_map_eq_of_infinite fun n : Nat => (c.nth w (n + 1)).context
  obtain hlt | hlt := Nat.lt_or_gt_of_ne hne
  · exact ⟨m + 1, n + 1, Nat.succ_pos m, Nat.succ_lt_succ hlt, h _, hcontext⟩
  · exact ⟨n + 1, m + 1, Nat.succ_pos n, Nat.succ_lt_succ hlt, h _, hcontext.symm⟩

theorem goes_iff_revisits : (∀ n, c.Goes w n) ↔ ∃ i j, c.Revisits w i j :=
  ⟨exists_revisits w c, fun ⟨_, _, h⟩ => goes_of_revisits w c h⟩

/-! ## The whole walk -/

/-- Every walk, on any code, memory and registers. The caller's frame is never below; the limits
alone bound how often it is above and how long a walk without empty frames is; only empty frames lie
between two visits to a context; and a walk has no end exactly if it gets to a context twice. -/
theorem walk_progress (ctx : Context) :
    (∀ n, ((start w.limits ctx).nth w n).context.sp ≤
      ((start w.limits ctx).nth w (n + 1)).context.sp) ∧
    (∀ n, (start w.limits ctx).Goes w n →
      Nat.count ((start w.limits ctx).Rises w) n ≤ (w.limits.maxWalkSize.toNat + 6) / 8 ∧
      ((∀ i < n, (start w.limits ctx).Rises w i) → n ≤ (w.limits.maxWalkSize.toNat + 6) / 8)) ∧
    (∀ i j, ((start w.limits ctx).nth w i).context = ((start w.limits ctx).nth w j).context →
      ∀ k, i ≤ k → k < j → ¬ (start w.limits ctx).Rises w k) ∧
    ((∀ n, (start w.limits ctx).Goes w n) ↔ ∃ i j, (start w.limits ctx).Revisits w i j) := by
  refine ⟨fun n => UInt64.le_iff_toNat_le.mpr (sp_mono w ctx (Nat.le_succ n)),
    fun n hgoes => ⟨count_rises_le w ctx hgoes, goes_le_of_rises w ctx hgoes⟩,
    fun i j hcontext k hik hkj hrises => ?_, goes_iff_revisits w (start w.limits ctx)⟩
  have hbefore := sp_mono w ctx hik
  have hbehind := sp_mono w ctx (Nat.succ_le_of_lt hkj)
  unfold Rises at hrises
  rw [UInt64.lt_iff_toNat_lt] at hrises
  dsimp only at hbefore hbehind
  rw [hcontext] at hbefore
  exact absurd hrises (Nat.not_lt.mpr (Nat.le_trans hbehind hbefore))

/-- A stack with a saved frame pointer that points to itself. -/
def selfLinked : Walker where
  code := none
  limits := .default
  memory a := if a = 0x7100 then 0x7100 else if a = 0x7108 then 0x4242 else 0

/-- The walk over it stays at the second frame and has no end. -/
theorem endless_selfLinked :
    let c := start selfLinked.limits ⟨0x401000, 0x7000, 0x7100⟩
    (∀ n, c.Goes selfLinked n) ∧ c.Revisits selfLinked 1 2 := by
  intro c
  have hrevisits : c.Revisits selfLinked 1 2 := by decide +kernel
  exact ⟨goes_of_revisits selfLinked c hrevisits, hrevisits⟩

end Cursor

end Unwind
