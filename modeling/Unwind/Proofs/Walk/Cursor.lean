import Unwind.Proofs.Walk.Step
import Unwind.Walk

/-!
# The envelope of a walk

`Cursor.nth` is where a cursor is after any number of tries, failed ones included. Whatever the
rules, the registers and the memory are, the stack pointer never moves down and never leaves the
bounds of the walk, and nothing is loaded but words next to a CFA that has been accepted.
-/

namespace Unwind

namespace Cursor

def nth (w : Walker) (c : Cursor) : Nat → Cursor
  | 0 => c
  | n + 1 => (nth w c n).after ((nth w c n).step w)

variable (w : Walker) (c : Cursor)

theorem nth_succ (n : Nat) : c.nth w (n + 1) = (c.nth w n).after ((c.nth w n).step w) := rfl

theorem nth_add (m n : Nat) : c.nth w (m + n) = (c.nth w m).nth w n := by
  induction n with
  | zero => rfl
  | succ n ih => rw [nth_succ, ← ih, ← nth_succ, Nat.add_assoc]

@[simp] theorem bottom_nth (n : Nat) : (c.nth w n).bottom = c.bottom := by
  induction n with
  | zero => rfl
  | succ n ih => exact ih

/-! ## One try -/

/-- What holds of one try in a walk that began at `sp0`. -/
structure Enveloped (w : Walker) (sp0 : UInt64) (c : Cursor) (s : Step) : Prop where
  -- Also a try that fails moves up or not at all.
  mono : c.context.sp.toNat ≤ s.context.sp.toNat
  sp : s.recovered = true → w.limits.Window sp0 c.context.sp s.context.sp
  pc : s.recovered = true → w.limits.minValidPc.toNat ≤ s.context.pc.toNat ∧
    s.context.pc.toNat ≤ 2 ^ 64 - 1 - w.limits.minValidPc.toNat
  loads : ∀ a ∈ s.loads, ∃ cfa, (w.ruleAt c.lookupPc).row.Locates w.limits c.context cfa ∧
    w.limits.Window sp0 c.context.sp cfa ∧
    (IsAt a cfa (-8) ∨ ∃ o, (w.ruleAt c.lookupPc).row.fp = .saved o ∧
      o.toInt.natAbs < w.limits.maxFrameSize.toNat ∧ IsAt a cfa o.toInt)
  few : s.loads.length ≤ 2
  pcRelative : ∀ delta, (w.ruleAt c.lookupPc).row.fp = .pcRelative delta → s.loads = []
  refused : (∀ cfa, (w.ruleAt c.lookupPc).row.Locates w.limits c.context cfa →
    ¬ w.limits.Window sp0 c.context.sp cfa) →
    s.recovered = false ∧ s.loads = [] ∧ s.context = c.context

theorem enveloped_of_bottom {sp0 : UInt64}
    (hbottom : c.bottom = saturatingAdd sp0 w.limits.maxWalkSize) :
    Enveloped w sp0 c (c.step w) := by
  unfold step
  rw [hbottom]
  obtain ⟨cfa, hcfa, hwindow, hstep⟩ | ⟨hrefused, hstep⟩ :=
    Context.step_cases c.context w.memory w.limits sp0 (w.ruleAt c.lookupPc)
  · rw [hstep]
    have hsp := Context.sp_of_caller c.context w.memory w.limits (w.ruleAt c.lookupPc).row.fp cfa
    constructor
    · rw [hsp]
      exact hwindow.above
    · intro _
      rwa [hsp]
    · exact (isCode_iff _ _).mp
    · exact fun a ha => ⟨cfa, hcfa, hwindow, Context.loads_of_caller _ _ _ _ _ ha⟩
    · exact Context.length_loads_of_caller _ _ _ _ _
    · intro delta hfp
      rw [hfp]
      rfl
    · exact fun hrefused => absurd hwindow (hrefused cfa hcfa)
  · rw [hstep]
    exact ⟨Nat.le_refl _, nofun, nofun, nofun, Nat.zero_le 2, fun _ _ => rfl,
      fun _ => ⟨rfl, rfl, rfl⟩⟩

/-! ## A whole walk -/

theorem enveloped_nth (ctx : Context) (n : Nat) :
    Enveloped w ctx.sp ((start w.limits ctx).nth w n) (((start w.limits ctx).nth w n).step w) := by
  apply enveloped_of_bottom
  rw [bottom_nth]
  rfl

/-- Every try of a walk stays in the envelope, and the stack pointer never moves down. -/
theorem walk_enveloped (ctx : Context) :
    (∀ n, Enveloped w ctx.sp ((start w.limits ctx).nth w n)
      (((start w.limits ctx).nth w n).step w)) ∧
    ∀ n k, ((start w.limits ctx).nth w n).context.sp ≤
      ((start w.limits ctx).nth w (n + k)).context.sp := by
  refine ⟨enveloped_nth w ctx, fun n k => ?_⟩
  induction k with
  | zero => exact UInt64.le_refl _
  | succ k ih =>
    have hmono := (enveloped_nth w ctx (n + k)).mono
    exact UInt64.le_trans ih (UInt64.le_iff_toNat_le.mpr hmono)

end Cursor

end Unwind
