import Unwind.Proofs.Word
import Unwind.Step

/-!
# One step in exact numbers

`Row.Locates` says where the CFA of a frame is and `Limits.Window` which places for it are accepted,
without wrapping and without saturation. A step either finds the CFA in its window and goes on to
the caller, or refuses it and does nothing.
-/

namespace Unwind

/-! ## Where the CFA is -/

/-- The address `a` is this far from the address `base`, going around at the end of memory. -/
def IsAt (a base : UInt64) (distance : Int) : Prop :=
  (a.toNat : Int) = (base.toNat + distance) % 2 ^ 64

instance (a base : UInt64) (distance : Int) : Decidable (IsAt a base distance) :=
  inferInstanceAs (Decidable (_ = _))

theorem IsAt.unique {a b base : UInt64} {distance : Int} (ha : IsAt a base distance)
    (hb : IsAt b base distance) : a = b := by
  unfold IsAt at ha hb
  rw [← UInt64.toNat_inj]
  omega

theorem isAt_offset (base : UInt64) (o : Int32) : IsAt (base + wordOfOffset o) base o.toInt :=
  toNat_add_wordOfOffset base o

theorem isAt_offset_twice (base : UInt64) (o : Int32) :
    IsAt (base + wordOfOffset o * 2) base (2 * o.toInt) :=
  toNat_add_wordOfOffset_mul_two base o

theorem isAt_below (base : UInt64) : IsAt (base - wordSize) base (-8) :=
  toNat_sub_wordSize base

/-- The CFA of a frame by a row. -/
def Row.Locates (limits : Limits) (row : Row) (ctx : Context) (cfa : UInt64) : Prop :=
  match row.base with
  | .sp => IsAt cfa ctx.sp row.offset.toInt
  | .fp => IsAt cfa ctx.fp row.offset.toInt
  | .plt =>
    -- Late in a stub a second word has been pushed.
    if limits.pltParityThreshold.toNat ≤ ctx.pc.toNat % 16 then
      IsAt cfa ctx.sp (2 * row.offset.toInt)
    else IsAt cfa ctx.sp row.offset.toInt
  | .unsupported => False

theorem threshold_le_iff (limits : Limits) (pc : UInt64) :
    limits.pltParityThreshold ≤ pc &&& 15 ↔ limits.pltParityThreshold.toNat ≤ pc.toNat % 16 := by
  rw [UInt64.le_iff_toNat_le, UInt64.toNat_and]
  have hmod : pc.toNat &&& 15 = pc.toNat % 16 := Nat.and_two_pow_sub_one_eq_mod pc.toNat 4
  rw [show (15 : UInt64).toNat = 15 from rfl, hmod]

theorem some_iff_isAt {a cfa base : UInt64} {distance : Int} (h : IsAt a base distance) :
    some a = some cfa ↔ IsAt cfa base distance := by
  rw [Option.some.injEq]
  constructor
  · rintro rfl
    exact h
  · exact h.unique

theorem cfa?_eq_some_iff (ctx : Context) (limits : Limits) (row : Row) (cfa : UInt64) :
    ctx.cfa? limits row = some cfa ↔ row.Locates limits ctx cfa := by
  unfold Context.cfa? Row.Locates
  dsimp only
  cases row.base with
  | sp => exact some_iff_isAt (isAt_offset ctx.sp row.offset)
  | fp => exact some_iff_isAt (isAt_offset ctx.fp row.offset)
  | plt =>
    dsimp only
    by_cases hlate : limits.pltParityThreshold.toNat ≤ ctx.pc.toNat % 16
    · rw [if_pos ((threshold_le_iff limits ctx.pc).mpr hlate), if_pos hlate]
      exact some_iff_isAt (isAt_offset_twice ctx.sp row.offset)
    · rw [if_neg (by rwa [threshold_le_iff]), if_neg hlate]
      exact some_iff_isAt (isAt_offset ctx.sp row.offset)
  | unsupported => exact ⟨nofun, False.elim⟩

/-! ## Which places are accepted -/

/-- A CFA that is accepted for a frame at `sp` in a walk that began at `sp0`. No sum goes beyond the
largest word. -/
structure Limits.Window (limits : Limits) (sp0 sp cfa : UInt64) : Prop where
  above : sp.toNat ≤ cfa.toNat
  near : cfa.toNat < min (sp.toNat + limits.maxFrameSize.toNat) (2 ^ 64 - 1)
  within : cfa.toNat < min (sp0.toNat + limits.maxWalkSize.toNat) (2 ^ 64 - 1)
  aligned : cfa.toNat % 8 = 0

theorem admits_iff (limits : Limits) (sp0 sp cfa : UInt64) :
    limits.admits sp (saturatingAdd sp0 limits.maxWalkSize) cfa = true ↔
      limits.Window sp0 sp cfa := by
  have haligned : (cfa % wordSize == 0) = true ↔ cfa.toNat % 8 = 0 := by
    rw [beq_iff_eq, ← UInt64.toNat_inj, UInt64.toNat_mod]
    rfl
  unfold Limits.admits
  rw [Bool.and_eq_true, Bool.and_eq_true, Bool.and_eq_true, decide_eq_true_eq, decide_eq_true_eq,
    decide_eq_true_eq, haligned, UInt64.le_iff_toNat_le, UInt64.lt_iff_toNat_lt,
    UInt64.lt_iff_toNat_lt, toNat_saturatingAdd, toNat_saturatingAdd]
  constructor
  · rintro ⟨⟨⟨habove, hnear⟩, hwithin⟩, haligned⟩
    exact ⟨habove, hnear, hwithin, haligned⟩
  · rintro ⟨habove, hnear, hwithin, haligned⟩
    exact ⟨⟨⟨habove, hnear⟩, hwithin⟩, haligned⟩

/-- An aligned address is never the largest word, so the sums may be taken as they are. -/
theorem Limits.Window.of_lt {limits : Limits} {sp0 sp cfa : UInt64} (above : sp.toNat ≤ cfa.toNat)
    (near : cfa.toNat < sp.toNat + limits.maxFrameSize.toNat)
    (within : cfa.toNat < sp0.toNat + limits.maxWalkSize.toNat) (aligned : cfa.toNat % 8 = 0) :
    limits.Window sp0 sp cfa := by
  have hlt := cfa.toNat_lt
  exact ⟨above, by omega, by omega, aligned⟩

theorem isCode_iff (limits : Limits) (pc : UInt64) :
    limits.isCode pc = true ↔ limits.minValidPc.toNat ≤ pc.toNat ∧
      pc.toNat ≤ 2 ^ 64 - 1 - limits.minValidPc.toNat := by
  have hlt := limits.minValidPc.toNat_lt
  have hmax : (maxWord - limits.minValidPc).toNat = 2 ^ 64 - 1 - limits.minValidPc.toNat := by
    rw [UInt64.toNat_sub, toNat_maxWord, wordCount]
    omega
  unfold Limits.isCode
  rw [Bool.and_eq_true, decide_eq_true_eq, decide_eq_true_eq, UInt64.le_iff_toNat_le,
    UInt64.le_iff_toNat_le, hmax]

theorem reaches_iff (limits : Limits) (o : Int32) :
    limits.reaches o = true ↔ o.toInt.natAbs < limits.maxFrameSize.toNat :=
  decide_eq_true_iff

/-! ## The caller -/

namespace Context

variable (ctx : Context) (memory : Memory) (limits : Limits)

theorem sp_of_caller (fp : FpRule) (cfa : UInt64) :
    (ctx.caller memory limits fp cfa).1.sp = cfa := by
  unfold caller
  cases fp with
  | saved o => dsimp only; split <;> rfl
  | pcRelative delta => rfl
  | unchanged => rfl

/-- What is loaded is next to the CFA: the return address, and the frame pointer where its rule
says, if that is less than a frame away. -/
theorem loads_of_caller (fp : FpRule) (cfa : UInt64) {a : UInt64}
    (ha : a ∈ (ctx.caller memory limits fp cfa).2) :
    IsAt a cfa (-8) ∨ ∃ o, fp = .saved o ∧ o.toInt.natAbs < limits.maxFrameSize.toNat ∧
      IsAt a cfa o.toInt := by
  unfold caller at ha
  cases fp with
  | pcRelative delta => cases ha
  | unchanged =>
    rw [List.mem_singleton] at ha
    subst ha
    exact .inl (isAt_below cfa)
  | saved o =>
    dsimp only at ha
    by_cases hreaches : limits.reaches o = true
    · rw [if_pos hreaches, List.mem_cons, List.mem_singleton] at ha
      obtain rfl | rfl := ha
      · exact .inr ⟨o, rfl, (reaches_iff limits o).mp hreaches, isAt_offset cfa o⟩
      · exact .inl (isAt_below cfa)
    · rw [if_neg hreaches, List.mem_singleton] at ha
      subst ha
      exact .inl (isAt_below cfa)

theorem length_loads_of_caller (fp : FpRule) (cfa : UInt64) :
    (ctx.caller memory limits fp cfa).2.length ≤ 2 := by
  unfold caller
  cases fp with
  | saved o =>
    dsimp only
    split
    · exact Nat.le_refl 2
    · exact Nat.le_succ 1
  | pcRelative delta => exact Nat.zero_le 2
  | unchanged => exact Nat.le_succ 1

variable {ctx memory limits} {sp0 : UInt64} {rule : Rule}

/-- The CFA is accepted: the step goes on to the caller. -/
theorem step_of_window {cfa : UInt64} (hcfa : rule.row.Locates limits ctx cfa)
    (hwindow : limits.Window sp0 ctx.sp cfa) :
    ctx.step memory limits (saturatingAdd sp0 limits.maxWalkSize) rule =
      ⟨limits.isCode (ctx.caller memory limits rule.row.fp cfa).1.pc,
        (ctx.caller memory limits rule.row.fp cfa).1,
        (ctx.caller memory limits rule.row.fp cfa).2⟩ := by
  unfold step
  rw [(cfa?_eq_some_iff ctx limits rule.row cfa).mpr hcfa, Option.filter_some,
    if_pos ((admits_iff limits sp0 ctx.sp cfa).mpr hwindow)]

/-- There is no CFA, or it is refused: the step fails, loads nothing and changes nothing. -/
theorem step_of_refused
    (h : ∀ cfa, rule.row.Locates limits ctx cfa → ¬ limits.Window sp0 ctx.sp cfa) :
    ctx.step memory limits (saturatingAdd sp0 limits.maxWalkSize) rule = ⟨false, ctx, []⟩ := by
  unfold step
  cases hcfa : ctx.cfa? limits rule.row with
  | none => rfl
  | some cfa =>
    have hwindow := h cfa ((cfa?_eq_some_iff ctx limits rule.row cfa).mp hcfa)
    rw [Option.filter_some, if_neg (by rwa [admits_iff])]

theorem step_cases (ctx : Context) (memory : Memory) (limits : Limits) (sp0 : UInt64)
    (rule : Rule) :
    (∃ cfa, rule.row.Locates limits ctx cfa ∧ limits.Window sp0 ctx.sp cfa ∧
      ctx.step memory limits (saturatingAdd sp0 limits.maxWalkSize) rule =
        ⟨limits.isCode (ctx.caller memory limits rule.row.fp cfa).1.pc,
          (ctx.caller memory limits rule.row.fp cfa).1,
          (ctx.caller memory limits rule.row.fp cfa).2⟩) ∨
    (∀ cfa, rule.row.Locates limits ctx cfa → ¬ limits.Window sp0 ctx.sp cfa) ∧
      ctx.step memory limits (saturatingAdd sp0 limits.maxWalkSize) rule = ⟨false, ctx, []⟩ := by
  by_cases h : ∃ cfa, rule.row.Locates limits ctx cfa ∧ limits.Window sp0 ctx.sp cfa
  · obtain ⟨cfa, hcfa, hwindow⟩ := h
    exact .inl ⟨cfa, hcfa, hwindow, step_of_window hcfa hwindow⟩
  · have hrefused : ∀ cfa, rule.row.Locates limits ctx cfa → ¬ limits.Window sp0 ctx.sp cfa :=
      fun cfa hcfa hwindow => h ⟨cfa, hcfa, hwindow⟩
    exact .inr ⟨hrefused, step_of_refused hrefused⟩

end Context

end Unwind
