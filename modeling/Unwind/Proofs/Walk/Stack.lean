import Unwind.Proofs.Walk.Frames

/-!
# Well-formed stacks

A stack is well formed if each of its frames is laid out as the rule for its pc says: the CFA is
where the caller's frame begins, the return address is below it, and the caller's frame pointer is
where the rule has it. Every walk over such a stack yields its return addresses, all of them and
nothing else.
-/

namespace Unwind

namespace Walker

variable (w : Walker)

/-- The frame pointer of the caller is where a rule has it. A slot that is out of reach is not
looked at. -/
def FpLinks (fp : FpRule) (callee caller : Context) : Prop :=
  match fp with
  | .saved o =>
    if o.toInt.natAbs < w.limits.maxFrameSize.toNat then
      ∀ a, IsAt a caller.sp o.toInt → w.memory a = caller.fp
    else caller.fp = callee.fp
  | .unchanged => caller.fp = callee.fp
  | .pcRelative _ => False

/-- The frame of `callee` is laid out as the rule says and ends where that of `caller` begins, in a
walk that began at `sp0`. -/
structure Links (sp0 : UInt64) (rule : Rule) (callee caller : Context) : Prop where
  cfa : rule.row.Locates w.limits callee caller.sp
  aligned : caller.sp.toNat % 8 = 0
  above : callee.sp.toNat ≤ caller.sp.toNat
  near : caller.sp.toNat < callee.sp.toNat + w.limits.maxFrameSize.toNat
  within : caller.sp.toNat < sp0.toNat + w.limits.maxWalkSize.toNat
  ret : ∀ a, IsAt a caller.sp (-8) → w.memory a = caller.pc
  fp : w.FpLinks rule.row.fp callee caller
  code : w.limits.minValidPc.toNat ≤ caller.pc.toNat ∧
    caller.pc.toNat ≤ 2 ^ 64 - 1 - w.limits.minValidPc.toNat

/-- The cursor at a frame of the stack. -/
def cursorAt (act : Nat → Context) (i : Nat) : Cursor :=
  ⟨act i, saturatingAdd (act 0).sp w.limits.maxWalkSize, i = 0⟩

/-- The frames from the innermost, `act 0`, to the outermost, `act d`, from which there is no way
on. The call, and not the address returned to, decides which rule a caller has. -/
structure Stack (act : Nat → Context) (d : Nat) : Prop where
  links : ∀ i < d, w.Links (act 0).sp (w.ruleAt (if i = 0 then (act i).pc else (act i).pc - 1))
    (act i) (act (i + 1))
  outermost : ((w.cursorAt act d).step w).recovered = false

variable {w}

theorem caller_of_links {sp0 : UInt64} {rule : Rule} {callee caller : Context}
    (h : w.Links sp0 rule callee caller) :
    (callee.caller w.memory w.limits rule.row.fp caller.sp).1 = caller := by
  have hpc : w.memory (caller.sp - wordSize) = caller.pc := h.ret _ (isAt_below caller.sp)
  have hfp := h.fp
  unfold Context.caller
  unfold FpLinks at hfp
  cases hrule : rule.row.fp with
  | pcRelative delta =>
    rw [hrule] at hfp
    exact hfp.elim
  | unchanged =>
    rw [hrule] at hfp
    dsimp only at hfp ⊢
    rw [hpc, ← hfp]
  | saved o =>
    rw [hrule] at hfp
    dsimp only at hfp ⊢
    by_cases hreaches : o.toInt.natAbs < w.limits.maxFrameSize.toNat
    · rw [if_pos hreaches] at hfp
      rw [if_pos ((reaches_iff w.limits o).mpr hreaches)]
      dsimp only
      rw [hpc, hfp _ (isAt_offset caller.sp o)]
    · rw [if_neg hreaches] at hfp
      rw [if_neg (by rwa [reaches_iff])]
      dsimp only
      rw [hpc, ← hfp]

theorem step_of_links {sp0 : UInt64} {rule : Rule} {callee caller : Context}
    (h : w.Links sp0 rule callee caller) :
    ∃ loads, callee.step w.memory w.limits (saturatingAdd sp0 w.limits.maxWalkSize) rule =
      ⟨true, caller, loads⟩ := by
  have hwindow : w.limits.Window sp0 callee.sp caller.sp :=
    .of_lt h.above h.near h.within h.aligned
  rw [Context.step_of_window h.cfa hwindow, caller_of_links h, (isCode_iff _ _).mpr h.code]
  exact ⟨_, rfl⟩

namespace Stack

variable {act : Nat → Context} {d : Nat}

/-- From every frame but the outermost, a step leads to the next. -/
theorem step_of_lt (stack : w.Stack act d) {i : Nat} (hi : i < d) :
    ∃ loads, (w.cursorAt act i).step w = ⟨true, act (i + 1), loads⟩ := by
  have hlookup : (w.cursorAt act i).lookupPc = if i = 0 then (act i).pc else (act i).pc - 1 :=
    if_congr decide_eq_true_iff rfl rfl
  unfold Cursor.step
  rw [hlookup]
  exact step_of_links (stack.links i hi)

theorem nth_start (stack : w.Stack act d) {i : Nat} (hi : i ≤ d) :
    (Cursor.start w.limits (act 0)).nth w i = w.cursorAt act i := by
  induction i with
  | zero => rfl
  | succ i ih =>
    obtain ⟨loads, hstep⟩ := stack.step_of_lt hi
    rw [Cursor.nth_succ, ih (Nat.le_of_lt hi), hstep]
    unfold Cursor.after cursorAt
    rw [decide_eq_false (Nat.succ_ne_zero i)]

/-- Exactly the steps up to the outermost frame succeed. -/
theorem goes_iff (stack : w.Stack act d) (n : Nat) :
    (Cursor.start w.limits (act 0)).Goes w n ↔ n ≤ d := by
  constructor
  · intro hgoes
    -- Otherwise the step from the outermost frame would be one of them.
    by_contra hlt
    have hlast := hgoes d (Nat.lt_of_not_le hlt)
    rw [stack.nth_start (Nat.le_refl d), stack.outermost] at hlast
    exact Bool.false_ne_true hlast
  · intro hle i hi
    have hid : i < d := Nat.lt_of_lt_of_le hi hle
    obtain ⟨loads, hstep⟩ := stack.step_of_lt hid
    rw [stack.nth_start (Nat.le_of_lt hid), hstep]

end Stack

/-- Every walk over a well-formed stack yields the return addresses above the frames passed over, in
order, as many as it may and as there are, and then no more. -/
theorem pcs_of_stack {act : Nat → Context} {d : Nat} (stack : w.Stack act d) {m k : UInt64}
    (hm : m.toNat < 2 ^ 63) (hk : k.toNat < 2 ^ 63) (n : Nat) :
    (Frames.yields w n (w.frames (act 0) m k)).map (·.pc) = (List.range n).map fun j =>
      if j < m.toNat ∧ k.toNat + j + 1 ≤ d then some (act (k.toNat + j + 1)).pc else none := by
  rw [Frames.pcs_of_yields]
  apply List.map_congr_left
  intro j _
  have hdepth : (w.frames (act 0) m k).depth = -k.toNat := by
    unfold frames
    rw [toInt_toInt64_of_lt hk]
  have hmax : (w.frames (act 0) m k).maxDepth = m.toNat := toInt_toInt64_of_lt hm
  have hdebt : (w.frames (act 0) m k).debt = k.toNat := by
    unfold Frames.debt
    omega
  have hiff : ((w.frames (act 0) m k).depth + (w.frames (act 0) m k).debt + j <
        (w.frames (act 0) m k).maxDepth ∧
      (w.frames (act 0) m k).cursor.Goes w ((w.frames (act 0) m k).debt + j + 1)) ↔
      j < m.toNat ∧ k.toNat + j + 1 ≤ d := by
    change _ ∧ (Cursor.start w.limits (act 0)).Goes w _ ↔ _
    rw [stack.goes_iff, hdebt]
    omega
  unfold Frames.pcAt
  by_cases hj : j < m.toNat ∧ k.toNat + j + 1 ≤ d
  · rw [if_pos (hiff.mpr hj), if_pos hj, hdebt]
    exact congrArg (fun c => some c.context.pc) (stack.nth_start hj.2)
  · rw [if_neg hj]
    exact if_neg fun h => hj (hiff.mp h)

/-- A function that has just pushed the frame pointer, called by the last instruction of one with a
standard frame. -/
def smallWalker : Walker where
  code := some ⟨#[{
    name := "small"
    imageBase := 0x400000
    text := ⟨0x401000, 0x402000⟩
    table := #[⟨0x1000, .atEntry⟩, ⟨0x1004, ⟨.sp, 16, .saved (-16)⟩⟩, ⟨0x1100, .linked⟩,
      ⟨0x1108, .atEntry⟩] }]⟩
  limits := .default
  memory := fun a =>
    if a = 0x7000 then 0x7040 else if a = 0x7008 then 0x401108 else if a = 0x7048 then 0x555000
    else 0

def smallStack : Nat → Context
  | 0 => ⟨0x401004, 0x7000, 0x7040⟩
  | 1 => ⟨0x401108, 0x7010, 0x7040⟩
  | _ => ⟨0x555000, 0x7050, 0⟩

theorem links_zero : smallWalker.Links 0x7000 ⟨0x1004, ⟨.sp, 16, .saved (-16)⟩⟩ (smallStack 0)
    (smallStack 1) where
  cfa := show IsAt _ _ _ by decide
  aligned := by decide
  above := by decide
  near := by decide
  within := by decide
  ret a ha := by
    rw [ha.unique (show IsAt 0x7008 _ _ by decide)]
    rfl
  fp := fun a ha => by
    rw [ha.unique (show IsAt 0x7000 _ _ by decide)]
    rfl
  code := by decide

theorem links_one : smallWalker.Links 0x7000 ⟨0x1100, .linked⟩ (smallStack 1)
    (smallStack 2) where
  cfa := show IsAt _ _ _ by decide
  aligned := by decide
  above := by decide
  near := by decide
  within := by decide
  ret a ha := by
    rw [ha.unique (show IsAt 0x7048 _ _ by decide)]
    rfl
  fp := fun a ha => by
    rw [ha.unique (show IsAt 0x7040 _ _ by decide)]
    rfl
  code := by decide

theorem stack_small : smallWalker.Stack smallStack 2 where
  links i hi := by
    have hzero : smallWalker.ruleAt 0x401004 = ⟨0x1004, ⟨.sp, 16, .saved (-16)⟩⟩ := by
      decide +kernel
    have hone : smallWalker.ruleAt 0x401107 = ⟨0x1100, .linked⟩ := by decide +kernel
    obtain rfl | rfl : i = 0 ∨ i = 1 := by omega
    · change smallWalker.Links _ (smallWalker.ruleAt 0x401004) _ _
      rw [hzero]
      exact links_zero
    · change smallWalker.Links _ (smallWalker.ruleAt 0x401107) _ _
      rw [hone]
      exact links_one
  outermost := by decide +kernel

theorem pcs_of_stack_small :
    (Frames.yields smallWalker 3 (smallWalker.frames (smallStack 0) 8 0)).map (·.pc) =
      [some 0x401108, some 0x555000, none] :=
  pcs_of_stack stack_small (by decide) (by decide) 3

end Walker

end Unwind
