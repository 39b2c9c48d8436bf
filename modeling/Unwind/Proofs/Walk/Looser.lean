import Unwind.Proofs.Walk.Run

/-!
# Walks under looser limits

The limits decide whether a step may be taken, and never where it leads. So a walk that may reach
higher on the stack, and return to more addresses, goes through the same frames as the stricter one
as long as that goes on (`trail_loosened`). Only where the stricter walk ends can the two differ.
How large a frame may be is another matter, since it also decides which frame pointers are loaded.
-/

namespace Unwind

/-- `other` allows whatever `limits` does: a walk may reach at least as high, and at least the same
addresses can be code. What decides where a step leads is the same. -/
structure Limits.LoosenedTo (limits other : Limits) : Prop where
  frame : other.maxFrameSize = limits.maxFrameSize
  stub : other.pltParityThreshold = limits.pltParityThreshold
  walk : limits.maxWalkSize ≤ other.maxWalkSize
  code : other.minValidPc ≤ limits.minValidPc

namespace Limits.LoosenedTo

variable {limits other : Limits}

theorem cfa? (h : limits.LoosenedTo other) (ctx : Context) (row : Row) :
    ctx.cfa? other row = ctx.cfa? limits row := by
  unfold Context.cfa?
  rw [h.stub]

theorem caller (h : limits.LoosenedTo other) (ctx : Context) (memory : Memory) (fp : FpRule)
    (cfa : UInt64) : ctx.caller memory other fp cfa = ctx.caller memory limits fp cfa := by
  unfold Context.caller Limits.reaches
  rw [h.frame]

theorem admits (h : limits.LoosenedTo other) {sp bottom below cfa : UInt64} (hle : bottom ≤ below)
    (hadmits : limits.admits sp bottom cfa = true) : other.admits sp below cfa = true := by
  unfold Limits.admits at hadmits ⊢
  rw [h.frame]
  simp only [Bool.and_eq_true, decide_eq_true_eq] at hadmits ⊢
  obtain ⟨⟨hnear, hwithin⟩, haligned⟩ := hadmits
  exact ⟨⟨hnear, UInt64.lt_of_lt_of_le hwithin hle⟩, haligned⟩

theorem isCode (h : limits.LoosenedTo other) {pc : UInt64} (hcode : limits.isCode pc = true) :
    other.isCode pc = true := by
  have hmin := UInt64.le_iff_toNat_le.mp h.code
  rw [isCode_iff] at hcode ⊢
  omega

theorem bottom (h : limits.LoosenedTo other) (sp : UInt64) :
    saturatingAdd sp limits.maxWalkSize ≤ saturatingAdd sp other.maxWalkSize := by
  have hwalk := UInt64.le_iff_toNat_le.mp h.walk
  rw [UInt64.le_iff_toNat_le, toNat_saturatingAdd, toNat_saturatingAdd]
  omega

/-- A step that succeeds does the same. -/
theorem step (h : limits.LoosenedTo other) {ctx : Context} {memory : Memory}
    {bottom below : UInt64} {rule : Rule} (hle : bottom ≤ below)
    (hrecovered : (ctx.step memory limits bottom rule).recovered = true) :
    ctx.step memory other below rule = ctx.step memory limits bottom rule := by
  unfold Context.step at hrecovered ⊢
  rw [h.cfa?]
  cases hcfa : ctx.cfa? limits rule.row with
  | none => rfl
  | some cfa =>
    rw [hcfa] at hrecovered
    by_cases hadmits : limits.admits ctx.sp bottom cfa = true
    · rw [Option.filter_some, if_pos hadmits] at hrecovered
      rw [Option.filter_some, Option.filter_some, if_pos hadmits, if_pos (h.admits hle hadmits)]
      dsimp only at hrecovered ⊢
      rw [h.caller, hrecovered, h.isCode hrecovered]
    · rw [Option.filter_some, if_neg hadmits] at hrecovered
      cases hrecovered

end Limits.LoosenedTo

/-! ## Walks that go along -/

/-- Both cursors are at the same frame; the second may go at least as far. -/
structure Cursor.Within (c d : Cursor) : Prop where
  context : d.context = c.context
  first : d.first = c.first
  bottom : c.bottom ≤ d.bottom

/-- Both walks are at the same frame, and as deep; the second may go at least as far. -/
structure Frames.Within (f g : Frames) : Prop where
  cursor : f.cursor.Within g.cursor
  depth : g.depth = f.depth
  maxDepth : g.maxDepth = f.maxDepth

section

variable {w : Walker} {other : Limits}

theorem Cursor.Within.step {c d : Cursor} (h : c.Within d) (hlimits : w.limits.LoosenedTo other)
    (hrecovered : (c.step w).recovered = true) : d.step { w with limits := other } = c.step w := by
  have hlookup : d.lookupPc = c.lookupPc := by
    unfold Cursor.lookupPc
    rw [h.context, h.first]
  unfold Cursor.step at hrecovered ⊢
  rw [h.context, hlookup]
  exact hlimits.step h.bottom hrecovered

theorem Cursor.Within.after {c d : Cursor} (h : c.Within d) (s : Step) :
    (c.after s).Within (d.after s) :=
  ⟨rfl, rfl, h.bottom⟩

namespace Frames

/-- An address that the stricter walk yields is yielded by the other one too. -/
theorem Within.next {f g : Frames} (h : f.Within g) (hlimits : w.limits.LoosenedTo other)
    {pc : UInt64} (hpc : (f.next w).pc = some pc) :
    (g.next { w with limits := other }).pc = some pc ∧
      (f.next w).frames.Within (g.next { w with limits := other }).frames := by
  fun_induction Frames.next f w generalizing g with
  | case1 f hdepth s cursor hrecovered moved =>
    rename_i hmoved
    have hstep := h.cursor.step hlimits hrecovered
    rw [Frames.next, h.depth, h.maxDepth, if_pos hdepth, hstep, if_pos hrecovered, if_pos hmoved]
    exact ⟨hpc, h.cursor.after s, rfl, rfl⟩
  | case2 f hdepth s cursor hrecovered moved hmoved later =>
    rename_i ih
    have hstep := h.cursor.step hlimits hrecovered
    rw [Frames.next, h.depth, h.maxDepth, if_pos hdepth, hstep, if_pos hrecovered, if_neg hmoved]
    exact ih ⟨h.cursor.after s, rfl, rfl⟩ hpc
  | case3 f hdepth s cursor => cases hpc
  | case4 f hdepth => cases hpc

/-- The addresses that a walk yields when it is asked `n` times, each with the frame that the walk
has got to. -/
def trail (w : Walker) (n : Nat) (f : Frames) : List (UInt64 × Context) :=
  (yields w n f).filterMap fun y => y.pc.map fun pc => (pc, y.frames.cursor.context)

theorem trail_of_some (n : Nat) {f : Frames} {pc : UInt64} (h : (f.next w).pc = some pc) :
    f.trail w (n + 1) =
      (pc, (f.next w).frames.cursor.context) :: (f.next w).frames.trail w n := by
  unfold trail
  rw [yields, List.filterMap_cons, h]
  rfl

theorem trail_of_full (n : Nat) {f : Frames} (h : f.maxDepth ≤ f.depth) : f.trail w n = [] := by
  induction n with
  | zero => rfl
  | succ n ih =>
    unfold trail at ih ⊢
    rw [yields, List.filterMap_cons, next_of_full h]
    exact ih

theorem trail_of_none (n : Nat) {f : Frames} (h : (f.next w).pc = none) : f.trail w n = [] := by
  cases n with
  | zero => rfl
  | succ n =>
    have hrest := trail_of_full (w := w) n (full_of_none f h)
    unfold trail at hrest ⊢
    rw [yields, List.filterMap_cons, h]
    exact hrest

theorem Within.trail {f g : Frames} (h : f.Within g) (hlimits : w.limits.LoosenedTo other)
    (n : Nat) : f.trail w n <+: g.trail { w with limits := other } n := by
  induction n generalizing f g with
  | zero => exact List.prefix_rfl
  | succ n ih =>
    cases hpc : (f.next w).pc with
    | none =>
      rw [trail_of_none (n + 1) hpc]
      exact List.nil_prefix
    | some pc =>
      obtain ⟨hpc', hwithin⟩ := h.next hlimits hpc
      rw [trail_of_some n hpc, trail_of_some n hpc', hwithin.cursor.context]
      exact (List.prefix_cons_inj _).mpr (ih hwithin)

end Frames

end

namespace Walker

/-- What a walk yields, and the frames it goes through, come first under looser limits. -/
theorem trail_loosened (w : Walker) {other : Limits} (h : w.limits.LoosenedTo other)
    (ctx : Context) (maxDepth skip : UInt64) (n : Nat) :
    (w.frames ctx maxDepth skip).trail w n <+:
      ({ w with limits := other }.frames ctx maxDepth skip).trail { w with limits := other } n := by
  have hstart : (w.frames ctx maxDepth skip).Within
      ({ w with limits := other }.frames ctx maxDepth skip) :=
    ⟨⟨rfl, rfl, h.bottom ctx.sp⟩, rfl, rfl⟩
  exact hstart.trail h n

/-- The small stack, in a walk that must not reach its outermost frame. -/
def strictWalker : Walker :=
  { smallWalker with limits := { Limits.default with maxWalkSize := 0x40, minValidPc := 0x400000 } }

theorem trail_loosened_strict :
    let strict := (strictWalker.frames (smallStack 0) 8 0).trail strictWalker 8
    let loose := (smallWalker.frames (smallStack 0) 8 0).trail smallWalker 8
    strict <+: loose ∧ strict = [(0x401108, smallStack 1)] ∧
      loose = [(0x401108, smallStack 1), (0x555000, smallStack 2)] := by
  have hlimits : strictWalker.limits.LoosenedTo .default := ⟨rfl, rfl, by decide, by decide⟩
  exact ⟨strictWalker.trail_loosened hlimits (smallStack 0) 8 0 8, by decide +kernel,
    by decide +kernel⟩

end Walker

end Unwind
