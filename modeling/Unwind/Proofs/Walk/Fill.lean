import Mathlib.Data.Seq.Basic
import Unwind.Proofs.Walk.Frames

/-!
# What a walk leaves in a buffer

The return addresses above a context are a sequence that need not end, since a frame may be linked
to itself. Walking into a buffer passes over some of them, stores the next ones until the buffer is
full or the sequence has ended, and leaves the rest of the buffer alone (`walk_eq`).
-/

namespace Unwind

namespace Cursor

variable (w : Walker) (c : Cursor)

/-- The return addresses above a cursor, the innermost first. -/
def callers (w : Walker) : Cursor → Stream'.Seq UInt64 :=
  Stream'.Seq.corec fun c =>
    let s := c.step w
    if s.recovered then some (s.context.pc, c.after s) else none

variable {w c}

theorem callers_of_recovered (h : (c.step w).recovered = true) :
    c.callers w = .cons (c.step w).context.pc ((c.after (c.step w)).callers w) :=
  Stream'.Seq.corec_cons (if_pos h)

theorem callers_of_failed (h : ¬ (c.step w).recovered = true) : c.callers w = .nil :=
  Stream'.Seq.corec_nil _ _ (if_neg h)

theorem drop_callers_of_goes {n : Nat} (h : c.Goes w n) :
    (c.callers w).drop n = (c.nth w n).callers w := by
  induction n with
  | zero => rfl
  | succ n ih =>
    obtain ⟨hfirst, hlast⟩ := (c.goes_add w n 1).mp h
    have hrecovered := ((c.nth w n).goes_one w).mp hlast
    rw [Stream'.Seq.drop, ih hfirst, callers_of_recovered hrecovered, Stream'.Seq.tail_cons,
      nth_succ]

/-- Where one of the first `n + 1` steps fails, not more than `n` addresses are found. -/
theorem drop_callers_of_not_goes {n : Nat} (h : ¬ c.Goes w (n + 1)) :
    (c.callers w).drop n = .nil := by
  induction n with
  | zero =>
    rw [c.goes_one w] at h
    exact callers_of_failed h
  | succ n ih =>
    by_cases hfirst : c.Goes w (n + 1)
    · rw [drop_callers_of_goes hfirst]
      refine callers_of_failed fun hrecovered => h ?_
      exact (c.goes_add w (n + 1) 1).mpr ⟨hfirst, ((c.nth w (n + 1)).goes_one w).mpr hrecovered⟩
    · rw [Stream'.Seq.drop, ih hfirst]
      rfl

end Cursor

namespace Frames

variable {w : Walker}

/-- A walk that has ended does not go deeper, except that frames were passed over. -/
theorem depth_of_pc_eq_none (f : Frames) (h : (f.next w).pc = none) :
    (f.next w).frames.depth.toNat = f.depth.toNat := by
  fun_induction next f w with
  | case1 f hdepth s cursor hrecovered moved hmoved => cases h
  | case2 f hdepth s cursor hrecovered moved hmoved later ih =>
    have hlater : later.frames.depth.toNat = moved.depth.toNat := ih h
    change later.frames.depth.toNat = f.depth.toNat
    have hsum : moved.depth = f.depth + 1 := rfl
    omega
  | case3 f hdepth s cursor hfailed => rfl
  | case4 f hdepth => rfl

/-- A walk that is to end with the buffer stores the addresses it has not passed over. -/
theorem fill_eq (buffer : List UInt64) (f : Frames)
    (hmax : f.depth + f.debt + buffer.length = f.maxDepth) :
    (fill w buffer f).1 =
        ((f.cursor.callers w).drop f.debt).take buffer.length ++
          buffer.drop (((f.cursor.callers w).drop f.debt).take buffer.length).length ∧
      (fill w buffer f).2.depth.toNat =
        f.depth.toNat + (((f.cursor.callers w).drop f.debt).take buffer.length).length := by
  induction buffer generalizing f with
  | nil => exact ⟨rfl, rfl⟩
  | cons slot rest ih =>
    rw [List.length_cons] at hmax ⊢
    by_cases hgoes : f.cursor.Goes w (f.debt + 1)
    · have hdepth : f.depth + f.debt < f.maxDepth := by omega
      obtain ⟨hpc, hframes⟩ := next_of_goes (w := w) rfl hdepth hgoes
      obtain ⟨hfirst, hlast⟩ := (f.cursor.goes_add w f.debt 1).mp hgoes
      have hrecovered := ((f.cursor.nth w f.debt).goes_one w).mp hlast
      -- Nothing is left to pass over, and the address stored is the first of those that remain.
      have hdebt : (f.next w).frames.debt = 0 := by
        rw [hframes]
        unfold debt
        dsimp only
        omega
      have hcallers : (f.cursor.callers w).drop f.debt =
          .cons (f.cursor.nth w (f.debt + 1)).context.pc
            ((f.next w).frames.cursor.callers w) := by
        rw [Cursor.drop_callers_of_goes hfirst, Cursor.callers_of_recovered hrecovered, hframes]
        rfl
      have hdepth : (f.next w).frames.depth.toNat = f.depth.toNat + 1 := by
        rw [hframes]
        unfold debt
        dsimp only
        omega
      have hrest := ih (f.next w).frames (by rw [hdebt, hframes]; dsimp only; omega)
      rw [hdebt, Stream'.Seq.drop_zero] at hrest
      rw [fill, hcallers, Stream'.Seq.take_succ_cons, hpc]
      refine ⟨congrArg (_ :: ·) hrest.1, hrest.2.trans ?_⟩
      rw [hdepth, List.length_cons]
      omega
    · have hnone : (f.next w).pc = none := (next_of_ends rfl fun h => hgoes h.2).1
      rw [fill, hnone, Cursor.drop_callers_of_not_goes hgoes, Stream'.Seq.take_nil]
      exact ⟨rfl, depth_of_pc_eq_none f hnone⟩

end Frames

namespace Walker

/-- The return addresses above a context, the innermost first. -/
def callers (w : Walker) (ctx : Context) : Stream'.Seq UInt64 :=
  (Cursor.start w.limits ctx).callers w

/-- A walk into a buffer stores the return addresses behind those passed over, as many as there are
and as the buffer holds. -/
theorem walk_eq (w : Walker) (ctx : Context) (buffer : List UInt64) (skip : UInt64)
    (hbuffer : buffer.length < 2 ^ 63) (hskip : skip.toNat < 2 ^ 63) :
    (w.walk ctx buffer skip).1 =
        ((w.callers ctx).drop skip.toNat).take buffer.length ++
          buffer.drop (((w.callers ctx).drop skip.toNat).take buffer.length).length ∧
      (w.walk ctx buffer skip).2.toNat =
        (((w.callers ctx).drop skip.toNat).take buffer.length).length := by
  have hlength : buffer.length.toUInt64.toNat = buffer.length := by
    rw [Nat.toUInt64_eq, UInt64.toNat_ofNat']
    omega
  have hdepth : (w.frames ctx buffer.length.toUInt64 skip).depth = -skip.toNat := by
    unfold frames
    rw [toInt_toInt64_of_lt hskip]
  have hlt : buffer.length.toUInt64.toNat < 2 ^ 63 := hlength.symm ▸ hbuffer
  have hmax : (w.frames ctx buffer.length.toUInt64 skip).maxDepth = buffer.length := by
    unfold frames
    rw [toInt_toInt64_of_lt hlt, hlength]
  have hdebt : (w.frames ctx buffer.length.toUInt64 skip).debt = skip.toNat := by
    unfold Frames.debt
    omega
  have hfill := Frames.fill_eq (w := w) buffer (w.frames ctx buffer.length.toUInt64 skip)
    (by rw [hdebt, hdepth, hmax]; omega)
  rw [hdebt] at hfill
  refine ⟨hfill.1, hfill.2.trans ?_⟩
  rw [hdepth, Int.toNat_neg_natCast, Nat.zero_add]
  rfl

end Walker

end Unwind
