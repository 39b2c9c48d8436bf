import Mathlib.Data.ENat.Lattice
import Unwind.Proofs.Walk.Fill
import Unwind.Proofs.Walk.Stack

/-!
# A walk as a bounded run of steps

A walk does nothing but step its cursor: over the frames to skip, then once for every address, up to
its depth and as long as the steps succeed. `Frames.At` has the states that a walk goes through, one
request leads from one to the next (`At.next`), and a buffer of `n` words leaves a walk where `n`
requests do (`fill_frames`). The run of the cursor itself need not end.
-/

namespace Unwind

namespace Cursor

variable {w : Walker} {c : Cursor}

/-- The number of steps that succeed before the first that does not. -/
noncomputable def height (w : Walker) (c : Cursor) : ℕ∞ :=
  (c.callers w).length'

theorem get?_callers (n : Nat) :
    (c.callers w).get? n =
      if c.Goes w (n + 1) then some (c.nth w (n + 1)).context.pc else none := by
  rw [← Stream'.Seq.head_dropn]
  by_cases hgoes : c.Goes w (n + 1)
  · obtain ⟨hfirst, hlast⟩ := (c.goes_add w n 1).mp hgoes
    rw [if_pos hgoes, drop_callers_of_goes hfirst,
      callers_of_recovered (((c.nth w n).goes_one w).mp hlast)]
    rfl
  · rw [if_neg hgoes, drop_callers_of_not_goes hgoes]
    rfl

theorem le_height_iff (n : Nat) : (n : ℕ∞) ≤ c.height w ↔ c.Goes w n := by
  cases n with
  | zero => exact ⟨fun _ i hi => absurd hi (Nat.not_lt_zero i), fun _ => zero_le⟩
  | succ n =>
    rw [Nat.cast_succ, ENat.add_one_le_iff (ENat.natCast_ne_top n), height,
      Stream'.Seq.lt_length'_iff, get?_callers]
    simp

theorem goes_of_le {m n : Nat} (h : c.Goes w n) (hle : m ≤ n) : c.Goes w m :=
  fun i hi => h i (Nat.lt_of_lt_of_le hi hle)

theorem exists_last {n : Nat} (h : ¬ c.Goes w n) :
    ∃ t < n, c.Goes w t ∧ ¬ c.Goes w (t + 1) := by
  induction n with
  | zero => exact absurd (fun i hi => absurd hi (Nat.not_lt_zero i)) h
  | succ n ih =>
    by_cases hgoes : c.Goes w n
    · exact ⟨n, Nat.lt_succ_self n, hgoes, h⟩
    · obtain ⟨t, ht, hlast⟩ := ih hgoes
      exact ⟨t, by omega, hlast⟩

theorem recovered_of_goes {n : Nat} (h : c.Goes w (n + 1)) :
    ((c.nth w n).step w).recovered = true :=
  h n (Nat.lt_succ_self n)

theorem failed_of_last {t : Nat} (hgoes : c.Goes w t) (hlast : ¬ c.Goes w (t + 1)) :
    ¬ ((c.nth w t).step w).recovered = true :=
  fun h => hlast ((c.goes_add w t 1).mpr ⟨hgoes, ((c.nth w t).goes_one w).mpr h⟩)

theorem height_eq {t : Nat} (hgoes : c.Goes w t) (hlast : ¬ c.Goes w (t + 1)) :
    c.height w = t := by
  apply le_antisymm
  · rw [← le_height_iff, Nat.cast_succ, not_le] at hlast
    exact Order.le_of_lt_add_one hlast
  · exact (le_height_iff t).mpr hgoes

/-- From `c`, `n` steps have succeeded, and perhaps one more has been tried and has failed. -/
def Took (w : Walker) (c : Cursor) (n : Nat) (after : Cursor) : Prop :=
  c.Goes w n ∧ (after = c.nth w n ∨ ¬ c.Goes w (n + 1) ∧ after = c.nth w (n + 1))

end Cursor

namespace Frames

variable {w : Walker} {c : Cursor} {f : Frames} {skip limit j : Nat}

def nth (w : Walker) (f : Frames) : Nat → Frames
  | 0 => f
  | j + 1 => nth w (f.next w).frames j

theorem nth_add (f : Frames) (i j : Nat) : f.nth w (i + j) = (f.nth w i).nth w j := by
  induction i generalizing f with
  | zero => rw [Nat.zero_add]; rfl
  | succ i ih => rw [Nat.add_right_comm]; exact ih _

theorem pc_of_nth (f : Frames) (j : Nat) : ((f.nth w j).next w).pc = f.pcAt w j := by
  induction j generalizing f with
  | zero => exact pc_of_next f
  | succ j ih => exact (ih _).trans (pcAt_of_next f j)

/-! ## One request -/

theorem next_of_full (h : f.maxDepth ≤ f.depth) : f.next w = ⟨none, [], f⟩ := by
  rw [next, if_neg (Int.not_lt.mpr h)]

theorem nth_of_full (h : f.maxDepth ≤ f.depth) (j : Nat) : f.nth w j = f := by
  induction j with
  | zero => rfl
  | succ j ih => rw [nth, next_of_full h, ih]

/-- The walk has ended for good once it yields nothing. -/
theorem full_of_none (f : Frames) (h : (f.next w).pc = none) :
    (f.next w).frames.maxDepth ≤ (f.next w).frames.depth := by
  by_cases hgoes : f.depth + f.debt < f.maxDepth ∧ f.cursor.Goes w (f.debt + 1)
  · rw [(next_of_goes rfl hgoes.1 hgoes.2).1] at h
    cases h
  · exact (next_of_ends rfl hgoes).2

theorem frames_of_failed {depth limit : Int} (hdepth : depth < limit)
    (hfailed : ¬ (c.step w).recovered = true) :
    (next ⟨c, depth, limit⟩ w).frames = ⟨c.after (c.step w), depth, depth⟩ := by
  rw [next, if_pos hdepth, if_neg hfailed]

theorem frames_of_recovered {depth limit : Int} (hdepth : depth < limit) (hpassed : 0 ≤ depth)
    (hrecovered : (c.step w).recovered = true) :
    (next ⟨c, depth, limit⟩ w).frames = ⟨c.after (c.step w), depth + 1, limit⟩ := by
  rw [next, if_pos hdepth, if_pos hrecovered, if_pos (by show 0 < depth + 1; omega)]

/-- Frames that are passed over do not show. -/
theorem frames_of_pass {depth limit : Int} {k : Nat} (hdepth : depth + k ≤ limit)
    (hpass : depth + k ≤ 0) (hgoes : c.Goes w k) :
    (next ⟨c, depth, limit⟩ w).frames = (next ⟨c.nth w k, depth + k, limit⟩ w).frames := by
  induction k generalizing c depth with
  | zero =>
    rw [Int.natCast_zero, Int.add_zero]
    rfl
  | succ k ih =>
    have hsum : depth + (k + 1 : Nat) = depth + 1 + k := by omega
    rw [Nat.add_comm k, Cursor.goes_add, Cursor.goes_one] at hgoes
    rw [hsum] at hdepth hpass ⊢
    rw [next, if_pos (by show depth < limit; omega), if_pos hgoes.1,
      if_neg (by show ¬ 0 < depth + 1; omega), Nat.add_comm k, Cursor.nth_add]
    exact ih hdepth hpass hgoes.2

/-! ## The states of a walk -/

/-- Where a walk from `c` stands after so many requests, if it passes over `skip` frames and yields
at most `limit` addresses. -/
inductive At (w : Walker) (c : Cursor) (skip limit : Nat) : Nat → Frames → Prop
  | start : At w c skip limit 0 ⟨c, -skip, limit⟩
  -- All the steps that were called for have succeeded.
  | moved {j : Nat} (hgoes : c.Goes w (skip + min (j + 1) limit)) :
      At w c skip limit (j + 1)
        ⟨c.nth w (skip + min (j + 1) limit), (min (j + 1) limit : Nat), limit⟩
  -- One of them has failed.
  | stuck {j t : Nat} (ht : t < skip + min (j + 1) limit) (hgoes : c.Goes w t)
      (hlast : ¬ c.Goes w (t + 1)) :
      At w c skip limit (j + 1) ⟨c.nth w (t + 1), t - skip, t - skip⟩

namespace At

theorem next_start : At w c skip limit 1 (next ⟨c, -skip, limit⟩ w).frames := by
  have hpassed : -(skip : Int) + skip = (0 : Nat) := by omega
  by_cases hgoes : c.Goes w (skip + min 1 limit)
  · convert At.moved hgoes using 1
    have hpass := Cursor.goes_of_le hgoes (Nat.le_add_right skip _)
    rw [frames_of_pass (by omega) (by omega) hpass, hpassed]
    rcases Nat.eq_zero_or_pos limit with rfl | hlimit
    · -- Without room for an address the walk is over as soon as it has passed over the frames.
      rw [next_of_full (Int.le_refl _)]
      rfl
    · have hmin : min 1 limit = 1 := by omega
      have hdepth : ((0 : Nat) : Int) < limit := by omega
      rw [hmin] at hgoes
      rw [frames_of_recovered hdepth (Int.le_refl _) (Cursor.recovered_of_goes hgoes), Nat.zero_add,
        hmin, Cursor.nth_succ]
      rfl
  · obtain ⟨t, ht, hfirst, hlast⟩ := Cursor.exists_last hgoes
    have hsum : -(skip : Int) + t = t - skip := by omega
    have hdepth : (t : Int) - skip < limit := by omega
    convert At.stuck ht hfirst hlast using 1
    rw [frames_of_pass (by omega) (by omega) hfirst, hsum,
      frames_of_failed hdepth (Cursor.failed_of_last hfirst hlast), Cursor.nth_succ]

theorem next_moved (hgoes : c.Goes w (skip + min (j + 1) limit)) :
    At w c skip limit (j + 2)
      (next ⟨c.nth w (skip + min (j + 1) limit), (min (j + 1) limit : Nat), limit⟩
        w).frames := by
  rcases Nat.lt_or_ge (j + 1) limit with hlt | hfull
  · have hmin : min (j + 1) limit = j + 1 := by omega
    have hdepth : ((j + 1 : Nat) : Int) < limit := by omega
    rw [hmin] at hgoes ⊢
    by_cases hnext : c.Goes w (skip + (j + 1) + 1)
    · have hmin' : skip + min (j + 1 + 1) limit = skip + (j + 1) + 1 := by omega
      convert At.moved (j := j + 1) (hmin' ▸ hnext) using 1
      rw [frames_of_recovered hdepth (Int.natCast_nonneg _) (Cursor.recovered_of_goes hnext), hmin',
        Cursor.nth_succ]
      congr 1
      omega
    · have hless : skip + (j + 1) < skip + min (j + 1 + 1) limit := by omega
      convert At.stuck hless hgoes hnext using 1
      rw [frames_of_failed hdepth (Cursor.failed_of_last hgoes hnext), Cursor.nth_succ]
      congr 1 <;> omega
  · -- The walk is as deep as it may be.
    have hmin : min (j + 1) limit = min (j + 1 + 1) limit := by omega
    have hdepth : (limit : Int) ≤ (min (j + 1 + 1) limit : Nat) := by omega
    rw [hmin] at hgoes ⊢
    rw [next_of_full hdepth]
    exact .moved hgoes

/-- One request leads from one of the states to the next. -/
theorem next (h : At w c skip limit j f) : At w c skip limit (j + 1) (f.next w).frames := by
  cases h with
  | start => exact next_start
  | moved hgoes => exact next_moved hgoes
  | stuck ht hgoes hlast =>
    rw [next_of_full (Int.le_refl _)]
    exact .stuck (by omega) hgoes hlast

theorem nth (h : At w c skip limit j f) (i : Nat) : At w c skip limit (j + i) (f.nth w i) := by
  induction i generalizing j f with
  | zero => exact h
  | succ i ih =>
    rw [← Nat.add_assoc, Nat.add_right_comm]
    exact ih h.next

/-- The depth counts the steps that have succeeded, less the frames to skip. Once there has been a
request they are as many as there can or may be. -/
theorem depth_eq (h : At w c skip limit j f) : ∃ n : Nat,
    n = (if j = 0 then 0 else min ((skip + min j limit : Nat) : ℕ∞) (c.height w)) ∧
      c.Took w n f.cursor ∧ f.depth = n - skip := by
  cases h with
  | start =>
    exact ⟨0, rfl, ⟨fun i hi => absurd hi (Nat.not_lt_zero i), .inl rfl⟩, by simp⟩
  | @moved i hgoes =>
    refine ⟨_, ?_, ⟨hgoes, .inl rfl⟩, ?_⟩
    · rw [if_neg i.succ_ne_zero, min_eq_left ((Cursor.le_height_iff _).mpr hgoes)]
    · show ((min (i + 1) limit : Nat) : Int) = _
      omega
  | @stuck i t ht hgoes hlast =>
    refine ⟨t, ?_, ⟨hgoes, .inr ⟨hlast, rfl⟩⟩, rfl⟩
    rw [if_neg i.succ_ne_zero, Cursor.height_eq hgoes hlast, min_eq_right]
    exact_mod_cast ht.le

end At

/-! ## Buffers -/

theorem nth_of_none (f : Frames) (h : (f.next w).pc = none) (j : Nat) :
    f.nth w (j + 1) = (f.next w).frames :=
  nth_of_full (full_of_none f h) j

/-- Whatever is asked for behind the end, nothing happens. -/
theorem next_of_none (f : Frames) {i j : Nat} (hnone : ((f.nth w j).next w).pc = none)
    (hi : j < i) : (f.nth w i).next w = ⟨none, [], f.nth w (j + 1)⟩ := by
  have hnth (k : Nat) : f.nth w (j + (k + 1)) = ((f.nth w j).next w).frames := by
    rw [nth_add, nth_of_none _ hnone]
  obtain ⟨k, rfl⟩ := Nat.exists_eq_add_of_lt hi
  show (f.nth w (j + (k + 1))).next w = ⟨none, [], f.nth w (j + (0 + 1))⟩
  rw [hnth k, hnth 0, next_of_full (full_of_none _ hnone)]

/-- A buffer leaves a walk where as many requests as it has words do. -/
theorem fill_frames (buffer : List UInt64) (f : Frames) :
    (fill w buffer f).2 = f.nth w buffer.length := by
  induction buffer generalizing f with
  | nil => rfl
  | cons slot rest ih =>
    rw [fill, List.length_cons]
    cases hpc : (f.next w).pc with
    | none => exact (nth_of_none f hpc rest.length).symm
    | some pc => exact ih _

end Frames

/-- The addresses of a stretch of the run. -/
theorem Cursor.take_drop_callers {w : Walker} {c : Cursor} {skip size n : Nat}
    (hn : n = min ((skip + size : Nat) : ℕ∞) (c.height w)) :
    ((c.callers w).drop skip).take size =
      (List.range (n - skip)).map fun i => (c.nth w (skip + i + 1)).context.pc := by
  have hle (m : Nat) : m ≤ n ↔ m ≤ skip + size ∧ c.Goes w m := by
    rw [← le_height_iff, ← Nat.cast_le (α := ℕ∞), hn, le_min_iff, Nat.cast_le]
  apply List.ext_getElem?
  intro i
  have hi := hle (skip + i + 1)
  rw [Stream'.Seq.getElem?_take, Stream'.Seq.drop_get?, get?_callers, List.getElem?_map]
  by_cases hlt : i < n - skip
  · obtain ⟨hsize, hgoes⟩ := hi.mp (by omega)
    rw [if_pos (by omega), if_pos hgoes, List.getElem?_range hlt]
    rfl
  · rw [List.getElem?_eq_none (by simp; omega)]
    split
    · rw [if_neg fun hgoes => hlt (by have := hi.mpr ⟨by omega, hgoes⟩; omega)]
      rfl
    · rfl

namespace Walker

variable (w : Walker) (ctx : Context)

def nth (n : Nat) : Context :=
  ((Cursor.start w.limits ctx).nth w n).context

/-- The number of frames above a context. -/
noncomputable def height : ℕ∞ :=
  (Cursor.start w.limits ctx).height w

/-- The words that a walk stores in a buffer. -/
def stored (buffer : List UInt64) (skip : UInt64) : List UInt64 :=
  (w.walk ctx buffer skip).1.take (w.walk ctx buffer skip).2.toNat

/-- All walks from a context that pass over so many frames are one run of steps, cut off where the
walk is deep enough. Requests are counted from zero. -/
structure FollowsRun (skip : UInt64) : Prop where
  pc : ∀ limit : UInt64, limit.toNat < 2 ^ 63 → ∀ j : Nat,
    (((w.frames ctx limit skip).nth w j).next w).pc =
      if j < limit.toNat ∧ (skip.toNat + j + 1 : Nat) ≤ w.height ctx then
        some (w.nth ctx (skip.toNat + j + 1)).pc
      else none
  -- The depth is the number `n` of steps that have succeeded, less the frames to skip.
  depth : ∀ limit : UInt64, limit.toNat < 2 ^ 63 → ∀ j : Nat, ∃ n : Nat,
    n = (if j = 0 then 0
      else min ((skip.toNat + min j limit.toNat : Nat) : ℕ∞) (w.height ctx)) ∧
      (Cursor.start w.limits ctx).Took w n ((w.frames ctx limit skip).nth w j).cursor ∧
      ((w.frames ctx limit skip).nth w j).depth = n - skip.toNat
  -- Nothing is loaded any more, and the cursor stays where it is.
  ended : ∀ (limit : UInt64) (j i : Nat),
    (((w.frames ctx limit skip).nth w j).next w).pc = none → j < i →
      ((w.frames ctx limit skip).nth w i).next w =
        ⟨none, [], (w.frames ctx limit skip).nth w (j + 1)⟩
  buffer : ∀ buffer : List UInt64, buffer.length < 2 ^ 63 → buffer ≠ [] → ∃ n : Nat,
    n = min ((skip.toNat + buffer.length : Nat) : ℕ∞) (w.height ctx) ∧
      (w.walk ctx buffer skip).1 =
        ((List.range (n - skip.toNat)).map fun i => (w.nth ctx (skip.toNat + i + 1)).pc) ++
          buffer.drop (n - skip.toNat) ∧
      (w.walk ctx buffer skip).2 = n - skip.toNat
  -- No step is taken.
  noBuffer : Frames.fill w [] (w.frames ctx 0 skip) = ([], w.frames ctx 0 skip) ∧
    w.walk ctx [] skip = ([], -(skip.toNat : Int))
  shorter : ∀ buffer longer : List UInt64, buffer.length ≤ longer.length →
    longer.length < 2 ^ 63 → w.stored ctx buffer skip <+: w.stored ctx longer skip
  skipped : ∀ buffer longer : List UInt64, longer.length = skip.toNat + buffer.length →
    longer.length < 2 ^ 63 → w.stored ctx buffer skip = (w.stored ctx longer 0).drop skip.toNat

section

variable {w ctx} {skip : UInt64} (hskip : skip.toNat < 2 ^ 63)

include hskip

theorem at_nth (ctx : Context) {limit : UInt64} (hlimit : limit.toNat < 2 ^ 63) (j : Nat) :
    Frames.At w (.start w.limits ctx) skip.toNat limit.toNat j
      ((w.frames ctx limit skip).nth w j) := by
  have hstart : Frames.At w (.start w.limits ctx) skip.toNat limit.toNat 0
      (w.frames ctx limit skip) := by
    unfold frames
    rw [toInt_toInt64_of_lt hskip, toInt_toInt64_of_lt hlimit]
    exact .start
  simpa only [Nat.zero_add] using hstart.nth j

theorem pcAt_frames {limit : UInt64} (hlimit : limit.toNat < 2 ^ 63) (j : Nat) :
    (w.frames ctx limit skip).pcAt w j =
      if j < limit.toNat ∧ (skip.toNat + j + 1 : Nat) ≤ w.height ctx then
        some (w.nth ctx (skip.toNat + j + 1)).pc
      else none := by
  have hdebt : (w.frames ctx limit skip).debt = skip.toNat := by
    show (- -skip.toInt64.toInt).toNat = _
    rw [toInt_toInt64_of_lt hskip]
    omega
  have hdepth : (w.frames ctx limit skip).depth + skip.toNat + j <
      (w.frames ctx limit skip).maxDepth ↔ j < limit.toNat := by
    show -skip.toInt64.toInt + _ + _ < limit.toInt64.toInt ↔ _
    rw [toInt_toInt64_of_lt hskip, toInt_toInt64_of_lt hlimit]
    omega
  unfold Frames.pcAt
  rw [hdebt]
  exact if_congr (and_congr hdepth (Cursor.le_height_iff _).symm) rfl rfl

theorem stored_eq {buffer : List UInt64} (hbuffer : buffer.length < 2 ^ 63) :
    w.stored ctx buffer skip = ((w.callers ctx).drop skip.toNat).take buffer.length := by
  obtain ⟨hfilled, hdepth⟩ := w.walk_eq ctx buffer skip hbuffer hskip
  rw [stored, hfilled, hdepth, List.take_left]

/-- A walk into a buffer with room for an address. -/
theorem walk_of_ne_nil {buffer : List UInt64} (hbuffer : buffer.length < 2 ^ 63)
    (hne : buffer ≠ []) : ∃ n : Nat,
    n = min ((skip.toNat + buffer.length : Nat) : ℕ∞) (w.height ctx) ∧
      (w.walk ctx buffer skip).1 =
        ((List.range (n - skip.toNat)).map fun i => (w.nth ctx (skip.toNat + i + 1)).pc) ++
          buffer.drop (n - skip.toNat) ∧
      (w.walk ctx buffer skip).2 = n - skip.toNat := by
  have hlength : buffer.length.toUInt64.toNat = buffer.length := by
    rw [Nat.toUInt64_eq, UInt64.toNat_ofNat']
    omega
  have hat : Frames.At w (.start w.limits ctx) skip.toNat buffer.length buffer.length
      (Frames.fill w buffer (w.frames ctx buffer.length.toUInt64 skip)).2 := by
    rw [Frames.fill_frames]
    have hnth := at_nth (w := w) hskip ctx (hlength.symm ▸ hbuffer) buffer.length
    rwa [hlength] at hnth
  obtain ⟨n, hn, -, hdepth⟩ := hat.depth_eq
  rw [if_neg (mt List.length_eq_zero_iff.mp hne), min_self] at hn
  have hstored := Cursor.take_drop_callers hn
  have hwalk := (w.walk_eq ctx buffer skip hbuffer hskip).1
  rw [callers, hstored, List.length_map, List.length_range] at hwalk
  exact ⟨n, hn, hwalk, hdepth⟩

/-- Every walk is a part of the run of its cursor. -/
theorem followsRun : w.FollowsRun ctx skip where
  pc limit hlimit j := by
    rw [Frames.pc_of_nth, pcAt_frames hskip hlimit]
  depth limit hlimit j := (at_nth hskip ctx hlimit j).depth_eq
  ended limit j i hnone hi := Frames.next_of_none _ hnone hi
  buffer buffer hbuffer hne := walk_of_ne_nil hskip hbuffer hne
  noBuffer := by
    refine ⟨rfl, Prod.ext rfl ?_⟩
    show -skip.toInt64.toInt = _
    rw [toInt_toInt64_of_lt hskip]
  shorter buffer longer hle hlonger := by
    rw [stored_eq hskip (by omega), stored_eq hskip hlonger, List.prefix_iff_getElem?]
    intro i hi
    have hsize := Nat.lt_of_lt_of_le hi Stream'.Seq.length_take_le
    rw [← List.getElem?_eq_getElem hi, Stream'.Seq.getElem?_take, Stream'.Seq.getElem?_take,
      if_pos hsize, if_pos (by omega)]
  skipped buffer longer hlength hlonger := by
    have hzero : (0 : UInt64).toNat < 2 ^ 63 := by decide
    rw [stored_eq hskip (by omega), stored_eq hzero hlonger, Stream'.Seq.take_drop]
    show _ = Stream'.Seq.take _ _
    rw [hlength, Nat.add_sub_cancel_left]
    rfl

end

/-- A stack of one frame above another, of which the first is passed over. -/
theorem followsRun_small :
    smallWalker.FollowsRun (smallStack 0) 1 ∧
      smallWalker.walk (smallStack 0) [7, 7, 7] 1 = ([0x555000, 7, 7], 1) :=
  ⟨followsRun (by decide), by decide +kernel⟩

end Walker

end Unwind
