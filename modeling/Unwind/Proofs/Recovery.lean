import Unwind.Proofs.Traceback

/-!
# What a host reads from its buffer

A host reads a buffer up to the first zero. What was stored for it comes back whole as long as no
address that was stored is zero (`Filled`). Return addresses are checked before they are stored, so
with a lower bound on code they are not zero, and neither are those of snapshots. Only the pc of an
interrupted context is stored without a check, and a crash after a call through a null pointer leaves
the host with nothing (`readBack_interrupted_at_zero`).
-/

namespace Unwind

/-! ## Buffers -/

/-- What a host takes from a buffer. -/
def readBack (buffer : List UInt64) : List UInt64 :=
  buffer.takeWhile (· != 0)

/-- The front of a buffer has been overwritten with addresses, none of which is zero; `n` is their
number. -/
def Filled (buffer filled : List UInt64) (n : Nat) : Prop :=
  ∃ stored : List UInt64, filled = stored ++ buffer.drop stored.length ∧ n = stored.length ∧
    stored.length ≤ buffer.length ∧ 0 ∉ stored

theorem readBack_append {stored : List UInt64} (h : 0 ∉ stored) (rest : List UInt64) :
    readBack (stored ++ rest) = stored ++ readBack rest := by
  apply List.takeWhile_append_of_pos
  intro a ha
  rw [bne_iff_ne]
  rintro rfl
  exact h ha

namespace Filled

variable {buffer filled : List UInt64} {n : Nat}

theorem none (buffer : List UInt64) : Filled buffer buffer 0 :=
  ⟨[], rfl, rfl, Nat.zero_le _, List.not_mem_nil⟩

theorem not_mem (h : Filled buffer filled n) : 0 ∉ filled.take n := by
  obtain ⟨stored, rfl, rfl, -, hzero⟩ := h
  rwa [List.take_left]

theorem count_le (h : Filled buffer filled n) : n ≤ buffer.length := by
  obtain ⟨stored, -, rfl, hle, -⟩ := h
  exact hle

theorem le_length (h : Filled buffer filled n) : n ≤ filled.length := by
  obtain ⟨stored, rfl, rfl, -, -⟩ := h
  rw [List.length_append]
  omega

theorem cons {a : UInt64} (ha : a ≠ 0) (first : UInt64) (h : Filled buffer filled n) :
    Filled (first :: buffer) (a :: filled) (1 + n) := by
  obtain ⟨stored, rfl, rfl, hle, hzero⟩ := h
  refine ⟨a :: stored, rfl, ?_, ?_, ?_⟩
  · rw [List.length_cons, Nat.add_comm]
  · rw [List.length_cons, List.length_cons]
    omega
  · rw [List.mem_cons, not_or]
    exact ⟨ha.symm, hzero⟩

/-- With a zero behind the addresses, or none if the buffer is full, the host reads all of them. -/
theorem readBack_eq (h : Filled buffer filled n) :
    readBack (if n < buffer.length then filled.set n 0 else filled) = filled.take n := by
  obtain ⟨stored, rfl, rfl, hle, hzero⟩ := h
  rw [List.take_left]
  split
  · rename_i hlt
    rw [List.set_append_right _ _ (Nat.le_refl _), Nat.sub_self, List.drop_eq_getElem_cons hlt,
      List.set_cons_zero, readBack_append hzero]
    exact List.append_nil stored
  · rename_i hfull
    rw [List.drop_of_length_le (by omega), readBack_append hzero]
    exact List.append_nil stored

end Filled

/-! ## Walks -/

section

variable {w : Walker} (hmin : 0 < w.limits.minValidPc)

include hmin

theorem Limits.ne_zero_of_isCode {pc : UInt64} (h : w.limits.isCode pc = true) : pc ≠ 0 := by
  have hle := ((isCode_iff w.limits pc).mp h).1
  rw [UInt64.lt_iff_toNat_lt] at hmin
  rintro rfl
  change w.limits.minValidPc.toNat ≤ 0 at hle
  omega

theorem Cursor.ne_zero_of_recovered {c : Cursor} (h : (c.step w).recovered = true) :
    (c.step w).context.pc ≠ 0 := by
  unfold step Context.step at h ⊢
  split at h
  · cases h
  · exact Limits.ne_zero_of_isCode hmin h

/-- An address that a walk yields is not zero, and counts as one. -/
theorem Frames.next_of_some (f : Frames) {pc : UInt64} (h : (f.next w).pc = some pc) :
    pc ≠ 0 ∧ (f.next w).frames.depth.toNat = f.depth.toNat + 1 := by
  fun_induction next f w with
  | case1 f hdepth s cursor hrecovered moved hmoved =>
    cases h
    refine ⟨Cursor.ne_zero_of_recovered hmin hrecovered, ?_⟩
    change (f.depth + 1).toNat = _
    have hsum : moved.depth = f.depth + 1 := rfl
    omega
  | case2 f hdepth s cursor hrecovered moved hmoved later ih =>
    obtain ⟨hpc, hlater⟩ := ih h
    refine ⟨hpc, hlater.trans ?_⟩
    have hsum : moved.depth = f.depth + 1 := rfl
    omega
  | case3 f hdepth s cursor hfailed => cases h
  | case4 f hdepth => cases h

/-- What is stored is counted, wherever the walk began and however long the buffer is. -/
theorem Frames.fill_filled (buffer : List UInt64) (f : Frames) :
    ∃ n, Filled buffer (fill w buffer f).1 n ∧
      (fill w buffer f).2.depth.toNat = f.depth.toNat + n := by
  induction buffer generalizing f with
  | nil => exact ⟨0, Filled.none [], rfl⟩
  | cons slot rest ih =>
    cases hnext : (f.next w).pc with
    | none =>
      rw [fill, hnext]
      exact ⟨0, Filled.none _, depth_of_pc_eq_none f hnext⟩
    | some pc =>
      obtain ⟨hpc, hdepth⟩ := next_of_some hmin f hnext
      obtain ⟨n, hfilled, hrest⟩ := ih (f.next w).frames
      rw [fill, hnext]
      refine ⟨1 + n, hfilled.cons hpc slot, hrest.trans ?_⟩
      omega

theorem Walker.walk_filled (ctx : Context) (buffer : List UInt64) {skip : UInt64}
    (hskip : skip.toNat < 2 ^ 63) :
    Filled buffer (w.walk ctx buffer skip).1 (w.walk ctx buffer skip).2.toNat := by
  obtain ⟨n, hfilled, hdepth⟩ :=
    Frames.fill_filled hmin buffer (w.frames ctx buffer.length.toUInt64 skip)
  have hstart : (w.frames ctx buffer.length.toUInt64 skip).depth.toNat = 0 := by
    change (-skip.toInt64.toInt).toNat = 0
    rw [toInt_toInt64_of_lt hskip]
    omega
  rw [hstart, Nat.zero_add] at hdepth
  change Filled buffer _ (Frames.fill w buffer _).2.depth.toNat
  rw [hdepth]
  exact hfilled

/-- The pc of an interrupted context is stored as it is. -/
theorem Walker.walkInterrupted_filled {ctx : Context} (hpc : ctx.pc ≠ 0) (buffer : List UInt64) :
    Filled buffer (w.walkInterrupted (some ctx) buffer).1
      (w.walkInterrupted (some ctx) buffer).2 := by
  cases buffer with
  | nil => exact Filled.none []
  | cons first rest => exact (walk_filled hmin ctx rest (by decide)).cons hpc first

end

/-! ## Snapshots -/

namespace Pool

/-- No snapshot has a zero among its addresses. -/
structure Clean (p : Pool) : Prop where
  sound : p.Sound
  not_mem : ∀ i addresses, p.get? i = some addresses → 0 ∉ addresses

variable {p : Pool}

theorem clean_empty : empty.Clean where
  sound := sound_empty
  not_mem i addresses h := by
    rw [get?_empty] at h
    cases h

theorem clean_release (hp : p.Clean) (h : Handle) : (p.release h).Clean where
  sound := sound_release hp.sound h
  not_mem i addresses hget := by
    rw [get?_release] at hget
    split at hget
    · cases hget
    · exact hp.not_mem i addresses hget

theorem clean_acquire (hp : p.Clean) {enabled : Bool} {stack : List UInt64} {size : Nat}
    (hsize : size ≤ stack.length) (hstack : 0 ∉ stack.take size) {h : Handle} {after : Pool}
    (hacquire : p.acquire enabled stack size = some (h, after)) : after.Clean where
  sound := sound_acquire hp.sound hsize hacquire
  not_mem j addresses hget := by
    cases enabled with
    | false => cases hacquire
    | true =>
      obtain ⟨i, -, -, hsome⟩ | ⟨-, hnone⟩ := p.acquire_cases stack size
      · rw [hsome] at hacquire
        cases hacquire
        rw [get?_set] at hget
        split at hget
        · cases hget
          exact hstack
        · exact hp.not_mem j addresses hget
      · rw [hnone] at hacquire
        cases hacquire

theorem replay_filled (hp : p.Clean) (h : Handle) (buffer : List UInt64) :
    Filled buffer (p.replay true h buffer).1 (p.replay true h buffer).2 := by
  obtain ⟨hfilled, hcount⟩ := replay_fills hp.sound h buffer
  rw [take_ofList] at hfilled hcount
  refine ⟨((p.get? h.index).getD []).take buffer.length, ?_, hcount, List.length_take_le _ _, ?_⟩
  · rw [hfilled, hcount]
  · intro hmem
    cases hget : p.get? h.index with
    | none =>
      rw [hget, Option.getD_none, List.take_nil] at hmem
      exact List.not_mem_nil hmem
    | some addresses =>
      rw [hget] at hmem
      exact hp.not_mem h.index addresses hget (List.mem_of_mem_take hmem)

end Pool

/-- What is put aside are addresses that a walk has stored. -/
theorem Tracer.clean_acquire {t : Tracer} {p : Pool} (hmin : 0 < t.walker.limits.minValidPc)
    (hp : p.Clean) {captured : Context} {skip : UInt64} (hskip : skip.toNat + 2 < 2 ^ 63)
    {h : Handle} {after : Pool} (hacquire : t.acquire p captured skip = some (h, after)) :
    after.Clean := by
  have hsum : (skip + snapshotFrames).toNat < 2 ^ 63 := by
    rw [UInt64.toNat_add, show snapshotFrames.toNat = 2 from rfl]
    omega
  have hfilled := Walker.walk_filled hmin captured (List.replicate snapshotCapacity 0) hsum
  exact Pool.clean_acquire hp hfilled.le_length hfilled.not_mem hacquire

/-- A pool as a thread leaves it that has stacks put aside and gives them back. From one time to the
next, memory and modules may change. -/
inductive Pool.Reachable : Pool → Prop
  | empty : Reachable .empty
  | acquire {t : Tracer} {p after : Pool} {captured : Context} {skip : UInt64} {h : Handle}
      (before : Reachable p) (hmin : 0 < t.walker.limits.minValidPc)
      (hskip : skip.toNat + 2 < 2 ^ 63) (hacquire : t.acquire p captured skip = some (h, after)) :
      Reachable after
  | release {p : Pool} (before : Reachable p) (h : Handle) : Reachable (p.release h)

namespace Pool.Reachable

variable {p : Pool}

theorem clean (h : p.Reachable) : p.Clean := by
  induction h with
  | empty => exact clean_empty
  | acquire _ hmin hskip hacquire ih => exact Tracer.clean_acquire hmin ih hskip hacquire
  | release _ h ih => exact clean_release ih h

/-- A context request does one of the two, or nothing. -/
theorem context {t : Tracer} (hp : p.Reachable) (hmin : 0 < t.walker.limits.minValidPc)
    (captured : Context) (request : Option UInt64) :
    (t.context p captured request).2.Reachable := by
  unfold Tracer.context
  cases request with
  | none => exact hp
  | some word =>
    dsimp only
    cases Handle.ofRaw? word with
    | some h => exact hp.release h
    | none =>
      dsimp only
      cases hacquire : t.acquire p captured glueFrames with
      | none => exact hp
      | some result => exact .acquire hp hmin (by decide) hacquire

end Pool.Reachable

/-! ## Traceback requests -/

/-- If a request leads to an interrupted stack, then its innermost address is not zero. -/
def TracebackRequest.InterruptedInCode (r : TracebackRequest) : Prop :=
  r.context = 0 → ∀ ctx ∈ r.interrupted, ctx.pc ≠ 0

namespace Tracer

/-- The addresses that a request stores in a buffer. -/
def stored (t : Tracer) (p : Pool) (captured : Context) (r : TracebackRequest)
    (buffer : List UInt64) : List UInt64 :=
  (t.fill p captured r buffer).1.take (t.fill p captured r buffer).2

variable {t : Tracer} {p : Pool}

/-- What is stored is the front of the stack that the request asks for. -/
theorem stored_eq_take (hsound : p.Sound) (captured : Context) (r : TracebackRequest)
    {first : UInt64} {rest : List UInt64} (hlength : (first :: rest).length < 2 ^ 63) :
    t.stored p captured r (first :: rest) =
      (t.trace p captured r).take (first :: rest).length := by
  obtain ⟨hfilled, hcount⟩ := t.fill_fills captured hsound r hlength
  rw [stored, hfilled, hcount, List.take_left]

theorem fill_filled (hmin : 0 < t.walker.limits.minValidPc) (hp : p.Clean) (captured : Context)
    {r : TracebackRequest} (hpc : r.InterruptedInCode) (buffer : List UInt64) :
    Filled buffer (t.fill p captured r buffer).1 (t.fill p captured r buffer).2 := by
  unfold fill
  cases henabled : t.enabled with
  | false => exact Filled.none buffer
  | true =>
    rw [if_pos rfl]
    unfold Handle.ofRaw?
    by_cases hcontext : r.context = 0
    · rw [dif_pos hcontext]
      cases hinterrupted : r.interrupted with
      | some ctx =>
        exact Walker.walkInterrupted_filled hmin (hpc hcontext ctx hinterrupted) buffer
      | none => exact Walker.walk_filled hmin captured buffer (by decide)
    · rw [dif_neg hcontext]
      exact Pool.replay_filled hp ⟨r.context, hcontext⟩ buffer

/-- A host reads back the addresses that were stored for it, all of them and nothing else. -/
theorem readBack_traceback (hmin : 0 < t.walker.limits.minValidPc) (hp : p.Reachable)
    (captured : Context) {r : TracebackRequest} (hpc : r.InterruptedInCode) {buffer : List UInt64}
    (hbuffer : r.buffer = some buffer) :
    ∃ after, (t.traceback p captured (some r)).1 = some { r with buffer := some after } ∧
      readBack after = t.stored p captured r buffer ∧ 0 ∉ t.stored p captured r buffer := by
  have hfilled := fill_filled hmin hp.clean captured hpc buffer
  obtain ⟨context, interrupted, requested⟩ := r
  cases hbuffer
  unfold stored
  cases buffer with
  | nil =>
    have hnone : (t.fill p captured ⟨context, interrupted, some []⟩ []).2 = 0 :=
      Nat.le_zero.mp hfilled.count_le
    rw [hnone, List.take_zero]
    exact ⟨[], rfl, rfl, List.not_mem_nil⟩
  | cons first rest => exact ⟨_, rfl, hfilled.readBack_eq, hfilled.not_mem⟩

/-- The pool of a thread that has had the stack of two callers put aside. -/
def linkedPool : Pool := (linkedTracer.context .empty ⟨0x401004, 0x7000, 0x7000⟩ (some 0)).2

theorem readBack_traceback_linked :
    ∃ after, (linkedTracer.traceback linkedPool ⟨0, 0, 0⟩
        (some ⟨0, some ⟨0x401004, 0x7000, 0x7000⟩, some [7, 7, 7, 7, 7]⟩)).1 =
          some ⟨0, some ⟨0x401004, 0x7000, 0x7000⟩, some after⟩ ∧
      readBack after = linkedTracer.stored linkedPool ⟨0, 0, 0⟩
        ⟨0, some ⟨0x401004, 0x7000, 0x7000⟩, some [7, 7, 7, 7, 7]⟩ [7, 7, 7, 7, 7] ∧
      0 ∉ linkedTracer.stored linkedPool ⟨0, 0, 0⟩
        ⟨0, some ⟨0x401004, 0x7000, 0x7000⟩, some [7, 7, 7, 7, 7]⟩ [7, 7, 7, 7, 7] := by
  have hmin : 0 < linkedTracer.walker.limits.minValidPc := by decide
  exact @readBack_traceback linkedTracer linkedPool hmin (Pool.Reachable.empty.context hmin _ _)
    ⟨0, 0, 0⟩ ⟨0, some ⟨0x401004, 0x7000, 0x7000⟩, some [7, 7, 7, 7, 7]⟩
    (by rintro - ctx ⟨⟩; decide) _ rfl

/-- After a call through a null pointer the first address stored is zero, and the host reads none,
although there are more. -/
theorem readBack_interrupted_at_zero :
    0 < linkedTracer.walker.limits.minValidPc ∧
      linkedTracer.traceback .empty ⟨0, 0, 0⟩
          (some ⟨0, some ⟨0, 0x7000, 0x7000⟩, some [7, 7, 7, 7, 7]⟩) =
        (some ⟨0, some ⟨0, 0x7000, 0x7000⟩, some [0, 0x401108, 0x555000, 0, 7]⟩, .empty) ∧
      linkedTracer.stored .empty ⟨0, 0, 0⟩
          ⟨0, some ⟨0, 0x7000, 0x7000⟩, some [7, 7, 7, 7, 7]⟩ [7, 7, 7, 7, 7] =
        [0, 0x401108, 0x555000] ∧
      readBack [0, 0x401108, 0x555000, 0, 7] = [] := by
  have hbuffer : terminated (linkedTracer.trace .empty ⟨0, 0, 0⟩
      ⟨0, some ⟨0, 0x7000, 0x7000⟩, some [7, 7, 7, 7, 7]⟩) [7, 7, 7, 7, 7] =
      [0, 0x401108, 0x555000, 0, 7] := by
    decide +kernel
  refine ⟨by decide, ?_, ?_, rfl⟩
  · rw [linkedTracer.traceback_of_sound ⟨0, 0, 0⟩ Pool.sound_empty, ← hbuffer]
    · rfl
    · rintro r ⟨⟩ buffer ⟨⟩
      decide
  · rw [stored_eq_take Pool.sound_empty _ _ (by decide)]
    decide +kernel

end Tracer

end Unwind
