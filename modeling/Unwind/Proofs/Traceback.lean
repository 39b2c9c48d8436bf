import Unwind.Proofs.Snapshot.Threads
import Unwind.Proofs.Walk.Fill
import Unwind.Traceback

/-!
# What a traceback request leaves in its buffer

Wherever the stack comes from that a request asks for, it is a sequence of addresses
(`Tracer.trace`), and the buffer is left with the front of that sequence, one zero behind its last
address if there is room, and what was there before (`traceback_writes`).
-/

namespace Unwind

/-- A buffer of which the front has been overwritten with the addresses of a sequence and, if that
has ended before the buffer, one zero. -/
def terminated (trace : Stream'.Seq UInt64) (buffer : List UInt64) : List UInt64 :=
  let stored := trace.take buffer.length
  if stored.length < buffer.length then stored ++ 0 :: buffer.drop (stored.length + 1) else stored

/-- A zero set behind what has been stored, if there is room, terminates the buffer. -/
theorem terminated_of_filled {trace : Stream'.Seq UInt64} {buffer filled : List UInt64} {n : Nat}
    (hfilled : filled = trace.take buffer.length ++ buffer.drop n)
    (hn : n = (trace.take buffer.length).length) :
    (if n < buffer.length then filled.set n 0 else filled) = terminated trace buffer := by
  unfold terminated
  dsimp only
  rw [← hn]
  by_cases hlt : n < buffer.length
  · rw [if_pos hlt, if_pos hlt, hfilled, List.set_append_right _ _ (Nat.le_of_eq hn.symm), ← hn,
      Nat.sub_self, List.drop_eq_getElem_cons hlt, List.set_cons_zero]
  · rw [if_neg hlt, if_neg hlt, hfilled, List.drop_of_length_le (by omega), List.append_nil]

theorem take_ofList (l : List UInt64) (n : Nat) : (Stream'.Seq.ofList l).take n = l.take n := by
  apply List.ext_getElem?
  intro i
  rw [Stream'.Seq.getElem?_take, Stream'.Seq.ofList_get?, List.getElem?_take]

/-- A replay fills a buffer from the sequence that the pool has for the handle. -/
theorem Pool.replay_fills {p : Pool} (hsound : p.Sound) (h : Handle) (buffer : List UInt64) :
    (p.replay true h buffer).1 =
        (Stream'.Seq.ofList ((p.get? h.index).getD [])).take buffer.length ++
          buffer.drop (p.replay true h buffer).2 ∧
      (p.replay true h buffer).2 =
        ((Stream'.Seq.ofList ((p.get? h.index).getD [])).take buffer.length).length := by
  rw [take_ofList]
  cases hget : p.get? h.index with
  | none =>
    rw [p.replay_of_get?_none hget, Option.getD_none, List.take_nil]
    exact ⟨rfl, rfl⟩
  | some addresses =>
    rw [p.replay_of_get? hsound hget, Option.getD_some, List.length_take]
    refine ⟨?_, Nat.min_comm _ _⟩
    dsimp only
    by_cases hle : addresses.length ≤ buffer.length
    · rw [Nat.min_eq_left hle]
    · rw [Nat.min_eq_right (by omega), List.drop_of_length_le (by omega), List.drop_length]

/-- Walking from an interrupted context fills a buffer from its pc and the return addresses. -/
theorem Walker.walkInterrupted_fills (w : Walker) (ctx : Context) {first : UInt64}
    {rest : List UInt64} (hlength : (first :: rest).length < 2 ^ 63) :
    (w.walkInterrupted (some ctx) (first :: rest)).1 =
        (Stream'.Seq.cons ctx.pc (w.callers ctx)).take (first :: rest).length ++
          (first :: rest).drop (w.walkInterrupted (some ctx) (first :: rest)).2 ∧
      (w.walkInterrupted (some ctx) (first :: rest)).2 =
        ((Stream'.Seq.cons ctx.pc (w.callers ctx)).take (first :: rest).length).length := by
  rw [List.length_cons] at hlength
  obtain ⟨hfilled, hdepth⟩ := w.walk_eq ctx rest 0 (by omega) (by decide)
  have hzero : (0 : UInt64).toNat = 0 := rfl
  rw [hzero, Stream'.Seq.drop_zero] at hfilled hdepth
  unfold walkInterrupted
  dsimp only
  rw [hfilled, hdepth, List.length_cons, Stream'.Seq.take_succ_cons, List.length_cons,
    Nat.add_comm 1, List.drop_succ_cons]
  exact ⟨rfl, rfl⟩

namespace Tracer

variable (t : Tracer) (p : Pool) (captured : Context)

/-- The stack that a request asks for: a snapshot, else the interrupted stack, else the present one
without the frames between the host's signal handler and the request. A dead handle has none. -/
def trace (r : TracebackRequest) : Stream'.Seq UInt64 :=
  if t.enabled then
    if r.context ≠ 0 then .ofList ((p.get? (r.context.toNat - 1)).getD [])
    else
      match r.interrupted with
      | some ctx => .cons ctx.pc (t.walker.callers ctx)
      | none => (t.walker.callers captured).drop 2
  else .nil

variable {p}

theorem fill_fills (hsound : p.Sound) (r : TracebackRequest) {first : UInt64} {rest : List UInt64}
    (hlength : (first :: rest).length < 2 ^ 63) :
    (t.fill p captured r (first :: rest)).1 =
        (t.trace p captured r).take (first :: rest).length ++
          (first :: rest).drop (t.fill p captured r (first :: rest)).2 ∧
      (t.fill p captured r (first :: rest)).2 =
        ((t.trace p captured r).take (first :: rest).length).length := by
  unfold fill trace
  cases henabled : t.enabled with
  | false =>
    rw [if_neg Bool.false_ne_true, if_neg Bool.false_ne_true, Stream'.Seq.take_nil]
    exact ⟨rfl, rfl⟩
  | true =>
    rw [if_pos rfl, if_pos rfl]
    unfold Handle.ofRaw?
    by_cases hcontext : r.context = 0
    · rw [dif_pos hcontext, if_neg (not_not_intro hcontext)]
      cases r.interrupted with
      | some ctx => exact t.walker.walkInterrupted_fills ctx hlength
      | none =>
        obtain ⟨hfilled, hdepth⟩ := t.walker.walk_eq captured (first :: rest) trampolineFrames
          hlength (by decide)
        dsimp only
        rw [hdepth]
        exact ⟨hfilled, rfl⟩
    · rw [dif_neg hcontext, if_pos hcontext]
      exact Pool.replay_fills hsound ⟨r.context, hcontext⟩ (first :: rest)

theorem traceback_of_sound (hsound : p.Sound) (request : Option TracebackRequest)
    (hlength : ∀ r ∈ request, ∀ buffer ∈ r.buffer, buffer.length < 2 ^ 63) :
    t.traceback p captured request =
      (request.map fun r =>
        { r with buffer := r.buffer.map (terminated (t.trace p captured r)) }, p) := by
  cases request with
  | none => rfl
  | some r =>
    obtain ⟨context, interrupted, buffer⟩ := r
    cases buffer with
    | none => rfl
    | some buffer =>
      cases buffer with
      | nil => rfl
      | cons first rest =>
        obtain ⟨hfilled, hn⟩ := t.fill_fills captured hsound
          ⟨context, interrupted, some (first :: rest)⟩ (hlength _ rfl _ rfl)
        unfold traceback
        dsimp only
        rw [terminated_of_filled hfilled hn]
        rfl

/-- What a walk captures for a snapshot: return addresses in a buffer of a snapshot's size. -/
theorem acquire_eq (t : Tracer) (p : Pool) (captured : Context) {skip : UInt64}
    (hskip : skip.toNat + 2 < 2 ^ 63) :
    ∃ c : Capture,
      c.addresses = ((t.walker.callers captured).drop (skip.toNat + 2)).take snapshotCapacity ∧
      t.acquire p captured skip = p.acquire t.enabled c.stack c.size := by
  have hsum : (skip + snapshotFrames).toNat = skip.toNat + 2 := by
    rw [UInt64.toNat_add, show snapshotFrames.toNat = 2 from rfl]
    omega
  have hzeros : (List.replicate snapshotCapacity (0 : UInt64)).length = snapshotCapacity :=
    List.length_replicate
  obtain ⟨hfilled, hdepth⟩ := t.walker.walk_eq captured (List.replicate snapshotCapacity 0)
    (skip + snapshotFrames) (by rw [hzeros]; decide) (by rw [hsum]; exact hskip)
  rw [hzeros, hsum] at hfilled hdepth
  have hle := Stream'.Seq.length_take_le (s := (t.walker.callers captured).drop (skip.toNat + 2))
    (n := snapshotCapacity)
  refine ⟨⟨(t.walker.walk captured (List.replicate snapshotCapacity 0) (skip + snapshotFrames)).1,
    (t.walker.walk captured (List.replicate snapshotCapacity 0)
      (skip + snapshotFrames)).2.toNat, ?_, ?_⟩, ?_, rfl⟩
  · rw [hfilled, List.length_append, List.length_drop, hzeros]
    omega
  · rw [hdepth]
    exact hle
  · unfold Capture.addresses
    dsimp only
    rw [hfilled, hdepth, List.take_left]

/-- Whatever the threads have asked of their pools, the buffer of a request holds the front of the
stack that is asked for, then a zero if there is room, then what it held before. Nothing else
changes, and without a buffer nothing at all. No buffer of `2 ^ 63` words fits into memory. -/
theorem traceback_writes {Thread : Type*} [DecidableEq Thread]
    (requests : List (Thread × PoolRequest)) (thread : Thread) (request : Option TracebackRequest)
    (hlength : ∀ r ∈ request, ∀ buffer ∈ r.buffer, buffer.length < 2 ^ 63) :
    t.traceback ((Pools.new.run requests).2.pool thread) captured request =
      (request.map fun r => { r with
        buffer := r.buffer.map
          (terminated (t.trace ((Pools.new.run requests).2.pool thread) captured r)) },
        (Pools.new.run requests).2.pool thread) :=
  t.traceback_of_sound captured (Pools.sound_run Pools.sound_new requests thread) request hlength

end Tracer

/-- Frames linked through their frame pointers: two callers, and a bad link above. -/
def linkedTracer : Tracer where
  walker := ⟨none, .default, fun a =>
    if a = 0x7000 then 0x7040 else if a = 0x7008 then 0x401108 else if a = 0x7048 then 0x555000
    else 0⟩
  enabled := true

theorem traceback_writes_interrupted :
    (∀ r ∈ some (⟨0, some ⟨0x401004, 0x7000, 0x7000⟩, some [7, 7, 7, 7, 7]⟩ : TracebackRequest),
      ∀ buffer ∈ r.buffer, buffer.length < 2 ^ 63) ∧
    linkedTracer.traceback .empty ⟨0, 0, 0⟩
        (some ⟨0, some ⟨0x401004, 0x7000, 0x7000⟩, some [7, 7, 7, 7, 7]⟩) =
      (some ⟨0, some ⟨0x401004, 0x7000, 0x7000⟩, some [0x401004, 0x401108, 0x555000, 0, 7]⟩,
        .empty) := by
  have hlength : ∀ r ∈ some
      (⟨0, some ⟨0x401004, 0x7000, 0x7000⟩, some [7, 7, 7, 7, 7]⟩ : TracebackRequest),
      ∀ buffer ∈ r.buffer, buffer.length < 2 ^ 63 := by
    rintro r ⟨⟩ buffer ⟨⟩
    decide
  have hbuffer : terminated (linkedTracer.trace .empty ⟨0, 0, 0⟩
      ⟨0, some ⟨0x401004, 0x7000, 0x7000⟩, some [7, 7, 7, 7, 7]⟩) [7, 7, 7, 7, 7] =
      [0x401004, 0x401108, 0x555000, 0, 7] := by
    decide +kernel
  refine ⟨hlength, (linkedTracer.traceback_writes ⟨0, 0, 0⟩ ([] : List (Unit × PoolRequest)) ()
    _ hlength).trans ?_⟩
  rw [← hbuffer]
  rfl

end Unwind
