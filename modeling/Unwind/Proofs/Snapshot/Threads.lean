import Mathlib.Data.List.Induction
import Mathlib.Logic.Function.Basic
import Unwind.Proofs.Snapshot.Pool

/-!
# The pools of all threads

Every thread has a pool of its own, and all of them share one switch. `SnapshotMaps` is what the
threads may rely on: a map from numbers to snapshots for each, with `Serves` for the answers. The
pools answer every run of requests as the maps do (`run_refines`), and an entry of a map is always
the work of one request in the run, the one that its handle was last given out for (`map_run_iff`).
-/

namespace Unwind

/-! ## Requests -/

/-- What a capture leaves: a buffer of a snapshot's size, the first words of which are addresses. -/
structure Capture where
  stack : List UInt64
  size : Nat
  length_stack : stack.length = snapshotCapacity
  size_le : size ≤ snapshotCapacity

namespace Capture

/-- The addresses captured. -/
def addresses (c : Capture) : List UInt64 := c.stack.take c.size

/-- The capture of some addresses in a buffer of zeros. -/
def ofAddresses (addresses : List UInt64) (h : addresses.length ≤ snapshotCapacity) : Capture where
  stack := addresses ++ List.replicate (snapshotCapacity - addresses.length) 0
  size := addresses.length
  length_stack := by
    rw [List.length_append, List.length_replicate]
    omega
  size_le := h

/-- Any addresses can be captured, if they are not too many. -/
theorem addresses_ofAddresses (addresses : List UInt64)
    (h : addresses.length ≤ snapshotCapacity) : (ofAddresses addresses h).addresses = addresses :=
  List.take_left

end Capture

/-- What a thread may ask of the pools. -/
inductive PoolRequest where
  | acquire (captured : Capture)
  | release (h : Handle)
  | replay (h : Handle) (buffer : List UInt64)
  | setEnabled (value : Bool)

/-- What a request brings. -/
inductive PoolAnswer where
  /-- the handle of a snapshot, if one was put aside -/
  | handle (h : Option Handle)
  /-- the buffer after a replay, and the number of words copied -/
  | copied (buffer : List UInt64) (count : Nat)
  | done

variable {Thread : Type*} [DecidableEq Thread]

/-- The pools of all threads. -/
structure Pools (Thread : Type*) where
  enabled : Bool
  pool : Thread → Pool

namespace Pools

/-- Snapshots are enabled from the start, and there are none. -/
def new : Pools Thread := ⟨true, fun _ => .empty⟩

/-- Serves a request of a thread. -/
def serve (s : Pools Thread) (t : Thread) : PoolRequest → PoolAnswer × Pools Thread
  | .acquire c =>
    match (s.pool t).acquire s.enabled c.stack c.size with
    | none => (.handle none, s)
    | some (h, p) => (.handle (some h), { s with pool := Function.update s.pool t p })
  | .release h => (.done, { s with pool := Function.update s.pool t ((s.pool t).release h) })
  | .replay h buffer =>
    let (filled, count) := (s.pool t).replay s.enabled h buffer
    (.copied filled count, s)
  | .setEnabled value => (.done, { s with enabled := value })

/-- Serves the requests of a run, each by its thread. -/
def run (s : Pools Thread) : List (Thread × PoolRequest) → List PoolAnswer × Pools Thread
  | [] => ([], s)
  | (t, r) :: rest =>
    let (answer, next) := s.serve t r
    let (answers, last) := next.run rest
    (answer :: answers, last)

end Pools

/-! ## What threads may rely on -/

/-- A map from numbers to snapshots for each thread. -/
structure SnapshotMaps (Thread : Type*) where
  enabled : Bool
  map : Thread → Nat → Option (List UInt64)

namespace SnapshotMaps

/-- Snapshots are enabled, and all maps are empty. -/
def new : SnapshotMaps Thread := ⟨true, fun _ _ => none⟩

/-- The maps with one entry of one thread set or cleared. -/
def set (m : SnapshotMaps Thread) (t : Thread) (i : Nat) (entry : Option (List UInt64)) :
    SnapshotMaps Thread :=
  { m with map := Function.update m.map t (Function.update (m.map t) i entry) }

/-- The answer to a request of a thread, and the maps after it. A handle is one more than the number
that it stands for. -/
inductive Serves (m : SnapshotMaps Thread) (t : Thread) :
    PoolRequest → PoolAnswer → SnapshotMaps Thread → Prop where
  | acquired {c : Capture} {h : Handle} {i : Nat} (enabled : m.enabled = true)
      (lt : i < poolCapacity) (free : m.map t i = none) (least : ∀ j < i, m.map t j ≠ none)
      (raw : h.raw.toNat = i + 1) :
      Serves m t (.acquire c) (.handle (some h)) (m.set t i (some c.addresses))
  | refused {c : Capture} (h : m.enabled = false ∨ ∀ i < poolCapacity, m.map t i ≠ none) :
      Serves m t (.acquire c) (.handle none) m
  | released {h : Handle} : Serves m t (.release h) .done (m.set t (h.raw.toNat - 1) none)
  | replayed {h : Handle} {addresses buffer : List UInt64} (enabled : m.enabled = true)
      (live : m.map t (h.raw.toNat - 1) = some addresses) :
      Serves m t (.replay h buffer)
        (.copied (addresses.take buffer.length ++ buffer.drop addresses.length)
          (min addresses.length buffer.length)) m
  | nothing {h : Handle} {buffer : List UInt64}
      (dead : m.enabled = false ∨ m.map t (h.raw.toNat - 1) = none) :
      Serves m t (.replay h buffer) (.copied buffer 0) m
  | switched {value : Bool} : Serves m t (.setEnabled value) .done { m with enabled := value }

/-- The answers to a run of requests, and the maps after it. -/
inductive Runs : SnapshotMaps Thread → List (Thread × PoolRequest) → List PoolAnswer →
    SnapshotMaps Thread → Prop where
  | nil {m : SnapshotMaps Thread} : Runs m [] [] m
  | cons {m next last : SnapshotMaps Thread} {t : Thread} {r : PoolRequest} {a : PoolAnswer}
      {rest : List (Thread × PoolRequest)} {answers : List PoolAnswer} :
      m.Serves t r a next → Runs next rest answers last →
      Runs m ((t, r) :: rest) (a :: answers) last

theorem map_set (m : SnapshotMaps Thread) (t u : Thread) (i j : Nat)
    (entry : Option (List UInt64)) :
    (m.set t i entry).map u j = if u = t ∧ j = i then entry else m.map u j := by
  unfold set
  dsimp only
  by_cases hu : u = t
  · subst hu
    rw [Function.update_self]
    by_cases hj : j = i
    · rw [if_pos ⟨rfl, hj⟩, hj, Function.update_self]
    · rw [if_neg fun h => hj h.2, Function.update_of_ne hj]
  · rw [Function.update_of_ne hu, if_neg fun h => hu h.1]

omit [DecidableEq Thread] in
/-- A request that neither gives out the handle nor releases it leaves its entry as it is. -/
theorem entry_iff_of_other {r : PoolRequest} {a : PoolAnswer} {t u : Thread} {h : Handle}
    {addresses : List UInt64} {entry : Option (List UInt64)}
    (hgiven : ∀ c, (t, r) = (u, .acquire c) → a ≠ .handle (some h))
    (hreleased : (t, r) ≠ (u, .release h)) :
    entry = some addresses ↔
      (∃ c : Capture, (t, r) = (u, .acquire c) ∧ a = .handle (some h) ∧ c.addresses = addresses) ∨
      entry = some addresses ∧ (t, r) ≠ (u, .release h) := by
  constructor
  · exact fun hold => .inr ⟨hold, hreleased⟩
  · rintro (⟨c, heq, ha, -⟩ | ⟨hold, -⟩)
    · exact absurd ha (hgiven c heq)
    · exact hold

/-- The entry of a handle comes from a request that was answered with that handle, or was there
before and has not been released. -/
theorem Serves.map_eq_some_iff {m after : SnapshotMaps Thread} {t : Thread} {r : PoolRequest}
    {a : PoolAnswer} (hserves : m.Serves t r a after) (u : Thread) (h : Handle)
    (addresses : List UInt64) :
    after.map u h.index = some addresses ↔
      (∃ c : Capture, (t, r) = (u, .acquire c) ∧ a = .handle (some h) ∧ c.addresses = addresses) ∨
      m.map u h.index = some addresses ∧ (t, r) ≠ (u, .release h) := by
  cases hserves with
  | @acquired c k i enabled lt free least raw =>
    have hindex : k.index = i := by
      unfold Handle.index
      omega
    rw [map_set]
    by_cases hentry : u = t ∧ h.index = i
    · obtain ⟨rfl, hi⟩ := hentry
      have hk : k = h := Handle.index_inj.mp (hindex.trans hi.symm)
      rw [if_pos ⟨rfl, hi⟩, Option.some.injEq]
      constructor
      · exact fun heq => .inl ⟨c, rfl, by rw [hk], heq⟩
      · rintro (⟨c', heq, -, haddresses⟩ | ⟨hold, -⟩)
        · cases heq
          exact haddresses
        · rw [hi, free] at hold
          cases hold
    · rw [if_neg hentry]
      refine entry_iff_of_other (fun c' heq ha => ?_) nofun
      cases heq
      cases ha
      exact hentry ⟨rfl, hindex⟩
  | @released k =>
    rw [map_set]
    by_cases hentry : u = t ∧ h.index = k.raw.toNat - 1
    · obtain ⟨rfl, hi⟩ := hentry
      have hk : h = k := Handle.index_inj.mp hi
      rw [if_pos ⟨rfl, hi⟩, hk]
      constructor
      · exact nofun
      · rintro (⟨_, heq, -⟩ | ⟨-, hne⟩)
        · cases heq
        · exact absurd rfl hne
    · rw [if_neg hentry]
      refine entry_iff_of_other nofun fun heq => ?_
      cases heq
      exact hentry ⟨rfl, rfl⟩
  | refused _ => exact entry_iff_of_other nofun nofun
  | replayed _ _ => exact entry_iff_of_other nofun nofun
  | nothing _ => exact entry_iff_of_other nofun nofun
  | switched => exact entry_iff_of_other nofun nofun

end SnapshotMaps

/-! ## The pools do as the maps -/

namespace Pools

/-- The maps that the pools stand for. -/
def view (s : Pools Thread) : SnapshotMaps Thread := ⟨s.enabled, fun t => (s.pool t).get?⟩

/-- No pool claims to hold more words than it does. -/
def Sound (s : Pools Thread) : Prop := ∀ t, (s.pool t).Sound

omit [DecidableEq Thread] in
theorem sound_new : (new : Pools Thread).Sound := fun _ => Pool.sound_empty

theorem view_update (s : Pools Thread) (t : Thread) (p : Pool) (i : Nat)
    (entry : Option (List UInt64))
    (hp : ∀ j, p.get? j = if j = i then entry else (s.pool t).get? j) :
    view { s with pool := Function.update s.pool t p } = s.view.set t i entry := by
  unfold view SnapshotMaps.set
  dsimp only
  congr 1
  funext u
  by_cases hu : u = t
  · subst hu
    funext j
    rw [Function.update_self, Function.update_self, hp]
    by_cases hj : j = i
    · rw [if_pos hj, hj, Function.update_self]
    · rw [if_neg hj, Function.update_of_ne hj]
  · rw [Function.update_of_ne hu, Function.update_of_ne hu]

theorem sound_update {s : Pools Thread} (hs : s.Sound) (t : Thread) {p : Pool} (hp : p.Sound) :
    Sound { s with pool := Function.update s.pool t p } := by
  intro u
  dsimp only
  by_cases hu : u = t
  · rw [hu, Function.update_self]
    exact hp
  · rw [Function.update_of_ne hu]
    exact hs u

theorem sound_serve {s : Pools Thread} (hs : s.Sound) (t : Thread) (r : PoolRequest) :
    (s.serve t r).2.Sound := by
  unfold serve
  cases r with
  | acquire c =>
    dsimp only
    cases hacquire : (s.pool t).acquire s.enabled c.stack c.size with
    | none => exact hs
    | some given =>
      have hsize : c.size ≤ c.stack.length := c.length_stack ▸ c.size_le
      exact sound_update hs t (Pool.sound_acquire (hs t) hsize hacquire)
  | release h => exact sound_update hs t (Pool.sound_release (hs t) h)
  | replay h buffer => exact hs
  | setEnabled value => exact hs

/-- One request is answered as the maps say. -/
theorem serve_refines {s : Pools Thread} (hs : s.Sound) (t : Thread) (r : PoolRequest) :
    s.view.Serves t r (s.serve t r).1 (s.serve t r).2.view := by
  unfold serve
  cases r with
  | acquire c =>
    dsimp only
    cases henabled : s.enabled with
    | false => exact .refused (.inl henabled)
    | true =>
      obtain ⟨i, hfree, hleast, hsome⟩ | ⟨hfull, hnone⟩ :=
        (s.pool t).acquire_cases c.stack c.size
      · rw [hsome]
        have hview := s.view_update t ⟨(s.pool t).slots.set i ⟨c.stack, c.size, true⟩⟩ i
          (some c.addresses) ((s.pool t).get?_set i ⟨c.stack, c.size, true⟩)
        rw [henabled] at hview
        dsimp only
        rw [hview]
        exact .acquired henabled i.isLt hfree hleast (Handle.toNat_raw_ofIndex i)
      · rw [hnone]
        exact .refused (.inr hfull)
  | release h =>
    dsimp only
    rw [s.view_update t _ h.index none ((s.pool t).get?_release h)]
    exact .released
  | replay h buffer =>
    dsimp only
    cases hget : (s.pool t).get? h.index with
    | none =>
      rw [(s.pool t).replay_of_get?_none hget]
      exact .nothing (.inr hget)
    | some addresses =>
      cases henabled : s.enabled with
      | false => exact .nothing (.inl henabled)
      | true =>
        rw [(s.pool t).replay_of_get? (hs t) hget]
        exact .replayed henabled hget
  | setEnabled value => exact .switched

theorem sound_run {s : Pools Thread} (hs : s.Sound) (r : List (Thread × PoolRequest)) :
    (s.run r).2.Sound := by
  induction r generalizing s with
  | nil => exact hs
  | cons first rest ih => exact ih (sound_serve hs first.1 first.2)

/-- A whole run is answered as the maps say. -/
theorem run_refines {s : Pools Thread} (hs : s.Sound) (r : List (Thread × PoolRequest)) :
    s.view.Runs r (s.run r).1 (s.run r).2.view := by
  induction r generalizing s with
  | nil => exact .nil
  | cons first rest ih =>
    exact .cons (serve_refines hs first.1 first.2) (ih (sound_serve hs first.1 first.2))

/-! ## Where entries come from -/

theorem run_concat (s : Pools Thread) (r : List (Thread × PoolRequest)) (t : Thread)
    (q : PoolRequest) : (s.run (r ++ [(t, q)])).2 = ((s.run r).2.serve t q).2 := by
  induction r generalizing s with
  | nil => rfl
  | cons first rest ih => exact ih (s.serve first.1 first.2).2

/-- The request of thread `t` behind the run `before` gives the handle out. -/
def Gives (before : List (Thread × PoolRequest)) (t : Thread) (c : Capture) (h : Handle) : Prop :=
  (((new : Pools Thread).run before).2.serve t (.acquire c)).1 = .handle (some h)

/-- In a run from the start, the handle has been given out to thread `t` for a capture and has not
been released since. -/
def Live (r : List (Thread × PoolRequest)) (t : Thread) (h : Handle) (c : Capture) : Prop :=
  ∃ before after, r = before ++ (t, .acquire c) :: after ∧ Gives before t c h ∧
    (t, .release h) ∉ after

theorem live_concat (r : List (Thread × PoolRequest)) (t u : Thread) (q : PoolRequest)
    (h : Handle) (c : Capture) :
    Live (r ++ [(t, q)]) u h c ↔
      ((t, q) = (u, .acquire c) ∧ Gives r u c h) ∨ Live r u h c ∧ (t, q) ≠ (u, .release h) := by
  constructor
  · rintro ⟨before, after, hr, hgives, hafter⟩
    obtain rfl | ⟨after, last, rfl⟩ := after.eq_nil_or_concat
    · obtain ⟨rfl, hlast⟩ := List.append_inj' hr rfl
      rw [List.cons.injEq] at hlast
      exact .inl ⟨hlast.1, hgives⟩
    · rw [List.concat_eq_append, ← List.cons_append, ← List.append_assoc] at hr
      obtain ⟨rfl, hlast⟩ := List.append_inj' hr rfl
      rw [List.cons.injEq] at hlast
      rw [List.concat_eq_append, List.mem_append, List.mem_singleton, not_or] at hafter
      refine .inr ⟨⟨before, after, rfl, hgives, hafter.1⟩, fun heq => hafter.2 ?_⟩
      rw [← hlast.1, heq]
  · rintro (⟨heq, hgives⟩ | ⟨⟨before, after, rfl, hgives, hafter⟩, hne⟩)
    · exact ⟨r, [], by rw [heq], hgives, List.not_mem_nil⟩
    · refine ⟨before, after ++ [(t, q)], List.append_assoc _ _ _, hgives, ?_⟩
      rw [List.mem_append, List.mem_singleton, not_or]
      exact ⟨hafter, fun heq => hne heq.symm⟩

/-- A thread's map has at each number what was captured for its live handle. -/
theorem map_run_iff (r : List (Thread × PoolRequest)) (t : Thread) (h : Handle)
    (addresses : List UInt64) :
    ((new : Pools Thread).run r).2.view.map t h.index = some addresses ↔
      ∃ c, Live r t h c ∧ c.addresses = addresses := by
  induction r using List.reverseRecOn generalizing addresses with
  | nil =>
    constructor
    · intro hold
      have hempty : ((new : Pools Thread).run []).2.view.map t h.index = none :=
        Pool.get?_empty h.index
      rw [hempty] at hold
      cases hold
    · rintro ⟨c, ⟨before, after, hr, -⟩, -⟩
      exact absurd hr (List.append_ne_nil_of_right_ne_nil _ (List.cons_ne_nil _ _)).symm
  | append_singleton r last ih =>
    obtain ⟨u, q⟩ := last
    have hserves := serve_refines (sound_run sound_new r) u q
    rw [run_concat, hserves.map_eq_some_iff, ih]
    constructor
    · rintro (⟨c, heq, ha, haddresses⟩ | ⟨⟨c, hlive, haddresses⟩, hne⟩)
      · refine ⟨c, (live_concat r u t q h c).mpr (.inl ⟨heq, ?_⟩), haddresses⟩
        cases heq
        exact ha
      · exact ⟨c, (live_concat r u t q h c).mpr (.inr ⟨hlive, hne⟩), haddresses⟩
    · rintro ⟨c, hlive, haddresses⟩
      obtain ⟨heq, hgives⟩ | ⟨hlive, hne⟩ := (live_concat r u t q h c).mp hlive
      · refine .inl ⟨c, heq, ?_, haddresses⟩
        cases heq
        exact hgives
      · exact .inr ⟨⟨c, hlive, haddresses⟩, hne⟩

/-- A handle is not given out again before it has been released. -/
theorem release_mem_of_gives {before between : List (Thread × PoolRequest)} {t : Thread}
    {c d : Capture} {h : Handle} (hfirst : Gives before t c h)
    (hsecond : Gives (before ++ (t, .acquire c) :: between) t d h) :
    (t, .release h) ∈ between := by
  by_contra hbetween
  have hlive : Live (before ++ (t, .acquire c) :: between) t h c :=
    ⟨before, between, rfl, hfirst, hbetween⟩
  have hentry := (map_run_iff _ t h c.addresses).mpr ⟨c, hlive, rfl⟩
  have hserves := serve_refines (sound_run sound_new (before ++ (t, .acquire c) :: between)) t
    (.acquire d)
  unfold Gives at hsecond
  rw [hsecond] at hserves
  generalize
    ((new.run (before ++ (t, .acquire c) :: between)).2.serve t (.acquire d)).2.view = after
    at hserves
  cases hserves with
  | @acquired _ _ i enabled lt free least raw =>
    have hindex : h.index = i := by
      unfold Handle.index
      omega
    rw [hindex, free] at hentry
    cases hentry

/-- The pools of all threads, in any run, are maps from numbers to snapshots. An entry is what was
captured by the request that gave its handle out, and stays until the thread releases the handle;
until then the handle is not given out again. -/
theorem pools_refine (r : List (Thread × PoolRequest)) :
    SnapshotMaps.new.Runs r ((new : Pools Thread).run r).1 (new.run r).2.view ∧
    (∀ t (h : Handle) addresses,
      ((new : Pools Thread).run r).2.view.map t (h.raw.toNat - 1) = some addresses ↔
        ∃ c, Live r t h c ∧ c.addresses = addresses) ∧
    ∀ (before between : List (Thread × PoolRequest)) t c d h,
      Gives before t c h → Gives (before ++ (t, .acquire c) :: between) t d h →
        (t, .release h) ∈ between := by
  have hview : (new : Pools Thread).view = SnapshotMaps.new := by
    unfold view SnapshotMaps.new
    congr 1
    funext t i
    exact Pool.get?_empty i
  refine ⟨?_, map_run_iff r, fun _ _ _ _ _ _ => release_mem_of_gives⟩
  rw [← hview]
  exact run_refines sound_new r

end Pools

end Unwind
