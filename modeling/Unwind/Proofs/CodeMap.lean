import Unwind.Module
import Unwind.Proofs.Bisect

/-!
# The module that a look-up finds

A look-up considers one module, the nearest: of those that start at or below the address the one
that starts last, and among several that start there the one given last. If it does not hold the
address nothing is found, although a module around it may. Where the code of modules lies apart
this cannot happen.
-/

namespace Unwind

/-- Neither range reaches into the other. -/
def Range.Apart (r s : Range) : Prop :=
  r.stop ≤ s.start ∨ s.stop ≤ r.start

instance (r s : Range) : Decidable (r.Apart s) :=
  inferInstanceAs (Decidable (_ ∨ _))

namespace CodeMap

variable {modules : List Module} {a : UInt64} {m n : Module}

/-- No module starts between this one and the address, and none behind it in the list starts where
it does. -/
structure Nearest (modules : List Module) (a : UInt64) (m : Module) : Prop where
  start : m.text.start ≤ a
  last : ∃ front back : List Module, modules = front ++ m :: back ∧
    (∀ n ∈ front, n.text.start ≤ a → n.text.start ≤ m.text.start) ∧
    ∀ n ∈ back, n.text.start ≤ a → n.text.start < m.text.start

namespace Nearest

theorem mem (h : Nearest modules a m) : m ∈ modules := by
  obtain ⟨front, back, rfl, -, -⟩ := h.last
  simp

theorem start_le (h : Nearest modules a m) (hn : n ∈ modules) (hstart : n.text.start ≤ a) :
    n.text.start ≤ m.text.start := by
  obtain ⟨front, back, rfl, hfront, hback⟩ := h.last
  rcases List.mem_append.mp hn with hn | hn
  · exact hfront n hn hstart
  · rcases List.mem_cons.mp hn with rfl | hn
    · exact UInt64.le_refl _
    · exact UInt64.le_of_lt (hback n hn hstart)

/-- A module in front that does not start behind the nearest one makes no difference. -/
theorem cons (h : Nearest modules a m) (hn : n.text.start ≤ a → n.text.start ≤ m.text.start) :
    Nearest (n :: modules) a m where
  start := h.start
  last := by
    obtain ⟨front, back, rfl, hfront, hback⟩ := h.last
    exact ⟨n :: front, back, rfl, List.forall_mem_cons.mpr ⟨hn, hfront⟩, hback⟩

theorem unique (hm : Nearest modules a m) (hn : Nearest modules a n) : m = n := by
  have hstart : m.text.start = n.text.start :=
    UInt64.le_antisymm (hn.start_le hm.mem hm.start) (hm.start_le hn.mem hn.start)
  obtain ⟨front, back, hmodules, -, hback⟩ := hm.last
  obtain ⟨front', back', hmodules', -, hback'⟩ := hn.last
  rw [hmodules, List.append_eq_append_iff] at hmodules'
  -- If one of them stood behind the other it would start in front of it.
  obtain ⟨between, -, hbetween⟩ | ⟨between, -, hbetween⟩ := hmodules'
  · cases between with
    | nil => exact (List.cons.inj hbetween).1
    | cons first rest =>
      obtain ⟨-, rfl⟩ := List.cons.inj hbetween
      have hlt := hback n (by simp) hn.start
      rw [hstart] at hlt
      exact absurd hlt (UInt64.lt_irrefl _)
  · cases between with
    | nil => exact (List.cons.inj hbetween).1.symm
    | cons first rest =>
      obtain ⟨-, rfl⟩ := List.cons.inj hbetween
      have hlt := hback' m (by simp) hm.start
      rw [hstart] at hlt
      exact absurd hlt (UInt64.lt_irrefl _)

end Nearest

/-! ## Sorting -/

theorem start_trans (l m n : Module) (hlm : decide (l.text.start ≤ m.text.start) = true)
    (hmn : decide (m.text.start ≤ n.text.start) = true) :
    decide (l.text.start ≤ n.text.start) = true := by
  rw [decide_eq_true_eq] at hlm hmn ⊢
  exact UInt64.le_trans hlm hmn

theorem start_total (m n : Module) :
    (decide (m.text.start ≤ n.text.start) || decide (n.text.start ≤ m.text.start)) = true := by
  rw [Bool.or_eq_true, decide_eq_true_eq, decide_eq_true_eq]
  exact UInt64.le_total _ _

def sorted (modules : List Module) : List Module :=
  modules.mergeSort fun m n => decide (m.text.start ≤ n.text.start)

theorem pairwise_sorted (modules : List Module) :
    (sorted modules).Pairwise fun m n => m.text.start ≤ n.text.start :=
  (List.pairwise_mergeSort start_trans start_total modules).imp of_decide_eq_true

/-- The last of some modules that starts at or below the address. -/
def lastUpTo (modules : List Module) (a : UInt64) : Option Module :=
  (modules.filter fun n => decide (n.text.start ≤ a)).getLast?

theorem lastUpTo_append (front back : List Module) (a : UInt64) :
    lastUpTo (front ++ back) a = (lastUpTo back a).or (lastUpTo front a) := by
  rw [lastUpTo, List.filter_append, List.getLast?_append]
  rfl

theorem mem_of_lastUpTo (h : lastUpTo modules a = some m) : m ∈ modules ∧ m.text.start ≤ a := by
  simpa using List.mem_of_getLast? h

theorem lastUpTo_eq_none_iff :
    lastUpTo modules a = none ↔ ∀ n ∈ modules, ¬ n.text.start ≤ a := by
  simp [lastUpTo]

/-- Sorting puts the nearest module last. -/
theorem nearest_of_sorted (h : lastUpTo (sorted modules) a = some m) : Nearest modules a m := by
  induction modules generalizing m with
  | nil =>
    rw [sorted, List.mergeSort_nil] at h
    cases h
  | cons r rest ih =>
    obtain ⟨before, behind, hsorted, hrest, hbefore⟩ :=
      List.mergeSort_cons start_trans start_total r rest
    have hordered := pairwise_sorted (r :: rest)
    rw [sorted, hsorted] at h hordered
    rw [sorted, hrest, lastUpTo_append] at ih
    rw [lastUpTo_append, ← List.singleton_append, lastUpTo_append] at h
    cases hlast : lastUpTo behind a with
    | some s =>
      -- Sorted behind the new module, it starts behind it too.
      rw [hlast] at ih h
      cases h
      have hle := (List.pairwise_cons.mp (List.pairwise_append.mp hordered).2.1).1 _
        (mem_of_lastUpTo hlast).1
      exact (ih rfl).cons fun _ => hle
    | none =>
      rw [hlast, Option.none_or] at ih h
      by_cases hr : r.text.start ≤ a
      · have hown : lastUpTo [r] a = some r := by simp [lastUpTo, hr]
        rw [hown] at h
        cases h
        refine ⟨hr, [], rest, rfl, by simp, fun n hn hstart => ?_⟩
        have hmem : n ∈ before ++ behind := hrest ▸ List.mem_mergeSort.mpr hn
        rcases List.mem_append.mp hmem with hmem | hmem
        · simpa using hbefore n hmem
        · exact absurd hstart (lastUpTo_eq_none_iff.mp hlast n hmem)
      · have hown : lastUpTo [r] a = none := by simp [lastUpTo, hr]
        rw [hown] at h
        exact (ih h).cons fun hstart => absurd hstart hr

theorem lookup_eq (modules : List Module) (a : UInt64) :
    (ofModules modules).lookup a = (lastUpTo (sorted modules) a).filter (·.contains a) := by
  have split : Split (fun m : Module => decide (m.text.start ≤ a))
      (ofModules modules).modules.toList :=
    Split.of_pairwise UInt64.le_trans (fun m : Module => m.text.start) a (pairwise_sorted modules)
  rw [lookup, lastSatisfying?_eq _ _ split]
  rfl

/-! ## Look-ups -/

theorem start_le_of_contains (h : m.contains a = true) : m.text.start ≤ a :=
  ((Range.contains_iff _ _).mp h).1

/-- What is found is the nearest module, provided it holds the address. -/
theorem lookup_eq_some_iff (modules : List Module) (a : UInt64) (m : Module) :
    (ofModules modules).lookup a = some m ↔ Nearest modules a m ∧ m.contains a = true := by
  rw [lookup_eq, Option.filter_eq_some_iff]
  constructor
  · exact fun ⟨hlast, hcontains⟩ => ⟨nearest_of_sorted hlast, hcontains⟩
  · rintro ⟨hnearest, hcontains⟩
    refine ⟨?_, hcontains⟩
    cases hlast : lastUpTo (sorted modules) a with
    | some n => rw [(nearest_of_sorted hlast).unique hnearest]
    | none =>
      have hmem : m ∈ sorted modules := List.mem_mergeSort.mpr hnearest.mem
      exact absurd hnearest.start (lastUpTo_eq_none_iff.mp hlast m hmem)

/-- A look-up finds a module that holds the address, and misses none unless a module that starts
behind it, but not behind the address, does not hold the address. -/
theorem lookup_finds_nearest (modules : List Module) (a : UInt64) :
    (∀ m, (ofModules modules).lookup a = some m ↔ Nearest modules a m ∧ m.contains a = true) ∧
    (∀ m, (ofModules modules).lookup a = some m → m ∈ modules ∧ m.contains a = true) ∧
    ∀ m ∈ modules, m.contains a = true →
      (∀ n ∈ modules, m.text.start ≤ n.text.start → n.text.start ≤ a → n.contains a = true) →
      ∃ n ∈ modules, (ofModules modules).lookup a = some n ∧ n.contains a = true := by
  have hfound (m : Module) (h : (ofModules modules).lookup a = some m) :
      m ∈ modules ∧ m.contains a = true := by
    obtain ⟨hnearest, hcontains⟩ := (lookup_eq_some_iff modules a m).mp h
    exact ⟨hnearest.mem, hcontains⟩
  refine ⟨lookup_eq_some_iff modules a, hfound, fun m hm hcontains hbehind => ?_⟩
  have hstart := start_le_of_contains hcontains
  cases hlast : lastUpTo (sorted modules) a with
  | none =>
    exact absurd hstart (lastUpTo_eq_none_iff.mp hlast m (List.mem_mergeSort.mpr hm))
  | some n =>
    have hnearest := nearest_of_sorted hlast
    have hholds := hbehind n hnearest.mem (hnearest.start_le hm hstart) hnearest.start
    exact ⟨n, hnearest.mem, (lookup_eq_some_iff modules a n).mpr ⟨hnearest, hholds⟩, hholds⟩

/-- A library around another one. -/
def enclosing : List Module :=
  [⟨"outer", 0x1000, ⟨0x1000, 0x5000⟩, #[⟨0, .atEntry⟩]⟩,
    ⟨"inner", 0x2000, ⟨0x2000, 0x3000⟩, #[]⟩]

/-- Behind the inner module nothing is found, although the outer one holds the address. -/
theorem lookup_misses_enclosing :
    (∃ m ∈ enclosing, m.contains 0x4000 = true) ∧ (ofModules enclosing).lookup 0x4000 = none := by
  have hsorted : sorted enclosing = enclosing := List.mergeSort_of_pairwise (by decide)
  refine ⟨⟨_, List.mem_cons_self, by decide⟩, ?_⟩
  rw [lookup_eq, hsorted]
  rfl

/-! ## Modules that lie apart -/

/-- Every module has code, and that of no two overlaps. -/
structure Apart (modules : List Module) : Prop where
  inhabited : ∀ m ∈ modules, m.text.start < m.text.stop
  apart : modules.Pairwise fun m n => m.text.Apart n.text

namespace Apart

theorem perm {order : List Module} (h : Apart modules) (hperm : order.Perm modules) :
    Apart order where
  inhabited m hm := h.inhabited m (hperm.mem_iff.mp hm)
  apart := (hperm.pairwise_iff Or.symm).mpr h.apart

theorem start_lt (hcontains : m.contains a = true) (hn : n.text.start < n.text.stop)
    (hapart : m.text.Apart n.text) (hstart : n.text.start ≤ a) : n.text.start < m.text.start := by
  obtain ⟨-, hstop⟩ := (Range.contains_iff _ _).mp hcontains
  rcases hapart with hbehind | hfront
  · exact absurd (UInt64.lt_of_le_of_lt (UInt64.le_trans hbehind hstart) hstop)
      (UInt64.lt_irrefl _)
  · exact UInt64.lt_of_lt_of_le hn hfront

theorem nearest (h : Apart modules) (hm : m ∈ modules) (hcontains : m.contains a = true) :
    Nearest modules a m := by
  refine ⟨start_le_of_contains hcontains, ?_⟩
  obtain ⟨front, back, rfl⟩ := List.append_of_mem hm
  obtain ⟨-, hback, hfront⟩ := List.pairwise_append.mp h.apart
  refine ⟨front, back, rfl, fun n hn hstart => ?_, fun n hn hstart => ?_⟩
  · have hapart := (hfront n hn m List.mem_cons_self).symm
    exact UInt64.le_of_lt (start_lt hcontains (h.inhabited n (by simp [hn])) hapart hstart)
  · have hapart := (List.pairwise_cons.mp hback).1 n hn
    exact start_lt hcontains (h.inhabited n (by simp [hn])) hapart hstart

theorem unique (h : Apart modules) (hm : m ∈ modules) (hn : n ∈ modules)
    (hma : m.contains a = true) (hna : n.contains a = true) : m = n :=
  (h.nearest hm hma).unique (h.nearest hn hna)

/-- No two modules that lie apart start at the same address, so there is one way to sort them. -/
theorem sorted_congr {order : List Module} (h : Apart modules) (hperm : order.Perm modules) :
    sorted order = sorted modules := by
  have hsorted : (sorted order).Perm (sorted modules) :=
    (List.mergeSort_perm _ _).trans (hperm.trans (List.mergeSort_perm _ _).symm)
  have hholds (m : Module) (hm : m ∈ modules) : m.contains m.text.start = true :=
    (Range.contains_iff _ _).mpr ⟨UInt64.le_refl _, h.inhabited m hm⟩
  refine hsorted.eq_of_pairwise (fun m n hm hn hmn hnm => ?_) (pairwise_sorted order)
    (pairwise_sorted modules)
  have hstart := UInt64.le_antisymm hmn hnm
  replace hm := hperm.mem_iff.mp (List.mem_mergeSort.mp hm)
  replace hn := List.mem_mergeSort.mp hn
  exact h.unique hm hn (hholds m hm) (hstart ▸ hholds n hn)

/-- Where modules lie apart, the one that holds an address is found. -/
theorem lookup_eq_some_iff (h : Apart modules) :
    (ofModules modules).lookup a = some m ↔ m ∈ modules ∧ m.contains a = true := by
  rw [CodeMap.lookup_eq_some_iff]
  exact ⟨fun ⟨hnearest, hcontains⟩ => ⟨hnearest.mem, hcontains⟩,
    fun ⟨hm, hcontains⟩ => ⟨h.nearest hm hcontains, hcontains⟩⟩

end Apart

end CodeMap

end Unwind
