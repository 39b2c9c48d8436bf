import Mathlib.Data.List.Find
import Mathlib.Data.List.Forall2
import Unwind.LoadedObject
import Unwind.Proofs.CodeMap
import Unwind.Proofs.Range

/-!
# Registering the objects that have code

What registering makes of each object is said here in terms of its program headers alone. An object
is registered if one of its segments is code. The text of its module is the smallest range around
all of them, so their order and whatever lies between them make no difference. Its rules come from
the search table, and from the frame records up to the end of what the file backs. Without a usable
table the module has no rules. No other object has a say in any of this (`modules_registered`).

All of this is about objects that fit into the address space (`LoadedObject.Fits`).
-/

namespace Unwind

/-! ## Sections of memory -/

@[simp] theorem length_bytesFrom (memory : UInt64 → UInt8) (a : UInt64) (n : Nat) :
    (bytesFrom memory a n).length = n := by
  induction n generalizing a with
  | zero => rfl
  | succ n ih => rw [bytesFrom, List.length_cons, ih]

theorem getElem?_bytesFrom (memory : UInt64 → UInt8) (a : UInt64) {i n : Nat} (h : i < n) :
    (bytesFrom memory a n)[i]? = some (memory (a + i.toUInt64)) := by
  induction n generalizing a i with
  | zero => omega
  | succ n ih =>
    cases i with
    | zero =>
      rw [bytesFrom, List.getElem?_cons_zero]
      congr 2
      exact (UInt64.add_zero a).symm
    | succ i =>
      rw [bytesFrom, List.getElem?_cons_succ, ih (a + 1) (Nat.lt_of_succ_lt_succ h)]
      congr 2
      rw [UInt64.add_assoc, Nat.toUInt64_eq, Nat.toUInt64_eq, UInt64.ofNat_add,
        UInt64.add_comm 1]
      rfl

/-- The section shows what is in memory. -/
def Section.Shows (memory : UInt64 → UInt8) (s : Section) : Prop :=
  ∀ i < s.size, s.bytes[i]? = some (memory (s.address + i.toUInt64))

theorem Section.Shows.eq {memory : UInt64 → UInt8} {s t : Section} (hs : s.Shows memory)
    (ht : t.Shows memory) (haddress : s.address = t.address) (hsize : s.size = t.size) :
    s = t := by
  obtain ⟨a, bytes⟩ := s
  obtain ⟨b, other⟩ := t
  obtain rfl : a = b := haddress
  congr 1
  refine List.ext_getElem? fun i => ?_
  by_cases hi : i < bytes.length
  · exact (hs i hi).trans (ht i (hsize ▸ hi)).symm
  · have hlength : bytes.length = other.length := hsize
    rw [List.getElem?_eq_none (by omega), List.getElem?_eq_none (by omega)]

theorem shows_sectionOfRange (memory : UInt64 → UInt8) (r : Range) :
    (sectionOfRange memory r).Shows memory := by
  intro i hi
  rw [Section.size, sectionOfRange, length_bytesFrom] at hi
  exact getElem?_bytesFrom memory r.start hi

/-- The section of a range from `a` up to `b`, as it is in memory. -/
theorem eq_sectionOfRange_iff {memory : UInt64 → UInt8} {r : Range} {s : Section}
    (h : r.start ≤ r.stop) :
    s = sectionOfRange memory r ↔
      s.address = r.start ∧ s.address.toNat + s.size = r.stop.toNat ∧ s.Shows memory := by
  have hsize : (sectionOfRange memory r).size = r.stop.toNat - r.start.toNat := by
    rw [Section.size, sectionOfRange, length_bytesFrom, Range.size, if_pos h,
      UInt64.toNat_sub_of_le _ _ h]
  rw [UInt64.le_iff_toNat_le] at h
  constructor
  · rintro rfl
    refine ⟨rfl, ?_, shows_sectionOfRange memory r⟩
    rw [hsize]
    exact Nat.add_sub_cancel' h
  · rintro ⟨haddress, hstop, hshows⟩
    refine hshows.eq (shows_sectionOfRange memory r) haddress ?_
    rw [hsize, ← hstop, haddress, Nat.add_sub_cancel_left]

/-! ## Program headers -/

namespace ProgramHeader

variable {bias a : UInt64} {h : ProgramHeader}

def start (bias : UInt64) (h : ProgramHeader) : Nat :=
  bias.toNat + h.vaddr.toNat

def memoryStop (bias : UInt64) (h : ProgramHeader) : Nat :=
  h.start bias + h.memorySize.toNat

def fileStop (bias : UInt64) (h : ProgramHeader) : Nat :=
  h.start bias + h.fileSize.toNat

/-- A segment of code that is not empty. -/
def IsCode (h : ProgramHeader) : Prop :=
  h.kind = .load ∧ h.executable = true ∧ h.memorySize ≠ 0

instance (h : ProgramHeader) : Decidable h.IsCode :=
  inferInstanceAs (Decidable (_ ∧ _))

/-- What is taken up in memory lies in the range. -/
def LiesIn (bias : UInt64) (r : Range) (h : ProgramHeader) : Prop :=
  r.start.toNat ≤ h.start bias ∧ h.memoryStop bias ≤ r.stop.toNat

instance (bias : UInt64) (r : Range) (h : ProgramHeader) : Decidable (h.LiesIn bias r) :=
  inferInstanceAs (Decidable (_ ∧ _))

/-- A segment that has the byte at the address from the file. -/
def Backs (bias a : UInt64) (h : ProgramHeader) : Prop :=
  h.kind = .load ∧ h.start bias ≤ a.toNat ∧ a.toNat < h.fileStop bias

instance (bias a : UInt64) (h : ProgramHeader) : Decidable (h.Backs bias a) :=
  inferInstanceAs (Decidable (_ ∧ _))

/-- The addresses that registering works out are addresses. -/
structure Fits (bias : UInt64) (h : ProgramHeader) : Prop where
  file : h.kind = .load → h.fileStop bias < wordCount
  code : h.kind = .load → h.executable = true → h.memoryStop bias < wordCount
  table : h.kind = .frameHeader → h.memoryStop bias < wordCount

theorem fits_iff : h.Fits bias ↔ (h.kind = .load → h.fileStop bias < wordCount) ∧
    (h.kind = .load → h.executable = true → h.memoryStop bias < wordCount) ∧
    (h.kind = .frameHeader → h.memoryStop bias < wordCount) :=
  ⟨fun ⟨file, code, table⟩ => ⟨file, code, table⟩, fun ⟨file, code, table⟩ => ⟨file, code, table⟩⟩

instance (bias : UInt64) (h : ProgramHeader) : Decidable (h.Fits bias) :=
  decidable_of_iff _ fits_iff.symm

def memoryRange (bias : UInt64) (h : ProgramHeader) : Range :=
  ⟨bias + h.vaddr, bias + h.vaddr + h.memorySize⟩

def fileRange (bias : UInt64) (h : ProgramHeader) : Range :=
  ⟨bias + h.vaddr, bias + h.vaddr + h.fileSize⟩

theorem toNat_ends {size : UInt64} (hfits : h.start bias + size.toNat < wordCount) :
    (bias + h.vaddr).toNat = h.start bias ∧
      (bias + h.vaddr + size).toNat = h.start bias + size.toNat := by
  have hstart : (bias + h.vaddr).toNat = h.start bias := by
    rw [UInt64.toNat_add]
    exact Nat.mod_eq_of_lt (Nat.lt_of_le_of_lt (Nat.le_add_right _ _) hfits)
  refine ⟨hstart, ?_⟩
  rw [UInt64.toNat_add, hstart]
  exact Nat.mod_eq_of_lt hfits

theorem toNat_memoryRange (hfits : h.memoryStop bias < wordCount) :
    (h.memoryRange bias).start.toNat = h.start bias ∧
      (h.memoryRange bias).stop.toNat = h.memoryStop bias :=
  toNat_ends hfits

theorem toNat_fileRange (hfits : h.fileStop bias < wordCount) :
    (h.fileRange bias).start.toNat = h.start bias ∧
      (h.fileRange bias).stop.toNat = h.fileStop bias :=
  toNat_ends hfits

/-- A segment of code is one whose range is not empty. -/
theorem memoryRange_lt_iff (hfits : h.memoryStop bias < wordCount) :
    (h.memoryRange bias).start < (h.memoryRange bias).stop ↔ h.memorySize ≠ 0 := by
  obtain ⟨hstart, hstop⟩ := toNat_memoryRange hfits
  rw [UInt64.lt_iff_toNat_lt, hstart, hstop, memoryStop, ne_eq, ← UInt64.toNat_inj,
    UInt64.toNat_zero]
  omega

theorem covers_memoryRange_iff {r : Range} (hfits : h.memoryStop bias < wordCount) :
    r.Covers (h.memoryRange bias) ↔ h.LiesIn bias r := by
  obtain ⟨hstart, hstop⟩ := toNat_memoryRange hfits
  rw [Range.Covers, UInt64.le_iff_toNat_le, UInt64.le_iff_toNat_le, hstart, hstop, LiesIn]

theorem contains_fileRange_iff (hfits : h.fileStop bias < wordCount) :
    (h.fileRange bias).contains a = true ↔ h.start bias ≤ a.toNat ∧ a.toNat < h.fileStop bias := by
  obtain ⟨hstart, hstop⟩ := toNat_fileRange hfits
  rw [Range.contains_iff, UInt64.le_iff_toNat_le, UInt64.lt_iff_toNat_lt, hstart, hstop]

end ProgramHeader

/-! ## The map of an object -/

namespace ObjectMap

open ProgramHeader

variable {o : LoadedObject}

def isExecutable (h : ProgramHeader) : Bool :=
  h.kind == .load && h.executable

theorem foldl_add (headers : List ProgramHeader) (m : ObjectMap) :
    headers.foldl add m = { m with
      text := ((headers.filter isExecutable).map (memoryRange m.imageBase)).foldl .union m.text
      segments := m.segments ++ (headers.filter (·.kind == .load)).map (fileRange m.imageBase)
      frameHeader := (((headers.filter (·.kind == .frameHeader)).getLast?).map
        (memoryRange m.imageBase)).or m.frameHeader } := by
  induction headers generalizing m with
  | nil => simp
  | cons h headers ih =>
    rw [List.foldl_cons, ih]
    obtain ⟨kind, executable, vaddr, fileSize, memorySize⟩ := h
    cases kind with
    | load => cases executable <;> simp [add, isExecutable, memoryRange, fileRange]
    | frameHeader =>
      cases hlast : (headers.filter (·.kind == .frameHeader)).getLast? <;>
        simp [add, isExecutable, memoryRange, List.getLast?_cons, hlast]
    | other => simp [add, isExecutable]

theorem ofObject_eq (o : LoadedObject) :
    ofObject o = {
      name := o.name
      imageBase := o.bias
      text := ((o.headers.filter isExecutable).map (memoryRange o.bias)).foldl .union .empty
      segments := (o.headers.filter (·.kind == .load)).map (fileRange o.bias)
      frameHeader := ((o.headers.filter (·.kind == .frameHeader)).getLast?).map
        (memoryRange o.bias) } := by
  rw [ofObject, foldl_add]
  simp

end ObjectMap

namespace LoadedObject

open ProgramHeader

variable {memory : UInt64 → UInt8} {o : LoadedObject}

/-- The addresses that registering works out are addresses. -/
def Fits (o : LoadedObject) : Prop :=
  ∀ h ∈ o.headers, h.Fits o.bias

instance (o : LoadedObject) : Decidable o.Fits :=
  inferInstanceAs (Decidable (∀ h ∈ o.headers, h.Fits o.bias))

def HasCode (o : LoadedObject) : Prop :=
  ∃ h ∈ o.headers, h.IsCode

instance (o : LoadedObject) : Decidable o.HasCode :=
  inferInstanceAs (Decidable (∃ h ∈ o.headers, h.IsCode))

/-- The smallest range around the code. -/
structure Spans (o : LoadedObject) (r : Range) : Prop where
  covers : ∀ h ∈ o.headers, h.IsCode → h.LiesIn o.bias r
  least : ∀ c : Range, (∀ h ∈ o.headers, h.IsCode → h.LiesIn o.bias c) → c.Covers r

theorem Spans.unique {r s : Range} (hr : o.Spans r) (hs : o.Spans s) : r = s :=
  (hs.least r hr.covers).antisymm (hr.least s hs.covers)

/-- Only the code matters, whatever other headers there are, and in which order. -/
theorem Spans.congr {p : LoadedObject} {r : Range} (h : o.Spans r) (hbias : p.bias = o.bias)
    (hcode : ∀ h : ProgramHeader, h.IsCode → (h ∈ p.headers ↔ h ∈ o.headers)) : p.Spans r where
  covers g hmem hg := by
    rw [hbias]
    exact h.covers g ((hcode g hg).mp hmem) hg
  least c hc := by
    refine h.least c fun g hmem hg => ?_
    rw [← hbias]
    exact hc g ((hcode g hg).mpr hmem) hg

def executableRanges (o : LoadedObject) : List Range :=
  (o.headers.filter ObjectMap.isExecutable).map (memoryRange o.bias)

theorem mem_executableRanges_iff (hfits : o.Fits) {s : Range} :
    s ∈ o.executableRanges ∧ s.start < s.stop ↔
      ∃ h ∈ o.headers, h.IsCode ∧ h.memoryRange o.bias = s := by
  simp only [executableRanges, List.mem_map, List.mem_filter, ObjectMap.isExecutable,
    Bool.and_eq_true, beq_iff_eq, IsCode]
  constructor
  · rintro ⟨⟨h, ⟨hmem, hload, hexecutable⟩, rfl⟩, hlt⟩
    have hsize := (memoryRange_lt_iff ((hfits h hmem).code hload hexecutable)).mp hlt
    exact ⟨h, hmem, ⟨hload, hexecutable, hsize⟩, rfl⟩
  · rintro ⟨h, hmem, ⟨hload, hexecutable, hsize⟩, rfl⟩
    have hlt := (memoryRange_lt_iff ((hfits h hmem).code hload hexecutable)).mpr hsize
    exact ⟨⟨h, ⟨hmem, hload, hexecutable⟩, rfl⟩, hlt⟩

theorem covers_executableRanges_iff (hfits : o.Fits) (c : Range) :
    (∀ s ∈ o.executableRanges, s.start < s.stop → c.Covers s) ↔
      ∀ h ∈ o.headers, h.IsCode → h.LiesIn o.bias c := by
  have hcovers (h : ProgramHeader) (hmem : h ∈ o.headers) (hcode : h.IsCode) :=
    covers_memoryRange_iff (r := c) ((hfits h hmem).code hcode.1 hcode.2.1)
  constructor
  · intro hall h hmem hcode
    obtain ⟨hrange, hlt⟩ := (mem_executableRanges_iff hfits).mpr ⟨h, hmem, hcode, rfl⟩
    exact (hcovers h hmem hcode).mp (hall _ hrange hlt)
  · intro hall s hs hlt
    obtain ⟨h, hmem, hcode, rfl⟩ := (mem_executableRanges_iff hfits).mp ⟨hs, hlt⟩
    exact (hcovers h hmem hcode).mpr (hall h hmem hcode)

theorem hull_text (o : LoadedObject) :
    Range.Hull o.executableRanges (ObjectMap.ofObject o).text := by
  rw [ObjectMap.ofObject_eq]
  exact Range.hull_foldl .nil _

/-- What is not empty is the text of an object that has code. -/
theorem text_lt_iff (hfits : o.Fits) :
    (ObjectMap.ofObject o).text.start < (ObjectMap.ofObject o).text.stop ↔ o.HasCode := by
  rw [o.hull_text.lt_iff]
  constructor
  · rintro ⟨s, hs⟩
    obtain ⟨h, hmem, hcode, -⟩ := (mem_executableRanges_iff hfits).mp hs
    exact ⟨h, hmem, hcode⟩
  · rintro ⟨h, hmem, hcode⟩
    exact ⟨_, (mem_executableRanges_iff hfits).mpr ⟨h, hmem, hcode, rfl⟩⟩

theorem spans_text (hfits : o.Fits) (hcode : o.HasCode) :
    o.Spans (ObjectMap.ofObject o).text where
  covers := (covers_executableRanges_iff hfits _).mp o.hull_text.covers
  least c hc := o.hull_text.least ((text_lt_iff hfits).mpr hcode) c
    ((covers_executableRanges_iff hfits c).mpr hc)

theorem withCode_eq {objects : List LoadedObject} (hfits : ∀ o ∈ objects, o.Fits) :
    withCode objects = (objects.filter (·.HasCode)).map .ofObject := by
  rw [withCode, List.filter_map]
  congr 1
  refine List.filter_congr fun o ho => ?_
  rw [Bool.eq_iff_iff, decide_eq_true_eq, ← text_lt_iff (hfits o ho), ← UInt64.not_le,
    ← Range.isEmpty_iff]
  simp

/-! ## The rules -/

/-- The section of the search table, the last one there is. -/
def SearchTable (memory : UInt64 → UInt8) (o : LoadedObject) (s : Section) : Prop :=
  ∃ h, (o.headers.filter (·.kind == .frameHeader)).getLast? = some h ∧
    s.address.toNat = h.start o.bias ∧ s.address.toNat + s.size = h.memoryStop o.bias ∧
    s.Shows memory

/-- The section of the frame records that start at an address. It ends with what the file backs of
the first segment in which it backs that address. -/
def FrameRecords (memory : UInt64 → UInt8) (o : LoadedObject) (frames : UInt64) (s : Section) :
    Prop :=
  ∃ h, o.headers.find? (·.Backs o.bias frames) = some h ∧
    s.address = frames ∧ s.address.toNat + s.size = h.fileStop o.bias ∧ s.Shows memory

/-- The rules of an object. It has none if anything is wrong with its search table. -/
inductive TableOf (memory : UInt64 → UInt8) (o : LoadedObject) : Array Rule → Prop where
  | missing (h : ∀ p ∈ o.headers, p.kind ≠ .frameHeader) : TableOf memory o #[]
  | broken {table : Section} {e : CfiError} (ht : SearchTable memory o table)
      (h : FrameHeader.decode table = .error e) : TableOf memory o #[]
  | unreachable {table : Section} {header : FrameHeader} (ht : SearchTable memory o table)
      (hh : FrameHeader.decode table = .ok header)
      (h : ∀ p ∈ o.headers, ¬ p.Backs o.bias header.frames) : TableOf memory o #[]
  | refused {table frames : Section} {header : FrameHeader} {e : CfiError}
      (ht : SearchTable memory o table) (hh : FrameHeader.decode table = .ok header)
      (hf : FrameRecords memory o header.frames frames)
      (h : (RuleTable.compile table frames o.bias).table = .error e) : TableOf memory o #[]
  | compiled {table frames : Section} {header : FrameHeader} {rules : Array Rule}
      (ht : SearchTable memory o table) (hh : FrameHeader.decode table = .ok header)
      (hf : FrameRecords memory o header.frames frames)
      (h : (RuleTable.compile table frames o.bias).table = .ok rules) : TableOf memory o rules

theorem searchTable_iff (memory : UInt64 → UInt8) (hfits : o.Fits) (s : Section) :
    SearchTable memory o s ↔
      ∃ r, (ObjectMap.ofObject o).frameHeader = some r ∧ s = sectionOfRange memory r := by
  simp only [SearchTable, ObjectMap.ofObject_eq, Option.map_eq_some_iff, exists_exists_and_eq_and]
  refine exists_congr fun h => and_congr_right fun hlast => ?_
  obtain ⟨hmem, hkind⟩ := List.mem_filter.mp (List.mem_of_getLast? hlast)
  obtain ⟨hstart, hstop⟩ := toNat_memoryRange ((hfits h hmem).table (eq_of_beq hkind))
  have hle : (h.memoryRange o.bias).start ≤ (h.memoryRange o.bias).stop := by
    rw [UInt64.le_iff_toNat_le, hstart, hstop]
    exact Nat.le_add_right _ _
  rw [eq_sectionOfRange_iff hle, ← UInt64.toNat_inj, hstart, hstop]

theorem segmentOf_eq (hfits : o.Fits) (a : UInt64) :
    (ObjectMap.ofObject o).segmentOf a =
      (o.headers.find? (·.Backs o.bias a)).map (fileRange o.bias) := by
  rw [ObjectMap.segmentOf, ObjectMap.ofObject_eq, List.find?_map, List.find?_filter]
  congr 1
  refine List.find?_congr fun h hmem => ?_
  rw [decide_eq_decide, Backs, beq_iff_eq, Function.comp_apply]
  exact and_congr_right fun hload => contains_fileRange_iff ((hfits h hmem).file hload)

theorem segmentOf_eq_none_iff (hfits : o.Fits) (a : UInt64) :
    (ObjectMap.ofObject o).segmentOf a = none ↔ ∀ h ∈ o.headers, ¬ h.Backs o.bias a := by
  rw [segmentOf_eq hfits, Option.map_eq_none_iff, List.find?_eq_none]
  simp only [decide_eq_true_eq]

theorem frameRecords_iff (memory : UInt64 → UInt8) (hfits : o.Fits) (frames : UInt64)
    (s : Section) :
    FrameRecords memory o frames s ↔
      ∃ r, (ObjectMap.ofObject o).segmentOf frames = some r ∧
        s = sectionOfRange memory ⟨frames, r.stop⟩ := by
  simp only [FrameRecords, segmentOf_eq hfits, Option.map_eq_some_iff, exists_exists_and_eq_and]
  refine exists_congr fun h => and_congr_right fun hfirst => ?_
  have hbacks : h.Backs o.bias frames := by simpa using List.find?_some hfirst
  obtain ⟨hload, -, hlt⟩ := hbacks
  have hmem := List.mem_of_find?_eq_some hfirst
  obtain ⟨-, hstop⟩ := toNat_fileRange ((hfits h hmem).file hload)
  have hle : frames ≤ (h.fileRange o.bias).stop := by
    rw [UInt64.le_iff_toNat_le, hstop]
    exact Nat.le_of_lt hlt
  rw [eq_sectionOfRange_iff hle, hstop]

theorem frameHeader_eq_none_iff (o : LoadedObject) :
    (ObjectMap.ofObject o).frameHeader = none ↔ ∀ h ∈ o.headers, h.kind ≠ .frameHeader := by
  rw [ObjectMap.ofObject_eq, Option.map_eq_none_iff, List.getLast?_eq_none_iff,
    List.filter_eq_nil_iff]
  simp only [beq_iff_eq, ne_eq]

/-- Of the ways in which an object may have rules or none one is always the case. -/
theorem exists_tableOf (memory : UInt64 → UInt8) (hfits : o.Fits) :
    ∃ rules, TableOf memory o rules := by
  cases hr : (ObjectMap.ofObject o).frameHeader with
  | none => exact ⟨_, .missing ((frameHeader_eq_none_iff o).mp hr)⟩
  | some r =>
    have ht := (searchTable_iff memory hfits _).mpr ⟨r, hr, rfl⟩
    cases hh : FrameHeader.decode (sectionOfRange memory r) with
    | error e => exact ⟨_, .broken ht hh⟩
    | ok header =>
      cases hs : (ObjectMap.ofObject o).segmentOf header.frames with
      | none => exact ⟨_, .unreachable ht hh ((segmentOf_eq_none_iff hfits _).mp hs)⟩
      | some segment =>
        have hf := (frameRecords_iff memory hfits _ _).mpr ⟨segment, hs, rfl⟩
        cases hc : (RuleTable.compile (sectionOfRange memory r)
            (sectionOfRange memory ⟨header.frames, segment.stop⟩) o.bias).table with
        | error e => exact ⟨_, .refused ht hh hf hc⟩
        | ok rules => exact ⟨_, .compiled ht hh hf hc⟩

theorem TableOf.eq {rules : Array Rule} (hfits : o.Fits) (h : TableOf memory o rules) :
    ((ObjectMap.ofObject o).rules memory).2 = rules := by
  have hbase : (ObjectMap.ofObject o).imageBase = o.bias := by rw [ObjectMap.ofObject_eq]
  cases h with
  | missing h =>
    rw [ObjectMap.rules, (frameHeader_eq_none_iff o).mpr h]
  | broken ht h =>
    obtain ⟨r, hr, rfl⟩ := (searchTable_iff memory hfits _).mp ht
    simp only [ObjectMap.rules, ObjectMap.compile, hr, h]
  | unreachable ht hh h =>
    obtain ⟨r, hr, rfl⟩ := (searchTable_iff memory hfits _).mp ht
    have hs := (segmentOf_eq_none_iff hfits _).mpr h
    simp only [ObjectMap.rules, ObjectMap.compile, hr, hh, hs]
  | refused ht hh hf h =>
    obtain ⟨r, hr, rfl⟩ := (searchTable_iff memory hfits _).mp ht
    obtain ⟨segment, hs, rfl⟩ := (frameRecords_iff memory hfits _ _).mp hf
    simp only [ObjectMap.rules, ObjectMap.compile, hr, hh, hs, hbase, h]
  | compiled ht hh hf h =>
    obtain ⟨r, hr, rfl⟩ := (searchTable_iff memory hfits _).mp ht
    obtain ⟨segment, hs, rfl⟩ := (frameRecords_iff memory hfits _ _).mp hf
    simp only [ObjectMap.rules, ObjectMap.compile, hr, hh, hs, hbase, h]

theorem tableOf_iff (hfits : o.Fits) (rules : Array Rule) :
    TableOf memory o rules ↔ ((ObjectMap.ofObject o).rules memory).2 = rules := by
  refine ⟨fun h => h.eq hfits, ?_⟩
  rintro rfl
  obtain ⟨rules, h⟩ := exists_tableOf memory hfits
  rwa [h.eq hfits]

/-! ## The modules -/

/-- The module that is made of an object. -/
structure Registered (memory : UInt64 → UInt8) (o : LoadedObject) (m : Module) : Prop where
  name : m.name = o.name
  imageBase : m.imageBase = o.bias
  text : ∀ r, o.Spans r ↔ m.text = r
  table : ∀ rules, TableOf memory o rules ↔ m.table = rules

/-- What registering makes of an object that has code. -/
def toModule (memory : UInt64 → UInt8) (o : LoadedObject) : Module :=
  ((ObjectMap.ofObject o).toModule memory).2

theorem registered_toModule (hfits : o.Fits) (hcode : o.HasCode) :
    Registered memory o (o.toModule memory) where
  name := by rw [toModule, ObjectMap.toModule, ObjectMap.ofObject_eq]
  imageBase := by rw [toModule, ObjectMap.toModule, ObjectMap.ofObject_eq]
  text r := ⟨(spans_text hfits hcode).unique, fun h => h ▸ spans_text hfits hcode⟩
  table := tableOf_iff hfits

/-- The modules that are registered, in the order of their code. -/
def registered (memory : UInt64 → UInt8) (objects : List LoadedObject) : List Module :=
  (register memory objects).2.modules.toList

theorem registered_eq {objects : List LoadedObject} (hfits : ∀ o ∈ objects, o.Fits) :
    registered memory objects =
      CodeMap.sorted ((objects.filter (·.HasCode)).map (toModule memory)) := by
  rw [registered, register, withCode_eq hfits, List.map_map, List.map_map]
  rfl

theorem registered_perm {objects : List LoadedObject} (hfits : ∀ o ∈ objects, o.Fits) :
    (registered memory objects).Perm ((objects.filter (·.HasCode)).map (toModule memory)) := by
  rw [registered_eq hfits]
  exact List.mergeSort_perm _ _

/-- An object that has code adds its module, whatever it is, and an object without code nothing. -/
theorem registered_insert (memory : UInt64 → UInt8) {front back : List LoadedObject}
    (hfits : ∀ p ∈ front ++ o :: back, p.Fits) :
    (o.HasCode → (registered memory (front ++ o :: back)).Perm
      (o.toModule memory :: registered memory (front ++ back))) ∧
    (¬ o.HasCode → registered memory (front ++ o :: back) = registered memory (front ++ back)) := by
  have hothers : ∀ p ∈ front ++ back, p.Fits := fun p hp =>
    hfits p (List.mem_append.mpr ((List.mem_append.mp hp).imp_right (List.mem_cons_of_mem o)))
  constructor
  · intro hcode
    refine (registered_perm hfits).trans (.trans ?_ ((registered_perm hothers).symm.cons _))
    have hkept : (o :: back).filter (·.HasCode) = o :: back.filter (·.HasCode) := by simp [hcode]
    rw [List.filter_append, hkept, List.map_append, List.map_cons, List.filter_append,
      List.map_append]
    exact List.perm_middle
  · intro hcode
    have hleft : (o :: back).filter (·.HasCode) = back.filter (·.HasCode) := by simp [hcode]
    rw [registered_eq hfits, registered_eq hothers, List.filter_append, hleft,
      ← List.filter_append]

/-- Registering makes one module of each object that has code and sorts them. What the module of an
object is depends on the program headers of that object alone: on those of code, in any order, for
its text, and a table that is of no use costs it its rules and nothing else. -/
theorem modules_registered (memory : UInt64 → UInt8) (objects : List LoadedObject)
    (hfits : ∀ o ∈ objects, o.Fits) :
    (∃ modules, List.Forall₂ (Registered memory) (objects.filter (·.HasCode)) modules ∧
      (registered memory objects).Perm modules) ∧
    ((registered memory objects).Pairwise fun m n => m.text.start ≤ n.text.start) ∧
    (∀ front o back, objects = front ++ o :: back →
      (o.HasCode → ∃ m, Registered memory o m ∧
        (registered memory objects).Perm (m :: registered memory (front ++ back))) ∧
      (¬ o.HasCode → registered memory objects = registered memory (front ++ back))) ∧
    ∀ o ∈ objects, o.HasCode → ∀ p : LoadedObject, p.Fits → p.bias = o.bias →
      (∀ h : ProgramHeader, h.IsCode → (h ∈ p.headers ↔ h ∈ o.headers)) →
      (ObjectMap.ofObject p).text = (ObjectMap.ofObject o).text := by
  refine ⟨⟨_, ?_, registered_perm hfits⟩, ?_, ?_, ?_⟩
  · rw [List.forall₂_map_right_iff, List.forall₂_same]
    intro o ho
    obtain ⟨hmem, hcode⟩ := List.mem_filter.mp ho
    exact registered_toModule (hfits o hmem) (of_decide_eq_true hcode)
  · rw [registered_eq hfits]
    exact CodeMap.pairwise_sorted _
  · rintro front o back rfl
    obtain ⟨hwith, hwithout⟩ := registered_insert memory hfits
    have ho := hfits o (List.mem_append_right _ List.mem_cons_self)
    exact ⟨fun hcode => ⟨_, registered_toModule ho hcode, hwith hcode⟩, hwithout⟩
  · intro o hmem hcode p hp hbias hsame
    have hspans := (spans_text (hfits o hmem) hcode).congr hbias hsame
    obtain ⟨h, hh, hc⟩ := hcode
    have hcode' : p.HasCode := ⟨h, (hsame h hc).mpr hh, hc⟩
    exact (spans_text hp hcode').unique hspans

/-- A library whose code lies in two segments, the higher one first, with an empty one between
them and a search table that cannot be read. -/
def split : LoadedObject :=
  ⟨"libsplit.so", 0x10000,
    [⟨.load, false, 0, 0x800, 0x800⟩, ⟨.load, true, 0x3000, 0x600, 0x1000⟩,
      ⟨.load, true, 0x9000, 0, 0⟩, ⟨.frameHeader, false, 0x100, 2, 2⟩,
      ⟨.load, true, 0x1000, 0x200, 0x200⟩]⟩

def data : LoadedObject :=
  ⟨"data.bin", 0x50000, [⟨.load, false, 0, 0x400, 0x400⟩]⟩

theorem modules_registered_split : (∀ o ∈ [data, split], o.Fits) ∧
    ∃ m, registered (fun _ => 0) [data, split] = [m] ∧ m.name = "libsplit.so" ∧
      m.text = ⟨0x11000, 0x14000⟩ ∧ m.table = #[] := by
  have hfits : ∀ o ∈ [data, split], o.Fits := by decide
  refine ⟨hfits, ?_⟩
  obtain ⟨⟨modules, hmodules, hperm⟩, -⟩ := modules_registered (fun _ => 0) [data, split] hfits
  have hcode : [data, split].filter (·.HasCode) = [split] := by decide
  rw [hcode] at hmodules
  obtain ⟨m, rfl, hm⟩ : ∃ m, modules = [m] ∧ Registered (fun _ => 0) split m := by
    cases hmodules with
    | cons hm hnil =>
      cases hnil
      exact ⟨_, rfl, hm⟩
  refine ⟨m, List.perm_singleton.mp hperm, hm.name, (hm.text _).mp ⟨by decide, ?_⟩, ?_⟩
  · intro c hc
    have hlow := hc ⟨.load, true, 0x1000, 0x200, 0x200⟩ (by decide) (by decide)
    have hhigh := hc ⟨.load, true, 0x3000, 0x600, 0x1000⟩ (by decide) (by decide)
    exact ⟨UInt64.le_iff_toNat_le.mpr hlow.1, UInt64.le_iff_toNat_le.mpr hhigh.2⟩
  · have hshows : Section.Shows (fun _ => 0) ⟨0x10100, [0, 0]⟩ := by
      unfold Section.Shows
      decide
    have htable : SearchTable (fun _ => 0) split ⟨0x10100, [0, 0]⟩ :=
      ⟨⟨.frameHeader, false, 0x100, 2, 2⟩, rfl, by decide, by decide, hshows⟩
    exact (hm.table _).mp (.broken htable rfl)

end LoadedObject

end Unwind
