import Unwind.Proofs.FrameHeader.Listing
import Unwind.Proofs.RuleTable.Skipping

/-!
# Search tables that are cut short

A header section can end before the pairs that it declares. Wherever it ends, in a pair or between
two, the complete pairs are listed and after them one fault, and no rule table is compiled
(`truncated_reported`). One place is different: if the section ends where its search table would
start, the table is taken for an empty one and nothing is reported (`truncated_silently`).
-/

namespace Unwind

namespace Section

/-- From an address on, a section has the bytes behind it and starts there. -/
theorem drop_sub_address (s : Section) (a : UInt64) :
    s.drop (a - s.address).toNat = ⟨a, s.bytes.drop (a - s.address).toNat⟩ := by
  unfold drop
  rw [Nat.toUInt64_eq, UInt64.ofNat_toNat, UInt64.add_comm, UInt64.sub_add_cancel]

/-- An address lies in a section if bytes are left from there on. -/
theorem contains_iff_drop_ne_nil {s : Section} (fits : s.Fits) (a : UInt64) :
    s.contains a = true ↔ s.bytes.drop (a - s.address).toNat ≠ [] := by
  rw [contains_iff fits, ne_eq, List.drop_eq_nil_iff, Nat.not_le]
  rfl

end Section

theorem RuleTable.compile_of_entries_nil {header : Section} {h : FrameHeader} (frames : Section)
    (imageBase : UInt64) (hdecode : FrameHeader.decode header = .ok h)
    (hentries : h.entries header = []) :
    compile header frames imageBase = ⟨[], .ok #[]⟩ := by
  unfold compile
  rw [hdecode]
  dsimp only
  rw [hentries, addEntries]
  change Compilation.mk [] (.ok (Builder.new imageBase).finish) = _
  rw [Builder.finish, show (Builder.new imageBase).rules.toList = [] from rfl, List.mergeSort_nil]

namespace FrameHeader

variable {encoding : UInt8} {base a : UInt64}

/-- No pair is stored at the front of the bytes at an address. -/
def Incomplete (encoding : UInt8) (base a : UInt64) (left : Bytes) : Prop :=
  ∀ entry pair rest, Table encoding base a [entry] pair → left ≠ pair ++ rest

theorem exists_error_of_incomplete {left : Bytes} (h : Incomplete encoding base a left) :
    ∃ e rest, readEntry encoding base ⟨a, left⟩ = .error e rest := by
  cases hread : readEntry encoding base ⟨a, left⟩ with
  | error e rest => exact ⟨e, rest, rfl⟩
  | ok entry rest =>
    obtain ⟨pair, hbytes, hpair⟩ := exists_table_of_readEntry hread
    exact absurd hbytes (h entry pair rest.bytes hpair)

theorem incomplete_of_error {left : Bytes} {e : CfiError} {t : Section}
    (h : readEntry encoding base ⟨a, left⟩ = .error e t) : Incomplete encoding base a left := by
  rintro entry pair rest hpair rfl
  cases hpair with
  | cons hlocation hrecord hnil =>
    cases hnil
    rw [List.append_nil, readEntry_of_stored hlocation hrecord] at h
    cases h

theorem entriesFrom_of_incomplete {entries : List Entry} {table left : Bytes} {count : Nat}
    (htable : Table encoding base a entries table)
    (hleft : Incomplete encoding base (a + table.length.toUInt64) left)
    (hcount : entries.length < count) :
    ∃ e rest, readEntry encoding base ⟨a + table.length.toUInt64, left⟩ = .error e rest ∧
      entriesFrom encoding base count ⟨a, table ++ left⟩ = listed entries (some e) := by
  obtain ⟨e, rest, hread⟩ := exists_error_of_incomplete hleft
  obtain ⟨more, rfl⟩ : ∃ more, count = entries.length + (more + 1) :=
    ⟨count - entries.length - 1, by omega⟩
  refine ⟨e, rest, hread, ?_⟩
  rw [entriesFrom_append htable, entriesFrom, hread]
  rfl

/-- What a header section with fewer pairs than it declares gives. As long as a byte of the table is
there, the complete pairs are listed and then the fault of the one behind them, and that fault is
the answer to compiling. A section that ends where the table would start gives an empty table. -/
theorem truncated_reported {header : Section} {h : FrameHeader} {entries : List Entry}
    {table left : Bytes} (hdecode : decode header = .ok h)
    (hbytes : h.tableBytes header = table ++ left)
    (htable : Table h.encoding header.address h.table entries table)
    (hleft : Incomplete h.encoding header.address (h.table + table.length.toUInt64) left)
    (hcount : entries.length < h.count.toNat) :
    (header.Fits → (header.contains h.table = true ↔ table ++ left ≠ [])) ∧
    (header.contains h.table = true → ∃ e rest,
      readEntry h.encoding header.address ⟨h.table + table.length.toUInt64, left⟩ =
        .error e rest ∧
      h.entries header = entries.map .ok ++ [.error e] ∧
      ∀ frames imageBase, (RuleTable.compile header frames imageBase).table = .error e) ∧
    (header.contains h.table = false →
      h.entries header = [] ∧
      ∀ frames imageBase, RuleTable.compile header frames imageBase = ⟨[], .ok #[]⟩) := by
  refine ⟨fun fits => ?_, fun hcontains => ?_, fun houtside => ?_⟩
  · rw [← hbytes]
    exact Section.contains_iff_drop_ne_nil fits h.table
  · obtain ⟨e, rest, hread, hlisted⟩ := entriesFrom_of_incomplete htable hleft hcount
    have hentries : h.entries header = listed entries (some e) := by
      -- The pairs are read from the bytes that the table was found to begin with.
      unfold FrameHeader.entries Section.startingAt
      rw [if_pos hcontains, Section.drop_sub_address]
      change entriesFrom _ _ _ ⟨h.table, h.tableBytes header⟩ = _
      rw [hbytes, hlisted]
    refine ⟨e, rest, hread, hentries, fun frames imageBase => ?_⟩
    refine RuleTable.compile_of_broken frames imageBase (.inr ⟨h, hdecode, ?_⟩)
    rw [hentries]
    exact List.mem_append_right _ (List.mem_singleton_self _)
  · have hentries : h.entries header = [] := by
      unfold FrameHeader.entries Section.startingAt
      rw [if_neg (Bool.not_eq_true _ ▸ houtside)]
    exact ⟨hentries, fun frames imageBase =>
      RuleTable.compile_of_entries_nil frames imageBase hdecode hentries⟩

/-- A header section that declares three pairs and ends in the second. -/
def cutHeader : Section := ⟨0x3000,
  [1, 0x1b, 0x03, 0x3b, 0xfc, 0xef, 0xff, 0xff, 3, 0, 0, 0,
    0x00, 0xe0, 0xff, 0xff, 0x14, 0xf0, 0xff, 0xff, 0x40, 0xe0, 0xff]⟩

def cut : FrameHeader := ⟨0x2000, 3, 0x300c, 0x3b⟩

theorem truncated_reported_second :
    decode cutHeader = .ok cut ∧
    cut.entries cutHeader = [.ok ⟨0x1000, 0x2014⟩, .error (.unexpectedEnd 0x3014)] ∧
    (RuleTable.compile cutHeader ⟨0x2000, []⟩ 0x1000).table = .error (.unexpectedEnd 0x3014) := by
  have hdecode : decode cutHeader = .ok cut := by decide +kernel
  have hlocation : Pointer.Stores 0x3b 0x3000 0x300c 0x1000 [0x00, 0xe0, 0xff, 0xff] :=
    .of ⟨_, _, _, -0x2000, rfl, rfl, rfl, .sdata4 (by decide) (by decide), rfl⟩
  have hrecord : Pointer.Stores 0x3b 0x3000 0x3010 0x2014 [0x14, 0xf0, 0xff, 0xff] :=
    .of ⟨_, _, _, -0xfec, rfl, rfl, rfl, .sdata4 (by decide) (by decide), rfl⟩
  have hpair : Table 0x3b 0x3000 0x300c [⟨0x1000, 0x2014⟩]
      [0x00, 0xe0, 0xff, 0xff, 0x14, 0xf0, 0xff, 0xff] :=
    @Table.cons _ _ _ ⟨_, _⟩ _ _ _ _ hlocation hrecord .nil
  have hread : readEntry 0x3b 0x3000 ⟨0x3014, [0x40, 0xe0, 0xff]⟩ =
      .error (.unexpectedEnd 0x3014) ⟨0x3014, [0x40, 0xe0, 0xff]⟩ := rfl
  have hbytes : cut.tableBytes cutHeader =
      [0x00, 0xe0, 0xff, 0xff, 0x14, 0xf0, 0xff, 0xff] ++ [0x40, 0xe0, 0xff] := rfl
  obtain ⟨-, hreported, -⟩ :=
    truncated_reported hdecode hbytes hpair (incomplete_of_error hread) (by decide)
  obtain ⟨e, rest, hfault, hentries, hcompile⟩ := hreported (by decide +kernel)
  cases hread.symm.trans hfault
  exact ⟨hdecode, hentries, hcompile _ _⟩

/-- A header section that declares a pair and ends in front of it. -/
def bareHeader : Section := ⟨0x3000, [1, 0x1b, 0x03, 0x3b, 0xfc, 0xef, 0xff, 0xff, 1, 0, 0, 0]⟩

/-- The pair that is missing is not reported. -/
theorem truncated_silently :
    ∃ h, decode bareHeader = .ok h ∧ h.count = 1 ∧ h.tableBytes bareHeader = [] ∧
      h.entries bareHeader = [] ∧
      ∀ frames imageBase, (RuleTable.compile bareHeader frames imageBase).table = .ok #[] := by
  have hdecode : decode bareHeader = .ok ⟨0x2000, 1, 0x300c, 0x3b⟩ := by decide +kernel
  have hentries : FrameHeader.entries ⟨0x2000, 1, 0x300c, 0x3b⟩ bareHeader = [] := by
    decide +kernel
  refine ⟨_, hdecode, rfl, by decide +kernel, hentries, fun frames imageBase => ?_⟩
  rw [RuleTable.compile_of_entries_nil frames imageBase hdecode hentries]

end FrameHeader

end Unwind
