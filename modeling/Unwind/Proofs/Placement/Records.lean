import Mathlib.Data.List.Forall2
import Unwind.Fde
import Unwind.FrameHeader
import Unwind.Proofs.Placement.Reader
import Unwind.Proofs.Reader.Reads
import Unwind.Proofs.Section

/-!
# Records in two places

Frame records and the search table in front of them, decoded in two places that differ by `d`. What
is decoded moves along with the bytes: the addresses of records and instructions always, the
addresses of code if they are stored relative to a place.
-/

namespace Unwind

/-- The entry of the same record, `d` further on. -/
def Cie.moved (d : UInt64) (cie : Cie) : Cie :=
  { cie with start := cie.start + d, instructions := cie.instructions.moved d }

@[simp] theorem Cie.augmented_moved (d : UInt64) (cie : Cie) :
    (cie.moved d).augmented = cie.augmented := rfl

/-- The entry of the same record for code that moves along, `d` further on. -/
def Fde.moved (d : UInt64) (fde : Fde) : Fde :=
  ⟨fde.start + d, fde.instructions.moved d, fde.pcStart + d, fde.pcStop + d⟩

def FrameHeader.Entry.moved (d : UInt64) (entry : FrameHeader.Entry) : FrameHeader.Entry :=
  ⟨entry.location + d, entry.record + d⟩

namespace Placement

variable {d : UInt64}

/-! ## Sections -/

theorem startingAt_moved {s : Section} (h : s.Fits) (h' : (s.moved d).Fits) (a : UInt64) :
    Alike (fun t u => u = t.moved d) (s.startingAt a) ((s.moved d).startingAt (a + d)) := by
  have hdistance : a + d - (s.moved d).address = a - s.address := by
    rw [Section.address_moved]
    grind
  have hcontains : (s.moved d).contains (a + d) = s.contains a := by
    rw [Bool.eq_iff_iff, Section.contains_iff h, Section.contains_iff h', hdistance,
      Section.size_moved]
  unfold Section.startingAt
  rw [hcontains, hdistance, Section.drop_moved]
  split
  · exact .ok rfl
  · exact .error _ _

/-! ## Common entries -/

theorem record_moves :
    Moves d (fun o p => p = o.map (Section.moved d)) Reader.record Reader.record := by
  unfold Reader.record
  refine Moves.uint32.bindEq fun short => .ite_bind .uint64 (.pure rfl) fun length => ?_
  dsimp only
  split
  · exact .pure rfl
  · exact (Moves.split _).map fun _ _ h => congrArg some h

/-- Where the record starts is known before its instructions are. -/
def Started (d : UInt64) (cie cie' : Cie) : Prop :=
  cie' = { cie with start := cie.start + d }

theorem readField_moves {cie cie' : Cie} (h : Started d cie cie') (letter : UInt8) :
    Moves d (Started d) (cie.readField letter) (cie'.readField letter) := by
  rw [Started] at h
  subst h
  unfold Cie.readField
  split
  · -- The routine is passed over: what matters is only whether it can be read.
    refine Moves.uint8.bindEq fun encoding => ?_
    exact (Moves.pointer (.inl ⟨rfl, rfl⟩) encoding).map fun _ _ _ => rfl
  · exact Moves.uint8.bindEq fun encoding => .pure rfl
  · exact Moves.uint8.bindEq fun encoding => .pure rfl
  · exact .pure rfl
  · exact .pure rfl
  · exact .pure rfl

theorem readFields_moves (letters : Bytes) {cie cie' : Cie} (h : Started d cie cie') :
    Moves d (Started d) (letters.foldlM Cie.readField cie)
      (letters.foldlM Cie.readField cie') := by
  induction letters generalizing cie cie' with
  | nil => exact .pure h
  | cons letter letters ih => exact (readField_moves h letter).bind fun _ _ h => ih h

theorem readAugmentation_moves (letters : Bytes) {cie cie' : Cie} (h : Started d cie cie') :
    Moves d (Started d) (Cie.readAugmentation letters cie) (Cie.readAugmentation letters cie') := by
  unfold Cie.readAugmentation
  refine Moves.uleb128.bindEq fun length => (Moves.split _).bind fun area area' harea => ?_
  subst harea
  refine .lift (Outcome.on (readFields_moves letters ?_ area))
  rw [Started] at h ⊢
  rw [h]

theorem readInstructions_moves {cie cie' : Cie} (h : Started d cie cie') :
    Moves d (fun c c' => c' = c.moved d) (do return { cie with instructions := ← Reader.unread })
      (do return { cie' with instructions := ← Reader.unread }) := by
  rw [Started] at h
  subst h
  refine Moves.unread.map fun code code' hcode => ?_
  subst hcode
  rfl

theorem readCie_moves (start : UInt64) :
    Moves d (fun c c' => c' = c.moved d) (Cie.readBody start) (Cie.readBody (start + d)) := by
  unfold Cie.readBody
  refine Moves.uint32.bindEq fun identifier => ?_
  dsimp only
  split
  · exact .throw_bind _ _ _ _
  refine Moves.uint8.bindEq fun version => ?_
  split
  · exact .throw_bind _ _ _ _
  refine Moves.zeroTerminated.bindEq fun augmentation => Moves.uleb128.bindEq fun codeAlign =>
    Moves.sleb128.bindEq fun dataAlign => .ite_bind .uint8 (Moves.uleb128.apply _) fun column => ?_
  split
  · exact (readAugmentation_moves _ rfl).bind fun cie cie' h => readInstructions_moves h
  · exact Moves.bind (.pure rfl) fun cie cie' h => readInstructions_moves h

theorem decodeCie_moved {frames : Section} (h : frames.Fits) (h' : (frames.moved d).Fits)
    (start : UInt64) :
    Alike (fun c c' => c' = c.moved d) (Cie.decode frames start)
      (Cie.decode (frames.moved d) (start + d)) := by
  unfold Cie.decode
  refine (startingAt_moved h h' start).bind fun unread _ hunread => ?_
  subst hunread
  refine (Outcome.on (record_moves unread)).bind fun content _ hcontent => ?_
  subst hcontent
  cases content with
  | none => exact .error _ _
  | some content => exact Outcome.on (readCie_moves start content)

/-! ## Entries of functions -/

/-- What two decoded records have in common. The code moves if its addresses are relative. -/
structure Same (d : UInt64) (p q : Fde × Cie) : Prop where
  cie : q.2 = p.2.moved d
  fde : Relative p.2.pointerEncoding → q.1 = p.1.moved d

theorem absolute_format (encoding : UInt8) : Absolute (encoding &&& 0x0f) := by
  unfold Absolute Pointer.Application.of
  have h : encoding &&& 0x0f &&& 0x70 = 0 := by
    rw [UInt8.and_assoc]
    exact UInt8.and_zero
  rw [h]
  rfl

theorem readCode_moves {start pcStart pcStart' : UInt64} {cie : Cie}
    (h : Shift cie.pointerEncoding d pcStart pcStart') (pcSize : UInt64) :
    Moves d (Same d)
      (do
        let instructions ← Reader.unread
        return ({ start, instructions, pcStart, pcStop := pcStart + pcSize }, cie))
      (do
        let instructions ← Reader.unread
        return ({ start := start + d, instructions, pcStart := pcStart',
                  pcStop := pcStart' + pcSize }, cie.moved d)) := by
  refine Moves.unread.map fun code code' hcode => ⟨rfl, fun hrelative => ?_⟩
  have hstop : pcStart + d + pcSize = pcStart + pcSize + d := by grind
  rw [hcode, h.relative hrelative, hstop]
  rfl

theorem readFde_moves {frames : Section} (h : frames.Fits) (h' : (frames.moved d).Fits)
    (start : UInt64) :
    Moves d (Same d) (Fde.readBody frames start) (Fde.readBody (frames.moved d) (start + d)) := by
  unfold Fde.readBody
  refine Moves.address.bind fun field field' hfield => Moves.uint32.bindEq fun distance => ?_
  subst hfield
  dsimp only
  split
  · exact .throw_bind _ _ _ _
  -- The common entry is looked up from a field that has moved, so it is the same one.
  have hback : field + d - distance.toUInt64 = field - distance.toUInt64 + d := by grind
  rw [hback]
  refine (Moves.lift (decodeCie_moved h h' _)).bind fun cie cie' hcie => ?_
  subst hcie
  refine (Moves.pointer (.inl ⟨rfl, rfl⟩) _).bind fun pcStart pcStart' hstart => ?_
  refine (Moves.pointer (.inl ⟨rfl, rfl⟩) _).bind fun pcSize pcSize' hsize => ?_
  have hsize' := hsize.absolute (absolute_format _)
  subst hsize'
  rw [Cie.augmented_moved]
  split
  · refine Moves.uleb128.bindEq fun length => (Moves.skip _).bindEq fun _ => ?_
    exact readCode_moves hstart pcSize'
  · exact readCode_moves hstart pcSize'

theorem decodeFde_moved {frames : Section} (h : frames.Fits) (h' : (frames.moved d).Fits)
    (start : UInt64) :
    Alike (Same d) (Fde.decode frames start) (Fde.decode (frames.moved d) (start + d)) := by
  unfold Fde.decode
  refine (startingAt_moved h h' start).bind fun unread _ hunread => ?_
  subst hunread
  refine (Outcome.on (record_moves unread)).bind fun content _ hcontent => ?_
  subst hcontent
  cases content with
  | none => exact .error _ _
  | some content => exact Outcome.on (readFde_moves h h' start content)

/-! ## The search table -/

theorem bytes_of_uint8 {s t : Section} {b : UInt8} (h : Reader.uint8 s = .ok b t) :
    s.bytes = b :: t.bytes := by
  obtain ⟨a, bytes⟩ := s
  cases bytes with
  | nil => cases h
  | cons first rest =>
    cases (Reads.byte first rest).symm.trans h
    rfl

/-- The declared number of pairs is stored relative to nothing, if at all. -/
def FixedCount (header : Section) : Prop :=
  ∀ encoding, header.bytes[2]? = some encoding → encoding = Pointer.omitted ∨ Absolute encoding

/-- The pairs of the search table are stored relative to a place, if at all. -/
def RelativeTable (header : Section) : Prop :=
  ∀ encoding, header.bytes[3]? = some encoding → encoding = Pointer.omitted ∨ Relative encoding

/-- What two decoded headers have in common. -/
structure SameTable (d : UInt64) (h k : FrameHeader) : Prop where
  count : k.count = h.count
  table : k.table = h.table + d
  encoding : k.encoding = h.encoding
  relative : h.count = 0 ∨ Relative h.encoding

theorem readTable_moves {encoding : UInt8} (h : encoding = Pointer.omitted ∨ Relative encoding)
    (frames frames' declared : UInt64) :
    Moves d (SameTable d)
      (do return ⟨frames, if encoding == Pointer.omitted then 0 else declared, ← Reader.address,
        encoding⟩)
      (do return ⟨frames', if encoding == Pointer.omitted then 0 else declared, ← Reader.address,
        encoding⟩) := by
  refine Moves.address.map fun a a' ha => ⟨rfl, ha, rfl, h.imp_left fun homitted => ?_⟩
  dsimp only
  rw [if_pos (by rwa [beq_iff_eq])]

theorem readHeader_moved {header : Section} {base base' : UInt64} (hbase : Bases d base base')
    (hcount : FixedCount header) (htable : RelativeTable header) :
    Outcome d (SameTable d) (FrameHeader.read base header)
      (FrameHeader.read base' (header.moved d)) := by
  unfold FrameHeader.read
  refine (Moves.uint8 header).bind fun version _ s hs heq => ?_
  subst heq
  dsimp only
  split
  · exact Moves.throw_bind _ _ _ _ s
  refine (Moves.uint8 s).bind fun framesEncoding _ t ht heq => ?_
  subst heq
  refine (Moves.uint8 t).bind fun countEncoding _ u hu heq => ?_
  subst heq
  refine (Moves.uint8 u).bind fun tableEncoding _ v hv heq => ?_
  subst heq
  -- The encodings are read from where the assumptions speak of them.
  have hbytes : header.bytes =
      version :: framesEncoding :: countEncoding :: tableEncoding :: v.bytes := by
    rw [bytes_of_uint8 hs, bytes_of_uint8 ht, bytes_of_uint8 hu, bytes_of_uint8 hv]
  have hcount' := hcount countEncoding (by rw [hbytes]; rfl)
  have htable' := htable tableEncoding (by rw [hbytes]; rfl)
  refine ((Moves.pointer hbase framesEncoding).bind fun frames frames' _ => ?_) v
  split
  · exact Moves.bindEq (.pure rfl) fun declared => readTable_moves htable' frames frames' declared
  · rename_i hne
    refine (Moves.pointer hbase countEncoding).bind fun declared declared' hdeclared => ?_
    have hsame : declared' = declared := by
      refine hdeclared.absolute (hcount'.resolve_left fun homitted => hne ?_)
      rwa [beq_iff_eq]
    subst hsame
    exact readTable_moves htable' frames frames' declared'

theorem readEntry_moves {encoding : UInt8} {base base' : UInt64} (h : Relative encoding)
    (hbase : Bases d base base') :
    Moves d (fun e f => f = e.moved d) (FrameHeader.readEntry encoding base)
      (FrameHeader.readEntry encoding base') := by
  unfold FrameHeader.readEntry
  refine (Moves.pointer hbase encoding).bind fun location location' hlocation => ?_
  refine (Moves.pointer hbase encoding).map fun record record' hrecord => ?_
  rw [hlocation.relative h, hrecord.relative h]
  rfl

/-- The pairs of two tables, one by one. -/
abbrev SameEntries (d : UInt64) :=
  List.Forall₂ (Alike fun e f : FrameHeader.Entry => f = e.moved d)

theorem entriesFrom_moved {encoding : UInt8} {base base' : UInt64} (h : Relative encoding)
    (hbase : Bases d base base') (count : Nat) (unread : Section) :
    SameEntries d (FrameHeader.entriesFrom encoding base count unread)
      (FrameHeader.entriesFrom encoding base' count (unread.moved d)) := by
  induction count generalizing unread with
  | zero => exact .nil
  | succ count ih =>
    have hentry := readEntry_moves h hbase unread
    unfold FrameHeader.entriesFrom
    generalize FrameHeader.readEntry encoding base unread = x at hentry
    generalize FrameHeader.readEntry encoding base' (unread.moved d) = y at hentry
    cases hentry with
    | ok h => exact .cons (.ok h) (ih _)
    | error e e' => exact .cons (.error e e') .nil

theorem entries_moved {header : Section} {h k : FrameHeader} (hsame : SameTable d h k)
    (hfits : header.Fits) (hfits' : (header.moved d).Fits) (hne : header.address ≠ 0)
    (hne' : header.address + d ≠ 0) :
    SameEntries d (h.entries header) (k.entries (header.moved d)) := by
  have hstart := startingAt_moved hfits hfits' h.table
  unfold FrameHeader.entries
  rw [hsame.table, hsame.encoding, hsame.count]
  generalize header.startingAt h.table = x at hstart
  generalize (header.moved d).startingAt (h.table + d) = y at hstart
  cases hstart with
  | error e e' => exact .nil
  | @ok unread unread' hunread =>
    subst hunread
    obtain hzero | hrelative := hsame.relative
    · rw [hzero]
      exact .nil
    · exact entriesFrom_moved hrelative (.inr ⟨hne, hne', rfl⟩) _ unread

end Placement

end Unwind
