import Unwind.Proofs.FrameRecord.Forms
import Unwind.Proofs.Section

/-!
# Decoding gives back what was written

Each byte form is read to its end and gives what it stands for, whatever follows. A record of a
function that is written anywhere behind the record of its common entry is decoded to both entries
(`decode_written`).
-/

namespace Unwind

namespace FrameRecord

open Leb128

/-! ## Numerals and lengths -/

theorem Unsigned.reads {n : Nat} {bytes : Bytes} (h : Unsigned n bytes) (hn : n < wordCount)
    (a : UInt64) : Reads Reader.uleb128 a bytes (UInt64.ofNat n) := by
  have hreads := Reads.uleb128 a h.numeral h.short (by rw [h.value]; exact hn)
  rwa [h.value] at hreads

theorem Signed.reads {z : Int} {bytes : Bytes} (h : Signed z bytes) (a : UInt64) :
    Reads Reader.sleb128 a bytes (Int64.ofInt z) := by
  have hreads := Reads.sleb128 a h.numeral
  rwa [h.value] at hreads

theorem reads_content {a w : UInt64} {content : Bytes} (hw : w.toNat = content.length)
    (hne : content ≠ []) :
    Reads (if w == 0 then pure none else do return some (← Reader.split w.toNat)) a content
      (some ⟨a, content⟩) := by
  have hzero : ¬ (w == 0) = true := by
    rw [beq_iff_eq, ← UInt64.toNat_inj, hw]
    exact Nat.ne_of_gt (List.length_pos_iff.mpr hne)
  rw [if_neg hzero, hw]
  exact (Reads.split content).map some

theorem reads_record {a : UInt64} {length content : Bytes} (h : Length content.length length)
    (hne : content ≠ []) :
    Reads Reader.record a (length ++ content) (some ⟨a + length.length.toUInt64, content⟩) := by
  unfold Reader.record
  cases h with
  | short hlt =>
    have hnat : content.length.toUInt32.toNat = content.length :=
      UInt32.toNat_ofNat_of_lt' (Nat.lt_trans hlt (by decide))
    have hshort : ¬ (content.length.toUInt32 == 0xffffffff) = true := by
      rw [beq_iff_eq, ← UInt32.toNat_inj, hnat]
      exact Nat.ne_of_lt hlt
    refine (Reads.uint32 _).bind ?_
    -- The short form never looks like the announcement of the long one.
    rw [if_neg hshort]
    refine Reads.bind_nil (Reads.pure _) (reads_content ?_ hne)
    rw [UInt32.toNat_toUInt64, hnat]
  | long hlt =>
    rw [← add_length_append, List.append_assoc]
    refine (Reads.uint32 0xffffffff).bind ?_
    rw [if_pos (by decide)]
    exact (Reads.uint64 _).bind (reads_content (UInt64.toNat_ofNat_of_lt' hlt) hne)

/-- A record is split off from whatever surrounds it, and what is split off is its content. -/
theorem split_of_record {P : UInt64 → Bytes → Prop} {a recordAt : UInt64}
    {before record rest : Bytes} (hrecordAt : recordAt = a + before.length.toUInt64)
    (h : Record P recordAt record) (hne : ∀ b, ¬ P b [])
    (fits : Section.Fits ⟨a, before ++ (record ++ rest)⟩) :
    ∃ length content unread, record = length ++ content ∧
      P (recordAt + length.length.toUInt64) content ∧ content.length < wordCount ∧
      Section.startingAt ⟨a, before ++ (record ++ rest)⟩ recordAt = .ok unread ∧
      Reader.record.on unread = .ok (some ⟨recordAt + length.length.toUInt64, content⟩) := by
  subst hrecordAt
  cases h with
  | @of length content hlength h =>
    have hcontent : content ≠ [] := fun hnil => hne _ (hnil ▸ h)
    have hrest : length ++ content ++ rest ≠ [] := by simp [hcontent]
    have hfits : content.length < wordCount := by
      dsimp only [Section.Fits, Section.size] at fits
      simp only [List.length_append] at fits
      omega
    exact ⟨length, content, _, rfl, h, hfits, Section.startingAt_append hrest fits,
      (reads_record hlength hcontent).on_append rest⟩

/-! ## The augmentation -/

/-- What the fields change in an entry. -/
def withFields (cie : Cie) (fields : List Field) : Cie :=
  { cie with
    pointerEncoding := (fields.filterMap Field.pointers?).getLastD cie.pointerEncoding
    lsdaEncoding := (fields.filterMap Field.lsda?).getLastD cie.lsdaEncoding
    signalFrame := cie.signalFrame || decide (Field.signalFrame ∈ fields)
    secondKey := cie.secondKey || decide (Field.secondKey ∈ fields) }

theorem withFields_nil (cie : Cie) : withFields cie [] = cie := by
  simp [withFields]

theorem withFields_single (cie : Cie) (field : Field) :
    withFields cie [field] =
      match field with
      | .personality _ _ => cie
      | .lsda encoding => { cie with lsdaEncoding := encoding }
      | .pointers encoding => { cie with pointerEncoding := encoding }
      | .signalFrame => { cie with signalFrame := true }
      | .secondKey => { cie with secondKey := true } := by
  cases field <;> simp [withFields, Field.pointers?, Field.lsda?]

theorem withFields_cons (cie : Cie) (field : Field) (fields : List Field) :
    withFields cie (field :: fields) = withFields (withFields cie [field]) fields := by
  rw [withFields_single]
  cases field <;>
    simp [withFields, List.filterMap_cons, Field.pointers?, Field.lsda?, List.getLastD_cons,
      -List.getLastD_eq_getLast?]

theorem reads_operand {a : UInt64} {field : Field} {bytes : Bytes} (h : Operand a field bytes)
    (cie : Cie) : Reads (Cie.readField cie field.letter) a bytes (withFields cie [field]) := by
  rw [withFields_single]
  cases h with
  | personality h => exact (Reads.byte _).bind ((Reads.pointer h).map fun _ => cie)
  | lsda => exact (Reads.byte _).map fun encoding => { cie with lsdaEncoding := encoding }
  | pointers => exact (Reads.byte _).map fun encoding => { cie with pointerEncoding := encoding }
  | signalFrame => exact Reads.pure _
  | secondKey => exact Reads.pure _

theorem reads_operands {a : UInt64} {fields : List Field} {bytes : Bytes}
    (h : Operands a fields bytes) (cie : Cie) :
    Reads ((fields.map Field.letter).foldlM Cie.readField cie) a bytes (withFields cie fields) := by
  induction h generalizing cie with
  | nil =>
    rw [withFields_nil]
    exact Reads.pure cie
  | cons h _ ih =>
    -- The entry that the first field leaves is the one that the rest goes on from.
    rw [withFields_cons]
    exact (reads_operand h cie).bind (ih _)

theorem reads_augmentation {a : UInt64} {fields : List Field} {length operands : Bytes}
    (hlength : Unsigned operands.length length) (hfits : operands.length < wordCount)
    (h : Operands (a + length.length.toUInt64) fields operands) (cie : Cie) :
    Reads (Cie.readAugmentation (fields.map Field.letter) cie) a (length ++ operands)
      (withFields { cie with augmented := true } fields) := by
  unfold Cie.readAugmentation
  refine (hlength.reads hfits a).bind ?_
  rw [UInt64.toNat_ofNat_of_lt' hfits]
  refine (Reads.split operands).bind_end ?_
  rw [(reads_operands h _).on_self]
  exact Reads.lift

/-! ## Common entries -/

theorem zero_notMem_letters (c : Common) : (0 : UInt8) ∉ c.letters := by
  unfold Common.letters
  cases c.fields with
  | none => simp
  | some fields =>
    rw [List.mem_cons, List.mem_map]
    rintro (h | ⟨field, -, h⟩)
    · exact absurd h (by decide)
    · have hne : ∀ field : Field, field.letter ≠ 0 := by
        intro field
        cases field <;> unfold Field.letter <;> dsimp only <;> decide
      exact hne field h

theorem on_column {α : Type} {v : Version} {column : UInt8} {bytes : Bytes}
    (h : Column v column bytes) (f : UInt8 → Reader α) (a : UInt64) (rest : Bytes) :
    (if v.number == 1 then Reader.uint8 >>= f else (UInt64.toUInt8 <$> Reader.uleb128) >>= f).on
      ⟨a, bytes ++ rest⟩ = (f column).on ⟨a + bytes.length.toUInt64, rest⟩ := by
  cases h with
  | first =>
    rw [if_pos (by decide)]
    exact (Reads.byte column).on_bind rest
  | third h =>
    have hlt : column.toNat < wordCount := Nat.lt_trans column.toNat_lt (by decide)
    have hreads := (h.reads hlt a).map UInt64.toUInt8
    have hcolumn : (UInt64.ofNat column.toNat).toUInt8 = column := by
      rw [← UInt8.toNat_inj, UInt64.toNat_toUInt8, UInt64.toNat_ofNat']
      have hbyte := column.toNat_lt
      omega
    rw [hcolumn] at hreads
    rw [if_neg (by decide)]
    exact hreads.on_bind rest

theorem tail_append (a : UInt64) (front instructions : Bytes) :
    tail a (front ++ instructions) instructions = ⟨a + front.length.toUInt64, instructions⟩ := by
  unfold tail
  rw [List.length_append, Nat.add_sub_cancel]

theorem tail_behind {a : UInt64} {content instructions : Bytes} (length : Bytes)
    (h : instructions <:+ content) :
    tail (a + length.length.toUInt64) content instructions =
      tail a (length ++ content) instructions := by
  obtain ⟨front, rfl⟩ := h
  rw [tail_append, ← List.append_assoc, tail_append, add_length_append]

theorem Common.Content.suffix {c : Common} {a : UInt64} {content : Bytes}
    (h : c.Content a content) : c.instructions <:+ content := by
  cases h with
  | of => exact List.suffix_append _ _

theorem readBody_of_common {c : Common} {start a : UInt64} {content : Bytes}
    (h : c.Content a content) (hfits : content.length < wordCount) :
    (Cie.readBody start).on ⟨a, content⟩ =
      .ok (c.decoded start (tail a content c.instructions)) := by
  cases h with
  | @of codeAlign dataAlign column front data hcode hdata hcolumn hfront h =>
    have hcode' : (UInt64.ofNat c.codeAlign.toNat).toUInt32 = c.codeAlign := by
      rw [← UInt32.toNat_inj, UInt64.toNat_toUInt32, UInt64.toNat_ofNat']
      have hlt := c.codeAlign.toNat_lt
      omega
    have hdata' : (Int64.ofInt c.dataAlign.toInt).toInt32 = c.dataAlign := by
      rw [Int64.toInt32_ofInt, Int32.ofInt_toInt]
    have hbytes : front ++ data ++ c.instructions =
        littleEndianBytes 4 0 ++ ([c.version.number] ++ ((c.letters ++ [0]) ++ (codeAlign ++
          (dataAlign ++ (column ++ (data ++ c.instructions)))))) := by
      simp only [hfront, List.append_assoc]
    rw [tail_append]
    unfold Cie.readBody
    rw [hbytes, (Reads.uint32 0).on_bind, if_neg (by decide)]
    dsimp only
    rw [(Reads.byte _).on_bind, if_neg (by cases c.version <;> decide),
      (Reads.zeroTerminated (zero_notMem_letters c)).on_bind,
      (hcode.reads (Nat.lt_trans c.codeAlign.toNat_lt (by decide)) _).on_bind,
      (hdata.reads _).on_bind, on_column hcolumn, hcode', hdata']
    -- The reader has come to the place for which the operands were written.
    simp only [add_length_append]
    rw [← hfront]
    -- Only now do the two ways part: what is left to read depends on the augmentation.
    generalize hfields : c.fields = fields at h
    cases h with
    | none =>
      have hletters : c.letters = [] := by rw [Common.letters, hfields]
      rw [hletters]
      refine ((Reads.pure _).on_bind _).trans ?_
      rw [add_length_append]
      unfold Common.decoded Common.pointerEncoding Common.lsdaEncoding
      rw [hfields]
      rfl
    | @some fields length operands hlength hoperands =>
      have hletters : c.letters = 'z'.toUInt8 :: fields.map Field.letter := by
        rw [Common.letters, hfields]
      have hshort : operands.length < wordCount := by
        simp only [List.length_append] at hfits
        omega
      rw [hletters]
      refine ((reads_augmentation hlength hshort hoperands _).on_bind _).trans ?_
      rw [add_length_append]
      unfold Common.decoded Common.pointerEncoding Common.lsdaEncoding
      rw [hfields]
      rfl

theorem Common.Content.ne_nil {c : Common} {a : UInt64} : ¬ c.Content a [] := by
  generalize hnil : ([] : Bytes) = content
  intro h
  cases h with
  | of _ _ _ hfront _ =>
    have hlength := congrArg List.length hnil
    simp only [hfront, List.length_append, List.length_nil, List.length_cons] at hlength
    omega

/-- A common entry is decoded wherever it was written. -/
theorem decode_common {c : Common} {a commonAt : UInt64} {before record rest : Bytes}
    (hcommonAt : commonAt = a + before.length.toUInt64) (h : c.Written commonAt record)
    (fits : Section.Fits ⟨a, before ++ (record ++ rest)⟩) :
    Cie.decode ⟨a, before ++ (record ++ rest)⟩ commonAt =
      .ok (c.decoded commonAt (tail commonAt record c.instructions)) := by
  obtain ⟨length, content, unread, rfl, hcontent, hfits, hunread, hrecord⟩ :=
    split_of_record hcommonAt h (fun _ => Common.Content.ne_nil) fits
  unfold Cie.decode
  rw [hunread]
  change (Reader.record.on unread >>= _) = _
  rw [hrecord, ← tail_behind _ hcontent.suffix]
  exact readBody_of_common hcontent hfits

/-! ## Entries of functions -/

theorem on_skipped {α : Type} {augmented : Bool} {augmentation data : Bytes}
    (h : Skipped augmented augmentation data) (hfits : data.length < wordCount) (r : Reader α)
    (a : UInt64) (rest : Bytes) :
    (if augmented then Reader.uleb128 >>= fun n => Reader.skip n.toNat >>= fun _ => r else r).on
      ⟨a, data ++ rest⟩ = r.on ⟨a + data.length.toUInt64, rest⟩ := by
  cases h with
  | absent =>
    rw [if_neg Bool.false_ne_true]
    change r.on ⟨a, rest⟩ = r.on ⟨a + 0, rest⟩
    rw [UInt64.add_zero]
  | @present _ length hlength =>
    rw [List.length_append] at hfits
    have hfits' : augmentation.length < wordCount := by omega
    have hskip := (Reads.take (a := a + length.length.toUInt64) augmentation).map fun _ => ()
    rw [if_pos rfl, List.append_assoc, (hlength.reads hfits' a).on_bind,
      UInt64.toNat_ofNat_of_lt' hfits']
    refine (hskip.on_bind rest).trans ?_
    rw [add_length_append]

theorem readBody_of_function {f : Function} {c : Common} {cie : Cie} {start fdeStart a : UInt64}
    {frames : Section} {content : Bytes} (h : f.Content c start a content)
    (hfits : content.length < wordCount) (hcie : Cie.decode frames start = .ok cie)
    (hencoding : cie.pointerEncoding = c.pointerEncoding)
    (haugmented : cie.augmented = c.fields.isSome) :
    (Fde.readBody frames fdeStart).on ⟨a, content⟩ =
      .ok (f.decoded fdeStart (tail a content f.instructions), cie) := by
  cases h with
  | @of distance pcStart pcSize data behind near hdistance hstart hsize h =>
    have hword : (a.toNat - start.toNat).toUInt32.toNat = a.toNat - start.toNat :=
      UInt32.toNat_ofNat_of_lt' near
    have hne : ¬ ((a.toNat - start.toNat).toUInt32 == 0) = true := by
      rw [beq_iff_eq, ← UInt32.toNat_inj, hword]
      change ¬ _ = 0
      omega
    have hback : a - (a.toNat - start.toNat).toUInt32.toUInt64 = start := by
      rw [← UInt64.toNat_inj, UInt64.toNat_sub, UInt32.toNat_toUInt64, hword]
      have ha := a.toNat_lt
      omega
    have hreads := Reads.uint32 (a := a) (a.toNat - start.toNat)
    rw [← hdistance] at hreads
    rw [tail_append]
    unfold Fde.readBody
    rw [Reads.address.on_bind_nil, List.append_assoc, List.append_assoc, List.append_assoc,
      hreads.on_bind, if_neg hne]
    dsimp only
    -- Going back from the field by the distance leads to the common entry.
    rw [hback, hcie, Reads.lift.on_bind_nil, hencoding, haugmented, (Reads.pointer hstart).on_bind,
      add_length_append, (Reads.pointer hsize).on_bind, add_length_append]
    rw [on_skipped h (by simp only [List.length_append] at hfits; omega), add_length_append]
    rfl

theorem Function.Content.ne_nil {f : Function} {c : Common} {start a : UInt64} :
    ¬ f.Content c start a [] := by
  generalize hnil : ([] : Bytes) = content
  intro h
  cases h with
  | of _ _ hdistance _ _ _ =>
    have hlength := congrArg List.length hnil
    simp only [hdistance, List.length_append, List.length_nil, length_littleEndianBytes] at hlength
    omega

theorem Function.Content.suffix {f : Function} {c : Common} {start a : UInt64} {content : Bytes}
    (h : f.Content c start a content) : f.instructions <:+ content := by
  cases h with
  | of => exact List.suffix_append _ _

/-- The records of a common entry and, behind it, of a function that refers to it are decoded to what
they were written for. The bytes before, between and behind the records do not matter. -/
theorem decode_written {a commonAt functionAt : UInt64}
    {before common between function behind : Bytes} {c : Common} {f : Function}
    (hcommonAt : commonAt = a + before.length.toUInt64)
    (hfunctionAt : functionAt = a + (before ++ common ++ between).length.toUInt64)
    (hcommon : c.Written commonAt common) (hfunction : f.Written c commonAt functionAt function)
    (fits : Section.Fits ⟨a, before ++ common ++ between ++ function ++ behind⟩) :
    Fde.decode ⟨a, before ++ common ++ between ++ function ++ behind⟩ functionAt =
      .ok (f.decoded functionAt (tail functionAt function f.instructions),
        c.decoded commonAt (tail commonAt common c.instructions)) := by
  have hcie : Cie.decode ⟨a, before ++ common ++ between ++ function ++ behind⟩ commonAt =
      .ok (c.decoded commonAt (tail commonAt common c.instructions)) := by
    -- For the common entry, the function's record is part of what follows.
    simp only [List.append_assoc] at fits ⊢
    exact decode_common hcommonAt hcommon fits
  rw [List.append_assoc _ function] at fits hcie ⊢
  obtain ⟨length, content, unread, rfl, hcontent, hfits, hunread, hrecord⟩ :=
    split_of_record hfunctionAt hfunction (fun _ => Function.Content.ne_nil) fits
  unfold Fde.decode
  rw [hunread]
  change (Reader.record.on unread >>= _) = _
  rw [hrecord, ← tail_behind _ hcontent.suffix]
  exact readBody_of_function hcontent hfits hcie rfl rfl

/-! ## A section with two records -/

def sampleCommon : Common where
  version := .first
  codeAlign := 1
  dataAlign := -8
  returnColumn := 16
  fields := some [.personality 0x9b 0x2000, .pointers 0x1b]
  instructions := [0x0c, 0x07, 0x08]

def sampleFunction : Function where
  pcStart := 0x4000
  pcSize := 0x20
  augmentation := [0xff]
  instructions := [0x41, 0x0e, 0x10]

def sampleCommonContent : Bytes :=
  [0, 0, 0, 0, 1, 0x7a, 0x50, 0x52, 0, 0x01, 0x78, 0x10, 0x06, 0x9b, 0xed, 0x0f, 0, 0, 0x1b,
    0x0c, 0x07, 0x08]

def sampleFunctionContent : Bytes :=
  [0x28, 0, 0, 0, 0xd3, 0x2f, 0, 0, 0x20, 0, 0, 0, 0x81, 0x00, 0xff, 0x41, 0x0e, 0x10]

def sampleCommonRecord : Bytes := [0x16, 0, 0, 0] ++ sampleCommonContent

/-- With the longer form of the length. -/
def sampleFunctionRecord : Bytes :=
  [0xff, 0xff, 0xff, 0xff, 0x12, 0, 0, 0, 0, 0, 0, 0] ++ sampleFunctionContent

theorem sampleCommon_written : sampleCommon.Written 0x1001 sampleCommonRecord := by
  have hcode : Unsigned 1 [0x01] := ⟨by decide, by decide, rfl⟩
  have hdata : Signed (-8) [0x78] := ⟨by decide, rfl⟩
  have hsize : Unsigned ([0x9b, 0xed, 0x0f, 0, 0, 0x1b] : Bytes).length [0x06] :=
    ⟨by decide, by decide, rfl⟩
  have hlength : Length sampleCommonContent.length [0x16, 0, 0, 0] := .short (by decide)
  have hroutine : Pointer.Stores 0x9b 0 0x1013 0x2000 (littleEndianBytes 4 0xfed) :=
    .of ⟨_, _, _, 0xfed, rfl, rfl, rfl, .sdata4 (by decide) (by decide), rfl⟩
  have hoperands : Operands 0x1012 [.personality 0x9b 0x2000, .pointers 0x1b] _ :=
    .cons (.personality hroutine) (.cons .pointers .nil)
  have hcontent : sampleCommon.Content 0x1005 _ :=
    .of hcode hdata .first rfl (.some hsize hoperands)
  exact .of hlength hcontent

theorem sampleFunction_written :
    sampleFunction.Written sampleCommon 0x1001 0x101d sampleFunctionRecord := by
  have hsize : Unsigned sampleFunction.augmentation.length [0x81, 0x00] :=
    ⟨by decide, by decide, rfl⟩
  have hlength : Length sampleFunctionContent.length
      [0xff, 0xff, 0xff, 0xff, 0x12, 0, 0, 0, 0, 0, 0, 0] := .long (by decide)
  have hstart : Pointer.Stores 0x1b 0 0x102d 0x4000 (littleEndianBytes 4 0x2fd3) :=
    .of ⟨_, _, _, 0x2fd3, rfl, rfl, rfl, .sdata4 (by decide) (by decide), rfl⟩
  have hrange : Pointer.Stores 0x0b 0 0x1031 0x20 (littleEndianBytes 4 0x20) :=
    .of ⟨_, _, _, 0x20, rfl, rfl, rfl, .sdata4 (by decide) (by decide), rfl⟩
  have hcontent : sampleFunction.Content sampleCommon 0x1001 0x1029 _ :=
    .of (by decide) (by decide) rfl hstart hrange (.present hsize)
  exact .of hlength hcontent

theorem decode_written_sample :
    Fde.decode ⟨0x1000, [0xaa] ++ sampleCommonRecord ++ [0xbb, 0xcc] ++ sampleFunctionRecord ++
        [0xdd]⟩ 0x101d =
      .ok (⟨0x101d, ⟨0x1038, [0x41, 0x0e, 0x10]⟩, 0x4000, 0x4020⟩,
        ⟨0x1001, ⟨0x1018, [0x0c, 0x07, 0x08]⟩, 0x1b, 0xff, 1, -8, 16, false, true, false⟩) :=
  @decode_written 0x1000 0x1001 0x101d [0xaa] sampleCommonRecord [0xbb, 0xcc] sampleFunctionRecord
    [0xdd] sampleCommon sampleFunction rfl rfl sampleCommon_written sampleFunction_written
    (by decide)

end FrameRecord

end Unwind
