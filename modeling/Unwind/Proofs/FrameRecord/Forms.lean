import Unwind.Fde
import Unwind.Proofs.Pointer

/-!
# The byte forms of frame records

`Common` and `Function` are what a common entry and the entry of one function say, apart from how
they are written. Their `Written` relations have all ways to write them at an address: both forms of
a record's length, numerals with and without padding, pointers in every encoding that can hold them.
-/

namespace Unwind

namespace FrameRecord

open Leb128

/-! ## Entries -/

inductive Version where
  | first
  | third
deriving DecidableEq, Repr

def Version.number : Version → UInt8
  | first => 1
  | third => 3

inductive Field where
  | personality (encoding : UInt8) (routine : UInt64)
  | lsda (encoding : UInt8)
  | pointers (encoding : UInt8)
  | signalFrame
  | secondKey
deriving DecidableEq, Repr

namespace Field

def letter : Field → UInt8
  | personality _ _ => 'P'.toUInt8
  | lsda _ => 'L'.toUInt8
  | pointers _ => 'R'.toUInt8
  | signalFrame => 'S'.toUInt8
  | secondKey => 'B'.toUInt8

def lsda? : Field → Option UInt8
  | lsda encoding => some encoding
  | _ => none

def pointers? : Field → Option UInt8
  | pointers encoding => some encoding
  | _ => none

end Field

structure Common where
  version : Version
  codeAlign : UInt32
  dataAlign : Int32
  returnColumn : UInt8
  /-- the fields of the augmentation, if there is one -/
  fields : Option (List Field)
  instructions : Bytes
deriving DecidableEq, Repr

structure Function where
  pcStart : UInt64
  pcSize : UInt64
  /-- written only if the common entry has an augmentation -/
  augmentation : Bytes
  instructions : Bytes
deriving DecidableEq, Repr

namespace Common

/-- The augmentation, without the zero byte that ends it. -/
def letters (c : Common) : Bytes :=
  match c.fields with
  | none => []
  | some fields => 'z'.toUInt8 :: fields.map Field.letter

/-- How pointers to code are stored. Of several fields that say so the last one counts. -/
def pointerEncoding (c : Common) : UInt8 :=
  ((c.fields.getD []).filterMap Field.pointers?).getLastD 0

def lsdaEncoding (c : Common) : UInt8 :=
  ((c.fields.getD []).filterMap Field.lsda?).getLastD Pointer.omitted

end Common

/-! ## Byte forms -/

/-- A numeral without a sign. More than ten bytes do not fit a word, even if they are padding. -/
structure Unsigned (n : Nat) (bytes : Bytes) : Prop where
  numeral : IsNumeral bytes
  short : bytes.length ≤ 10
  value : magnitude bytes = n

structure Signed (z : Int) (bytes : Bytes) : Prop where
  numeral : IsNumeral bytes
  value : integer bytes = z

/-- The length of a record's content. Four bytes of all ones announce the longer form. -/
inductive Length : Nat → Bytes → Prop
  | short {n} (h : n < 0xffffffff) : Length n (littleEndianBytes 4 n)
  | long {n} (h : n < wordCount) :
      Length n (littleEndianBytes 4 0xffffffff ++ littleEndianBytes 8 n)

/-- The bytes at an address are the operand of a field. -/
inductive Operand (a : UInt64) : Field → Bytes → Prop
  | personality {encoding routine pointer} (h : Pointer.Stores encoding 0 (a + 1) routine pointer) :
      Operand a (.personality encoding routine) (encoding :: pointer)
  | lsda {encoding} : Operand a (.lsda encoding) [encoding]
  | pointers {encoding} : Operand a (.pointers encoding) [encoding]
  | signalFrame : Operand a .signalFrame []
  | secondKey : Operand a .secondKey []

/-- The bytes at an address are the operands of the fields, one behind the other. -/
inductive Operands : UInt64 → List Field → Bytes → Prop
  | nil {a} : Operands a [] []
  | cons {a field fields front back} (h : Operand a field front)
      (rest : Operands (a + front.length.toUInt64) fields back) :
      Operands a (field :: fields) (front ++ back)

/-- The operands of an augmentation, behind their length in bytes. -/
inductive Data (a : UInt64) : Option (List Field) → Bytes → Prop
  | none : Data a none []
  | some {fields length operands} (hlength : Unsigned operands.length length)
      (h : Operands (a + length.length.toUInt64) fields operands) :
      Data a (some fields) (length ++ operands)

/-- The column of the return address: a byte, or a numeral in the later version. -/
inductive Column : Version → UInt8 → Bytes → Prop
  | first {column} : Column .first column [column]
  | third {column bytes} (h : Unsigned column.toNat bytes) : Column .third column bytes

/-- The bytes at an address are the content of a common entry's record. -/
inductive Common.Content (c : Common) (a : UInt64) : Bytes → Prop
  | of {codeAlign dataAlign column front data} (hcode : Unsigned c.codeAlign.toNat codeAlign)
      (hdata : Signed c.dataAlign.toInt dataAlign)
      (hcolumn : Column c.version c.returnColumn column)
      -- where a function tells the distance to its common entry, a common entry has zero
      (hfront : front = littleEndianBytes 4 0 ++ [c.version.number] ++ (c.letters ++ [0]) ++
        codeAlign ++ dataAlign ++ column)
      (h : Data (a + front.length.toUInt64) c.fields data) :
      Content c a (front ++ data ++ c.instructions)

/-- The augmentation of a function is written behind its length, if at all. -/
inductive Skipped : Bool → Bytes → Bytes → Prop
  | absent {augmentation} : Skipped false augmentation []
  | present {augmentation length} (hlength : Unsigned augmentation.length length) :
      Skipped true augmentation (length ++ augmentation)

/-- The bytes at an address are the content of a function's record. It tells how far back the common
entry `c` at `start` lies. -/
inductive Function.Content (f : Function) (c : Common) (start a : UInt64) : Bytes → Prop
  | of {distance pcStart pcSize data} (behind : start.toNat < a.toNat)
      (near : a.toNat - start.toNat < 2 ^ 32)
      (hdistance : distance = littleEndianBytes 4 (a.toNat - start.toNat))
      (hstart : Pointer.Stores c.pointerEncoding 0 (a + distance.length.toUInt64) f.pcStart pcStart)
      -- the format of the size is that of the start, but it is not relative to anything
      (hsize : Pointer.Stores (c.pointerEncoding &&& 0x0f) 0
        (a + (distance ++ pcStart).length.toUInt64) f.pcSize pcSize)
      (h : Skipped c.fields.isSome f.augmentation data) :
      Content f c start a (distance ++ pcStart ++ pcSize ++ data ++ f.instructions)

/-- The bytes at an address are a record with such content. -/
inductive Record (content : UInt64 → Bytes → Prop) (a : UInt64) : Bytes → Prop
  | of {length bytes} (hlength : Length bytes.length length)
      (h : content (a + length.length.toUInt64) bytes) : Record content a (length ++ bytes)

/-- The bytes at an address are a record of a common entry. -/
def Common.Written (c : Common) : UInt64 → Bytes → Prop :=
  Record c.Content

/-- The bytes at an address are a record of a function that refers to the entry `c` at `start`. -/
def Function.Written (f : Function) (c : Common) (start : UInt64) : UInt64 → Bytes → Prop :=
  Record (f.Content c start)

/-! ## Decoded entries -/

/-- The instructions of a record at an address: its last bytes. -/
def tail (a : UInt64) (record instructions : Bytes) : Section :=
  ⟨a + (record.length - instructions.length).toUInt64, instructions⟩

def Common.decoded (c : Common) (start : UInt64) (instructions : Section) : Cie where
  start
  instructions
  pointerEncoding := c.pointerEncoding
  lsdaEncoding := c.lsdaEncoding
  codeAlign := c.codeAlign
  dataAlign := c.dataAlign
  returnColumn := c.returnColumn
  signalFrame := decide (Field.signalFrame ∈ c.fields.getD [])
  augmented := c.fields.isSome
  secondKey := decide (Field.secondKey ∈ c.fields.getD [])

def Function.decoded (f : Function) (start : UInt64) (instructions : Section) : Fde where
  start
  instructions
  pcStart := f.pcStart
  pcStop := f.pcStart + f.pcSize

end FrameRecord

end Unwind
