import Unwind.Proofs.Leb128.Shortest
import Unwind.Proofs.Pointer

/-!
# Every pointer can be written and read back

An `Encoding` is what an encoding byte can say: an application, a format, and whether the result is
the address of a slot. A target can be stored where its distance from the address that the
application names, taken modulo `2 ^ 64`, is one that the format can extend to a word. Whatever
bytes store the distance, the target is read back from them (`pointer_round_trip`). All other bytes
are refused as encodings, before anything is read.
-/

namespace Unwind

namespace Pointer

/-! ## Encoding bytes -/

/-- The bits that name an application. -/
def Application.bits : Application → UInt8
  | absolute => 0x00
  | pcRelative => 0x10
  | dataRelative => 0x30

/-- The bits that name a format. -/
def Format.bits : Format → UInt8
  | word => 0x0
  | uleb128 => 0x1
  | udata2 => 0x2
  | udata4 => 0x3
  | udata8 => 0x4
  | sleb128 => 0x9
  | sdata2 => 0xa
  | sdata4 => 0xb
  | sdata8 => 0xc

structure Encoding where
  application : Application
  format : Format
  /-- whether the result is the address of a slot that holds the pointer -/
  indirect : Bool
deriving DecidableEq, Repr

namespace Encoding

def byte (x : Encoding) : UInt8 :=
  x.application.bits ||| x.format.bits ||| (if x.indirect then 0x80 else 0)

theorem application_byte (x : Encoding) : Application.of x.byte = .ok x.application := by
  obtain ⟨application, format, indirect⟩ := x
  cases application <;> cases format <;> cases indirect <;> rfl

theorem format_byte (x : Encoding) : Format.of x.byte = .ok x.format := by
  obtain ⟨application, format, indirect⟩ := x
  cases application <;> cases format <;> cases indirect <;> rfl

/-- The encoding that a byte stands for, if it stands for one. -/
def of? (e : UInt8) : Option Encoding :=
  match Application.of e, Format.of e with
  | .ok application, .ok format => some ⟨application, format, 0x80 ≤ e⟩
  | _, _ => none

theorem byte_of_of? {e : UInt8} {x : Encoding} (h : of? e = some x) : x.byte = e := by
  have hall : ∀ n < 256, (of? n.toUInt8).all fun x => x.byte == n.toUInt8 := by decide +kernel
  have he := hall e.toNat e.toNat_lt
  rw [Nat.toUInt8_eq, UInt8.ofNat_toNat, h] at he
  exact eq_of_beq he

/-- A byte that stands for no encoding lacks an application or a format. -/
theorem refused_of_ne {e : UInt8} (h : ∀ x : Encoding, x.byte ≠ e) :
    (∃ fault, Application.of e = .error fault) ∨ ∃ fault, Format.of e = .error fault := by
  cases happlication : Application.of e with
  | error fault => exact .inl ⟨fault, rfl⟩
  | ok application =>
    cases hformat : Format.of e with
    | error fault => exact .inr ⟨fault, rfl⟩
    | ok format =>
      have hof : of? e = some ⟨application, format, 0x80 ≤ e⟩ := by
        rw [of?, happlication, hformat]
      exact absurd (byte_of_of? hof) (h _)

end Encoding

/-! ## Stored distances -/

/-- The address that distances are taken from, for a pointer that is stored at `field`. -/
def Application.origin (application : Application) (field dataBase : UInt64) : UInt64 :=
  match application with
  | absolute => 0
  | pcRelative => field
  | dataRelative => dataBase

theorem Application.base_eq {application : Application} {dataBase : UInt64}
    (h : application = .dataRelative → dataBase ≠ 0) (field : UInt64) :
    application.base field dataBase = .ok (application.origin field dataBase) := by
  cases application with
  | absolute => rfl
  | pcRelative => rfl
  | dataRelative =>
    rw [Application.base, if_neg (by rw [beq_iff_eq]; exact h rfl)]
    rfl

namespace Format

/-- The format has a number that a word `d` is the extension of: without a sign the missing bits
are zero, with a sign they are copies of it. -/
def Represents : Format → UInt64 → Prop
  | word, _ | uleb128, _ | udata8, _ | sleb128, _ | sdata8, _ => True
  | udata2, d => d.toNat < 2 ^ 16
  | udata4, d => d.toNat < 2 ^ 32
  | sdata2, d => -2 ^ 15 ≤ d.toInt64.toInt ∧ d.toInt64.toInt < 2 ^ 15
  | sdata4, d => -2 ^ 31 ≤ d.toInt64.toInt ∧ d.toInt64.toInt < 2 ^ 31

/-- The bytes store a number that is extended to the word `d`. Numerals may be padded. -/
def Writes (f : Format) (d : UInt64) (bytes : Bytes) : Prop :=
  ∃ z, f.Stores z bytes ∧ UInt64.ofInt z = d

/-- The bytes that store a word. Numerals are as short as they can be. -/
def write : Format → UInt64 → Bytes
  | word, d | udata8, d | sdata8, d => littleEndianBytes 8 d.toNat
  | udata2, d | sdata2, d => littleEndianBytes 2 d.toNat
  | udata4, d | sdata4, d => littleEndianBytes 4 d.toNat
  | uleb128, d => Leb128.unsignedBytes d.toNat
  | sleb128, d => Leb128.signedBytes d.toInt64.toInt

end Format

theorem ofInt_toNat (d : UInt64) : UInt64.ofInt d.toNat = d := by
  rw [ofInt_natCast, Nat.toUInt64_eq, UInt64.ofNat_toNat]

theorem ofInt_toInt (d : UInt64) : UInt64.ofInt d.toInt64.toInt = d := by
  rw [← toUInt64_ofInt, Int64.ofInt_toInt]
  rfl

theorem toInt_emod (d : UInt64) : d.toInt64.toInt % 2 ^ 64 = d.toNat := by
  rw [← toNat_ofInt, ofInt_toInt]

/-- Digits that do not fit are cut off in any case. -/
theorem littleEndianBytes_mod (n value : Nat) :
    littleEndianBytes n (value % 256 ^ n) = littleEndianBytes n value := by
  induction n generalizing value with
  | zero => rfl
  | succ n ih =>
    have hlow : value % 256 ^ (n + 1) % 256 = value % 256 :=
      Nat.mod_mod_of_dvd value (Dvd.intro_left (256 ^ n) rfl)
    have hhigh : value % 256 ^ (n + 1) / 256 = value / 256 % 256 ^ n := by
      rw [Nat.pow_succ, Nat.mul_comm, Nat.mod_mul_right_div_self]
    rw [littleEndianBytes, littleEndianBytes, hlow, hhigh, ih]

theorem Format.writes_write {f : Format} {d : UInt64} (h : f.Represents d) :
    f.Writes d (f.write d) := by
  have hlt := d.toNat_lt
  have hmod := toInt_emod d
  cases f with
  | word => exact ⟨_, .word hlt, ofInt_toNat d⟩
  | udata2 => exact ⟨_, .udata2 h, ofInt_toNat d⟩
  | udata4 => exact ⟨_, .udata4 h, ofInt_toNat d⟩
  | udata8 => exact ⟨_, .udata8 hlt, ofInt_toNat d⟩
  | uleb128 =>
    have hvalue := Leb128.magnitude_unsignedBytes d.toNat
    have hshort : (Leb128.unsignedBytes d.toNat).length ≤ 10 :=
      Leb128.length_unsignedBytes_le (by decide) (Nat.lt_trans hlt (by decide))
    show uleb128.Writes d (Leb128.unsignedBytes d.toNat)
    refine ⟨_, .uleb128 (Leb128.isNumeral_unsignedBytes d.toNat) hshort (by omega), ?_⟩
    rw [hvalue, ofInt_toNat]
  | sleb128 =>
    show sleb128.Writes d (Leb128.signedBytes d.toInt64.toInt)
    refine ⟨_, .sleb128 (Leb128.isNumeral_signedBytes d.toInt64.toInt), ?_⟩
    rw [Leb128.integer_signedBytes, ofInt_toInt]
  | sdata2 =>
    have hbytes : write .sdata2 d = littleEndianBytes 2 (d.toInt64.toInt % 2 ^ 16).toNat := by
      rw [write, ← littleEndianBytes_mod]
      congr 1
      omega
    rw [hbytes]
    exact ⟨_, .sdata2 h.1 h.2, ofInt_toInt d⟩
  | sdata4 =>
    have hbytes : write .sdata4 d = littleEndianBytes 4 (d.toInt64.toInt % 2 ^ 32).toNat := by
      rw [write, ← littleEndianBytes_mod]
      congr 1
      omega
    rw [hbytes]
    exact ⟨_, .sdata4 h.1 h.2, ofInt_toInt d⟩
  | sdata8 =>
    have hbytes : write .sdata8 d = littleEndianBytes 8 (d.toInt64.toInt % 2 ^ 64).toNat := by
      rw [hmod]
      rfl
    rw [hbytes]
    exact ⟨_, .sdata8 (Int64.le_toInt _) (Int64.toInt_lt _), ofInt_toInt d⟩

/-- Exactly the words that a format represents can be written in it. -/
theorem Format.exists_writes_iff {f : Format} {d : UInt64} :
    (∃ bytes, f.Writes d bytes) ↔ f.Represents d := by
  refine ⟨?_, fun h => ⟨_, writes_write h⟩⟩
  rintro ⟨bytes, z, hstores, rfl⟩
  have hmod := toNat_ofInt z
  have hsigned : (UInt64.ofInt z).toInt64 = Int64.ofInt z := toInt64_eq_ofInt hmod
  cases hstores with
  | word => trivial
  | uleb128 => trivial
  | udata8 => trivial
  | sleb128 => trivial
  | sdata8 => trivial
  | @udata2 n h =>
    show (UInt64.ofInt n).toNat < 2 ^ 16
    omega
  | @udata4 n h =>
    show (UInt64.ofInt n).toNat < 2 ^ 32
    omega
  | sdata2 hlo hhi =>
    show -2 ^ 15 ≤ (UInt64.ofInt z).toInt64.toInt ∧ (UInt64.ofInt z).toInt64.toInt < 2 ^ 15
    rw [hsigned, Int64.toInt_ofInt_of_le (by omega) (by omega)]
    exact ⟨hlo, hhi⟩
  | sdata4 hlo hhi =>
    show -2 ^ 31 ≤ (UInt64.ofInt z).toInt64.toInt ∧ (UInt64.ofInt z).toInt64.toInt < 2 ^ 31
    rw [hsigned, Int64.toInt_ofInt_of_le (by omega) (by omega)]
    exact ⟨hlo, hhi⟩

/-! ## Reading -/

/-- A target whose distance is written is stored. -/
theorem stores_of_writes (x : Encoding) {dataBase field target : UInt64} {bytes : Bytes}
    (hbase : x.application = .dataRelative → dataBase ≠ 0)
    (h : x.format.Writes (target - x.application.origin field dataBase) bytes) :
    Stores x.byte dataBase field target bytes := by
  obtain ⟨z, hstores, hz⟩ := h
  refine .of ⟨_, _, _, z, x.application_byte, Application.base_eq hbase field, x.format_byte,
    hstores, ?_⟩
  rw [hz, UInt64.add_comm, UInt64.sub_add_cancel]

end Pointer

namespace Reader

theorem pointer_of_application {e : UInt8} {fault : CfiError}
    (h : Pointer.Application.of e = .error fault) (dataBase : UInt64) (s : Section) :
    pointer e dataBase s = .error fault s := by
  unfold pointer
  rw [h]
  rfl

theorem pointer_of_base {e : UInt8} {application : Pointer.Application} {fault : CfiError}
    {dataBase : UInt64} {s : Section} (h : Pointer.Application.of e = .ok application)
    (hbase : application.base s.address dataBase = .error fault) :
    pointer e dataBase s = .error fault s := by
  unfold pointer
  rw [h]
  change (Reader.lift (application.base s.address dataBase) >>= _) s = _
  rw [hbase]
  rfl

theorem pointer_of_format {e : UInt8} {application : Pointer.Application} {fault : CfiError}
    {dataBase base : UInt64} {s : Section} (h : Pointer.Application.of e = .ok application)
    (hbase : application.base s.address dataBase = .ok base)
    (hformat : Pointer.Format.of e = .error fault) : pointer e dataBase s = .error fault s := by
  unfold pointer
  rw [h, hformat]
  change (Reader.lift (application.base s.address dataBase) >>= _) s = _
  rw [hbase]
  rfl

/-- An encoding that names no application or no format is refused before anything is read. -/
theorem pointer_of_refused {e : UInt8} (h : ∀ x : Pointer.Encoding, x.byte ≠ e)
    (dataBase : UInt64) (s : Section) : ∃ fault, pointer e dataBase s = .error fault s := by
  cases happlication : Pointer.Application.of e with
  | error fault => exact ⟨fault, pointer_of_application happlication dataBase s⟩
  | ok application =>
    cases hbase : application.base s.address dataBase with
    | error fault => exact ⟨fault, pointer_of_base happlication hbase⟩
    | ok base =>
      obtain ⟨fault, hfault⟩ | ⟨fault, hfault⟩ := Pointer.Encoding.refused_of_ne h
      · rw [happlication] at hfault
        cases hfault
      · exact ⟨fault, pointer_of_format happlication hbase hfault⟩

/-- In every encoding, at every address and for every target: if the format represents the distance
of the target there are bytes that store it, and from all such bytes the target is read, whatever
follows. Of other encoding bytes, and of data-relative ones without a data base, nothing is read. -/
theorem pointer_round_trip (dataBase : UInt64) :
    (∀ (x : Pointer.Encoding) (a target : UInt64),
      (x.application = .dataRelative → dataBase ≠ 0) →
      ((∃ bytes, x.format.Writes (target - x.application.origin a dataBase) bytes) ↔
        x.format.Represents (target - x.application.origin a dataBase)) ∧
      ∀ bytes, x.format.Writes (target - x.application.origin a dataBase) bytes → ∀ rest,
        pointer x.byte dataBase ⟨a, bytes ++ rest⟩ =
          .ok target ⟨a + bytes.length.toUInt64, rest⟩) ∧
    (∀ e : UInt8, (∀ x : Pointer.Encoding, x.byte ≠ e) → ∀ s,
      ∃ fault, pointer e dataBase s = .error fault s) ∧
    ∀ x : Pointer.Encoding, x.application = .dataRelative → ∀ s,
      pointer x.byte 0 s = .error .noDataBase s := by
  refine ⟨fun x a target hbase => ⟨Pointer.Format.exists_writes_iff, fun bytes h => ?_⟩,
    fun e he s => pointer_of_refused he dataBase s, fun x hx s => ?_⟩
  · exact Reads.pointer (Pointer.stores_of_writes x hbase h)
  · exact pointer_of_base x.application_byte (by rw [hx]; rfl)

/-- A padded numeral leads from near the start of memory to its end. -/
theorem pointer_round_trip_backwards :
    pointer 0x99 0 ⟨8, [0xf0, 0x7f, 0x55]⟩ = .ok 0xfffffffffffffff8 ⟨10, [0x55]⟩ ∧
      (∃ fault, pointer 0x95 0 ⟨8, [0xf0, 0x7f, 0x55]⟩ = .error fault ⟨8, [0xf0, 0x7f, 0x55]⟩) ∧
      pointer 0xb9 0 ⟨8, [0xf0, 0x7f, 0x55]⟩ = .error .noDataBase ⟨8, [0xf0, 0x7f, 0x55]⟩ := by
  obtain ⟨hstored, hrefused, hbase⟩ := pointer_round_trip 0
  have hwrites : Pointer.Format.Writes .sleb128 (0xfffffffffffffff8 - 8) [0xf0, 0x7f] :=
    ⟨Leb128.integer [0xf0, 0x7f], .sleb128 (by decide), by decide⟩
  have hbyte : ∀ x : Pointer.Encoding, x.byte ≠ 0x95 := by
    rintro ⟨application, format, indirect⟩
    cases application <;> cases format <;> cases indirect <;> decide
  refine ⟨?_, hrefused 0x95 hbyte _, hbase ⟨.dataRelative, .sleb128, true⟩ rfl _⟩
  exact (hstored ⟨.pcRelative, .sleb128, true⟩ 8 0xfffffffffffffff8 nofun).2 _ hwrites [0x55]

end Reader

end Unwind
