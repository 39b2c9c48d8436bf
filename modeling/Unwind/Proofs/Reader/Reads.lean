import Mathlib.Tactic.Ring
import Unwind.Pointer

/-!
# What a reader takes from the front of a section

`Reads r a bytes v` says that at address `a` the reader `r` takes exactly `bytes` and gives `v`,
whatever follows. It is closed under sequencing, so the byte form of a record is put together field
by field in the order in which it is read. Fields of fixed width are written by `littleEndianBytes`.
-/

namespace Unwind

/-- Addresses move along with what has been read. -/
theorem add_length_append (a : UInt64) (front back : Bytes) :
    a + front.length.toUInt64 + back.length.toUInt64 = a + (front ++ back).length.toUInt64 := by
  rw [← UInt64.toNat_inj]
  simp only [UInt64.toNat_add, Nat.toUInt64_eq, UInt64.toNat_ofNat', List.length_append]
  omega

/-- At an address the reader takes exactly these bytes and gives the value, whatever follows. -/
def Reads {α : Type} (r : Reader α) (a : UInt64) (bytes : Bytes) (v : α) : Prop :=
  ∀ rest, r ⟨a, bytes ++ rest⟩ = .ok v ⟨a + bytes.length.toUInt64, rest⟩

namespace Reads

variable {α β : Type} {a : UInt64} {front back bytes : Bytes}

theorem pure (v : α) : Reads (Pure.pure v) a [] v := by
  intro rest
  change EStateM.Result.ok v _ = _
  rw [List.length_nil]
  congr 2
  exact (UInt64.add_zero a).symm

theorem bind {r : Reader α} {f : α → Reader β} {v : α} {w : β} (hr : Reads r a front v)
    (hf : Reads (f v) (a + front.length.toUInt64) back w) :
    Reads (r >>= f) a (front ++ back) w := by
  intro rest
  change EStateM.bind r f _ = _
  rw [EStateM.bind, List.append_assoc, hr (back ++ rest)]
  dsimp only
  rw [hf rest, add_length_append]

theorem map {r : Reader α} {v : α} (hr : Reads r a bytes v) (f : α → β) :
    Reads (r >>= fun x => Pure.pure (f x)) a bytes (f v) := by
  have h := hr.bind (f := fun x => (Pure.pure (f x) : Reader β)) (Reads.pure (f v))
  rwa [List.append_nil] at h

/-- A step that reads nothing comes last. -/
theorem bind_end {r : Reader α} {f : α → Reader β} {v : α} {w : β} (hr : Reads r a bytes v)
    (hf : Reads (f v) (a + bytes.length.toUInt64) [] w) : Reads (r >>= f) a bytes w := by
  have h := hr.bind hf
  rwa [List.append_nil] at h

/-- A step that reads nothing comes first. -/
theorem bind_nil {r : Reader α} {f : α → Reader β} {v : α} {w : β} (hr : Reads r a [] v)
    (hf : Reads (f v) a bytes w) : Reads (r >>= f) a bytes w := by
  have ha : a + ([] : Bytes).length.toUInt64 = a := UInt64.add_zero a
  rw [← ha] at hf
  exact hr.bind hf

theorem address : Reads Reader.address a [] a := by
  intro rest
  change EStateM.Result.ok a _ = _
  rw [List.length_nil]
  congr 2
  exact (UInt64.add_zero a).symm

theorem lift {v : α} : Reads (Reader.lift (.ok v)) a [] v := Reads.pure v

theorem take (bytes : Bytes) : Reads (Reader.take bytes.length) a bytes bytes := by
  intro rest
  unfold Reader.take Section.size
  rw [if_neg (by rw [List.length_append]; omega)]
  unfold Section.drop
  rw [List.take_left, List.drop_left]

theorem split (bytes : Bytes) : Reads (Reader.split bytes.length) a bytes ⟨a, bytes⟩ :=
  address.bind_nil ((take bytes).map fun bytes => (⟨a, bytes⟩ : Section))

theorem zeroTerminated {text : Bytes} (h : (0 : UInt8) ∉ text) :
    Reads Reader.zeroTerminated a (text ++ [0]) text := by
  intro rest
  have hidx : (text ++ [0] ++ rest).idxOf? 0 = some text.length := by
    rw [List.append_assoc, List.idxOf?_eq_some_iff]
    refine ⟨by simp, by simp, fun j hj => ?_⟩
    rw [List.getElem_append_left hj]
    intro heq
    exact h (heq ▸ List.getElem_mem hj)
  have hlength : (text ++ [0]).length = text.length + 1 := List.length_append
  unfold Reader.zeroTerminated
  rw [hidx]
  dsimp only [Section.drop]
  rw [← hlength, List.drop_left, List.append_assoc, List.take_left]

/-! ## Results -/

theorem on_append {r : Reader α} {v : α} (h : Reads r a bytes v) (rest : Bytes) :
    r.on ⟨a, bytes ++ rest⟩ = .ok v := by
  rw [Reader.on, h rest]

theorem on_self {r : Reader α} {v : α} (h : Reads r a bytes v) : r.on ⟨a, bytes⟩ = .ok v := by
  have hon := h.on_append []
  rwa [List.append_nil] at hon

/-- What the rest of a reader, which need not have a fixed length, makes of the rest of the bytes. -/
theorem on_bind {r : Reader α} {f : α → Reader β} {v : α} (h : Reads r a bytes v) (rest : Bytes) :
    (r >>= f).on ⟨a, bytes ++ rest⟩ = (f v).on ⟨a + bytes.length.toUInt64, rest⟩ := by
  have hbind : (r >>= f) ⟨a, bytes ++ rest⟩ = f v ⟨a + bytes.length.toUInt64, rest⟩ := by
    change EStateM.bind r f _ = _
    rw [EStateM.bind, h rest]
  rw [Reader.on, hbind, Reader.on]

theorem on_bind_nil {r : Reader α} {f : α → Reader β} {v : α} (h : Reads r a [] v)
    (bytes : Bytes) : (r >>= f).on ⟨a, bytes⟩ = (f v).on ⟨a, bytes⟩ := by
  have ha : a + ([] : Bytes).length.toUInt64 = a := UInt64.add_zero a
  have hon := h.on_bind (f := f) bytes
  rwa [ha] at hon

end Reads

/-! ## Fields of fixed width -/

/-- A number in `n` bytes, least significant first; higher digits are cut off. -/
def littleEndianBytes : Nat → Nat → Bytes
  | 0, _ => []
  | n + 1, value => (value % 256).toUInt8 :: littleEndianBytes n (value / 256)

@[simp] theorem length_littleEndianBytes (n value : Nat) :
    (littleEndianBytes n value).length = n := by
  induction n generalizing value with
  | zero => rfl
  | succ n ih => rw [littleEndianBytes, List.length_cons, ih]

/-- Reading back what was written. -/
theorem littleEndian_littleEndianBytes (n value : Nat) :
    Reader.littleEndian (littleEndianBytes n value) = value % 256 ^ n := by
  induction n generalizing value with
  | zero => rw [littleEndianBytes, Reader.littleEndian, Nat.pow_zero, Nat.mod_one]
  | succ n ih =>
    have hbyte : (value % 256).toUInt8.toNat = value % 256 := by
      rw [Nat.toUInt8_eq, UInt8.toNat_ofNat']
      omega
    rw [littleEndianBytes, Reader.littleEndian, ih, hbyte, Nat.pow_succ, Nat.mul_comm _ 256,
      Nat.mod_mul]

namespace Reads

variable {a : UInt64}

theorem field (n value : Nat) :
    Reads (Reader.take n) a (littleEndianBytes n value) (littleEndianBytes n value) := by
  have h := take (a := a) (littleEndianBytes n value)
  rwa [length_littleEndianBytes] at h

theorem uint8 (value : Nat) : Reads Reader.uint8 a (littleEndianBytes 1 value) value.toUInt8 := by
  have h := (field (a := a) 1 value).map fun bytes => (Reader.littleEndian bytes).toUInt8
  rw [littleEndian_littleEndianBytes] at h
  have hvalue : (value % 256 ^ 1).toUInt8 = value.toUInt8 := by
    rw [← UInt8.toNat_inj]
    simp
  rwa [hvalue] at h

theorem uint16 (value : Nat) :
    Reads Reader.uint16 a (littleEndianBytes 2 value) value.toUInt16 := by
  have h := (field (a := a) 2 value).map fun bytes => (Reader.littleEndian bytes).toUInt16
  rw [littleEndian_littleEndianBytes] at h
  have hvalue : (value % 256 ^ 2).toUInt16 = value.toUInt16 := by
    rw [← UInt16.toNat_inj]
    simp
  rwa [hvalue] at h

theorem uint32 (value : Nat) :
    Reads Reader.uint32 a (littleEndianBytes 4 value) value.toUInt32 := by
  have h := (field (a := a) 4 value).map fun bytes => (Reader.littleEndian bytes).toUInt32
  rw [littleEndian_littleEndianBytes] at h
  have hvalue : (value % 256 ^ 4).toUInt32 = value.toUInt32 := by
    rw [← UInt32.toNat_inj]
    simp
  rwa [hvalue] at h

theorem uint64 (value : Nat) :
    Reads Reader.uint64 a (littleEndianBytes 8 value) value.toUInt64 := by
  have h := (field (a := a) 8 value).map fun bytes => (Reader.littleEndian bytes).toUInt64
  rw [littleEndian_littleEndianBytes] at h
  have hvalue : (value % 256 ^ 8).toUInt64 = value.toUInt64 := by
    rw [← UInt64.toNat_inj]
    simp
  rwa [hvalue] at h

theorem byte (b : UInt8) : Reads Reader.uint8 a [b] b := by
  have h := uint8 (a := a) b.toNat
  rw [littleEndianBytes, littleEndianBytes] at h
  simpa using h

end Reads

end Unwind
