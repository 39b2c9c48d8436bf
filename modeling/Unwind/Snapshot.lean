import Unwind.Word

/-!
# Snapshot — stacks put aside

When native code calls back into its host, the native stack is put aside in a pool so that it can be
asked for later. A pool belongs to one thread and has a fixed number of slots of a fixed size.
`Pool.get?` views the pool as a map from slot numbers to snapshots; the lemmas say what each
operation does to that map.
-/

namespace Unwind

def snapshotCapacity : Nat := 32

def poolCapacity : Nat := 256

structure Slot where
  /-- `snapshotCapacity` words, of which the first `size` are the snapshot -/
  stack : List UInt64
  size : Nat
  inUse : Bool
deriving DecidableEq, Repr

def Slot.unused : Slot := ⟨List.replicate snapshotCapacity 0, 0, false⟩

def Slot.snapshot? (s : Slot) : Option (List UInt64) :=
  if s.inUse then some (s.stack.take s.size) else none

/-- What the host knows a snapshot by. It is never zero. -/
structure Handle where
  raw : UInt64
  raw_ne_zero : raw ≠ 0
deriving DecidableEq, Repr

namespace Handle

def ofRaw? (raw : UInt64) : Option Handle :=
  if h : raw = 0 then none else some ⟨raw, h⟩

/-- The number of the slot that a handle refers to. There need not be such a slot. -/
def index (h : Handle) : Nat := h.raw.toNat - 1

def ofIndex (i : Fin poolCapacity) : Handle where
  raw := (i.val + 1).toUInt64
  raw_ne_zero := by
    have hi : i.val < 256 := i.isLt
    intro h
    have := congrArg UInt64.toNat h
    simp only [Nat.toUInt64_eq, UInt64.toNat_ofNat'] at this
    have hz : (0 : UInt64).toNat = 0 := rfl
    omega

theorem index_ofIndex (i : Fin poolCapacity) : (ofIndex i).index = i.val := by
  have hi : i.val < 256 := i.isLt
  simp only [index, ofIndex, Nat.toUInt64_eq, UInt64.toNat_ofNat']
  omega

end Handle

structure Pool where
  slots : Vector Slot poolCapacity
deriving DecidableEq, Repr

namespace Pool

def empty : Pool := ⟨Vector.replicate poolCapacity .unused⟩

def get? (p : Pool) (i : Nat) : Option (List UInt64) :=
  p.slots[i]?.bind Slot.snapshot?

/-- Puts the first `size` of the words of `stack` aside in the lowest free slot, if snapshots are
enabled and one is free. -/
def acquire (p : Pool) (enabled : Bool) (stack : List UInt64) (size : Nat) :
    Option (Handle × Pool) :=
  if enabled then
    match p.slots.findFinIdx? (!·.inUse) with
    | none => none
    | some i => some (.ofIndex i, ⟨p.slots.set i ⟨stack, size, true⟩⟩)
  else none

def release (p : Pool) (h : Handle) : Pool :=
  match p.slots[h.index]? with
  | none => p
  -- What the slot held stays behind; nothing reads it before it is overwritten.
  | some slot => ⟨p.slots.setIfInBounds h.index { slot with size := 0, inUse := false }⟩

/-- Copies the snapshot of a handle to the front of a buffer, as far as both reach and if snapshots
are enabled. Also the number of words copied. -/
def replay (p : Pool) (enabled : Bool) (h : Handle) (buffer : List UInt64) : List UInt64 × Nat :=
  if enabled then
    match p.slots[h.index]? with
    | some slot =>
      if slot.inUse then
        let n := min slot.size buffer.length
        (slot.stack.take n ++ buffer.drop n, n)
      else (buffer, 0)
    | none => (buffer, 0)
  else (buffer, 0)

end Pool

end Unwind
