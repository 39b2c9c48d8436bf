import Unwind.Pointer

/-!
# FrameHeader — the search table in front of the frame records

The header section of an object says where its frame records are and lists them: one pair per
function, of the address of its code and the address of its record. The declared number of pairs is
not trusted; the list ends with the bytes, and the pair that could not be read is reported as the
last element of `entries`.
-/

namespace Unwind

/-- The fixed part of a header section. -/
structure FrameHeader where
  frames : UInt64
  count : UInt64
  table : UInt64
  /-- the encoding of both halves of a pair -/
  encoding : UInt8
deriving DecidableEq, Repr

namespace FrameHeader

structure Entry where
  location : UInt64
  record : UInt64
deriving DecidableEq, Repr

/-- Reads the fixed part of a header section that starts at `base`. Data-relative pointers are
relative to that address. Without a count, or without a table, there are no pairs. -/
def read (base : UInt64) : Reader FrameHeader := do
  let version ← Reader.uint8
  if version != 1 then throw (.headerVersion version)
  let framesEncoding ← Reader.uint8
  let countEncoding ← Reader.uint8
  let tableEncoding ← Reader.uint8
  let frames ← Reader.pointer framesEncoding base
  let declared ←
    if countEncoding == Pointer.omitted then pure 0 else Reader.pointer countEncoding base
  let count := if tableEncoding == Pointer.omitted then 0 else declared
  return ⟨frames, count, ← Reader.address, tableEncoding⟩

def decode (header : Section) : Except CfiError FrameHeader :=
  (read header.address).on header

def readEntry (encoding : UInt8) (base : UInt64) : Reader Entry := do
  let location ← Reader.pointer encoding base
  let record ← Reader.pointer encoding base
  return ⟨location, record⟩

/-- At most `count` pairs from the front of a section, up to and including the first that cannot be
read. -/
def entriesFrom (encoding : UInt8) (base : UInt64) : Nat → Section → List (Except CfiError Entry)
  | 0, _ => []
  | count + 1, unread =>
    match readEntry encoding base unread with
    | .ok entry rest => .ok entry :: entriesFrom encoding base count rest
    | .error e _ => [.error e]

/-- The pairs of the search table of a section, which is the one the header was decoded from. A
table that starts outside the section has none. -/
def entries (h : FrameHeader) (header : Section) : List (Except CfiError Entry) :=
  match header.startingAt h.table with
  | .ok unread => entriesFrom h.encoding header.address h.count.toNat unread
  | .error _ => []

/-- A search table that is being listed, asked for one pair after the other. -/
structure Listing where
  /-- the bytes still to be read; none for a table that starts outside its section -/
  unread : Option Section
  base : UInt64
  encoding : UInt8
  /-- how many pairs are still to come, by the number declared -/
  remaining : UInt64
deriving DecidableEq, Repr

def listing (h : FrameHeader) (header : Section) : Listing :=
  ⟨(header.startingAt h.table).toOption, header.address, h.encoding, h.count⟩

/-- The next pair, or the fault in its place. Behind a fault there is nothing. -/
def Listing.next (l : Listing) : Option (Except CfiError Entry) × Listing :=
  if l.remaining == 0 then (none, l)
  else
    let l := { l with remaining := l.remaining - 1 }
    match l.unread with
    | none => (none, l)
    | some unread =>
      match readEntry l.encoding l.base unread with
      | .ok entry rest => (some (.ok entry), { l with unread := some rest })
      | .error e rest => (some (.error e), { l with unread := some rest, remaining := 0 })

end FrameHeader

end Unwind
