import Unwind.Cie
import Unwind.Proofs.Reader.Exact
import Unwind.Proofs.Section

/-!
# Readers stay inside their section

A section is read by a reader over it, by readers over parts that were split off, and by readers
over what another has left, nested to any depth. `Request` lists what can be asked of a reader and
`Reached` the readers that can come about, by any requests, whether they succeed or fail. All of
them are somewhere in the section that they were made over, that section lies in the one that all
began with, and their addresses are those of the bytes that they show (`reached_inside`).
-/

namespace Unwind

/-! ## Bytes and their addresses -/

namespace Section

/-- The byte at an address, which need not be one of the section. -/
def byteAt? (s : Section) (a : Nat) : Option UInt8 :=
  if a < s.address.toNat then none else s.bytes[a - s.address.toNat]?

/-- The section `t` lies in `s` and has the same bytes at its addresses. -/
structure Covers (s t : Section) : Prop where
  start_le : s.address.toNat ≤ t.address.toNat
  stop_le : t.address.toNat + t.size ≤ s.address.toNat + s.size
  byteAt_eq : ∀ a, t.address.toNat ≤ a → a < t.address.toNat + t.size → s.byteAt? a = t.byteAt? a

variable {s t u : Section}

theorem byteAt?_add (s : Section) (i : Nat) : s.byteAt? (s.address.toNat + i) = s.bytes[i]? := by
  rw [byteAt?, if_neg (by omega), Nat.add_sub_cancel_left]

theorem Covers.refl (s : Section) : s.Covers s :=
  ⟨Nat.le_refl _, Nat.le_refl _, fun _ _ _ => rfl⟩

theorem Covers.trans (h : s.Covers t) (h' : t.Covers u) : s.Covers u where
  start_le := Nat.le_trans h.start_le h'.start_le
  stop_le := Nat.le_trans h'.stop_le h.stop_le
  byteAt_eq a hlo hhi := by
    have hstart := h'.start_le
    have hstop := h'.stop_le
    rw [h.byteAt_eq a (by omega) (by omega), h'.byteAt_eq a hlo hhi]

theorem Fits.of_covers (fits : s.Fits) (h : s.Covers t) : t.Fits :=
  Nat.lt_of_le_of_lt h.stop_le fits

/-- Inside the address space, addresses move along with the bytes and do not wrap. -/
theorem toNat_address_drop (fits : s.Fits) {k : Nat} (h : k ≤ s.size) :
    (s.drop k).address.toNat = s.address.toNat + k := by
  unfold Fits wordCount at fits
  change (s.address + k.toUInt64).toNat = _
  rw [UInt64.toNat_add, Nat.toUInt64_eq, UInt64.toNat_ofNat']
  -- The sum is no more than the end of the section, which is an address itself.
  omega

theorem toNat_stop (fits : s.Fits) : s.stop.toNat = s.address.toNat + s.size :=
  toNat_address_drop fits (Nat.le_refl _)

theorem covers_drop (fits : s.Fits) {k : Nat} (h : k ≤ s.size) : s.Covers (s.drop k) := by
  have haddress := toNat_address_drop fits h
  refine ⟨by omega, by rw [size_drop]; omega, fun a hlo hhi => ?_⟩
  obtain ⟨i, rfl⟩ := Nat.exists_eq_add_of_le hlo
  rw [byteAt?_add, haddress, Nat.add_assoc, byteAt?_add, bytes_drop, List.getElem?_drop]

theorem covers_take (s : Section) (n : Nat) : s.Covers ⟨s.address, s.bytes.take n⟩ := by
  have hsize : size ⟨s.address, s.bytes.take n⟩ = min n s.size := List.length_take
  refine ⟨Nat.le_refl _, by rw [hsize]; exact Nat.add_le_add_left (Nat.min_le_right _ _) _,
    fun a hlo hhi => ?_⟩
  obtain ⟨i, rfl⟩ := Nat.exists_eq_add_of_le hlo
  rw [hsize] at hhi
  rw [byteAt?_add, byteAt?_add, List.getElem?_take_of_lt (by dsimp only at hhi; omega)]

/-- Looking up an address drops the bytes before it. -/
theorem exists_drop_of_startingAt (fits : s.Fits) {a : UInt64} (h : s.startingAt a = .ok t) :
    t.address = a ∧ ∃ k ≤ s.size, t = s.drop k := by
  unfold startingAt at h
  split at h
  · rename_i hcontains
    cases h
    rw [contains_iff fits] at hcontains
    -- The difference may wrap, but then adding it wraps back.
    refine ⟨?_, _, Nat.le_of_lt hcontains, rfl⟩
    change s.address + (a - s.address).toNat.toUInt64 = a
    rw [Nat.toUInt64_eq, UInt64.ofNat_toNat, UInt64.add_comm, UInt64.sub_add_cancel]
  · cases h

end Section

/-! ## Requests -/

/-- A reader: the section that it was made over, and what it has not read yet. -/
structure Opened where
  whole : Section
  unread : Section

inductive Request where
  | take (n : Nat)
  | skip (n : Nat)
  | uint8
  | uint16
  | uint32
  | uint64
  | int8
  | int16
  | int32
  | int64
  | uleb128
  | sleb128
  | pointer (encoding : UInt8) (dataBase : UInt64)
  | zeroTerminated
  /-- a reader over the next bytes, which are passed over -/
  | split (n : Nat)
  /-- a reader over the content of a record, which is passed over -/
  | record
  /-- a reader over what is unread -/
  | rest
  /-- a reader over what is unread that starts at an address -/
  | restAt (a : UInt64)
deriving DecidableEq, Repr

namespace Request

/-- Reads something and opens no reader. -/
def reading {α : Type} (r : Reader α) : Reader (Option Opened) := do
  let _ ← r
  return none

/-- Makes the request, and gives the reader that it opens, if it does. -/
def run : Request → Reader (Option Opened)
  | take n => reading (Reader.take n)
  | skip n => reading (Reader.skip n)
  | uint8 => reading Reader.uint8
  | uint16 => reading Reader.uint16
  | uint32 => reading Reader.uint32
  | uint64 => reading Reader.uint64
  | int8 => reading Reader.int8
  | int16 => reading Reader.int16
  | int32 => reading Reader.int32
  | int64 => reading Reader.int64
  | uleb128 => reading Reader.uleb128
  | sleb128 => reading Reader.sleb128
  | pointer encoding dataBase => reading (Reader.pointer encoding dataBase)
  | zeroTerminated => reading Reader.zeroTerminated
  | split n => do
    let part ← Reader.split n
    return some ⟨part, part⟩
  | record => do
    let content ← Reader.record
    return content.map fun part => ⟨part, part⟩
  | rest => do
    let part ← Reader.unread
    return some ⟨part, part⟩
  | restAt a => do
    let part ← Reader.unread
    let start ← Reader.lift (part.startingAt a)
    return some ⟨part, start⟩

/-- Whether the request is for a number of bytes that is known beforehand. -/
def isFixed : Request → Bool
  | uleb128 | sleb128 | pointer _ _ | zeroTerminated | record | rest | restAt _ => false
  | _ => true

end Request

def Opened.after (o : Opened) (q : Request) : Opened :=
  { o with unread := q.run.leaves o.unread }

/-- The readers that can come about from a section. -/
inductive Reached (s : Section) : Opened → Prop
  | reader : Reached s ⟨s, s⟩
  | readerAt {a : UInt64} {t : Section} (h : s.startingAt a = .ok t) : Reached s ⟨s, t⟩
  | after {o : Opened} (h : Reached s o) (q : Request) : Reached s (o.after q)
  | opened {o new : Opened} {t : Section} (h : Reached s o) (q : Request)
      (hq : q.run o.unread = .ok (some new) t) : Reached s new

/-! ## What one request does -/

namespace Consumes

theorem ofZeroTerminated : Consumes Reader.zeroTerminated := by
  intro s
  unfold Reader.leaves Reader.zeroTerminated
  split <;> rename_i h <;> revert h <;> split <;> rename_i hidx <;> intro h <;> cases h
  · obtain ⟨hlt, -⟩ := List.idxOf?_eq_some_iff.mp hidx
    exact ⟨_, hlt, rfl⟩
  · exact ⟨_, Nat.le_refl _, rfl⟩

theorem ofRecord : Consumes Reader.record := by
  have hcontent (length : UInt64) : Consumes (do
      if length == 0 then return none
      return some (← Reader.split length.toNat)) := by
    split
    · exact ofPure _
    · exact ofBind (ofSplit _) fun _ => ofPure _
  refine ofBind ofUint32 fun short => ?_
  dsimp only
  split
  · exact ofBind ofUint64 hcontent
  · exact ofBind (ofPure _) hcontent

theorem ofReading {α : Type} {r : Reader α} (h : Consumes r) : Consumes (Request.reading r) :=
  ofBind h fun _ => ofPure _

theorem ofRequest (q : Request) : Consumes q.run := by
  cases q with
  | take n => exact (ofTake n).ofReading
  | skip n => exact (ofSkip n).ofReading
  | uint8 => exact ofUint8.ofReading
  | uint16 => exact ofUint16.ofReading
  | uint32 => exact ofUint32.ofReading
  | uint64 => exact ofUint64.ofReading
  | int8 => exact ofInt8.ofReading
  | int16 => exact ofInt16.ofReading
  | int32 => exact ofInt32.ofReading
  | int64 => exact ofInt64.ofReading
  | uleb128 => exact ofUleb128.ofReading
  | sleb128 => exact ofSleb128.ofReading
  | pointer encoding dataBase => exact (ofPointer encoding dataBase).ofReading
  | zeroTerminated => exact ofZeroTerminated.ofReading
  | split n => exact ofBind (ofSplit n) fun _ => ofPure _
  | record => exact ofBind ofRecord fun _ => ofPure _
  | rest => exact ofBind ofUnread fun _ => ofPure _
  | restAt a => exact ofBind ofUnread fun _ => ofBind (ofLift _) fun _ => ofPure _

theorem exists_drop {α : Type} {r : Reader α} (h : Consumes r) {s t : Section} {a : α}
    (heq : r s = .ok a t) : ∃ k ≤ s.size, t = s.drop k := by
  obtain ⟨k, hk, hleaves⟩ := h s
  unfold Reader.leaves at hleaves
  rw [heq] at hleaves
  exact ⟨k, hk, hleaves⟩

end Consumes

/-- The reader leaves its section as it is when it fails. -/
def AllOrNothing {α : Type} (r : Reader α) : Prop :=
  ∀ s e t, r s = .error e t → t = s

namespace AllOrNothing

variable {α β : Type}

theorem take (n : Nat) : AllOrNothing (Reader.take n) := by
  intro s e t h
  unfold Reader.take at h
  split at h
  · cases h
    rfl
  · cases h

theorem map {r : Reader α} (h : AllOrNothing r) (f : α → β) :
    AllOrNothing (r >>= fun a => pure (f a)) := by
  intro s e t hread
  change EStateM.bind r _ s = _ at hread
  unfold EStateM.bind at hread
  cases hr : r s with
  | ok a u =>
    rw [hr] at hread
    cases hread
  | error e u =>
    rw [hr] at hread
    cases hread
    exact h s _ _ hr

theorem uint8 : AllOrNothing Reader.uint8 := (take 1).map _

theorem uint16 : AllOrNothing Reader.uint16 := (take 2).map _

theorem uint32 : AllOrNothing Reader.uint32 := (take 4).map _

theorem uint64 : AllOrNothing Reader.uint64 := (take 8).map _

theorem split (n : Nat) : AllOrNothing (Reader.split n) := fun s =>
  (take n).map (fun bytes => (⟨s.address, bytes⟩ : Section)) s

theorem request {q : Request} (h : q.isFixed = true) : AllOrNothing q.run := by
  cases q with
  | take n => exact (take n).map _
  | skip n => exact ((take n).map _).map _
  | uint8 => exact uint8.map _
  | uint16 => exact uint16.map _
  | uint32 => exact uint32.map _
  | uint64 => exact uint64.map _
  | int8 => exact (uint8.map _).map _
  | int16 => exact (uint16.map _).map _
  | int32 => exact (uint32.map _).map _
  | int64 => exact (uint64.map _).map _
  | split n => exact (split n).map _
  | uleb128 | sleb128 | pointer | zeroTerminated | record | rest | restAt => cases h

end AllOrNothing

namespace Reader

variable {s t part : Section}

theorem take_ok {n : Nat} {bytes : Bytes} (h : take n s = .ok bytes t) :
    n ≤ s.size ∧ bytes = s.bytes.take n ∧ t = s.drop n := by
  unfold take at h
  split at h
  · cases h
  · cases h
    exact ⟨by omega, rfl, rfl⟩

theorem split_ok {n : Nat} (h : split n s = .ok part t) :
    part = ⟨s.address, s.bytes.take n⟩ := by
  obtain ⟨a, u, ha, hrest⟩ := exists_of_bind h
  cases ha
  obtain ⟨bytes, v, hbytes, hpart⟩ := exists_of_bind hrest
  cases hpart
  rw [(take_ok hbytes).2.1]

/-- The content of a record is a part of what was unread. -/
theorem covers_of_record (fits : s.Fits) (h : record s = .ok (some part) t) : s.Covers part := by
  have hcontent {length : UInt64} {u : Section} (hu : s.Covers u)
      (h : (do
        if length == 0 then return none
        return some (← split length.toNat) : Reader (Option Section)) u = .ok (some part) t) :
      s.Covers part := by
    split at h
    · cases h
    · obtain ⟨x, v, hsplit, hpure⟩ := exists_of_bind h
      cases hpure
      rw [split_ok hsplit]
      exact hu.trans (Section.covers_take _ _)
  obtain ⟨short, u, hshort, hrest⟩ := exists_of_bind h
  obtain ⟨j, hj, rfl⟩ := Consumes.ofUint32.exists_drop hshort
  have hfield := Section.covers_drop fits hj
  dsimp only at hrest
  -- The content stands behind one or two fields of length.
  split at hrest
  · obtain ⟨length, v, hlength, hrest⟩ := exists_of_bind hrest
    obtain ⟨k, hk, rfl⟩ := Consumes.ofUint64.exists_drop hlength
    exact hcontent (hfield.trans (Section.covers_drop (fits.of_covers hfield) hk)) hrest
  · exact hcontent hfield hrest

end Reader

/-- A reader that is opened is somewhere in a part of what was unread. -/
theorem Request.covers_of_opened {q : Request} {s t : Section} {new : Opened} (fits : s.Fits)
    (h : q.run s = .ok (some new) t) :
    s.Covers new.whole ∧ ∃ k ≤ new.whole.size, new.unread = new.whole.drop k := by
  have hnone {α : Type} {r : Reader α} (h : reading r s = .ok (some new) t) : False := by
    obtain ⟨a, u, -, hpure⟩ := Reader.exists_of_bind h
    cases hpure
  have hstart (part : Section) : ∃ k ≤ part.size, part = part.drop k :=
    ⟨0, Nat.zero_le _, part.drop_zero.symm⟩
  cases q with
  | split n =>
    obtain ⟨part, u, hsplit, hpure⟩ := Reader.exists_of_bind h
    cases hpure
    rw [Reader.split_ok hsplit]
    exact ⟨Section.covers_take _ _, hstart _⟩
  | record =>
    obtain ⟨content, u, hrecord, hpure⟩ := Reader.exists_of_bind h
    cases content with
    | none => cases hpure
    | some part =>
      cases hpure
      exact ⟨Reader.covers_of_record fits hrecord, hstart _⟩
  | rest =>
    cases h
    exact ⟨Section.Covers.refl _, hstart _⟩
  | restAt a =>
    obtain ⟨part, u, hunread, hrest⟩ := Reader.exists_of_bind h
    cases hunread
    obtain ⟨start, v, hlift, hpure⟩ := Reader.exists_of_bind hrest
    cases hpure
    cases hstarting : s.startingAt a with
    | error e =>
      rw [hstarting] at hlift
      cases hlift
    | ok x =>
      rw [hstarting] at hlift
      cases hlift
      exact ⟨Section.Covers.refl _, (Section.exists_drop_of_startingAt fits hstarting).2⟩
  -- The others read something and open nothing.
  | _ => exact (hnone h).elim

/-! ## Readers that are reached -/

/-- The reader is somewhere in a section that lies in `s`. -/
structure Opened.Inside (s : Section) (o : Opened) : Prop where
  covers : s.Covers o.whole
  somewhere : ∃ k ≤ o.whole.size, o.unread = o.whole.drop k

namespace Opened.Inside

variable {s : Section} {o : Opened}

theorem covers_unread (fits : s.Fits) (h : o.Inside s) : s.Covers o.unread := by
  obtain ⟨k, hk, hunread⟩ := h.somewhere
  rw [hunread]
  exact h.covers.trans (Section.covers_drop (fits.of_covers h.covers) hk)

theorem after (h : o.Inside s) (q : Request) : (o.after q).Inside s := by
  obtain ⟨j, hj, hunread⟩ := h.somewhere
  -- Whether it succeeds or fails, a request leaves what is behind some of the bytes.
  obtain ⟨k, hk, hleaves⟩ := Consumes.ofRequest q o.unread
  refine ⟨h.covers, j + k, ?_, ?_⟩
  · rw [hunread, Section.size_drop] at hk
    change j + k ≤ o.whole.size
    omega
  · change q.run.leaves o.unread = o.whole.drop (j + k)
    rw [hleaves, hunread, Section.drop_drop]

theorem opened (fits : s.Fits) (h : o.Inside s) {q : Request} {new : Opened} {t : Section}
    (hq : q.run o.unread = .ok (some new) t) : new.Inside s := by
  have hunread := h.covers_unread fits
  obtain ⟨hcovers, hsomewhere⟩ := q.covers_of_opened (fits.of_covers hunread) hq
  exact ⟨hunread.trans hcovers, hsomewhere⟩

end Opened.Inside

theorem Reached.opened_inside {s : Section} {o : Opened} (fits : s.Fits) (h : Reached s o) :
    o.Inside s := by
  induction h with
  | reader => exact ⟨Section.Covers.refl s, 0, Nat.zero_le _, s.drop_zero.symm⟩
  | readerAt h => exact ⟨Section.Covers.refl s, (Section.exists_drop_of_startingAt fits h).2⟩
  | after h q ih => exact ih.after q
  | opened h q hq ih => exact ih.opened fits hq

/-- The address of a reader never goes back, whatever is asked of it. -/
theorem address_le_of_requests {o : Opened} (fits : o.unread.Fits) (requests : List Request) :
    o.unread.address.toNat ≤ (requests.foldl Opened.after o).unread.address.toNat := by
  induction requests generalizing o with
  | nil => exact Nat.le_refl _
  | cons q rest ih =>
    obtain ⟨k, hk, hleaves⟩ := Consumes.ofRequest q o.unread
    have hstep : (o.after q).unread = o.unread.drop k := hleaves
    have hcovers := Section.covers_drop fits hk
    rw [← hstep] at hcovers
    exact Nat.le_trans hcovers.start_le (ih (fits.of_covers hcovers))

/-- What holds of every reader that can come about from a section inside the address space. It is at
a place in the section that it was made over; no sum of addresses on the way there, or from there to
its end, leaves the address space; what is unread lies in the first section and shows its bytes at
their addresses; what is taken is as long as was asked for and comes from its address; a reader
that starts at an address is there. Whatever is asked of it, it never goes back, and it stays where
it is when a request for a fixed number of bytes fails. -/
theorem reached_inside {s : Section} {o : Opened} (fits : s.Fits) (h : Reached s o) :
    (∃ offset ≤ o.whole.size, o.unread = o.whole.drop offset ∧
      o.unread.address.toNat = o.whole.address.toNat + offset) ∧
    (o.whole.stop.toNat = o.whole.address.toNat + o.whole.size ∧
      ∀ n ≤ o.unread.size, (o.unread.drop n).address.toNat = o.unread.address.toNat + n) ∧
    s.Covers o.unread ∧
    (∀ n bytes t, Reader.take n o.unread = .ok bytes t → n ≤ o.unread.size ∧ bytes.length = n ∧
      ∀ i < n, bytes[i]? = s.byteAt? (o.unread.address.toNat + i)) ∧
    (∀ a t, o.unread.startingAt a = .ok t → t.address = a ∧ o.unread.Covers t) ∧
    (∀ requests : List Request,
      o.unread.address.toNat ≤ (requests.foldl Opened.after o).unread.address.toNat) ∧
    ∀ q : Request, q.isFixed = true → ∀ e t, q.run o.unread = .error e t → t = o.unread := by
  have inside := h.opened_inside fits
  have covers := inside.covers_unread fits
  have wholeFits := fits.of_covers inside.covers
  have unreadFits := fits.of_covers covers
  refine ⟨?_, ⟨Section.toNat_stop wholeFits, fun n => Section.toNat_address_drop unreadFits⟩,
    covers, fun n bytes t htake => ?_, fun a t hstart => ?_, address_le_of_requests unreadFits,
    fun q hfixed => AllOrNothing.request hfixed o.unread⟩
  · obtain ⟨offset, hoffset, hunread⟩ := inside.somewhere
    refine ⟨offset, hoffset, hunread, ?_⟩
    rw [hunread, Section.toNat_address_drop wholeFits hoffset]
  · obtain ⟨hn, rfl, -⟩ := Reader.take_ok htake
    refine ⟨hn, List.length_take_of_le hn, fun i hi => ?_⟩
    rw [covers.byteAt_eq _ (by omega) (by omega), Section.byteAt?_add, List.getElem?_take_of_lt hi]
  · obtain ⟨haddress, k, hk, rfl⟩ := Section.exists_drop_of_startingAt unreadFits hstart
    exact ⟨haddress, Section.covers_drop unreadFits hk⟩

/-- A section at the end of the address space that holds a record, of five bytes. -/
def lastRecord : Section :=
  ⟨0xfffffffffffffff0, [5, 0, 0, 0, 0x80, 0x80, 0x00, 0xaa, 0xbb, 0xcc, 0xdd, 0xee]⟩

/-- In the content of the record, behind a numeral, from an address on. -/
theorem reached_inside_record :
    lastRecord.Fits ∧
      Reached lastRecord ⟨⟨0xfffffffffffffff7, [0xaa, 0xbb]⟩, ⟨0xfffffffffffffff8, [0xbb]⟩⟩ ∧
      lastRecord.Covers ⟨0xfffffffffffffff8, [0xbb]⟩ ∧
      ∀ e t, Request.uint16.run ⟨0xfffffffffffffff8, [0xbb]⟩ = .error e t →
        t = ⟨0xfffffffffffffff8, [0xbb]⟩ := by
  have fits : lastRecord.Fits := by decide
  have hcontent : Reached lastRecord ⟨⟨0xfffffffffffffff4, [0x80, 0x80, 0x00, 0xaa, 0xbb]⟩,
      ⟨0xfffffffffffffff4, [0x80, 0x80, 0x00, 0xaa, 0xbb]⟩⟩ :=
    .opened .reader .record rfl
  have hreached : Reached lastRecord
      ⟨⟨0xfffffffffffffff7, [0xaa, 0xbb]⟩, ⟨0xfffffffffffffff8, [0xbb]⟩⟩ :=
    .opened (.after hcontent .uleb128) (.restAt 0xfffffffffffffff8) rfl
  obtain ⟨-, -, hcovers, -, -, -, hfixed⟩ := reached_inside fits hreached
  exact ⟨fits, hreached, hcovers, hfixed .uint16 rfl⟩

end Unwind
