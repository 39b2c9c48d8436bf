import Unwind.Proofs.FrameHeader
import Unwind.Proofs.Reader.Stored
import Unwind.RuleTable.Compile

/-!
# How much of a search table is listed

A header section may declare any number of pairs up to the largest word, and nothing says that their
bytes are there. But a pair takes two bytes at least, in every encoding, and behind a fault nothing
is listed. So the bytes of the table bound what is listed of it and how many functions are looked
at to compile it (`listing_bounded`), whatever number was declared.
-/

namespace Unwind

namespace FrameHeader

/-- The bytes of a header section from its search table on. -/
def tableBytes (h : FrameHeader) (header : Section) : Bytes :=
  header.bytes.drop (h.table - header.address).toNat

/-- The pairs that could be read and the fault that ended them, if one did. -/
def listed (es : List Entry) (fault : Option CfiError) : List (Except CfiError Entry) :=
  es.map .ok ++ (fault.map .error).toList

/-! ## Pairs that were read -/

/-- Where a pair is read, the bytes passed over store it. -/
theorem exists_table_of_readEntry {encoding : UInt8} {base : UInt64} {entry : Entry}
    {s t : Section} (h : readEntry encoding base s = .ok entry t) :
    ∃ pair, s.bytes = pair ++ t.bytes ∧ Table encoding base s.address [entry] pair := by
  obtain ⟨location, u, hlocation, hrest⟩ := Reader.exists_of_bind h
  obtain ⟨record, v, hrecord, hrest⟩ := Reader.exists_of_bind hrest
  cases hrest
  obtain ⟨front, hfront, haddress, hstored⟩ := exists_stores_of_pointer hlocation
  obtain ⟨back, hback, -, hstored'⟩ := exists_stores_of_pointer hrecord
  rw [haddress] at hstored'
  refine ⟨front ++ back ++ [], ?_, .cons hstored hstored' .nil⟩
  rw [hfront, hback, List.append_nil, List.append_assoc]

theorem Table.two_mul_length_le {encoding : UInt8} {base a : UInt64} {entries : List Entry}
    {bytes : Bytes} (h : Table encoding base a entries bytes) :
    2 * entries.length ≤ bytes.length := by
  induction h with
  | nil => exact Nat.le_refl _
  | cons hlocation hrecord _ ih =>
    have hfirst := hlocation.length_pos
    have hsecond := hrecord.length_pos
    simp only [List.length_cons, List.length_append]
    omega

theorem exists_entriesFrom (encoding : UInt8) (base : UInt64) (count : Nat) (unread : Section) :
    ∃ es fault, entriesFrom encoding base count unread = listed es fault ∧
      2 * es.length ≤ unread.size := by
  induction count generalizing unread with
  | zero => exact ⟨[], none, rfl, Nat.zero_le _⟩
  | succ count ih =>
    unfold entriesFrom
    cases hread : readEntry encoding base unread with
    | error e rest => exact ⟨[], some e, rfl, Nat.zero_le _⟩
    | ok entry rest =>
      obtain ⟨es, fault, hrest, hle⟩ := ih rest
      obtain ⟨pair, hbytes, hpair⟩ := exists_table_of_readEntry hread
      have htwo : 2 * 1 ≤ pair.length := hpair.two_mul_length_le
      refine ⟨entry :: es, fault, congrArg (.ok entry :: ·) hrest, ?_⟩
      rw [Section.size, hbytes, List.length_append, List.length_cons]
      rw [Section.size] at hle
      omega

/-- What is listed of a table takes its place in the table. -/
theorem exists_entries (h : FrameHeader) (header : Section) :
    ∃ es fault, h.entries header = listed es fault ∧
      2 * es.length ≤ (h.tableBytes header).length := by
  unfold entries Section.startingAt
  by_cases hcontains : header.contains h.table = true
  · rw [if_pos hcontains]
    exact exists_entriesFrom h.encoding header.address h.count.toNat _
  · rw [if_neg hcontains]
    exact ⟨[], none, rfl, Nat.zero_le _⟩

theorem length_listed_le (es : List Entry) (fault : Option CfiError) :
    (listed es fault).length ≤ 1 + es.length := by
  unfold listed
  rw [List.length_append, List.length_map]
  cases fault with
  | none => exact Nat.le_add_left _ _
  | some e => exact Nat.le_of_eq (Nat.add_comm _ _)

/-! ## One pair after the other -/

namespace Listing

/-- The listing after `n` requests. -/
def after (l : Listing) : Nat → Listing
  | 0 => l
  | n + 1 => l.next.2.after n

/-- What the `i`-th request brings, counted from zero. -/
def answer (l : Listing) (i : Nat) : Option (Except CfiError Entry) :=
  (l.after i).next.1

def Over (l : Listing) : Prop :=
  l.remaining = 0 ∨ l.unread = none

theorem Over.next {l : Listing} (h : l.Over) : l.next.1 = none ∧ l.next.2.Over := by
  unfold Listing.next
  by_cases hzero : (l.remaining == 0) = true
  · rw [if_pos hzero]
    exact ⟨rfl, h⟩
  · have hunread := h.resolve_left (by rwa [beq_iff_eq] at hzero)
    rw [if_neg hzero]
    dsimp only
    rw [hunread]
    exact ⟨rfl, .inr rfl⟩

theorem Over.answer {l : Listing} (h : l.Over) (i : Nat) : l.answer i = none := by
  induction i generalizing l with
  | zero => exact h.next.1
  | succ i ih => exact ih h.next.2

section

variable {encoding : UInt8} {base remaining : UInt64} {unread rest : Section}

theorem next_of_ok {entry : Entry} (hremaining : remaining ≠ 0)
    (hread : readEntry encoding base unread = .ok entry rest) :
    next ⟨some unread, base, encoding, remaining⟩ =
      (some (.ok entry), ⟨some rest, base, encoding, remaining - 1⟩) := by
  unfold next
  rw [if_neg (by rwa [beq_iff_eq])]
  dsimp only
  rw [hread]

theorem next_of_error {e : CfiError} (hremaining : remaining ≠ 0)
    (hread : readEntry encoding base unread = .error e rest) :
    next ⟨some unread, base, encoding, remaining⟩ =
      (some (.error e), ⟨some rest, base, encoding, 0⟩) := by
  unfold next
  rw [if_neg (by rwa [beq_iff_eq])]
  dsimp only
  rw [hread]

end

theorem answer_zero (l : Listing) : l.answer 0 = l.next.1 := rfl

theorem answer_succ (l : Listing) (i : Nat) : l.answer (i + 1) = l.next.2.answer i := rfl

/-- The requests bring the pairs of the table in order, and nothing behind the last. -/
theorem answer_of_unread (encoding : UInt8) (base : UInt64) (unread : Section)
    (remaining : UInt64) (i : Nat) :
    answer ⟨some unread, base, encoding, remaining⟩ i =
      (entriesFrom encoding base remaining.toNat unread)[i]? := by
  -- The induction is on the number of pairs that are still to come.
  induction hcount : remaining.toNat generalizing unread remaining i with
  | zero =>
    have hzero : remaining = 0 := UInt64.toNat_inj.mp hcount
    rw [Over.answer (.inl hzero), entriesFrom, List.getElem?_nil]
  | succ count ih =>
    have hremaining : remaining ≠ 0 := by
      rintro rfl
      cases hcount
    have hone : 1 ≤ remaining := by
      rw [UInt64.le_iff_toNat_le, hcount]
      exact Nat.le_add_left 1 count
    have hless : (remaining - 1).toNat = count := by
      rw [UInt64.toNat_sub_of_le _ _ hone, hcount]
      exact Nat.add_sub_cancel count 1
    unfold entriesFrom
    cases hread : readEntry encoding base unread with
    | error e rest =>
      have hnext := next_of_error hremaining hread
      cases i with
      | zero => rw [answer_zero, hnext, List.getElem?_cons_zero]
      | succ i =>
        rw [answer_succ, hnext, Over.answer (.inl rfl), List.getElem?_cons_succ, List.getElem?_nil]
    | ok entry rest =>
      have hnext := next_of_ok hremaining hread
      cases i with
      | zero => rw [answer_zero, hnext, List.getElem?_cons_zero]
      | succ i =>
        rw [answer_succ, hnext, List.getElem?_cons_succ]
        exact ih rest (remaining - 1) i hless

/-- Asking for pair after pair brings what the table lists. -/
theorem answer_listing (h : FrameHeader) (header : Section) (i : Nat) :
    (h.listing header).answer i = (h.entries header)[i]? := by
  unfold listing entries
  cases header.startingAt h.table with
  | ok unread => exact answer_of_unread h.encoding header.address unread h.count i
  | error e => rw [Over.answer (.inr rfl), List.getElem?_nil]

end Listing

end FrameHeader

/-! ## What is compiled of a table -/

namespace RuleTable

open FrameHeader

/-- Adds the functions of records one after the other, with what is reported on them. -/
def addRecords (frames : Section) : List UInt64 → Builder → List LogLine × Builder
  | [], b => ([], b)
  | record :: rest, b =>
    let (lines, b) := addRecord frames b record
    let (more, last) := addRecords frames rest b
    (lines ++ more, last)

/-- Adding the functions of a search table is adding those of its records, up to a fault. -/
theorem addEntries_listed (frames : Section) (es : List Entry) (fault : Option CfiError)
    (b : Builder) :
    addEntries frames (listed es fault) b =
      ((addRecords frames (es.map Entry.record) b).1,
        match fault with
        | none => .ok (addRecords frames (es.map Entry.record) b).2
        | some e => .error e) := by
  induction es generalizing b with
  | nil => cases fault <;> rfl
  | cons entry rest ih =>
    change addEntries frames (.ok entry :: listed rest fault) b = _
    unfold addEntries
    dsimp only
    rw [ih]
    rfl

end RuleTable

namespace FrameHeader

/-- However many pairs a header section declares: asking for one after the other brings no more than
one for every two bytes of the table and a fault, which is the last, and then nothing for ever. For
no more records than that is a function looked at to compile the table. -/
theorem listing_bounded {header : Section} {h : FrameHeader} (hdecode : decode header = .ok h) :
    (∀ i, (h.listing header).answer i = (h.entries header)[i]?) ∧
    (∀ i j, i ≤ j → (h.listing header).answer i = none → (h.listing header).answer j = none) ∧
    (h.entries header).length ≤ 1 + (h.tableBytes header).length / 2 ∧
    ∃ es fault, h.entries header = listed es fault ∧
      es.length ≤ 1 + (h.tableBytes header).length / 2 ∧
      ∀ frames imageBase,
        RuleTable.compile header frames imageBase =
          let (log, b) := RuleTable.addRecords frames (es.map Entry.record) (.new imageBase)
          match fault with
          | none => ⟨log, .ok b.finish⟩
          | some e => ⟨log, .error e⟩ := by
  obtain ⟨es, fault, hentries, htwo⟩ := exists_entries h header
  have hlength := length_listed_le es fault
  refine ⟨Listing.answer_listing h header, fun i j hij hnone => ?_, ?_, es, fault, hentries, ?_,
    fun frames imageBase => ?_⟩
  · rw [Listing.answer_listing, List.getElem?_eq_none_iff] at hnone ⊢
    omega
  · rw [hentries]
    omega
  · omega
  · unfold RuleTable.compile
    rw [hdecode]
    dsimp only
    rw [hentries, RuleTable.addEntries_listed]
    cases fault <;> rfl

/-- A header section that declares as many pairs as can be declared, with five bytes of them. -/
def boastfulHeader : Section := ⟨0x10000,
  [1, 0x04, 0x04, 0x01, 0x00, 0x10, 0x01, 0x00, 0x00, 0x00, 0x00, 0x00,
    0xff, 0xff, 0xff, 0xff, 0xff, 0xff, 0xff, 0xff, 0x05, 0x06, 0x07, 0x08, 0x80]⟩

def boastful : FrameHeader := ⟨0x11000, maxWord, 0x10014, 0x01⟩

theorem listing_bounded_boastful :
    decode boastfulHeader = .ok boastful ∧
    (∀ i j, i ≤ j → (boastful.listing boastfulHeader).answer i = none →
      (boastful.listing boastfulHeader).answer j = none) ∧
    (boastful.entries boastfulHeader).length ≤ 3 := by
  have hdecode : decode boastfulHeader = .ok boastful := by decide +kernel
  obtain ⟨-, hnone, hlength, -⟩ := listing_bounded hdecode
  exact ⟨hdecode, hnone, Nat.le_trans hlength (by decide +kernel)⟩

end FrameHeader

end Unwind
