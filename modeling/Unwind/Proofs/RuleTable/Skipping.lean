import Unwind.Proofs.FrameHeader.Listing
import Unwind.Proofs.RuleTable.Routine

/-!
# Broken functions leave no trace

A function is left out of the table when its record cannot be decoded or a builder refuses what the
record says. Either way the builder is afterwards what it was before, wherever in the search table
the function stands and whatever was recorded before it. So the table is the one that the other
functions give alone, and the only sign of the broken ones is a line in the log for each.
-/

namespace Unwind

namespace FrameHeader

/-- The pairs of a search table that can be read are followed by nothing, or by one fault. -/
theorem entries_eq (h : FrameHeader) (header : Section) :
    ∃ es : List Entry, h.entries header = es.map .ok ∨
      ∃ e, h.entries header = es.map .ok ++ [.error e] := by
  obtain ⟨es, fault, hentries, -⟩ := exists_entries h header
  cases fault with
  | none => exact ⟨es, Or.inl (hentries.trans (List.append_nil _))⟩
  | some e => exact ⟨es, Or.inr ⟨e, hentries⟩⟩

end FrameHeader

namespace RuleTable

open FrameHeader

/-- The header section is broken, or its search table is. -/
def BrokenBy (header : Section) (e : CfiError) : Prop :=
  FrameHeader.decode header = .error e ∨
    ∃ h, FrameHeader.decode header = .ok h ∧ .error e ∈ h.entries header

/-- Why the function of a record is left out, if it is. -/
def omission (frames : Section) (imageBase record : UInt64) : Option CfiError :=
  match Fde.decode frames record with
  | .error e => some e
  | .ok (fde, cie) =>
    match ((Builder.new imageBase).add fde cie).2 with
    | .error e => some e
    | .ok () => none

/-- The pairs whose functions get into the table. -/
def kept (frames : Section) (imageBase : UInt64) (es : List Entry) : List Entry :=
  es.filter fun entry => (omission frames imageBase entry.record).isNone

/-- A function that is refused leaves the builder exactly as it was, however many of its rows had
been recorded by then and whether or not one of them took the place of the last rule. -/
theorem Builder.unchanged_of_refused (b : Builder) {fde : Fde} {cie : Cie} {e : CfiError}
    (h : (b.add fde cie).2 = .error e) : (b.add fde cie).1 = b := by
  have hadd : b.add fde cie = _ := b.add_eq (fde, cie)
  rw [hadd] at h ⊢
  cases hrefusal : Routine.refusal b.imageBase (fde, cie) with
  | some e => rfl
  | none =>
    rw [hrefusal] at h
    cases h

/-- A function right behind the sample. Its row takes the place of the rule that closes the sample,
before its last opcode turns out to be unknown. -/
def brokenRoutine : Routine :=
  (⟨0x2028, ⟨0x2039, [0x0e, 0x18, 0x41, 0x3f]⟩, 0x1040, 0x1060⟩, bareCie)

theorem Builder.unchanged_of_refused_overwriting :
    let b := ((Builder.new 0x1000).add lowRoutine.1 lowRoutine.2).1
    b.rules.back? = some (Rule.default.movedTo 0x40) ∧
      (b.recordAll (brokenRoutine.rows 0x1000)).rules.back? = some ⟨0x40, .sp, 0x18, .unchanged⟩ ∧
      (b.add brokenRoutine.1 brokenRoutine.2).2 = .error (.unknownOpcode 0x3f) ∧
      (b.add brokenRoutine.1 brokenRoutine.2).1 = b := by
  intro b
  have hrefusal : brokenRoutine.refusal b.imageBase = some (.unknownOpcode 0x3f) := by
    decide +kernel
  have hrefused : (b.add brokenRoutine.1 brokenRoutine.2).2 = .error (.unknownOpcode 0x3f) := by
    rw [b.add_eq, hrefusal]
  exact ⟨by decide +kernel, by decide +kernel, hrefused, b.unchanged_of_refused hrefused⟩

/-- A fault behind the readable pairs is what remains. -/
theorem addEntries_fault (frames : Section) (es : List Entry) (e : CfiError) (b : Builder) :
    (addEntries frames (es.map .ok ++ [.error e]) b).2 = .error e := by
  change (addEntries frames (listed es (some e)) b).2 = .error e
  rw [addEntries_listed]

theorem compile_of_broken {header : Section} {e : CfiError} (frames : Section)
    (imageBase : UInt64) (h : BrokenBy header e) :
    (compile header frames imageBase).table = .error e := by
  unfold compile
  rcases h with hdecode | ⟨fixed, hdecode, hmem⟩
  · rw [hdecode]
  · rw [hdecode]
    dsimp only
    -- A fault can only be the last of what is listed, so it is the one that ends the table.
    obtain ⟨es, hes | ⟨fault, hes⟩⟩ := fixed.entries_eq header
    · rw [hes] at hmem
      obtain ⟨entry, -, hentry⟩ := List.mem_map.mp hmem
      cases hentry
    · rw [hes] at hmem ⊢
      rw [addEntries_fault]
      rcases List.mem_append.mp hmem with hmem | hmem
      · obtain ⟨entry, -, hentry⟩ := List.mem_map.mp hmem
        cases hentry
      · cases List.mem_singleton.mp hmem
        rfl

end RuleTable

end Unwind
