import Unwind.Proofs.FrameMachine.Reading
import Unwind.Proofs.FrameRecord.Alignment
import Unwind.Proofs.RuleTable.Routine

/-!
# Offsets are exact

An offset goes through many hands: a numeral is read, cut to a word, multiplied by the stack unit
and cut to 32 bits. Operands that are too great for a word and products that are too great for an
offset are refused on the way, except that the stack unit and signed operands are cut without
a check. Where these are in range, the offsets in the rows of a function are those of its directives
as exact numbers, and no directive has an offset that does not fit (`offsets_exact`).
-/

namespace Unwind

namespace FrameMachine

open RuleTable FrameRecord

/-! ## Operands that fit a word -/

/-- The signed operands of the directive fit a word. -/
def Directive.Short : Directive → Prop
  | .offset _ units | .defCfaSigned _ units | .defCfaOffsetSigned units =>
    -2 ^ 63 ≤ units ∧ units < 2 ^ 63
  | _ => True

instance : DecidablePred Directive.Short
  | .offset _ units | .defCfaSigned _ units | .defCfaOffsetSigned units =>
    inferInstanceAs (Decidable (-2 ^ 63 ≤ units ∧ units < 2 ^ 63))
  | .setLoc _ | .advance _ | .offsetNegated _ _ | .restore _ | .undefined _ | .sameValue _
  | .inRegister _ _ | .expression _ _ | .valOffset _ _ | .valExpression _ _ | .rememberState
  | .restoreState | .defCfa _ _ | .defCfaRegister _ | .defCfaOffset _ | .defCfaExpression _ =>
    isTrue trivial

theorem toInt_ofInt_of_short {z : Int} (h : -2 ^ 63 ≤ z ∧ z < 2 ^ 63) :
    (Int64.ofInt z).toInt = z :=
  Int64.toInt_ofInt_of_le h.1 h.2

theorem idle_of_stands {i : Instruction} (h : Stands i none) : Idle i := by
  generalize hd : (none : Option Directive) = d? at h
  cases h with
  | same i => exact idle_of_directive? hd.symm
  | _ => cases hd

theorem denotes_of_stands {dataAlign : Int32} {i : Instruction} {d : Directive}
    (h : Stands i (some d)) (inRange : InRange dataAlign i) (short : d.Short) : Denotes i d := by
  generalize hd : some d = d? at h
  cases h with
  | same i => exact denotes_of_directive? inRange hd.symm
  | offsetSigned r z =>
    cases hd
    have hdenotes := Denotes.offsetSigned r (Int64.ofInt z)
    rwa [toInt_ofInt_of_short short] at hdenotes
  | defCfaSigned r z =>
    cases hd
    have hdenotes := Denotes.defCfaSigned r (Int64.ofInt z)
    rwa [toInt_ofInt_of_short short] at hdenotes
  | defCfaOffsetSigned z =>
    cases hd
    have hdenotes := Denotes.defCfaOffsetSigned (Int64.ofInt z)
    rwa [toInt_ofInt_of_short short] at hdenotes
  | valOffset r u z =>
    cases hd
    exact .valOffset r u z

theorem spells_of_stands {dataAlign : Int32} {is : List Instruction} {ds : List Directive}
    (h : StandAll is ds) (inRange : ∀ i ∈ is, InRange dataAlign i) (short : ∀ d ∈ ds, d.Short) :
    Spells is ds := by
  induction h with
  | nil => exact .nil
  | @silent i is ds hstands _ ih =>
    rw [List.forall_mem_cons] at inRange
    exact .idle (idle_of_stands hstands) (ih inRange.2 short)
  | @cons i d is ds hstands _ ih =>
    rw [List.forall_mem_cons] at inRange short
    exact .cons (denotes_of_stands hstands inRange.1 short.1) (ih inRange.2 short.2)

/-! ## Offsets of directives -/

/-- The number that the directive makes an offset. -/
def Directive.offset? (dataAlign : Int) : Directive → Option Int
  | .offset _ units | .defCfaSigned _ units | .defCfaOffsetSigned units => some (units * dataAlign)
  | .offsetNegated _ units => some (-(units * dataAlign))
  | .defCfa _ n | .defCfaOffset n => some n
  | _ => none

theorem fits_of_denotes {dataAlign : Int32} {i : Instruction} {d : Directive} {n : Int}
    (denotes : Denotes i d) (inRange : InRange dataAlign i)
    (h : d.offset? dataAlign.toInt = some n) : Fits n := by
  cases denotes with
  | offset _ =>
    cases h
    exact inRange.2
  | offsetNegated _ =>
    cases h
    exact inRange.2
  | offsetSigned _ _ | defCfa _ _ | defCfaSigned _ _ | defCfaOffset _ | defCfaOffsetSigned _ =>
    cases h
    exact inRange
  | _ => cases h

theorem fits_of_spells {dataAlign : Int32} {is : List Instruction} {ds : List Directive}
    (h : Spells is ds) (inRange : ∀ i ∈ is, InRange dataAlign i) :
    ∀ d ∈ ds, ∀ n, d.offset? dataAlign.toInt = some n → Fits n := by
  induction h with
  | nil => simp
  | idle _ _ ih =>
    rw [List.forall_mem_cons] at inRange
    exact ih inRange.2
  | cons denotes _ ih =>
    rw [List.forall_mem_cons] at inRange ⊢
    exact ⟨fun n hn => fits_of_denotes denotes inRange.1 hn, ih inRange.2⟩

/-! ## Offsets in rows -/

/-- The offset of the CFA, and that of the frame pointer if it was last put at one. -/
structure Offsets where
  cfa : Int
  saved : Option Int
deriving DecidableEq, Repr

namespace Offsets

def atEntry : Offsets := ⟨8, none⟩

def putFp (o : Offsets) (r : Nat) (saved : Option Int) : Offsets :=
  if r = 6 then { o with saved } else o

/-- The offsets behind a directive that does not take columns back. -/
def next (dataAlign : Int) (initial o : Offsets) : Directive → Offsets
  | .offset r units => o.putFp r (some (units * dataAlign))
  | .offsetNegated r units => o.putFp r (some (-(units * dataAlign)))
  | .restore r => o.putFp r initial.saved
  | .undefined r | .sameValue r | .inRegister r _ | .expression r _ => o.putFp r none
  | .defCfa _ n | .defCfaOffset n => { o with cfa := n }
  | .defCfaSigned _ units | .defCfaOffsetSigned units => { o with cfa := units * dataAlign }
  -- Expressions of this length are those of the stubs of the procedure linkage table.
  | .defCfaExpression code => if code.length = 11 then { o with cfa := 8 } else o
  | _ => o

structure Of (row : Row) (o : Offsets) : Prop where
  cfa : row.offset.toInt = o.cfa
  saved : ∀ n, row.fp = .saved n → o.saved = some n.toInt

theorem Of.putFp {row : Row} {o : Offsets} (h : Of row o) (r : UInt64) {fp : FpRule}
    {saved : Option Int} (hfp : ∀ n, fp = .saved n → saved = some n.toInt) :
    Of (row.setFp r fp) (o.putFp r.toNat saved) := by
  rw [setFp_eq, Offsets.putFp]
  split
  · exact ⟨h.cfa, hfp⟩
  · exact h

theorem keeps_of (imageBase : UInt64) (cie : Cie) {initialRow : Row} {initial : Offsets}
    (hinitial : Of initialRow initial) (is : List Instruction) :
    Keeps Of (frameOf imageBase cie initialRow) (next cie.dataAlign.toInt initial) is := by
  intro i _ d denotes row changed o hchange h
  have hsaved : ∀ {m n : Int32}, FpRule.saved m = .saved n → some m.toInt = some n.toInt := by
    rintro m n ⟨rfl⟩
    rfl
  cases denotes with
  | offset _ =>
    obtain ⟨-, m, hm, rfl⟩ := of_changeRow_offset hchange
    exact h.putFp _ fun n hn => hm ▸ hsaved hn
  | offsetSigned r z =>
    obtain ⟨-, m, hm, rfl⟩ := of_changeRow_offsetSigned hchange
    exact h.putFp r fun n hn => hm ▸ hsaved hn
  | offsetNegated _ =>
    obtain ⟨-, m, hm, rfl⟩ := of_changeRow_offsetNegated hchange
    exact h.putFp _ fun n hn => hm ▸ hsaved hn
  | restore r =>
    cases hchange
    exact h.putFp r hinitial.saved
  | undefined r | sameValue r | inRegister r _ | expression r _ =>
    cases hchange
    exact h.putFp r nofun
  | valExpression r e =>
    rcases of_changeRow_valExpression hchange with rfl | ⟨delta, -, -, rfl⟩
    · exact h
    · exact ⟨h.cfa, nofun⟩
  | defCfa r u =>
    obtain ⟨-, m, hm, rfl⟩ := of_changeRow_defCfa hchange
    exact ⟨hm, h.saved⟩
  | defCfaSigned r z =>
    obtain ⟨-, m, hm, rfl⟩ := of_changeRow_defCfaSigned hchange
    exact ⟨hm, h.saved⟩
  | defCfaOffset u =>
    obtain ⟨-, m, hm, rfl⟩ := of_changeRow_defCfaOffset hchange
    exact ⟨hm, h.saved⟩
  | defCfaOffsetSigned z =>
    obtain ⟨-, m, hm, rfl⟩ := of_changeRow_defCfaOffsetSigned hchange
    exact ⟨hm, h.saved⟩
  | defCfaExpression e =>
    rw [of_changeRow_defCfaExpression hchange]
    dsimp only [next]
    split
    · exact ⟨rfl, h.saved⟩
    · exact ⟨h.cfa, h.saved⟩
  | _ =>
    cases hchange
    exact ⟨h.cfa, h.saved⟩

end Offsets

/-! ## Functions -/

theorem toInt_toInt32_of_fits {A : Int} (h : Fits A) : (Int64.ofInt A).toInt32.toInt = A := by
  rw [Int64.toInt32_ofInt]
  exact toInt_ofInt_of_fits h

/-- Of every function that is decoded and taken in, the stack unit and the directives can be read
exactly. If the unit fits its field and the signed operands fit a word, then every offset of
a directive fits as well, and the rows have these offsets as exact numbers. -/
theorem offsets_exact {frames : Section} {start imageBase : UInt64} {fde : Fde} {cie : Cie}
    (hdecode : Fde.decode frames start = .ok (fde, cie))
    (haccepted : Routine.accepted imageBase (fde, cie) = true) :
    ∃ A setup body, exactDataAlign frames cie.start = .ok A ∧
      Says cie.pointerEncoding cie.instructions setup ∧
      Says cie.pointerEncoding fde.instructions body ∧
      (Fits A → (∀ d ∈ setup ++ body, d.Short) →
        (∀ d ∈ setup ++ body, ∀ n, d.offset? A = some n → Fits n) ∧
        ∃ offsets, track (Offsets.next A) .atEntry setup body = some offsets ∧
          List.Forall₂ (fun rule o => Offsets.Of rule.row o)
            (Routine.rows imageBase (fde, cie)) offsets) := by
  have hrules := Routine.rules_of_refusal ((Routine.accepted_iff imageBase _).mp haccepted)
  obtain ⟨setupRules, entry, ended, last, hruns, -⟩ := runsTo_of_rules hrules
  obtain ⟨A, hA, hdata⟩ := dataAlign_of_decodeFde hdecode
  obtain ⟨setup, hsetup, hsetupAll⟩ := says_of_program hruns.setupError
  obtain ⟨body, hbody, hbodyAll⟩ := says_of_program hruns.bodyError
  refine ⟨A, setup, body, hA, hsetup, hbody, fun hfits hshort => ?_⟩
  have inRange := inRange_of_rules hrules
  rw [List.forall_mem_append] at inRange hshort
  have hsetupSpells := spells_of_stands hsetupAll inRange.1 hshort.1
  have hbodySpells := spells_of_stands hbodyAll inRange.2 hshort.2
  -- The unit that the machine runs with is the exact one.
  have hunit : cie.dataAlign.toInt = A := by
    rw [hdata]
    exact toInt_toInt32_of_fits hfits
  subst hunit
  rw [List.forall_mem_append]
  refine ⟨⟨fits_of_spells hsetupSpells inRange.1, fits_of_spells hbodySpells inRange.2⟩, ?_⟩
  exact rules_track hsetupSpells hbodySpells ⟨rfl, nofun⟩
    (fun _ _ hinitial => Offsets.keeps_of imageBase cie hinitial _) hrules

/-! ## Samples -/

/-- A common entry with the bytes of its stack unit, and a function with its instructions. -/
def unitFrames (unit code : Bytes) : Section :=
  ⟨0x2000, littleEndianBytes 4 (15 + unit.length) ++
    [0x00, 0x00, 0x00, 0x00, 0x01, 0x7a, 0x52, 0x00, 0x01] ++ unit ++
    [0x10, 0x01, 0x03, 0x0c, 0x07, 0x08] ++ littleEndianBytes 4 (13 + code.length) ++
    littleEndianBytes 4 (23 + unit.length) ++
    [0x00, 0x10, 0x00, 0x00, 0x40, 0x00, 0x00, 0x00, 0x00] ++ code⟩

def unitCie : Cie where
  start := 0x2000
  instructions := ⟨0x2011, [0x0c, 0x07, 0x08]⟩
  pointerEncoding := 0x03
  lsdaEncoding := Pointer.omitted
  codeAlign := 1
  dataAlign := -8
  returnColumn := 16
  signalFrame := false
  augmented := true
  secondKey := false

def unitFde : Fde :=
  ⟨0x2014, ⟨0x2025, [0x41, 0x13, 0x7e, 0x86, 0x02]⟩, 0x1000, 0x1040⟩

theorem says_unitCie : Says 0x03 unitCie.instructions [.defCfa 7 8] :=
  .cons rfl (.nil rfl)

theorem says_unitFde :
    Says 0x03 unitFde.instructions [.advance 1, .defCfaOffsetSigned (-2), .offset 6 2] :=
  .cons rfl (.cons rfl (.cons rfl (.nil rfl)))

theorem offsets_exact_unit :
    ∃ offsets, track (Offsets.next (-8)) .atEntry [.defCfa 7 8]
        [.advance 1, .defCfaOffsetSigned (-2), .offset 6 2] = some offsets ∧
      List.Forall₂ (fun rule o => Offsets.Of rule.row o) (Routine.rows 0 (unitFde, unitCie))
        offsets := by
  have hdecode : Fde.decode (unitFrames [0x78] [0x41, 0x13, 0x7e, 0x86, 0x02]) 0x2014 =
      .ok (unitFde, unitCie) := rfl
  have haccepted : Routine.accepted 0 (unitFde, unitCie) = true := by decide +kernel
  obtain ⟨A, setup, body, hA, hsetup, hbody, hoffsets⟩ := offsets_exact hdecode haccepted
  cases hA
  cases hsetup.unique says_unitCie
  cases hbody.unique says_unitFde
  exact (hoffsets (by decide) (by decide)).2

/-- The offsets of the CFA in the rows of a sample, if it is taken in. -/
def cfaOffsets (unit code : Bytes) (start : UInt64) : Option (List Int) :=
  (Fde.decode (unitFrames unit code) start).toOption.bind fun r =>
    if Routine.accepted 0 r then some ((Routine.rows 0 r).map (·.row.offset.toInt)) else none

-- This is `2 ^ 32 - 8`.
def wideUnit : Bytes := [0xf8, 0xff, 0xff, 0xff, 0x0f]

-- This is `2 ^ 64 - 2`.
def wideUnits : Bytes := [0xfe, 0xff, 0xff, 0xff, 0xff, 0xff, 0xff, 0xff, 0xff, 0x01]

/-- Two functions are taken in although their only offset is out of range. One takes the wide unit
`-1` times, but that was cut to `-8`; the other takes `-8` for a wide number of times, but that was
cut to `-2`. -/
theorem offset_wrapped :
    (exactDataAlign (unitFrames wideUnit [0x13, 0x7f]) 0x2000 = .ok (2 ^ 32 - 8) ∧
      Says 0x03 ⟨0x2029, [0x13, 0x7f]⟩ [.defCfaOffsetSigned (-1)] ∧
      ¬ Fits (-1 * (2 ^ 32 - 8)) ∧ cfaOffsets wideUnit [0x13, 0x7f] 0x2018 = some [8]) ∧
    (exactDataAlign (unitFrames [0x78] (0x13 :: wideUnits)) 0x2000 = .ok (-8) ∧
      Says 0x03 ⟨0x2025, 0x13 :: wideUnits⟩ [.defCfaOffsetSigned (2 ^ 64 - 2)] ∧
      ¬ Fits ((2 ^ 64 - 2) * -8) ∧ cfaOffsets [0x78] (0x13 :: wideUnits) 0x2014 = some [16]) := by
  have hcut : cfaOffsets wideUnit [0x13, 0x7f] 0x2018 = some [8] := by decide +kernel
  have hcut' : cfaOffsets [0x78] (0x13 :: wideUnits) 0x2014 = some [16] := by decide +kernel
  exact ⟨⟨rfl, .cons rfl (.nil rfl), by decide, hcut⟩, rfl, .cons rfl (.nil rfl), by decide, hcut'⟩

end FrameMachine

end Unwind
