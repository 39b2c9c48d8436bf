import Unwind.Fde
import Unwind.Proofs.PcExpression
import Unwind.Proofs.Reader.Exact

/-!
# The stack unit of a common entry, exactly

The unit of offsets is a signed number of any size that is kept in 32 bits. `exactDataAlign` reads
it as it is; the unit of a common entry that is decoded is what the cuts to 64 and to 32 bits leave
of it (`dataAlign_of_decode`).
-/

namespace Unwind

namespace FrameRecord

open PcExpression (exists_of_bind_eq_ok)

/-- The unit of offsets in the content of a common entry. -/
def readDataAlign : Reader Int := do
  let _ ← Reader.uint32
  let _ ← Reader.uint8
  let _ ← Reader.zeroTerminated
  let _ ← Reader.natural
  Reader.integer

/-- The unit of offsets of the common entry at an address of a frame section. -/
def exactDataAlign (frames : Section) (start : UInt64) : Except CfiError Int := do
  let unread ← frames.startingAt start
  match ← Reader.record.on unread with
  | none => throw .emptyCie
  | some body => readDataAlign.on body

/-! ## What the augmentation leaves alone -/

section

variable {start : UInt64} {dataAlign : Int32} {cie : Cie}

/-- The entry has this address and this unit. -/
def Based (start : UInt64) (dataAlign : Int32) (cie : Cie) : Prop :=
  cie.start = start ∧ cie.dataAlign = dataAlign

theorem readField_based (h : Based start dataAlign cie) (letter : UInt8) :
    Gives (Based start dataAlign) (cie.readField letter) := by
  unfold Cie.readField
  split
  · exact .behind fun _ => .behind fun _ => .pure h
  · exact .behind fun _ => .pure h
  · exact .behind fun _ => .pure h
  · exact .pure h
  · exact .pure h
  · exact .pure h

theorem readFields_based (letters : Bytes) (h : Based start dataAlign cie) :
    Gives (Based start dataAlign) (letters.foldlM Cie.readField cie) := by
  induction letters generalizing cie with
  | nil => exact .pure h
  | cons letter letters ih =>
    rw [List.foldlM_cons]
    exact (readField_based h letter).bind fun _ hnext => ih hnext

theorem readAugmentation_based (letters : Bytes) (h : Based start dataAlign cie) :
    Gives (Based start dataAlign) (Cie.readAugmentation letters cie) := by
  have hbased : Based start dataAlign { cie with augmented := true } := h
  have hfields := readFields_based letters hbased
  refine .behind fun _ => .behind fun area => .lift fun next hnext => ?_
  obtain ⟨t, hread⟩ := Reader.exists_of_on hnext
  exact hfields area next t hread

theorem readInstructions_based (h : Based start dataAlign cie) :
    Gives (Based start dataAlign) (do return { cie with instructions := ← Reader.unread }) :=
  .behind fun _ => .pure h

theorem readRest_based (augmentation : Bytes) (h : Based start dataAlign cie) :
    Gives (Based start dataAlign)
      (match augmentation with
      | 0x7a :: letters => do
        let next ← Cie.readAugmentation letters cie
        return { next with instructions := ← Reader.unread }
      | _ => do
        let next ← pure cie
        return { next with instructions := ← Reader.unread }) := by
  split
  · exact (readAugmentation_based _ h).bind fun _ hnext => readInstructions_based hnext
  · exact Gives.bind (.pure h) fun _ hnext => readInstructions_based hnext

end

/-! ## Entries that are decoded -/

theorem dataAlign_of_readBody {start : UInt64} {body t : Section} {cie : Cie}
    (h : Cie.readBody start body = .ok cie t) :
    ∃ A u, readDataAlign body = .ok A u ∧ Based start (Int64.ofInt A).toInt32 cie := by
  unfold Cie.readBody at h
  obtain ⟨identifier, s₁, hidentifier, h⟩ := Reader.exists_of_bind h
  dsimp only at h
  split at h
  · cases h
  obtain ⟨version, s₂, hversion, h⟩ := Reader.exists_of_bind h
  split at h
  · cases h
  obtain ⟨augmentation, s₃, haugmentation, h⟩ := Reader.exists_of_bind h
  obtain ⟨codeAlign, s₄, hcode, h⟩ := Reader.exists_of_bind h
  obtain ⟨dataAlign, s₅, hdata, h⟩ := Reader.exists_of_bind h
  obtain ⟨_, hnatural, -⟩ := Follows.natural s₃ codeAlign s₄ hcode
  obtain ⟨A, hinteger, rfl⟩ := Follows.integer s₄ dataAlign s₅ hdata
  refine ⟨A, s₅, ?_, ?_⟩
  · unfold readDataAlign
    rw [Reader.bind_of_ok hidentifier, Reader.bind_of_ok hversion,
      Reader.bind_of_ok haugmentation, Reader.bind_of_ok hnatural]
    exact hinteger
  · -- What is read behind the unit only changes other fields.
    revert h
    apply Gives.of_ok
    split
    · exact .behind fun column => readRest_based augmentation ⟨rfl, rfl⟩
    · exact .behind fun column => readRest_based augmentation ⟨rfl, rfl⟩

theorem dataAlign_of_decode {frames : Section} {start : UInt64} {cie : Cie}
    (h : Cie.decode frames start = .ok cie) :
    ∃ A, exactDataAlign frames start = .ok A ∧ Based start (Int64.ofInt A).toInt32 cie := by
  unfold Cie.decode at h
  obtain ⟨unread, hunread, h⟩ := exists_of_bind_eq_ok h
  obtain ⟨content, hcontent, h⟩ := exists_of_bind_eq_ok h
  cases content with
  | none => cases h
  | some body =>
    obtain ⟨t, hbody⟩ := Reader.exists_of_on h
    obtain ⟨A, u, hA, hbased⟩ := dataAlign_of_readBody hbody
    refine ⟨A, ?_, hbased⟩
    unfold exactDataAlign
    rw [hunread]
    change (Reader.record.on unread >>= _) = _
    rw [hcontent]
    exact Reader.on_of_ok hA

/-- The common entry of a function is the one that is decoded at its address. -/
theorem cie_of_readBody {frames : Section} {start : UInt64} :
    Gives (fun p => Cie.decode frames p.2.start = .ok p.2) (Fde.readBody frames start) := by
  unfold Fde.readBody
  refine .behind fun field => .behind fun distance => ?_
  dsimp only
  split
  · intro s p t h
    cases h
  · have hdecode : ∀ cie, Cie.decode frames (field - distance.toUInt64) = .ok cie →
        Cie.decode frames cie.start = .ok cie := by
      intro cie hcie
      obtain ⟨-, -, hstart, -⟩ := dataAlign_of_decode hcie
      rwa [hstart]
    refine Gives.bind (.lift hdecode) fun cie hcie => .behind fun _ => .behind fun _ => ?_
    split
    · exact .behind fun _ => .behind fun _ => .behind fun _ => .pure hcie
    · exact .behind fun _ => .pure hcie

theorem dataAlign_of_decodeFde {frames : Section} {start : UInt64} {fde : Fde} {cie : Cie}
    (h : Fde.decode frames start = .ok (fde, cie)) :
    ∃ A, exactDataAlign frames cie.start = .ok A ∧ cie.dataAlign = (Int64.ofInt A).toInt32 := by
  unfold Fde.decode at h
  obtain ⟨unread, -, h⟩ := exists_of_bind_eq_ok h
  obtain ⟨content, -, h⟩ := exists_of_bind_eq_ok h
  cases content with
  | none => cases h
  | some body =>
    obtain ⟨t, hbody⟩ := Reader.exists_of_on h
    obtain ⟨A, hA, -, hdata⟩ := dataAlign_of_decode (cie_of_readBody body (fde, cie) t hbody)
    exact ⟨A, hA, hdata⟩

end FrameRecord

end Unwind
