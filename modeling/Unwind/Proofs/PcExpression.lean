import Unwind.Proofs.Word
import Unwind.RuleTable

/-!
# Recognised expressions on the stack machine

An expression is a program for a stack machine. `PcExpression.recognise` follows it with a sum and a
single pending constant: a constant that comes before the last one has been added takes its place,
and one that is never added is left over. The machine keeps both on its stack, above the pc. So an
expression that is recognised does run, but its value is the pc plus the constant found exactly if
nothing stays above the pc.
-/

namespace Unwind

inductive StackOp where
  /-- puts the pc plus a constant on the stack -/
  | pc (offset : Int)
  /-- puts a constant on the stack -/
  | const (value : Int)
  /-- adds a constant to the top of the stack -/
  | plusConst (value : UInt64)
  /-- replaces the two values on top of the stack by their sum -/
  | plus
deriving DecidableEq, Repr

namespace StackOp

def readAfter (opcode : UInt8) : Reader (Option StackOp) :=
  match opcode.toNat with
  | 0x08 => return some (const (← Reader.uint8).toNat)
  | 0x09 => return some (const (← Reader.int8).toInt)
  | 0x0a => return some (const (← Reader.uint16).toNat)
  | 0x0b => return some (const (← Reader.int16).toInt)
  | 0x0c => return some (const (← Reader.uint32).toNat)
  | 0x0d => return some (const (← Reader.int32).toInt)
  | 0x0e => return some (const (← Reader.uint64).toNat)
  | 0x0f => return some (const (← Reader.int64).toInt)
  | 0x10 => return some (const (← Reader.uleb128).toNat)
  | 0x11 => return some (const (← Reader.sleb128).toInt)
  | 0x22 => return some plus
  | 0x23 => return some (plusConst (← Reader.uleb128))
  | 0x80 => return some (pc (← Reader.sleb128).toInt)
  | _ => return none

def read : Reader (Option StackOp) := do
  readAfter (← Reader.uint8)

theorem consumes_readAfter (opcode : UInt8) : Consumes (readAfter opcode) := by
  unfold readAfter
  split
  · exact .ofBind .ofUint8 fun _ => .ofPure _
  · exact .ofBind .ofInt8 fun _ => .ofPure _
  · exact .ofBind .ofUint16 fun _ => .ofPure _
  · exact .ofBind .ofInt16 fun _ => .ofPure _
  · exact .ofBind .ofUint32 fun _ => .ofPure _
  · exact .ofBind .ofInt32 fun _ => .ofPure _
  · exact .ofBind .ofUint64 fun _ => .ofPure _
  · exact .ofBind .ofInt64 fun _ => .ofPure _
  · exact .ofBind .ofUleb128 fun _ => .ofPure _
  · exact .ofBind .ofSleb128 fun _ => .ofPure _
  · exact .ofPure _
  · exact .ofBind .ofUleb128 fun _ => .ofPure _
  · exact .ofBind .ofSleb128 fun _ => .ofPure _
  · exact .ofPure _

/-- What an operation makes of a stack, the top of which comes first. -/
def apply (pc : UInt64) : StackOp → List UInt64 → Option (List UInt64)
  | .pc offset, stack => some ((pc + .ofInt offset) :: stack)
  | .const value, stack => some (.ofInt value :: stack)
  | .plusConst value, top :: stack => some ((top + value) :: stack)
  | .plus, top :: second :: stack => some ((second + top) :: stack)
  | _, _ => none

end StackOp

namespace PcExpression

/-- The stack after an expression, if there are values enough for each operation and all of them are
among those above. -/
def evaluate (pc : UInt64) (unread : Section) (stack : List UInt64) : Option (List UInt64) :=
  if unread.bytes.isEmpty then some stack
  else
    match _h : StackOp.read unread with
    | .ok (some op) rest => (op.apply pc stack).bind fun next => evaluate pc rest next
    | _ => none
termination_by unread.size
decreasing_by exact Consumes.size_lt_of_uint8 StackOp.consumes_readAfter _h

theorem evaluate_of_isEmpty {unread : Section} (h : unread.bytes.isEmpty = true) (pc : UInt64)
    (stack : List UInt64) : evaluate pc unread stack = some stack := by
  rw [evaluate, if_pos h]

theorem evaluate_of_read {unread rest : Section} {op : StackOp}
    (hempty : ¬ unread.bytes.isEmpty = true) (h : StackOp.read unread = .ok (some op) rest)
    (pc : UInt64) (stack : List UInt64) :
    evaluate pc unread stack = (op.apply pc stack).bind (evaluate pc rest) := by
  rw [evaluate, if_neg hempty]
  split
  · rename_i heq
    rw [h] at heq
    cases heq
    rfl
  · rename_i hne
    exact absurd h (hne _ _)

/-- What the stack machine has for an operation. -/
def Operation.stackOp : Operation → StackOp
  | .const value => .const value
  | .plusConst value => .plusConst value
  | .plus => .plus

/-- The machine reads the operations that the recogniser knows as the recogniser does. -/
theorem readAfter_eq (opcode : UInt8) :
    Operation.readAfter opcode = pure none ∨
      StackOp.readAfter opcode = Option.map Operation.stackOp <$> Operation.readAfter opcode := by
  unfold Operation.readAfter
  split
  case h_9 => exact .inl rfl
  all_goals
    right
    rename_i hopcode
    unfold StackOp.readAfter
    rw [hopcode]
    simp only [map_bind, map_pure]
    rfl

theorem read_of_operation {s t : Section} {o : Operation}
    (h : Operation.read s = .ok (some o) t) : StackOp.read s = .ok (some o.stackOp) t := by
  unfold Operation.read at h
  unfold StackOp.read
  dsimp only [bind, EStateM.bind] at h ⊢
  cases hopcode : Reader.uint8 s with
  | error e s' =>
    rw [hopcode] at h
    cases h
  | ok opcode s' =>
    rw [hopcode] at h
    dsimp only at h ⊢
    rcases readAfter_eq opcode with hnone | hsome
    · rw [hnone] at h
      cases h
    · rw [hsome]
      show EStateM.map _ _ s' = _
      rw [EStateM.map, h]
      rfl

/-! ## What the recogniser keeps track of -/

theorem exists_of_bind_eq_ok {α β : Type} {x : Except CfiError α} {f : α → Except CfiError β}
    {b : β} (h : x >>= f = .ok b) : ∃ a, x = .ok a ∧ f a = .ok b := by
  cases x with
  | error e => cases h
  | ok a => exact ⟨a, rfl, h⟩

theorem eq_of_fitInt64 {n m : Int} (h : fitInt64 n = .ok m) : m = n := by
  unfold fitInt64 at h
  split at h
  · exact (Except.ok.inj h).symm
  · cases h

theorem word_of_fitOffset {n : Int} {d : Int32} (h : fitOffset n = .ok d) :
    wordOfOffset d = .ofInt n := by
  unfold fitOffset at h
  split at h
  · rename_i hfits
    cases h
    rw [wordOfOffset_eq, Int32.toInt_ofInt_of_le hfits.1 hfits.2]
  · cases h

/-- The machine has the values `above` on its stack and below them the pc plus `x`, where the
recogniser has the sum `offset` and the constant `operand`. -/
inductive Tracks (offset : Int) : Option Int → List UInt64 → UInt64 → Prop
  | settled : Tracks offset none [] (.ofInt offset)
  | pending {value : Int} {top x : UInt64} (hsum : x + top = .ofInt (offset + value)) :
      Tracks offset (some value) [top] x
  -- There are more constants on the stack than the recogniser knows of.
  | lost {operand : Option Int} {above : List UInt64} {x : UInt64}
      (hlength : operand.toList.length < above.length) : Tracks offset operand above x

/-- Whatever the pc, the machine comes from the one stack to the other. -/
def Leads (f : UInt64 → List UInt64 → Option (List UInt64)) (above : List UInt64) (x : UInt64)
    (above' : List UInt64) (x' : UInt64) : Prop :=
  ∀ (pc : UInt64) (stack : List UInt64),
    f pc (above ++ (pc + x) :: stack) = some (above' ++ (pc + x') :: stack)

theorem Leads.read {unread rest : Section} {o : Operation} {above between above' : List UInt64}
    {x y x' : UInt64} (hempty : ¬ unread.bytes.isEmpty = true)
    (hread : Operation.read unread = .ok (some o) rest)
    (hfirst : Leads (StackOp.apply · o.stackOp) above x between y)
    (hrest : Leads (evaluate · rest) between y above' x') :
    Leads (evaluate · unread) above x above' x' := by
  intro pc stack
  show evaluate pc unread _ = _
  have hnext : o.stackOp.apply pc _ = _ := hfirst pc stack
  rw [evaluate_of_read hempty (read_of_operation hread), hnext, Option.bind_some]
  exact hrest pc stack

namespace Tracks

variable {offset : Int} {operand : Option Int} {above : List UInt64} {x : UInt64}

theorem const (h : Tracks offset operand above x) (value : Int) :
    Tracks offset (some value) (.ofInt value :: above) x := by
  cases h with
  | settled => exact .pending (UInt64.ofInt_add _ _).symm
  | pending hsum => exact .lost (by simp)
  | lost hlength => exact .lost (by simp; omega)

theorem plusConst (h : Tracks offset operand above x) (value : UInt64) :
    ∃ above' x', Leads (StackOp.apply · (.plusConst value)) above x above' x' ∧
      Tracks (offset + value.toNat) operand above' x' := by
  have hvalue : UInt64.ofInt value.toNat = value := by
    rw [ofInt_natCast, Nat.toUInt64_eq, UInt64.ofNat_toNat]
  have hadd (z : Int) : UInt64.ofInt (z + value.toNat) = .ofInt z + value := by
    rw [UInt64.ofInt_add, hvalue]
  cases h with
  | settled =>
    refine ⟨[], .ofInt (offset + value.toNat), fun pc stack => ?_, .settled⟩
    show some ((pc + .ofInt offset + value) :: stack) = _
    rw [hadd, ← UInt64.add_assoc]
    rfl
  | @pending constant top _ hsum =>
    refine ⟨[top + value], x, fun pc stack => rfl, .pending ?_⟩
    have hcomm : offset + value.toNat + constant = offset + constant + value.toNat := by omega
    rw [hcomm, hadd, ← hsum, UInt64.add_assoc]
  | lost hlength =>
    cases above with
    | nil => exact absurd hlength (Nat.not_lt_zero _)
    | cons top rest => exact ⟨(top + value) :: rest, x, fun pc stack => rfl, .lost hlength⟩

theorem plus {value : Int} (h : Tracks offset (some value) above x) :
    ∃ above' x', Leads (StackOp.apply · .plus) above x above' x' ∧
      Tracks (offset + value) none above' x' := by
  cases h with
  | @pending _ top _ hsum =>
    refine ⟨[], .ofInt (offset + value), fun pc stack => ?_, .settled⟩
    show some ((pc + x + top) :: stack) = _
    rw [UInt64.add_assoc, hsum]
    rfl
  | lost hlength =>
    -- The sum is one of constants and does not reach the pc.
    match above, hlength with
    | top :: second :: rest, _ =>
      exact ⟨(second + top) :: rest, x, fun pc stack => rfl, .lost (Nat.zero_lt_succ _)⟩

theorem eq_of_nil (h : Tracks offset operand [] x) : x = .ofInt offset := by
  cases h with
  | settled => rfl
  | lost hlength => exact absurd hlength (Nat.not_lt_zero _)

/-- The recogniser follows the machine to the end of the expression. -/
theorem run {unread : Section} {delta : Int} (h : Tracks offset operand above x)
    (hrun : PcExpression.run offset operand unread = .ok (some delta)) :
    ∃ above' x', Leads (evaluate · unread) above x above' x' ∧
      ∃ operand', Tracks delta operand' above' x' := by
  fun_induction PcExpression.run offset operand unread generalizing above x with
  | case1 offset operand unread hempty =>
    cases hrun
    exact ⟨above, x, fun pc stack => evaluate_of_isEmpty hempty pc _, operand, h⟩
  | case2 => cases hrun
  | case3 => cases hrun
  | case4 offset operand unread hempty value rest hread ih =>
    obtain ⟨above', x', hleads, hend⟩ := ih (h.const value) hrun
    exact ⟨above', x', .read hempty hread (fun pc stack => rfl) hleads, hend⟩
  | case5 offset operand unread hempty value rest hread ih =>
    obtain ⟨n, hn, hrun⟩ := exists_of_bind_eq_ok hrun
    obtain ⟨sum, hsum, hrun⟩ := exists_of_bind_eq_ok hrun
    obtain rfl := eq_of_fitInt64 hn
    obtain rfl := eq_of_fitInt64 hsum
    obtain ⟨between, y, hfirst, hnext⟩ := h.plusConst value
    obtain ⟨above', x', hleads, hend⟩ := ih _ hnext hrun
    exact ⟨above', x', .read hempty hread hfirst hleads, hend⟩
  | case6 => cases hrun
  | case7 offset unread hempty rest hread value ih =>
    obtain ⟨sum, hsum, hrun⟩ := exists_of_bind_eq_ok hrun
    obtain rfl := eq_of_fitInt64 hsum
    obtain ⟨between, y, hfirst, hnext⟩ := h.plus
    obtain ⟨above', x', hleads, hend⟩ := ih _ hnext hrun
    exact ⟨above', x', .read hempty hread hfirst hleads, hend⟩

end Tracks

/-! ## What is recognised -/

theorem exists_of_recognise {expression : Section} {delta : Int32}
    (h : recognise expression = .ok (some delta)) :
    ∃ (offset : Int64) (rest : Section) (sum : Int),
      StackOp.read expression = .ok (some (.pc offset.toInt)) rest ∧
      run offset.toInt none rest = .ok (some sum) ∧ fitOffset sum = .ok delta := by
  unfold recognise at h
  unfold StackOp.read
  dsimp only [bind, EStateM.bind] at h ⊢
  cases hopcode : Reader.uint8 expression with
  | error e s =>
    rw [hopcode] at h
    cases h
  | ok opcode s =>
    rw [hopcode] at h
    dsimp only at h ⊢
    by_cases hpc : (opcode == pcOpcode) = true
    · rw [if_pos hpc] at h
      obtain rfl := beq_iff_eq.mp hpc
      have hread : StackOp.readAfter pcOpcode =
          (do return some (.pc (← Reader.sleb128).toInt)) := rfl
      rw [hread]
      dsimp only [bind, EStateM.bind] at h ⊢
      cases hoffset : Reader.sleb128 s with
      | error e rest =>
        rw [hoffset] at h
        cases h
      | ok offset rest =>
        rw [hoffset] at h
        obtain ⟨result, hrun, hfit⟩ := exists_of_bind_eq_ok h
        cases result with
        | none => cases hfit
        | some sum =>
          obtain ⟨delta, hdelta, hfit⟩ := exists_of_bind_eq_ok hfit
          cases hfit
          exact ⟨offset, rest, sum, rfl, hrun, hdelta⟩
    · rw [if_neg hpc] at h
      cases h

def value? (pc : UInt64) (expression : Section) (stack : List UInt64) : Option UInt64 :=
  (evaluate pc expression stack).bind List.head?

/-- The stack that a recognised expression leaves. -/
theorem evaluate_of_recognise {expression : Section} {delta : Int32}
    (h : recognise expression = .ok (some delta)) :
    ∃ (above : List UInt64) (x : UInt64),
      (∀ pc stack, evaluate pc expression stack = some (above ++ (pc + x) :: stack)) ∧
      (above = [] → x = wordOfOffset delta) := by
  obtain ⟨offset, rest, sum, hread, hrun, hfit⟩ := exists_of_recognise h
  have hempty : ¬ expression.bytes.isEmpty = true := by
    have hlt := Consumes.size_lt_of_uint8 StackOp.consumes_readAfter hread
    intro hempty
    have hsize : expression.size = 0 := congrArg List.length (List.isEmpty_iff.mp hempty)
    omega
  have hstart : Tracks offset.toInt none [] (.ofInt offset.toInt) := .settled
  obtain ⟨above, x, hleads, operand, hend⟩ := hstart.run hrun
  refine ⟨above, x, fun pc stack => ?_, ?_⟩
  · rw [evaluate_of_read hempty hread]
    exact hleads pc stack
  · rintro rfl
    rw [word_of_fitOffset hfit]
    exact hend.eq_of_nil

/-- A recognised expression runs, whatever the pc and the stack are, and its value is the pc plus
the constant found exactly if it leaves nothing above the pc. A row changes for no other
expression. -/
theorem recognise_runs (expression : Section) :
    (∀ delta, recognise expression = .ok (some delta) →
      ∃ (above : List UInt64) (x : UInt64),
        (∀ pc stack, evaluate pc expression stack = some (above ++ (pc + x) :: stack)) ∧
        (above = [] ↔
          ∀ pc stack, value? pc expression stack = some (pc + wordOfOffset delta))) ∧
    ∀ (f : Frame) (row next : Row) (register : UInt64),
      f.changeRow row (.valExpression register expression) = .ok next →
      next = row ∨ register = Column.pc.number ∧
        ∃ delta, recognise expression = .ok (some delta) ∧
          next = { row with fp := .pcRelative delta } := by
  refine ⟨fun delta h => ?_, fun f row next register h => ?_⟩
  · obtain ⟨above, x, hstack, hsum⟩ := evaluate_of_recognise h
    refine ⟨above, x, hstack, fun hnil pc stack => ?_, fun hvalue => ?_⟩
    · rw [value?, hstack, hnil, hsum hnil]
      rfl
    · cases above with
      | nil => rfl
      | cons top rest =>
        -- The value does not depend on the pc.
        have hzero := hvalue 0 []
        have hone := hvalue 1 []
        rw [value?, hstack] at hzero hone
        have hsame := (Option.some.inj hzero).symm.trans (Option.some.inj hone)
        exact absurd ((UInt64.add_left_inj _).mp hsame) (by decide)
  · unfold Frame.changeRow at h
    dsimp only at h
    split at h
    · rename_i hregister
      obtain ⟨result, hresult, hnext⟩ := exists_of_bind_eq_ok h
      cases result with
      | none => exact .inl (Except.ok.inj hnext).symm
      | some delta =>
        exact .inr ⟨beq_iff_eq.mp hregister, delta, hresult, (Except.ok.inj hnext).symm⟩
    · exact .inl (Except.ok.inj h).symm

/-- The pc plus 3, then 5 and 4 added to it. -/
def addingTwice : Section := ⟨0, [0x80, 3, 0x08, 5, 0x23, 4, 0x22]⟩

theorem recognise_runs_addingTwice :
    recognise addingTwice = .ok (some 12) ∧
      ∀ pc stack, value? pc addingTwice stack = some (pc + wordOfOffset 12) := by
  have h : recognise addingTwice = .ok (some 12) := by decide +kernel
  refine ⟨h, ?_⟩
  obtain ⟨above, x, hstack, hvalue⟩ := (recognise_runs addingTwice).1 12 h
  have hlength := congrArg (Option.map List.length) (hstack 0 [])
  have hone : (evaluate 0 addingTwice []).map List.length = some 1 := by decide +kernel
  rw [hone] at hlength
  exact hvalue.mp (by simpa using hlength)

/-- The pc, and then 5 on top of it. -/
def leftover : Section := ⟨0, [0x80, 0, 0x08, 5]⟩

/-- The constant left on top is the value, but the expression is taken for the pc. -/
theorem recognise_leftover :
    recognise leftover = .ok (some 0) ∧
      Frame.changeRow ⟨0x1000, 1, -8, .atEntry⟩ .atEntry (.valExpression 16 leftover) =
        .ok { Row.atEntry with fp := .pcRelative 0 } ∧
      value? 0x1000 leftover [] = some 5 ∧ (5 : UInt64) ≠ 0x1000 + wordOfOffset 0 := by
  decide +kernel

end PcExpression

end Unwind
