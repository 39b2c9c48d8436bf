import Mathlib.Logic.Function.Basic
import Unwind.Word

/-!
# The frame machine with all its columns

Call-frame instructions are defined on a table with a column for the CFA and one for every register.
The machine here keeps the whole table: all columns, the columns that a restored register goes back
to, and the stack of columns put aside. Numbers are integers and do not wrap.
-/

namespace Unwind

namespace FrameMachine

/-- A call-frame instruction; its operands are the numbers that its bytes stand for. -/
inductive Directive where
  | setLoc (target : Nat)
  | advance (units : Nat)
  | offset (r : Nat) (units : Int)
  | offsetNegated (r : Nat) (units : Nat)
  | restore (r : Nat)
  | undefined (r : Nat)
  | sameValue (r : Nat)
  | inRegister (r holder : Nat)
  | expression (r : Nat) (code : Bytes)
  | valOffset (r : Nat) (units : Int)
  | valExpression (r : Nat) (code : Bytes)
  | rememberState
  | restoreState
  | defCfa (r : Nat) (offset : Nat)
  | defCfaSigned (r : Nat) (units : Int)
  | defCfaRegister (r : Nat)
  | defCfaOffset (offset : Nat)
  | defCfaOffsetSigned (units : Int)
  | defCfaExpression (code : Bytes)
deriving DecidableEq, Repr

/-- Where a register of the caller is. -/
inductive Place where
  | undefined
  | sameValue
  | offset (n : Int)
  | valOffset (n : Int)
  | register (holder : Nat)
  | expression (code : Bytes)
  | valExpression (code : Bytes)
deriving DecidableEq, Repr

/-- How the CFA is computed. -/
inductive Cfa where
  | register (r : Nat) (offset : Int)
  | expression (code : Bytes)
deriving DecidableEq, Repr

/-- The columns of one line. A register without a place has not been mentioned yet. -/
structure Columns where
  cfa : Cfa
  place : Nat → Option Place

/-- One line of the table. -/
structure Line where
  location : Nat
  columns : Columns

structure State extends Line where
  -- the latest first
  saved : List Columns

/-- What a program can do that has no meaning. -/
inductive Fault where
  -- nothing has been put aside
  | nothingSaved
  -- the CFA is an expression where a register is to be kept or an offset
  | noRegister
deriving DecidableEq, Repr

/-- What directives are relative to: the alignment factors, and the places of the registers after
the common entry. -/
structure Surroundings where
  codeAlign : Nat
  dataAlign : Int
  initial : Nat → Option Place

namespace Columns

/-- The columns at the entry of a function. -/
def atEntry : Columns := ⟨.register 7 8, fun _ => none⟩

def put (c : Columns) (r : Nat) (p : Option Place) : Columns :=
  { c with place := Function.update c.place r p }

end Columns

namespace State

def put (s : State) (r : Nat) (p : Option Place) : State :=
  { s with columns := s.columns.put r p }

def setCfa (s : State) (cfa : Cfa) : State :=
  { s with columns := { s.columns with cfa } }

end State

/-- Whether a directive ends the line. -/
def Directive.moves : Directive → Bool
  | .setLoc _ | .advance _ => true
  | _ => false

def step (u : Surroundings) (s : State) : Directive → Except Fault State
  | .setLoc target => .ok { s with location := target }
  | .advance units => .ok { s with location := s.location + units * u.codeAlign }
  | .offset r units => .ok (s.put r (some (.offset (units * u.dataAlign))))
  | .offsetNegated r units => .ok (s.put r (some (.offset (-(units * u.dataAlign)))))
  | .restore r => .ok (s.put r (u.initial r))
  | .undefined r => .ok (s.put r (some .undefined))
  | .sameValue r => .ok (s.put r (some .sameValue))
  | .inRegister r holder => .ok (s.put r (some (.register holder)))
  | .expression r code => .ok (s.put r (some (.expression code)))
  | .valOffset r units => .ok (s.put r (some (.valOffset (units * u.dataAlign))))
  | .valExpression r code => .ok (s.put r (some (.valExpression code)))
  | .rememberState => .ok { s with saved := s.columns :: s.saved }
  | .restoreState =>
    match s.saved with
    | [] => .error .nothingSaved
    | columns :: saved => .ok { s with columns, saved }
  | .defCfa r offset => .ok (s.setCfa (.register r offset))
  | .defCfaSigned r units => .ok (s.setCfa (.register r (units * u.dataAlign)))
  | .defCfaRegister r =>
    match s.columns.cfa with
    | .register _ offset => .ok (s.setCfa (.register r offset))
    | .expression _ => .error .noRegister
  | .defCfaOffset offset =>
    match s.columns.cfa with
    | .register r _ => .ok (s.setCfa (.register r offset))
    | .expression _ => .error .noRegister
  | .defCfaOffsetSigned units =>
    match s.columns.cfa with
    | .register r _ => .ok (s.setCfa (.register r (units * u.dataAlign)))
    | .expression _ => .error .noRegister
  | .defCfaExpression code => .ok (s.setCfa (.expression code))

/-- The lines that end on the way, and the last state or the fault at which the run stops. -/
def run (u : Surroundings) : List Directive → State → List Line × Except Fault State
  | [], s => ([], .ok s)
  | d :: ds, s =>
    match step u s d with
    | .error e => ([], .error e)
    | .ok t =>
      let (lines, last) := run u ds t
      (if d.moves then s.toLine :: lines else lines, last)

/-- The state that the directives of the common entry set up. A register that they restore loses its
place. -/
def setUp (codeAlign : Nat) (dataAlign : Int) (start : Nat) (setup : List Directive) :
    Except Fault State :=
  (run ⟨codeAlign, dataAlign, fun _ => none⟩ setup ⟨⟨start, .atEntry⟩, []⟩).2

/-- The table of a function. Its directives go on from the first line with nothing put aside. -/
def table (codeAlign : Nat) (dataAlign : Int) (start : Nat) (setup body : List Directive) :
    List Line × Option Fault :=
  match setUp codeAlign dataAlign start setup with
  | .error e => ([], some e)
  | .ok s =>
    match run ⟨codeAlign, dataAlign, s.columns.place⟩ body ⟨⟨start, s.columns⟩, []⟩ with
    | (lines, .ok t) => (lines ++ [t.toLine], none)
    | (lines, .error e) => (lines, some e)

end FrameMachine

end Unwind
