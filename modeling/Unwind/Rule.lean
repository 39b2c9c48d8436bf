import Unwind.Bisect
import Unwind.Word

/-!
# Rule — how to find the caller of a stretch of code

A row says how the frame of the running function is laid out: where its canonical frame address
(CFA) is and how the caller's frame pointer is recovered. The return address is always the word
below the CFA. A rule is a row together with the offset, from the base of the image, of the first
instruction that it holds for; it holds up to the location of the next rule.
-/

namespace Unwind

/-- The numbers that unwind tables use for the registers that matter here. -/
inductive Column where
  | fp
  | sp
  /-- the column of the return address -/
  | pc
deriving DecidableEq, Repr

def Column.number : Column → UInt64
  | fp => 6
  | sp => 7
  | pc => 16

inductive CfaBase where
  | sp
  | fp
  /-- the stack pointer, with the offset doubled late in a stub of the procedure linkage table: by
  then the stub has pushed a second word -/
  | plt
  /-- anything else; the walk ends here -/
  | unsupported
deriving DecidableEq, Repr, Inhabited

def CfaBase.ofColumn (n : UInt64) : CfaBase :=
  if n == Column.sp.number then sp
  else if n == Column.fp.number then fp
  else unsupported

/-- How the caller's frame pointer is recovered. -/
inductive FpRule where
  /-- it is stored at this offset from the CFA -/
  | saved (offset : Int32)
  /-- nothing is stored: the caller's pc is this far from the current one -/
  | pcRelative (delta : Int32)
  | unchanged
deriving DecidableEq, Repr, Inhabited

structure Row where
  base : CfaBase
  offset : Int32
  fp : FpRule
deriving DecidableEq, Repr, Inhabited

namespace Row

/-- The frame of a function with the standard prologue, which saves the frame pointer below the
return address and points it there. Assumed wherever nothing else is known. -/
def linked : Row := ⟨.fp, 16, .saved (-16)⟩

/-- The frame at the entry of a function: only the return address has been pushed. -/
def atEntry : Row := ⟨.sp, 8, .unchanged⟩

end Row

/-- A row and the first location it holds for. -/
structure Rule where
  loc : UInt32
  row : Row
deriving DecidableEq, Repr, Inhabited

namespace Rule

/-- The rule for locations that no table covers. -/
def default : Rule := ⟨0, .linked⟩

def empty : Rule := ⟨0, .atEntry⟩

def movedTo (r : Rule) (loc : UInt32) : Rule := { r with loc }

/-- Whether two rules unwind alike, wherever they start. -/
def sameUnwind (r s : Rule) : Bool :=
  r.row == s.row

/-- The rule of a table in force at a location, for a table that is sorted by location. In front of
the first rule it is the default. -/
def find (table : Array Rule) (target : UInt32) : Rule :=
  (lastSatisfying? (fun r => decide (r.loc ≤ target)) table).getD (default.movedTo target)

end Rule

end Unwind
