import Unwind.Symbol

/-!
# Description — telling a host what a pc is

A host passes the same record again and again to have program counters described. A demangled name
that was made for one description is freed by the next request with the same record, at the latest
by one for pc zero, which only frees. `Names` keeps account of the names that are alive.
-/

namespace Unwind

structure Names where
  made : Nat
  /-- the names that are alive, each with the number it was given -/
  alive : List (Nat × Bytes)
  /-- the tally: up by one for a name made, down by one for a name freed -/
  outstanding : UInt64
  /-- the numbers that have been freed, the latest first -/
  freed : List Nat
deriving DecidableEq, Repr

namespace Names

def empty : Names := ⟨0, [], 0, []⟩

def add (n : Names) (text : Bytes) : Nat × Names :=
  (n.made, { n with
    made := n.made + 1
    alive := (n.made, text) :: n.alive
    outstanding := n.outstanding + 1 })

/-- Frees the name with a number. The tally does not notice whether there is such a name. -/
def free (n : Names) (number : Nat) : Names :=
  { n with
    alive := n.alive.filter (·.1 != number)
    outstanding := n.outstanding - 1
    freed := number :: n.freed }

def get? (n : Names) (number : Nat) : Option Bytes :=
  (n.alive.find? (·.1 == number)).map (·.2)

end Names

inductive DescribedText where
  | absent
  /-- the question mark that stands for what is not known -/
  | unknown
  /-- a text that lives as long as the process -/
  | lasting (text : Bytes)
  | named (number : Nat)
deriving DecidableEq, Repr

/-- The record that a host passes to have a pc described. -/
structure Description where
  pc : UInt64
  file : DescribedText
  line : UInt64
  function : DescribedText
  entry : UInt64
  /-- whether there is more to say about the pc; there never is -/
  more : UInt64
  /-- the number of the name that the next request has to free -/
  held : Option Nat
deriving DecidableEq, Repr

namespace Description

def new : Description := ⟨0, .absent, 0, .absent, 0, 0, none⟩

def letGo (d : Description) (names : Names) : Description × Names :=
  match d.held with
  | none => (d, names)
  | some number => ({ d with held := none }, names.free number)

/-- Enters what is known about the pc. Where there is no source file the module stands in for it;
where there is no function nothing but the line is kept. -/
def enter (d : Description) (names : Names) (r : Resolution) : Description × Names :=
  let file := match r.file.or r.module with
    | some text => .lasting text
    | none => .unknown
  let d := { d with more := 0, line := r.line, file, entry := r.entry }
  match r.function with
  | some (.owned text) =>
    let (number, names) := names.add text
    ({ d with function := .named number, held := some number }, names)
  | some (.borrowed text) => ({ d with function := .lasting text }, names)
  | none => ({ d with function := .unknown, file := .unknown, entry := 0 }, names)

/-- Serves a request: frees the name that the record holds, then describes its pc unless that is
zero. -/
def serve (resolve : UInt64 → Resolution) (d : Description) (names : Names) :
    Description × Names :=
  let (d, names) := d.letGo names
  if d.pc == 0 then (d, names) else d.enter names (resolve d.pc)

end Description

end Unwind
