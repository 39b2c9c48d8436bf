import Unwind.Step

/-!
# Architecture — the registers of a machine

A signal handler sees the interrupted registers as a register file. For each machine an
`Architecture` says which of them are the program counter, the stack pointer, the frame pointer and
the result, where arguments are passed, which numbers unwind tables use, and how large the simplest
frames are.
-/

namespace Unwind

abbrev RegisterFile := String → UInt64

namespace RegisterFile

def set (file : RegisterFile) (name : String) (value : UInt64) : RegisterFile :=
  fun n => if n == name then value else file n

@[simp] theorem set_same (file : RegisterFile) (name : String) (value : UInt64) :
    file.set name value name = value := by
  simp [set]

theorem set_other (file : RegisterFile) {name other : String} (value : UInt64)
    (h : other ≠ name) : file.set name value other = file other := by
  simp [set, h]

end RegisterFile

inductive ArgumentPlace where
  | register (name : String)
  /-- on the stack, at this distance from the stack pointer -/
  | stack (distance : UInt64)
deriving DecidableEq, Repr

/-- What the tracer has to know of a machine. -/
structure Architecture where
  registers : List String
  pc : String
  sp : String
  fp : String
  result : String
  arguments : List ArgumentPlace
  fpColumn : Nat
  spColumn : Nat
  pcColumn : Nat
  /-- the size of a frame before anything has been pushed -/
  emptyFrame : Int32
  /-- the size of a frame that saves the frame pointer and the return address -/
  linkedFrame : Int32
  /-- the bits of a saved return address that belong to the address -/
  addressMask : UInt64

namespace Architecture

/-- The 64-bit machine that the unwind rules of this library are for. -/
def amd64 : Architecture where
  registers := ["r8", "r9", "r10", "r11", "r12", "r13", "r14", "r15", "rdi", "rsi", "rbp", "rbx",
    "rdx", "rax", "rcx", "rsp", "rip"]
  pc := "rip"
  sp := "rsp"
  fp := "rbp"
  result := "rax"
  arguments := [.register "rdi", .register "rsi", .register "rdx", .register "rcx"]
  fpColumn := 6
  spColumn := 7
  pcColumn := 16
  emptyFrame := 8
  linkedFrame := 16
  addressMask := maxWord

/-- The 64-bit machine whose link register doubles as the column of the return address. Return
addresses may carry authentication bits above bit 46. -/
def arm64 : Architecture where
  registers := (List.range 31).map (fun n => "x" ++ toString n) ++ ["sp", "pc"]
  pc := "pc"
  sp := "sp"
  fp := "x29"
  result := "x0"
  arguments := [.register "x0", .register "x1", .register "x2", .register "x3"]
  fpColumn := 29
  spColumn := 31
  pcColumn := 30
  emptyFrame := 0
  linkedFrame := 16
  addressMask := 0x00007fffffffffff

def arm32 : Architecture where
  registers := ["r0", "r1", "r2", "r3", "fp", "sp", "pc"]
  pc := "pc"
  sp := "sp"
  fp := "fp"
  result := "r0"
  arguments := [.register "r0", .register "r1", .register "r2", .register "r3"]
  fpColumn := 11
  spColumn := 13
  pcColumn := 14
  emptyFrame := 0
  linkedFrame := 8
  addressMask := maxWord

/-- The 32-bit machine that passes arguments on the stack, above the return address. Its registers
are known by their place in the register file. -/
def i386 : Architecture where
  registers := (List.range 19).map fun n => "g" ++ toString n
  pc := "g14"
  sp := "g7"
  fp := "g6"
  result := "g11"
  arguments := [.stack 4, .stack 8, .stack 12, .stack 16]
  fpColumn := 5
  spColumn := 4
  pcColumn := 8
  emptyFrame := 4
  linkedFrame := 8
  addressMask := maxWord

/-- A saved return address without the bits that do not belong to it. -/
def strip (a : Architecture) (address : UInt64) : UInt64 :=
  address &&& a.addressMask

def argumentValues (a : Architecture) (file : RegisterFile) (memory : Memory) : List UInt64 :=
  a.arguments.map fun
    | .register name => file name
    | .stack distance => memory (file a.sp + distance)

def context (a : Architecture) (file : RegisterFile) : Context :=
  ⟨file a.pc, file a.sp, file a.fp⟩

def setPc (a : Architecture) (file : RegisterFile) (value : UInt64) : RegisterFile :=
  file.set a.pc value

def setResult (a : Architecture) (file : RegisterFile) (value : UInt64) : RegisterFile :=
  file.set a.result value

end Architecture

end Unwind
