import Unwind.Mangling.Path.Token
import Unwind.Mangling.Path.Visible

/-!
# Path.Printing — printing while reading

A mangled path is printed in the order in which it is read. A fault in it does not undo what is
printed: its message stands in its place, and what would have been read after it is shown as a
question mark. The text has a limited size, because back references let a short symbol stand for a
very long path.
-/

namespace Unwind

namespace Mangling

namespace Path

structure Progress where
  /-- The whole symbol, for back references. -/
  symbol : List Char
  /-- What is still to be read; nothing once there was a fault. -/
  input : Option (List Char)
  silent : Bool := false
  /-- The number of lifetimes bound here. -/
  lifetimes : Nat := 0
  text : String := ""
  /-- How many bytes may still be printed. -/
  room : Nat := 1000000

/-- Printing stops altogether when there is no room left. -/
abbrev Printing := EStateM Unit Progress

def print (text : String) : Printing Unit := do
  let progress ← get
  if progress.silent then return ()
  if text.utf8ByteSize ≤ progress.room then
    set { progress with
      text := progress.text ++ text
      room := progress.room - text.utf8ByteSize }
  else throw ()

def failed : Printing Bool :=
  return (← get).input.isNone

/-- Shows the message of a fault; nothing can be read behind it. -/
def fail (fault : Fault) : Printing Unit := do
  print fault.message
  modify fun progress => { progress with input := none }

/-- Reads a token. There is none behind a fault, and none where reading fails. -/
def read {α : Type} (token : Token α) : Printing (Option α) := do
  match (← get).input with
  | none => print "?"; return none
  | some text =>
    match token text with
    | .ok (value, rest) =>
      modify fun progress => { progress with input := some rest }
      return some value
    | .error fault => fail fault; return none

/-- Takes a character if it is the next one, and tells whether it was. -/
def eat (expected : Char) : Printing Bool := do
  match (← get).input with
  | some (c :: rest) =>
    if c = expected then
      modify fun progress => { progress with input := some rest }
      return true
    else return false
  | _ => return false

def silently (part : Printing Unit) : Printing Unit := do
  let silent := (← get).silent
  modify fun progress => { progress with silent := true }
  part
  modify fun progress => { progress with silent := silent }

/-- Shows the elements of a list up to the closing `E`, at most as many as `fuel` says, and counts
them. -/
def elementsWithin (element : Printing Unit) (separator : String) (shown : Nat) :
    Nat → Printing Nat
  | 0 => return shown
  | fuel + 1 => do
    if ← failed then return shown
    if ← eat 'E' then return shown
    if 0 < shown then print separator
    element
    elementsWithin element separator (shown + 1) fuel

/-- Shows the elements of a list up to the closing `E`, and counts them. An element is read from at
least one character or has a fault, so there are not more of them than characters and one. -/
def elements (element : Printing Unit) (separator : String) : Printing Nat := do
  let left := ((← get).input.getD []).length
  elementsWithin element separator 0 (left + 2)

/-- Shows a lifetime. Zero is an erased one; others count from the innermost binder outwards. -/
def lifetime (index : Nat) : Printing Unit := do
  let progress ← get
  if progress.silent then return ()
  print "'"
  if index = 0 then print "_"
  else if index ≤ progress.lifetimes then
    let depth := progress.lifetimes - index
    if depth < 26 then print (String.singleton (Char.ofNat ('a'.toNat + depth)))
    else print s!"_{depth}"
  else fail .invalid

def bindLifetimes (first : Bool) : Nat → Printing Unit
  | 0 => return ()
  | count + 1 => do
    unless first do print ", "
    modify fun progress => { progress with lifetimes := progress.lifetimes + 1 }
    lifetime 1
    bindLifetimes false count

/-- Shows a part under the binder in front of it, if there is one. -/
def underBinder (part : Printing Unit) : Printing Unit := do
  let some count ← read (tagged 'G') | return ()
  if (← get).silent then part
  else
    if 0 < count then
      print "for<"
      bindLifetimes true count
      print "> "
    part
    modify fun progress => { progress with lifetimes := progress.lifetimes - count }

/-- A character inside quotes of one kind. Quotes of the other kind need no escape. -/
def escaped (quote c : Char) : String :=
  if c = quote then String.ofList ['\\', c]
  else match c with
    | '\x00' => "\\0"
    | '\t' => "\\t"
    | '\n' => "\\n"
    | '\r' => "\\r"
    | '\\' => "\\\\"
    | c =>
      if isVisible c then String.singleton c
      else "\\u\x7b" ++ String.ofList (Nat.toDigits 16 c.toNat) ++ "\x7d"

def quoted (quote : Char) (text : List Char) : String :=
  String.singleton quote ++ String.join (text.map (escaped quote)) ++ String.singleton quote

end Path

end Mangling

end Unwind
