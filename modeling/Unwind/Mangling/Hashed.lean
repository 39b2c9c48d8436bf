import Unwind.Word

/-!
# Hashed — mangled paths that end in a hash

The older of the two path manglings writes a path as `_ZN`, its elements each behind its length, and
`E`. Characters that linkers do not accept are written as names between dollar signs, and `::` as
two dots. The last element is usually a hash of the types involved, which is not shown.
-/

namespace Unwind

namespace Mangling

def decimal (digits : List Char) : Nat :=
  digits.foldl (fun n c => 10 * n + (c.toNat - '0'.toNat)) 0

def isHexDigit (c : Char) : Bool :=
  c.isDigit || ('a' ≤ c && c ≤ 'f') || ('A' ≤ c && c ≤ 'F')

def isLowerHexDigit (c : Char) : Bool :=
  c.isDigit || ('a' ≤ c && c ≤ 'f')

def lowerHex (digits : List Char) : Nat :=
  digits.foldl (fun n c =>
    16 * n + (if c.isDigit then c.toNat - '0'.toNat else c.toNat - 'a'.toNat + 10)) 0

def charOf? (n : Nat) : Option Char :=
  if h : n.isValidChar then some (Char.ofNatAux n h) else none

def isControl (c : Char) : Bool :=
  c.toNat < 0x20 || (0x7f ≤ c.toNat && c.toNat < 0xa0)

namespace Hashed

/-- The elements at the front of a text up to the closing `E`, and the text behind it. Every element
has to be followed by at least one more character. -/
def elements? (text : List Char) : Option (List (List Char) × List Char) :=
  match text with
  | [] => none
  | 'E' :: rest => some ([], rest)
  | c :: rest =>
    if c.isDigit then
      let length := decimal (c :: rest.takeWhile Char.isDigit)
      let element := rest.dropWhile Char.isDigit
      if length < element.length ∧ length < wordCount then
        (elements? (element.drop length)).map fun (more, behind) =>
          (element.take length :: more, behind)
      else none
    else none
termination_by text.length
decreasing_by
  have := (List.dropWhile_sublist Char.isDigit (l := rest)).length_le
  simp only [List.length_drop, List.length_cons]
  omega

/-- Whether an element is a hash: the letter h and hexadecimal digits. -/
def isHash : List Char → Bool
  | 'h' :: digits => digits.all isHexDigit
  | _ => false

/-- The character that a name between dollar signs stands for. Control characters are not written
this way. -/
def escape? (name : List Char) : Option Char :=
  match String.ofList name with
  | "SP" => some '@'
  | "BP" => some '*'
  | "RF" => some '&'
  | "LT" => some '<'
  | "GT" => some '>'
  | "LP" => some '('
  | "RP" => some ')'
  | "C" => some ','
  | _ =>
    match name with
    | 'u' :: digits =>
      if !digits.isEmpty && digits.all isLowerHexDigit then
        (charOf? (lowerHex digits)).filter (!isControl ·)
      else none
    | _ => none

/-- An element with its escapes resolved. The first dollar sign that starts no escape ends the
resolving; what follows it is kept as it is. -/
def unescape : List Char → List Char
  | [] => []
  -- Of three dots the first two are the separator.
  | '.' :: '.' :: rest => ':' :: ':' :: unescape rest
  | '$' :: rest =>
    let name := rest.takeWhile (· != '$')
    match _h : rest.dropWhile (· != '$') with
    | [] => '$' :: rest
    | _ :: behind =>
      match escape? name with
      | some c => c :: unescape behind
      | none => '$' :: rest
  | c :: rest => c :: unescape rest
termination_by text => text.length
decreasing_by
  · simp only [List.length_cons]; omega
  · have := (List.dropWhile_sublist (· != '$') (l := rest)).length_le
    simp only [_h, List.length_cons] at this
    simp only [List.length_cons]
    omega
  · simp only [List.length_cons]; omega

/-- The text of an element. An underscore in front of an escape only keeps the element from starting
with a dollar sign. -/
def elementText : List Char → String
  | '_' :: '$' :: rest => String.ofList (unescape ('$' :: rest))
  | element => String.ofList (unescape element)

/-- The elements that are shown: all but a hash at the end. -/
def shown (elements : List (List Char)) : List (List Char) :=
  match elements.getLast? with
  | some last => if isHash last then elements.dropLast else elements
  | none => elements

/-- The path that a symbol stands for, and what follows it in the symbol. Only symbols in ASCII are
understood. -/
def demangle? (symbol : List Char) : Option (String × List Char) := do
  let inner ← match symbol with
    | '_' :: 'Z' :: 'N' :: inner => some inner
    | _ => none
  guard (inner.all fun c => c.toNat < 0x80)
  let (elements, behind) ← elements? inner
  return ("::".intercalate ((shown elements).map elementText), behind)

end Hashed

end Mangling

end Unwind
