import Unwind.Mangling.Itanium.Spelling
import Unwind.Mangling.Itanium.Decode
import Unwind.Mangling.Path
import Unwind.Symbol

/-!
# Mangling — readable names for symbols

Compilers mangle the path and types of a function into a symbol that linkers accept. Two manglings
of paths are understood, and that of C++. A symbol that is not understood is its own name.
-/

namespace Unwind

namespace Mangling

/-- Whether a character can be in what tools put behind a symbol: the visible ones of ASCII. -/
def isSuffixChar (c : Char) : Bool :=
  '!' ≤ c && c ≤ '~'

def isSuffix : List Char → Bool
  | [] => true
  | '.' :: rest => rest.all isSuffixChar
  | _ => false

def isModuleMarkChar (c : Char) : Bool :=
  c.isDigit || ('A' ≤ c && c ≤ 'F') || c = '@'

/-- What makes symbols unique between modules is written behind this. -/
def moduleMark : List Char :=
  ".llvm.".toList

/-- What stands behind the first mark of a module, and what stands in front of it. -/
def splitModuleMark? : List Char → Option (List Char × List Char)
  | [] => none
  | c :: rest =>
    if moduleMark.isPrefixOf (c :: rest) then some ([], (c :: rest).drop moduleMark.length)
    else (splitModuleMark? rest).map fun (front, behind) => (c :: front, behind)

def withoutModuleMark (symbol : List Char) : List Char :=
  match splitModuleMark? symbol with
  | some (front, behind) => if behind.all isModuleMarkChar then front else symbol
  | none => symbol

def demanglePath? (symbol : List Char) : Option String := do
  let symbol := withoutModuleMark symbol
  let (path, behind) ← (Hashed.demangle? symbol) <|> (Path.demangle? symbol)
  guard (isSuffix behind)
  return path ++ String.ofList behind

def demangleCxx? (symbol : List Char) : Option String := do
  (← Itanium.Symbol.ofText? symbol).text?

/-- What a text stands for as a symbol. Names with a zero byte are not used, since names end there
for those who ask. -/
def demangleText? (symbol : List Char) : Option String :=
  ((demanglePath? symbol) <|> (demangleCxx? symbol)).filter fun name =>
    !name.toList.contains '\x00'

end Mangling

/-- The name of the function that a symbol stands for: a new one if the symbol is understood, and
the symbol itself otherwise. All manglings are in text. -/
def FunctionName.ofSymbol (symbol : Bytes) : FunctionName :=
  match (String.fromUTF8? ⟨symbol.toArray⟩).bind fun text => Mangling.demangleText? text.toList with
  | some name => .owned name.toUTF8.toList
  | none => .borrowed symbol

end Unwind
