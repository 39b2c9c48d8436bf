import Unwind.Mangling.Itanium.Entity

/-!
# Itanium.Vocabulary — the codes of operators and types

C++ symbols write the operators and the types of the language as codes of one or two letters. The
tables give what a code stands for.
-/

namespace Unwind

namespace Mangling

namespace Itanium

/-- The operators, as they are written behind `operator`, and their codes. -/
def operators : List (String × String) :=
  [("nw", " new"), ("na", " new[]"), ("dl", " delete"), ("da", " delete[]"),
   ("ps", "+"), ("ng", "-"), ("ad", "&"), ("de", "*"), ("co", "~"), ("pl", "+"), ("mi", "-"),
   ("ml", "*"), ("dv", "/"), ("rm", "%"), ("an", "&"), ("or", "|"), ("eo", "^"), ("aS", "="),
   ("pL", "+="), ("mI", "-="), ("mL", "*="), ("dV", "/="), ("rM", "%="), ("aN", "&="), ("oR", "|="),
   ("eO", "^="), ("ls", "<<"), ("rs", ">>"), ("lS", "<<="), ("rS", ">>="), ("ss", "<=>"),
   ("eq", "=="), ("ne", "!="), ("lt", "<"), ("gt", ">"), ("le", "<="), ("ge", ">="), ("nt", "!"),
   ("aa", "&&"), ("oo", "||"), ("pp", "++"), ("mm", "--"), ("cm", ","), ("pm", "->*"), ("pt", "->"),
   ("cl", "()"), ("ix", "[]"), ("qu", "?:")]

/-- The types of the language whose code is one letter. -/
def Builtin.ofLetter? : Char → Option Builtin
  | 'v' => some void
  | 'w' => some ⟨"wchar_t"⟩
  | 'b' => some bool
  | 'c' => some ⟨"char"⟩
  | 'a' => some ⟨"signed char"⟩
  | 'h' => some ⟨"unsigned char"⟩
  | 's' => some ⟨"short"⟩
  | 't' => some ⟨"unsigned short"⟩
  | 'i' => some int
  | 'j' => some ⟨"unsigned int"⟩
  | 'l' => some ⟨"long"⟩
  | 'm' => some ⟨"unsigned long"⟩
  | 'x' => some ⟨"long long"⟩
  | 'y' => some ⟨"unsigned long long"⟩
  | 'n' => some ⟨"__int128"⟩
  | 'o' => some ⟨"unsigned __int128"⟩
  | 'f' => some float
  | 'd' => some double
  | 'e' => some ⟨"long double"⟩
  | 'g' => some ⟨"__float128"⟩
  | 'z' => some ⟨"..."⟩
  | _ => none

/-- The types of the language whose code is `D` and a letter. -/
def Builtin.ofExtension? : Char → Option Builtin
  | 'd' => some ⟨"decimal64"⟩
  | 'e' => some ⟨"decimal128"⟩
  | 'f' => some ⟨"decimal32"⟩
  | 'h' => some ⟨"half"⟩
  | 'i' => some ⟨"char32_t"⟩
  | 's' => some ⟨"char16_t"⟩
  | 'u' => some ⟨"char8_t"⟩
  | 'a' => some ⟨"auto"⟩
  | 'c' => some ⟨"decltype(auto)"⟩
  | 'n' => some nullptr
  | _ => none

/-- The name of the standard library whose code is `S` and a letter. -/
def Standard.ofLetter? : Char → Option Standard
  | 't' => some .std
  | 'a' => some .allocator
  | 'b' => some .basicString
  | 's' => some .string
  | 'i' => some .istream
  | 'o' => some .ostream
  | 'd' => some .iostream
  | _ => none

/-- The data that the compiler makes for a type, with what is written around the type. -/
def typeData : List (String × String × String) :=
  [("TV", "\x7bvtable(", ")\x7d"), ("TT", "\x7bvtt(", ")\x7d"), ("TI", "typeinfo for ", ""),
   ("TS", "typeinfo name for ", "")]

end Itanium

end Mangling

end Unwind
