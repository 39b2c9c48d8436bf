/-!
# Itanium.Entity — what C++ symbols speak of

The parts of a C++ symbol: names, types, scopes and templates. They contain each other, so they are
defined together. A part that occurred can be referred to from any place later in the symbol, also
from one where a part of its kind makes no sense; so one type, `Entity`, holds all that can be
referred to.
-/

namespace Unwind

namespace Mangling

namespace Itanium

/-- What a type or a member function is qualified by. -/
structure Qualifiers where
  isRestrict : Bool := false
  isVolatile : Bool := false
  isConst : Bool := false
  deriving DecidableEq, Repr

def Qualifiers.isEmpty (q : Qualifiers) : Bool :=
  !(q.isRestrict || q.isVolatile || q.isConst)

inductive RefKind where
  /-- A reference to something that has a name. -/
  | lvalue
  /-- A reference to a temporary. -/
  | rvalue
  deriving DecidableEq, Repr

/-- What makes a type of another one and is written behind it. -/
inductive Mark where
  | pointer
  | reference (kind : RefKind)
  | qualified (qualifiers : Qualifiers)
  deriving DecidableEq, Repr

structure Builtin where
  name : String
  deriving DecidableEq, Repr

namespace Builtin

/-- The type of nothing; a list of parameters with it alone is empty. -/
def void : Builtin := ⟨"void"⟩

def bool : Builtin := ⟨"bool"⟩

def int : Builtin := ⟨"int"⟩

def float : Builtin := ⟨"float"⟩

def double : Builtin := ⟨"double"⟩

def nullptr : Builtin := ⟨"std::nullptr_t"⟩

end Builtin

/-- The names of the standard library that have an abbreviation. -/
inductive Standard where
  | std
  | allocator
  | basicString
  | string
  | istream
  | ostream
  | iostream
  deriving DecidableEq, Repr

def Standard.text : Standard → String
  | .std => "std"
  | .allocator => "std::allocator"
  | .basicString => "std::basic_string"
  | .string => "std::string"
  | .istream => "std::basic_istream<char, std::char_traits<char> >"
  | .ostream => "std::ostream"
  | .iostream => "std::basic_iostream<char, std::char_traits<char> >"

/-- What a class of the library calls itself. The namespace is none. -/
def Standard.ownName? : Standard → Option String
  | .std => none
  | .allocator => some "allocator"
  | .basicString => some "basic_string"
  | .string => some "string"
  | .istream => some "basic_istream"
  | .ostream => some "ostream"
  | .iostream => some "basic_iostream"

mutual

inductive Name where
  /-- A name outside all scopes or directly in `std`. -/
  | plain (inStd : Bool) (leaf : Leaf)
  /-- A name in a scope. Qualifiers and the kind of reference are those of the object of a member
  function, but any name can have them. -/
  | nested (qualifiers : Qualifiers) (object : Option RefKind) (path : Entity)
  /-- A template outside all scopes with its arguments. -/
  | applied (template : Entity) (arguments : List Argument)

inductive Leaf where
  | identifier (text : String)
  /-- An operator function, with what is written behind `operator`. -/
  | operator (symbol : String)
  | conversion (target : Entity)
  | constructor
  | destructor

inductive Entity where
  | builtin (type : Builtin)
  /-- A type that a compiler adds to the language. -/
  | vendor (name : String)
  | standard (name : Standard)
  | named (name : Name)
  | marked (mark : Mark) (target : Entity)
  /-- A type with a word behind it, for complex numbers. -/
  | worded (word : String) (target : Entity)
  /-- A function type: how the object is qualified if it is a member, the result and the
  parameters, and the kind of reference the object has to be. -/
  | function (qualifiers : Qualifiers) (result : Entity) (parameters : List Entity)
      (object : Option RefKind)
  /-- An array; the number of its elements may be missing. -/
  | array (size : Option Nat) (element : Entity)
  | memberPointer (owner target : Entity)
  /-- A parameter of a template around. It stands for a type, a scope or a template. -/
  | parameter (index : Nat)
  /-- A type that a parameter stands for the template of. -/
  | specialized (template : Entity) (arguments : List Argument)
  /-- A type that is repeated for each argument of a pack. -/
  | expansion (pattern : Entity)
  | scope (leaf : Leaf)
  | member (scope : Entity) (leaf : Leaf)
  /-- A scope that is a template with its arguments. -/
  | applied (template : Entity) (arguments : List Argument)
  /-- A template outside all scopes or directly in `std`. -/
  | template (inStd : Bool) (leaf : Leaf)

inductive Argument where
  | type (type : Entity)
  | literal (type : Entity) (value : List Char)
  /-- Any number of arguments. -/
  | pack (arguments : List Argument)

end

/-- The name that a leaf is, if it is from the source text. -/
def Leaf.identifier? : Leaf → Option String
  | .identifier text => some text
  | _ => none

/-- Whether a function with this last part has no result of its own to be shown: constructors and
destructors have none, and a conversion is called by it. -/
def Leaf.hidesResult : Leaf → Bool
  | .constructor | .destructor | .conversion _ => true
  | _ => false

mutual

/-- What a class with this name calls itself: the last part of it that is from the source text. -/
def Name.ownName? : Name → Option String
  | .plain _ leaf => leaf.identifier?
  | .nested _ _ path => path.ownName?
  | .applied (.template _ leaf) _ => leaf.identifier?
  | .applied (.standard name) _ => name.ownName?
  | .applied _ _ => none

def Entity.ownName? : Entity → Option String
  | .standard name => name.ownName?
  | .named name => name.ownName?
  | .scope leaf | .template _ leaf => leaf.identifier?
  | .member path leaf => leaf.identifier? <|> path.ownName?
  | .applied generic _ => generic.ownName?
  | _ => none

end

def Entity.hidesResult : Entity → Bool
  | .scope leaf | .member _ leaf => leaf.hidesResult
  | .applied generic _ => generic.hidesResult
  | _ => false

/-- Whether a function with this name shows no result, though it is made from a template. -/
def Name.hidesResult : Name → Bool
  | .plain _ leaf => leaf.hidesResult
  | .nested _ _ path => path.hidesResult
  | .applied _ _ => false

def Name.arguments? : Name → Option (List Argument)
  | .applied _ arguments | .nested _ _ (.applied _ arguments) => some arguments
  | _ => none

/-- Whether a nested name can end with a part: it has to be a scope, but not an abbreviation or a
parameter alone. -/
def Entity.endsName : Entity → Bool
  | .scope _ | .member _ _ | .applied _ _ => true
  | _ => false

def Entity.isArray : Entity → Bool
  | .array _ _ => true
  | _ => false

inductive Encoding where
  | variable (name : Name)
  /-- A function: its name and the types of its signature, of which there is at least one. -/
  | function (name : Name) (first : Entity) (others : List Entity)
  /-- Data that the compiler makes for a type, with what is written around the type. -/
  | typeData (before after : String) (type : Entity)
  | guardVariable (name : Name)

/-- A symbol: what it stands for, and what marks copies that the compiler made of it. -/
structure Symbol where
  encoding : Encoding
  clones : List String

end Itanium

end Mangling

end Unwind
