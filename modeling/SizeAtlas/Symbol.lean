/-!
# Symbols

A symbol is a named share of the bytes of an input: a function, a variable, a
section of a module, or a stretch of code without a name of its own.

## Main definitions

* `Symbol.Kind` — what a symbol is, and the word a report uses for it.
* `Symbol` — a symbol with the scope that encloses it and its size.
* `Symbol.name` — the qualified name.
-/

namespace SizeAtlas

/-- What a symbol is. -/
inductive Symbol.Kind where
  | function
  | var
  | code
  | other
  | moduleSection
  | imported
  | exported
  | wasmHeader
  deriving DecidableEq, Repr, Inhabited

/-- The word that a report uses for a kind. -/
def Symbol.Kind.label : Symbol.Kind → String
  | function => "function"
  | var => "var"
  | code => "code"
  | other => "other"
  | moduleSection => "section"
  | imported => "import"
  | exported => "export"
  | wasmHeader => "wasmHeader"

/-- A named share of the bytes of an input. -/
structure Symbol where
  /-- The qualified name of the enclosing scope with its closing delimiter. -/
  scope : String
  /-- The name within the scope. -/
  selfName : String
  /-- What the symbol is. -/
  kind : Symbol.Kind
  /-- How many bytes are its own. -/
  size : Nat
  /-- The name within the scope as the input has it. -/
  minifiedName : String := selfName
  /-- The start of the text, for code without a name. -/
  description : Option String := none
  /-- The base name of the file it was found in. -/
  sourceFile : String := ""
  /-- The position that a report sorts by. -/
  ordinal : Option Nat := none
  deriving DecidableEq, Repr, Inhabited

namespace Symbol

/-- The qualified name: the scope, then the name within it. -/
def name (s : Symbol) : String := s.scope ++ s.selfName

/-- Adds `n` bytes to a symbol.  A word of 64 bits holds the sum if it is less than
`UInt64.size`, as that of parts of one file always is. -/
def grow (n : Nat) (s : Symbol) : Symbol := { s with size := s.size + n }

@[simp] theorem name_grow (n : Nat) (s : Symbol) : (s.grow n).name = s.name := rfl

/-- Notes the file that a symbol was found in. -/
def inFile (file : String) (s : Symbol) : Symbol := { s with sourceFile := file }

@[simp] theorem name_inFile (file : String) (s : Symbol) : (s.inFile file).name = s.name := rfl

end Symbol

end SizeAtlas
