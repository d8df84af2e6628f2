/-!
# The sections of a module

A module is a header followed by sections, each with a number that says what it
holds.  Of the contents only those are kept that name functions or measure
them.

## Main definitions

* `Wasm.nameOfId` — the name of a section from its number.
* `Wasm.Section` — a section: its place in the file and what was read from it.
* `Wasm.Module` — the sections of a file.
-/

namespace SizeAtlas.Wasm

/-- The name that a report gives to the sections numbered `id`. -/
def nameOfId (id : Nat) : String :=
  match id with
  | 0 => "CUSTOM"
  | 1 => "TYPE"
  | 2 => "IMPORT"
  | 3 => "FUNCTION"
  | 4 => "TABLE"
  | 5 => "MEMORY"
  | 6 => "GLOBAL"
  | 7 => "EXPORT"
  | 8 => "START"
  | 9 => "ELEMENT"
  | 10 => "CODE"
  | 11 => "DATA"
  | 12 => "DATACOUNT"
  | 13 => "TAG"
  | n => s!"UNKNOWN({n})"

/-- Names of functions under their indices.  The newest entry comes first, so
that a look-up finds the last name given to an index. -/
abbrev FunctionNames := List (Nat × String)

/-- What is read from a section. -/
inductive Contents where
  /-- A custom section, with the names that it gives if it is the name section. -/
  | custom (name : String) (functionNames : Option FunctionNames)
  /-- The names of the imported functions in their order. -/
  | imports (functions : List String)
  /-- The indices of the exported functions in their order. -/
  | exports (functions : List Nat)
  /-- The bytes of each function body with its length field, in their order. -/
  | code (bodies : List Nat)
  /-- A section that is only measured. -/
  | uninterpreted
  deriving DecidableEq, Repr, Inhabited

/-- A section of a file. -/
structure Section where
  /-- The number that says what it holds. -/
  id : UInt8
  /-- The offset of its first byte, which is its number. -/
  start : Nat
  /-- The offset after its last byte. -/
  stop : Nat
  /-- What was read from it. -/
  contents : Contents
  deriving DecidableEq, Repr, Inhabited

namespace Section

/-- The name that a report gives to a section. -/
def name (s : Section) : String :=
  match s.contents with
  | .custom name _ => "CUSTOM/\"" ++ name ++ "\""
  | _ => nameOfId s.id.toNat

/-- The bytes of the function bodies in a section. -/
def bodies (s : Section) : List Nat :=
  match s.contents with
  | .code bodies => bodies
  | _ => []

/-- The names of the functions that a section imports. -/
def functionImports (s : Section) : List String :=
  match s.contents with
  | .imports functions => functions
  | _ => []

/-- The indices of the functions that a section exports. -/
def functionExports (s : Section) : List Nat :=
  match s.contents with
  | .exports functions => functions
  | _ => []

/-- The names that a section gives to functions, if it is a name section. -/
def functionNames? (s : Section) : Option FunctionNames :=
  match s.contents with
  | .custom _ names => names
  | _ => none

/-- The bytes of a section that belong to no function body. -/
def size (s : Section) : Nat := s.stop - s.start - s.bodies.foldr (· + ·) 0

end Section

/-- A file whose sections have been read. -/
structure Module where
  /-- The sections in their order. -/
  sections : List Section
  /-- The length of the file. -/
  fileSize : Nat
  deriving DecidableEq, Repr, Inhabited

namespace Module

/-- The names of all imported functions, which take the first indices. -/
def functionImports (m : Module) : List String := m.sections.flatMap Section.functionImports

/-- The indices of all exported functions. -/
def functionExports (m : Module) : List Nat := m.sections.flatMap Section.functionExports

/-- The names of functions.  Of several name sections the last one counts. -/
def functionNames (m : Module) : FunctionNames :=
  ((m.sections.filterMap Section.functionNames?).getLast?).getD []

end Module

end SizeAtlas.Wasm
