import SizeAtlas.SymbolTable
import SizeAtlas.Wasm.Reading

/-!
# What the bytes of a module belong to

Every byte of a module belongs to one symbol: a function body to its function,
the rest of a section to the section, and what lies outside all sections to the
file header.  Imported functions are listed too, with no bytes of their own.

## Main definitions

* `Labels` — what names and marks the functions of a module.
* `Module.symbols` — the symbols of a module.
* `symbolsOf` — the symbols of a file.
-/

namespace SizeAtlas.Wasm

/-- The name of the symbol for what lies outside all sections. -/
def headerName : String := "file header"

/-- What names and marks the functions of a module.  Words of 32 bits hold the indices if
there are fewer than `2 ^ 32` functions. -/
structure Labels where
  /-- The index of the first function that has a body. -/
  firstIndex : Nat
  /-- The indices of the exported functions. -/
  exported : List Nat
  /-- The names of functions. -/
  names : FunctionNames
  /-- The names that no function or import may take. -/
  reserved : List String

/-- What names and marks the functions of `m`.  The names of its sections and of
the header are reserved. -/
def Module.labels (m : Module) : Labels where
  firstIndex := m.functionImports.length
  exported := m.functionExports
  names := m.functionNames
  reserved := m.sections.map Section.name ++ [headerName]

namespace Labels

/-- The symbol of the `position`-th body of a code section. -/
def functionSymbol (l : Labels) (taken : List String) (position bytes : Nat) : Symbol :=
  let index := l.firstIndex + position
  let numeral := toString index
  { scope := ""
    selfName := freeName ((l.names.lookup index).getD numeral) numeral (taken ++ l.reserved)
    kind := if index ∈ l.exported then .exported else .function
    size := bytes
    minifiedName := numeral
    ordinal := some index }

/-- The symbol of the imported function with the given index. -/
def importSymbol (l : Labels) (taken : List String) (index : Nat) (name : String) : Symbol :=
  { scope := ""
    selfName := freeName name (toString index) (taken ++ l.reserved)
    kind := .imported
    size := 0
    ordinal := some index }

end Labels

/-- Adds the function bodies of a code section to a table. -/
def addBodies (l : Labels) (t : SymbolTable) (bodies : List Nat) : SymbolTable :=
  bodies.zipIdx.foldl (fun t (bytes, i) => t.insert (l.functionSymbol t.keys i bytes)) t

/-- Adds the bytes of a section to the symbol of its name. -/
def addSection (t : SymbolTable) (name : String) (bytes : Nat) : SymbolTable :=
  if t.contains name then t.addSize name bytes
  else t.insert { scope := "", selfName := name, kind := .moduleSection, size := bytes }

/-- Adds the imported functions to a table. -/
def addImports (l : Labels) (t : SymbolTable) (imports : List String) : SymbolTable :=
  imports.zipIdx.foldl (fun t (name, i) => t.insert (l.importSymbol t.keys i name)) t

/-- Adds what no symbol of the table has of `fileSize` bytes. -/
def addHeader (t : SymbolTable) (fileSize : Nat) : SymbolTable :=
  let rest := fileSize - t.total
  if 0 < rest then
    t.insert { scope := "", selfName := headerName, kind := .wasmHeader, size := rest }
  else t

/-- The symbols of a module: section by section the function bodies and then the
section, after them the imports and the header. -/
def Module.symbols (m : Module) : SymbolTable :=
  let l := m.labels
  let t := m.sections.foldl
    (fun t s => addSection (addBodies l t s.bodies) s.name s.size) (∅ : SymbolTable)
  addHeader (addImports l t m.functionImports) m.fileSize

/-- The symbols of the file with the given bytes. -/
def symbolsOf (decoding : Bytes.NameDecoding) (bytes : ByteArray) : Except Fault SymbolTable := do
  let m ← Module.read decoding bytes
  .ok m.symbols

end SizeAtlas.Wasm
