import SizeAtlas.Json.Value
import SizeAtlas.Renames.Basic
import SizeAtlas.SymbolTable
import SizeAtlas.Text.Segments

/-!
# The report of a run

The symbols of all inputs in one list, and the two texts it is printed as.  A
renaming table changes what a symbol is shown as, never what it is.

## Main definitions

* `Report` — the symbols of a run in the order in which they are shown.
* `Report.ofTables` — the report on the tables of several inputs.
* `Symbol.shownName` — what a symbol is shown as.
* `Report.toText`, `Report.toJson` — the two printed forms.
-/

namespace SizeAtlas

/-- What a symbol is shown as.  A renaming of the qualified name replaces its
last segment only, since the scope is shown as it was found; one of the name
within the scope is taken whole. -/
def Symbol.shownName (s : Symbol) (renames : Renames) : String :=
  match renames.sourceName? s.name with
  | some source =>
    if s.scope.isEmpty then source
    else s.scope ++ Text.lastSegment Text.isDelimiter source
  | none =>
    match renames.sourceName? s.selfName with
    | some source => s.scope ++ source
    | none => s.name

/-- The symbols of a run in the order in which they are shown. -/
structure Report where
  /-- The symbols. -/
  symbols : List Symbol
  deriving DecidableEq, Repr, Inhabited

namespace Report

/-- Whether `a` may stand before `b`: by ordinal, where none counts as zero. -/
def inOrder (a b : Symbol) : Bool := a.ordinal.getD 0 ≤ b.ordinal.getD 0

/-- The report on several inputs.  A name that several tables hold keeps its
first place and takes the symbol of the last of them; equal ordinals keep the
order of the tables. -/
def ofTables (tables : List SymbolTable) : Report where
  symbols := (tables.foldl Roster.extend (∅ : SymbolTable)).entries.mergeSort inOrder

/-- The bytes of all symbols together.  A word of 64 bits holds them if they are less than
`UInt64.size`. -/
def total (r : Report) : Nat := (r.symbols.map Symbol.size).foldr (· + ·) 0

/-- What the symbols are shown as, in their order. -/
def shownNames (r : Report) (renames : Renames) : List String :=
  r.symbols.map (·.shownName renames)

/-! ## As text -/

/-- The line on one symbol. -/
def line (renames : Renames) (s : Symbol) : String :=
  s.sourceFile ++ "/" ++ s.kind.label ++ " " ++ s.shownName renames ++
    (match s.description with
      | some text => "=" ++ text
      | none => "") ++
    ": " ++ toString s.size ++ "\n"

/-- The report as text: a line per symbol, then the total. -/
def toText (r : Report) (renames : Renames) : String :=
  String.join (r.symbols.map (line renames)) ++ s!"Total: {r.total} bytes\n"

/-! ## As JSON -/

/-- The members of the object for one symbol. -/
def members (s : Symbol) : List (String × Json.Value) :=
  [("name", .text s.name), ("type", .text s.kind.label), ("size", .ofNat s.size),
    ("prefix", .text s.scope), ("selfName", .text s.selfName),
    ("minifiedName", .text s.minifiedName)] ++
  (s.description.map fun text => ("desc", .text text)).toList ++
  [("sourceFile", .text s.sourceFile)] ++
  (s.ordinal.map fun n => ("ordinal", .ofNat n)).toList

/-- The report as a JSON value: a list with an object per symbol. -/
def toJson (r : Report) (renames : Renames) : Json.Value :=
  .list (r.symbols.map fun s =>
    .object (members s ++ [("displayName", .text (s.shownName renames))]))

end Report

/-- A renaming table as a JSON value: an object with a member per name. -/
def Renames.toJson (r : Renames) : Json.Value :=
  .object (r.entries.map fun pair => (pair.1, .text pair.2))

end SizeAtlas
