import SizeAtlas.Fault
import SizeAtlas.Json.Reader

/-!
# The written form of a source map

A source map is an object with the names of the sources, the names that occur
in them, and the mappings.  Other members are of no interest.

## Main definitions

* `Document` — the three members.
* `Document.read` — the document that a text holds.
-/

namespace SizeAtlas.SourceMap

/-- A source map as it is written. -/
structure Document where
  /-- The names of the source files. -/
  sources : Array String
  /-- The names that occur in the sources. -/
  names : Array String
  /-- The mappings, a line per line of the generated file. -/
  mappings : String
  deriving Repr, Inhabited

namespace Document

/-- The text that a value is. -/
def text? : Json.Value → Option String
  | .text s => some s
  | _ => none

/-- The texts that a list of texts holds. -/
def texts? : Json.Value → Option (Array String)
  | .list items => (items.mapM text?).map List.toArray
  | _ => none

/-- The member called `name` as `of?` reads it, or `missing` if there is none.
There may not be two. -/
def member? {α : Type} (members : List (String × Json.Value)) (name : String)
    (missing : Option α) (of? : Json.Value → Option α) : Option α :=
  match members.filter (·.1 == name) with
  | [] => missing
  | [(_, v)] => of? v
  | _ => none

/-- The document that a value stands for.  Instead of the object there may be a
list of the three members. -/
def ofJson? : Json.Value → Option Document
  | .object members => do
    let sources ← member? members "sources" (some #[]) texts?
    let names ← member? members "names" (some #[]) texts?
    let mappings ← member? members "mappings" none text?
    some ⟨sources, names, mappings⟩
  | .list [sources, names, mappings] => do
    let sources ← texts? sources
    let names ← texts? names
    let mappings ← text? mappings
    some ⟨sources, names, mappings⟩
  | _ => none

/-- The document that `text` holds. -/
def read (text : String) : Except Fault Document :=
  match (Json.readRecord? ["sources", "names", "mappings"] text).bind ofJson? with
  | some d => .ok d
  | none => .error (.malformedJson "not a source map")

end Document

end SizeAtlas.SourceMap
