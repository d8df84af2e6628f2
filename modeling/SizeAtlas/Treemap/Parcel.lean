import SizeAtlas.Bytes.Count
import SizeAtlas.Symbol
import SizeAtlas.Text.Segments

/-!
# The nested shares of a treemap

A treemap nests the bytes of a run: the files, within them the scopes, within
those the symbols.  A parcel is one box of it.  Its bytes are counted in a word of
64 bits, which holds them all if they are less than `UInt64.size`.

## Main definitions

* `Parcel` — a named box with the bytes of everything inside it.
* `Parcel.add` — adding bytes at the end of a path.
* `Parcel.ofSymbols` — the boxes of a list of symbols.
-/

namespace SizeAtlas

/-- A box of a treemap.  Its size counts the bytes of the boxes inside it, too. -/
inductive Parcel where
  | mk (name : String) (size : Nat) (parts : List Parcel)
  deriving Repr, Inhabited

namespace Parcel

/-- The name of a box. -/
def name : Parcel → String
  | mk name _ _ => name

/-- The bytes of a box and everything inside it. -/
def size : Parcel → Nat
  | mk _ size _ => size

/-- The boxes just inside a box. -/
def parts : Parcel → List Parcel
  | mk _ _ parts => parts

/-- The bytes of a box that lie in none of the boxes inside it, and none if more are counted
in those. -/
def ownSize (p : Parcel) : Nat := p.size - Count.sum (p.parts.map size)

/-- Changes the part called `name` by `f`, after making an empty one at the end
if there is none. -/
def atPart (name : String) (f : Parcel → Parcel) : List Parcel → List Parcel
  | [] => [f (mk name 0 [])]
  | p :: ps => if p.name = name then f p :: ps else p :: atPart name f ps

/-- Adds `bytes` to a box and to every box along the path inside it. -/
def addAlong (bytes : Nat) : List String → Parcel → Parcel
  | [], p => mk p.name (Count.add p.size bytes) p.parts
  | first :: rest, p =>
    mk p.name (Count.add p.size bytes) (atPart first (addAlong bytes rest) p.parts)

/-- Adds `bytes` at the end of `path`, which starts inside `p`. -/
def add (p : Parcel) (path : List String) (bytes : Nat) : Parcel := addAlong bytes path p

/-- The outermost box while it is empty. -/
def root : Parcel := mk "root" 0 []

/-- The box of symbols that no file is known for. -/
def unfiled : String := "(unknown)"

/-- Where a symbol's bytes go: into its file, then through the segments of its
scope to the name that it is shown as, without the scope. -/
def pathOf (s : Symbol) (shownName : String) : List String :=
  (if s.sourceFile.isEmpty then unfiled else s.sourceFile) ::
    (Text.segments Text.isDelimiter s.scope ++
      [(Text.dropStart? s.scope shownName).getD shownName])

/-- The boxes of `symbols`, shown under the names `shownNames`. -/
def ofSymbols (symbols : List Symbol) (shownNames : List String) : Parcel :=
  (symbols.zip shownNames).foldl
    (fun p (s, shownName) => p.add (pathOf s shownName) s.size) root

end Parcel

end SizeAtlas
