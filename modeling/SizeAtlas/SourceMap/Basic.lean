import SizeAtlas.SourceMap.Document
import SizeAtlas.SourceMap.Lines
import SizeAtlas.SourceMap.Vlq

/-!
# Source maps

A source map says, for places of a generated file, where in the sources they
come from and which name stood there.  Only the places with a name matter here;
they are kept in the order of their offsets.

## Main definitions

* `SourceMap.Entry` — a place of the generated file with a name.
* `SourceMap` — entries in the order of their offsets.
* `SourceMap.Running` — the values that the mappings of a file add up to.
* `SourceMap.decode` — the entries of a document.
* `SourceMap.lookup` — the name at or near an offset.
-/

namespace SizeAtlas

/-- A place of the generated file that has a name in the sources. -/
structure SourceMap.Entry where
  /-- The offset in the generated file. -/
  offset : Nat
  /-- The source file, if the document names it. -/
  sourceFile : Option String
  /-- The line in the source file. -/
  sourceLine : Int
  /-- The column in the source file. -/
  sourceColumn : Int
  /-- The name. -/
  name : String
  deriving DecidableEq, Repr, Inhabited

/-- Whether `a` may stand before `b`. -/
def SourceMap.Entry.inOrder (a b : SourceMap.Entry) : Bool := a.offset ≤ b.offset

/-- Entries in the order of their offsets. -/
structure SourceMap where
  /-- The entries. -/
  entries : Array SourceMap.Entry
  /-- They are in order. -/
  sorted : entries.toList.Pairwise (fun a b => a.inOrder b = true)

namespace SourceMap

/-- The source map of the given entries; those at one offset keep their
order. -/
def ofEntries (entries : List Entry) : SourceMap where
  entries := (entries.mergeSort Entry.inOrder).toArray
  sorted := by
    refine List.pairwise_mergeSort ?_ ?_ entries
    · intro a b c hab hbc
      simp only [Entry.inOrder, decide_eq_true_eq] at *
      omega
    · intro a b
      simp only [Entry.inOrder, Bool.or_eq_true, decide_eq_true_eq]
      omega

/-! ## Decoding -/

/-- What the fields of the mappings add up to: each field is given relative to
the last of its sort.  Signed words of 64 bits hold the values if all of them are at least
`-2 ^ 63` and less than `2 ^ 63`, as those of a map of real files are. -/
structure Running where
  /-- The column in the generated file, which starts anew on each line. -/
  column : Int := 0
  /-- The index of the source file. -/
  source : Int := 0
  /-- The line in the source file. -/
  sourceLine : Int := 0
  /-- The column in the source file. -/
  sourceColumn : Int := 0
  /-- The index of the name. -/
  name : Int := 0
  deriving DecidableEq, Repr, Inhabited

/-- The item of `items` with a given index, which may be out of range. -/
def itemAt? {α : Type} (items : Array α) (i : Int) : Option α :=
  if i < 0 then none else items[i.toNat]?

namespace Running

/-- The values after a mapping, and whether it has a name.  A mapping has one,
four or five fields; of any other number only the column counts. -/
def advance (r : Running) : List Int → Running × Bool
  | [] => (r, false)
  | column :: source :: line :: sourceColumn :: rest =>
    let r' : Running :=
      { column := r.column + column
        source := r.source + source
        sourceLine := r.sourceLine + line
        sourceColumn := r.sourceColumn + sourceColumn
        name := r.name }
    match rest with
    | [] => (r', false)
    | name :: _ => ({ r' with name := r'.name + name }, true)
  | column :: _ => ({ r with column := r.column + column }, false)

/-- The entry at the values reached on a line, if the document has the name. -/
def entry? (d : Document) (index : LineStarts) (line : Nat) (r : Running) : Option Entry :=
  (itemAt? d.names r.name).map fun name =>
    { offset := index.offset line r.column.toNat
      sourceFile := itemAt? d.sources r.source
      sourceLine := r.sourceLine
      sourceColumn := r.sourceColumn
      name }

end Running

/-- The mappings of one line, one after the other. -/
def mappingsOf (line : List Char) : List (List Char) :=
  (line.splitOn ',').filter (!·.isEmpty)

/-- Goes on by one mapping of `line`.  The entries are kept newest first. -/
def decodeMapping (d : Document) (index : LineStarts) (line : Nat)
    (state : Running × List Entry) (mapping : List Char) :
    Except Fault (Running × List Entry) := do
  let fields ← Vlq.decodeFrom 0 0 mapping
  let (r, named) := state.1.advance fields
  let entry := if named then r.entry? d index line else none
  .ok (r, entry.toList ++ state.2)

/-- Goes on by the mappings of one line. -/
def decodeLine (d : Document) (index : LineStarts) (state : Running × List Entry)
    (line : List Char × Nat) : Except Fault (Running × List Entry) :=
  (mappingsOf line.1).foldlM (decodeMapping d index line.2) ({ state.1 with column := 0 }, state.2)

/-- The entries of a document for the generated file with the given lines, in
the order of the mappings. -/
def decodeEntries (d : Document) (index : LineStarts) : Except Fault (List Entry) := do
  let lines := (d.mappings.toList.splitOn ';').zipIdx
  let (_, entries) ← lines.foldlM (decodeLine d index) ({}, [])
  .ok entries.reverse

/-- The source map that `text` holds for the generated file. -/
def decode (text : String) (generated : ByteArray) : Except Fault SourceMap := do
  let d ← Document.read text
  let entries ← decodeEntries d (LineStarts.ofBytes generated)
  .ok (ofEntries entries)

/-! ## Looking up -/

/-- The first of the places from `low` to `high` from which on `before` fails,
if it fails at every place after one at which it does. -/
def partitionPoint (before : Nat → Bool) (low high : Nat) : Nat :=
  if low < high then
    let middle := (low + high) / 2
    if before middle then partitionPoint before (middle + 1) high
    else partitionPoint before low middle
  else low
termination_by high - low

/-- The place of the first entry at or after `offset`. -/
def splitAt (m : SourceMap) (offset : Nat) : Nat :=
  partitionPoint (fun i => m.entries[i]?.any (·.offset < offset)) 0 m.entries.size

/-- The entry at `offset`, or else the nearest at most `reach` bytes away.  Of
two equally near the one before it counts. -/
def nearest? (m : SourceMap) (offset reach : Nat) : Option Entry :=
  let i := m.splitAt offset
  let next := m.entries[i]?
  if next.any (·.offset == offset) then next
  else
    let before := if i = 0 then none else m.entries[i - 1]?.filter (offset - ·.offset ≤ reach)
    let after := next.filter (·.offset - offset ≤ reach)
    match before, after with
    | some b, some a => if a.offset - offset < offset - b.offset then some a else some b
    | b, a => b.or a

/-- The name at `offset`, or else at the nearest place at most `reach` bytes
away. -/
def lookup (m : SourceMap) (offset reach : Nat) : Option String :=
  (m.nearest? offset reach).map Entry.name

end SourceMap

end SizeAtlas
