import SizeAtlas.Script.Names
import SizeAtlas.SymbolTable
import SizeAtlas.Text.Blank

/-!
# The symbols of a script

How the bytes of a script are shared out among symbols.  A node that is split
gives away the bytes of the symbols found inside it and keeps the rest; a node
that is not split keeps them all.  What no symbol claims is left over in the
end.

## Main definitions

* `Treatment` — under which name a node is listed, and whether it is split.
* `Node.treatment` — the treatment of a node.
* `Sizing` — what stays fixed while a script is measured.
* `Sizing.visit` — the symbols of a node and all inside it.
* `Sizing.run` — the symbols of a script.
-/

namespace SizeAtlas.Script

/-! ## Previews -/

/-- The most characters of code that a description shows whole. -/
def previewLimit : Nat := 32

/-- How many characters of longer code a description shows. -/
def previewLength : Nat := 29

/-- A line with the start of `code` between quotation marks. -/
def preview (code : String) : String :=
  let cs := Text.trim code.toList
  let shown := if previewLimit < cs.length then cs.take previewLength ++ "...".toList else cs
  "\"" ++ String.ofList (shown.map fun c => if c = '\n' then ' ' else c) ++ "\""

/-! ## Treatment -/

/-- What becomes of a node. -/
structure Treatment where
  /-- The name it is listed under. -/
  name : Option String
  /-- What kind of symbol it is. -/
  kind : Symbol.Kind
  /-- Whether the nodes inside it are listed by themselves. -/
  expand : Bool
  deriving DecidableEq, Repr

namespace Node

/-- The treatment of `n` where `splits` tells which numbers of bytes are enough
to split a node.  A node with a borrowed name is not split, nor is one inside
which nothing has a name; mere containers always are, and are never named. -/
def treatment (splits : Nat → Bool) (n : Node) : Treatment :=
  let children := n.children .collapsed
  let direct := n.ownName?
  let large := splits (n.childrenLength .collapsed) &&
    anyNameable .collapsed (direct.map NameAt.start) children
  let plain : Treatment :=
    match direct with
    | some place => ⟨some place.name, n.kind, large⟩
    | none =>
      match soleName .collapsed children with
      | .named name kind => ⟨some name, kind, false⟩
      | .anonymous => ⟨none, n.kind, false⟩
      | .ambiguous => ⟨none, n.kind, large⟩
  if n.isContainer then { plain with name := none, expand := true } else plain

/-- Whether a node never is a symbol, since what it holds is listed for it. -/
def isTransparent (n : Node) : Bool :=
  match n.form with
  | .objectExpression _ | .functionExpression _ _ => true
  | _ => false

end Node

/-! ## The walk -/

/-- The text of a symbol that was asked for. -/
structure Dump where
  /-- The qualified name of the symbol. -/
  name : String
  /-- Its text. -/
  text : String
  deriving DecidableEq, Repr, Inhabited

/-- What stays fixed while a script is measured. -/
structure Sizing where
  /-- The bytes of the script. -/
  source : ByteArray
  /-- Which numbers of bytes are enough to split a node. -/
  splits : Nat → Bool
  /-- The qualified names whose text is wanted. -/
  wanted : List String

/-- What has been found so far. -/
structure Found where
  /-- The symbols. -/
  table : SymbolTable
  /-- How many blocks of code without a name there were. -/
  blocks : Nat
  /-- The texts that were asked for. -/
  dumps : List Dump

namespace Sizing

/-- The text of a node, empty if its range is none of the source. -/
def sourceText (z : Sizing) (n : Node) : String :=
  if n.start ≤ n.stop ∧ n.stop ≤ z.source.size then
    (String.fromUTF8? (z.source.extract n.start n.stop)).getD ""
  else ""

/-- The symbol for the `size` bytes that a node keeps, if it is to be listed.
Code is listed at the top level only, and without a name it is numbered. -/
def symbol? (z : Sizing) (scope : String) (n : Node) (t : Treatment) (size blocks : Nat) :
    Option Symbol :=
  if n.isTransparent then none
  else
    match t.name with
    | some name =>
      if t.kind ≠ .code ∨ scope.isEmpty then
        some { scope, selfName := name, kind := t.kind, size }
      else none
    | none =>
      if t.kind = .code ∧ scope.isEmpty then
        some { scope, selfName := s!"code#{blocks}", kind := t.kind, size,
               description := some (preview (z.sourceText n)) }
      else none

/-- Lists the symbol of a node, and keeps its text if that is wanted. -/
def enter (z : Sizing) (n : Node) (s : Symbol) (f : Found) : Found where
  table := f.table.insert s
  blocks := if s.description.isSome then f.blocks + 1 else f.blocks
  dumps := if s.name ∈ z.wanted then f.dumps ++ [⟨s.name, z.sourceText n⟩] else f.dumps

/-- Adds the symbols of `n`, which has `share` bytes and stands in `scope`, and
of all inside it. -/
def visit (z : Sizing) (scope : String) (n : Node) (share : Nat) (f : Found) : Found :=
  let t := n.treatment z.splits
  let inner :=
    if t.expand then
      let scope' := n.childScope scope t.name (n.children .collapsed)
      (n.shares .collapsed).attach.foldl (fun f ⟨s, _⟩ => visit z scope' s.1 s.2 f)
        { f with table := ∅ }
    else { f with table := ∅ }
  let size := share - inner.table.total
  let outer := { inner with table := f.table.extend inner.table }
  match z.symbol? scope n t size outer.blocks with
  | some s => z.enter n s outer
  | none => outer
termination_by n
decreasing_by
  exact Node.sizeOf_lt_of_mem_children (Node.mem_children_of_mem_shares ‹_›)

/-- The symbols of the statements of a script. -/
def visitAll (z : Sizing) (body : List Node) : Found :=
  body.foldl (fun f n => z.visit "" n n.length f) ⟨∅, 0, []⟩

/-- Adds a symbol for the bytes of the source that no symbol of the table has. -/
def addRest (z : Sizing) (t : SymbolTable) : SymbolTable :=
  let rest := z.source.size - t.total
  if 0 < rest then
    t.insert
      { scope := ""
        selfName := freeName "unclassified" Symbol.Kind.other.label t.keys
        kind := .other
        size := rest }
  else t

/-- The symbols of a script with the given statements, and the texts that were
asked for. -/
def run (z : Sizing) (body : List Node) : SymbolTable × List Dump :=
  let f := z.visitAll body
  (z.addRest f.table, f.dumps)

end Sizing

end SizeAtlas.Script
