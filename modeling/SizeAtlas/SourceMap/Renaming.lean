import SizeAtlas.Renames.Basic
import SizeAtlas.Script.Names
import SizeAtlas.SourceMap.Basic

/-!
# Renamings found through a source map

The qualified names of the declarations of a minified script, with the names
that a source map gives for them.

## Main definitions

* `mappedName?` — the name that a source map gives for a node.
* `collectRenames` — the renamings of a node and all inside it.
* `renamesOf` — the renamings of a script.
-/

namespace SizeAtlas.SourceMap

open Script

/-- How far from a function's first byte its name may be mapped: as far as the
keyword and a blank reach. -/
def functionReach : Nat := 9

/-- How far from any other node's first byte its name may be mapped. -/
def usualReach : Nat := 1

/-- How far from a node's first byte its name may be mapped. -/
def reach (n : Node) : Nat :=
  match n.form with
  | .functionDeclaration _ _ => functionReach
  | _ => usualReach

/-- Where the identifier that a node declares stands. -/
def declaredAt? (n : Node) : Option Nat :=
  match n.form with
  | .functionDeclaration id _ => id.map Identifier.start
  | .functionExpression id _ => id.map Identifier.start
  | .variableDeclarator id _ => id.map Identifier.start
  | _ => none

/-- Whether a node declares something. -/
def declares (n : Node) : Bool :=
  match n.form with
  | .functionDeclaration _ _ | .variableDeclaration _ | .variableDeclarator _ _ => true
  | _ => false

/-- The name that a source map gives for a node: the one exactly at its
identifier, or else one near its start. -/
def mappedName? (m : SourceMap) (n : Node) : Option String :=
  ((declaredAt? n).bind fun offset => m.lookup offset 0).or (m.lookup n.start (reach n))

/-- The renaming that a node adds. -/
def rename? (minifiedScope sourceScope : String) (n : Node) (mapped : Option String) :
    Option (String × String) :=
  match n.mappableName?, mapped with
  | some minified, some source =>
    if declares n ∧ minified ≠ source then
      some (minifiedScope ++ minified, sourceScope ++ source)
    else none
  | _, _ => none

/-- Adds the renamings of `n` and of all inside it.  Both scopes grow with the
same delimiters; a name that is not mapped stands for itself. -/
def collectRenames (m : SourceMap) (minifiedScope sourceScope : String) (n : Node)
    (r : Renames) : Renames :=
  let children := n.children .each
  let mapped := mappedName? m n
  let r := r.insertAll (rename? minifiedScope sourceScope n mapped).toList
  let scopes :=
    match n.mappableName? with
    | some minified =>
      (minifiedScope ++ minified ++ n.delimiter children,
        sourceScope ++ mapped.getD minified ++ n.delimiter children)
    | none => (minifiedScope, sourceScope)
  (n.children .each).attach.foldl (fun r ⟨c, _⟩ => collectRenames m scopes.1 scopes.2 c r) r
termination_by n
decreasing_by exact Node.sizeOf_lt_of_mem_children ‹_›

/-- The renamings of a script with the given statements. -/
def renamesOf (m : SourceMap) (body : List Node) : Renames :=
  body.foldl (fun r n => collectRenames m "" "" n r) ∅

end SizeAtlas.SourceMap
