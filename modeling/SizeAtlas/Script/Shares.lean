import SizeAtlas.Script.Node

/-!
# Which nodes own bytes, and how many

The nodes below a node among which its bytes are shared out.  The declarators
of one statement share its keyword, its commas and its end: the first takes the
keyword, each later one the comma before it, the last one also what follows it.

## Main definitions

* `Visit` — whether a single declarator counts as a node of its own.
* `Node.children` — the nodes just below a node.
* `Node.shares` — these nodes, each with the bytes that it may give away.
* `Node.firstUnattributable?` — the first node that cannot be attributed.
-/

namespace SizeAtlas.Script

/-- How the declarators of a statement are visited. -/
inductive Visit where
  /-- A statement with one declarator stands for it, so that below the statement
  comes the value. -/
  | collapsed
  /-- Every declarator is visited. -/
  | each
  deriving DecidableEq, Repr, Inhabited

namespace Node

/-! ## Children -/

/-- The nodes just below `n`. -/
def children (visit : Visit) (n : Node) : List Node :=
  match visit, n.form with
  | .collapsed, .variableDeclaration [d] => d.initializer?.toList
  | _, form => form.parts

theorem sizeOf_lt_of_initializer? {c d : Node} (h : d.initializer? = some c) :
    sizeOf c < sizeOf d := by
  apply sizeOf_lt_of_mem_parts
  unfold initializer? at h
  split at h
  · rename_i heq
    simp [heq, h, Form.parts]
  · simp at h

theorem sizeOf_lt_of_mem_children {visit : Visit} {c n : Node} (h : c ∈ n.children visit) :
    sizeOf c < sizeOf n := by
  unfold children at h
  split at h
  · rename_i d heq
    have hd : sizeOf d < sizeOf n := sizeOf_lt_of_mem_parts (by simp [heq, Form.parts])
    have := sizeOf_lt_of_initializer? (by simpa using h)
    omega
  · exact sizeOf_lt_of_mem_parts h

/-- The bytes of the nodes just below `n`, each measured by itself. -/
def childrenLength (visit : Visit) (n : Node) : Nat :=
  ((n.children visit).map length).foldr (· + ·) 0

/-! ## Shares -/

/-- The bytes of the declarator `d` at place `i` of the `count` declarators of
`statement`. -/
def declaratorShare (statement : Node) (count i : Nat) (d : Node) : Nat :=
  if i = 0 then d.stop - statement.start
  else if i = count - 1 then max statement.stop d.stop - (d.start - 1)
  else d.stop - (d.start - 1)

/-- The bytes that the node `c` at place `i` below `n` may give away. -/
def shareAt (n : Node) (i : Nat) (c : Node) : Nat :=
  match n.form with
  | .variableDeclaration declarations =>
    if 2 ≤ declarations.length ∧ c.isDeclarator then
      declaratorShare n declarations.length i c
    else c.length
  | _ => c.length

/-- The nodes just below `n`, each with the bytes that it may give away. -/
def shares (visit : Visit) (n : Node) : List (Node × Nat) :=
  (n.children visit).zipIdx.map fun (c, i) => (c, n.shareAt i c)

theorem mem_children_of_mem_shares {visit : Visit} {n : Node} {s : Node × Nat}
    (h : s ∈ n.shares visit) : s.1 ∈ n.children visit := by
  simp only [shares, List.mem_map, Prod.exists] at h
  obtain ⟨c, i, hc, rfl⟩ := h
  exact (List.mem_zipIdx' hc).2 ▸ List.getElem_mem _

/-! ## Syntax that cannot be attributed -/

/-- The kind and offset of the first node at or below `n`, in the order of the
children, that cannot be attributed. -/
def firstUnattributable? (n : Node) : Option (String × Nat) :=
  match n.form with
  | .unsupported kind => some (kind, n.start)
  | _ => (n.children .each).attach.findSome? fun ⟨c, _⟩ => c.firstUnattributable?
termination_by n
decreasing_by exact sizeOf_lt_of_mem_children ‹_›

end Node

end SizeAtlas.Script
