import SizeAtlas.Script.Shares
import SizeAtlas.Symbol

/-!
# What a node is called

Few nodes carry a name of their own; others borrow the only name found below
them.  The name of a node qualifies those of the nodes inside it.

## Main definitions

* `Node.ownName?` — the name that a node carries.
* `Node.mappableName?` — the name that a source map may know it by.
* `Node.kind` — what kind of symbol a node is.
* `SoleName` — the outcome of a search for a name to borrow.
* `soleName` — the search among several nodes.
* `Node.outlook` — what one pass learns for both questions.
* `anyNameable` — whether anything below could be named.
* `Node.childScope` — the scope of what is inside a node.
-/

namespace SizeAtlas.Script

/-- A name and the offset at which it stands. -/
structure NameAt where
  /-- The name. -/
  name : String
  /-- The offset of its first byte. -/
  start : Nat
  deriving DecidableEq, Repr, Inhabited

/-- An identifier as a name at its place. -/
def Identifier.nameAt (id : Identifier) : NameAt := ⟨id.name, id.start⟩

namespace Node

/-! ## Names of single nodes -/

/-- A plain identifier as a name at its place. -/
def variableRef? (n : Node) : Option NameAt :=
  n.variableName?.map fun name => ⟨name, n.start⟩

/-- The target of an assignment. -/
def assigned? (n : Node) : Option Node :=
  match n.form with
  | .assignmentExpression left _ => some left
  | _ => none

/-- The name that a declaring node carries: that of a function, a variable, a
property or an assigned variable. -/
def declaredName? (n : Node) : Option NameAt :=
  match n.form with
  | .expressionStatement expression => expression.assigned?.bind variableRef?
  | .property key value => (key.bind variableRef?).or value.variableRef?
  | .functionDeclaration id _ => id.map Identifier.nameAt
  | .functionExpression id _ => id.map Identifier.nameAt
  | .variableDeclarator id _ => id.map Identifier.nameAt
  | _ => none

/-- The name that a node carries.  A declaration of nothing but another
declaration carries its name. -/
def ownName? (n : Node) : Option NameAt :=
  match _h : n.form with
  | .variableDeclaration [d] => d.ownName?
  | _ => n.declaredName?
termination_by n
decreasing_by exact sizeOf_lt_of_mem_parts (by simp [_h, Form.parts])

/-- The name that a source map may know a node by.  Unlike `ownName?` it
looks neither at the value of a property nor through a statement. -/
def mappableName? (n : Node) : Option String :=
  match n.form with
  | .expressionStatement expression => expression.assigned?.bind variableName?
  | .property key _ => key.bind variableName?
  | .functionDeclaration id _ => id.map Identifier.name
  | .functionExpression id _ => id.map Identifier.name
  | .variableDeclarator id _ => id.map Identifier.name
  | _ => none

/-- What kind of symbol a node is by its shape alone. -/
def ownKind (n : Node) : Symbol.Kind :=
  match n.form with
  | .functionDeclaration _ _ | .functionExpression _ _ => .function
  | .variableDeclaration _ | .variableDeclarator _ _ => .var
  | _ => .code

/-- What kind of symbol a node is.  A property is what its value is. -/
def kind (n : Node) : Symbol.Kind :=
  match n.form with
  | .property _ value => value.ownKind
  | _ => n.ownKind

end Node

/-! ## Borrowed names -/

/-- The outcome of a search for a name to borrow. -/
inductive SoleName where
  /-- There is exactly one name. -/
  | named (name : String) (kind : Symbol.Kind)
  /-- There is none. -/
  | anonymous
  /-- There are several. -/
  | ambiguous
  deriving DecidableEq, Repr, Inhabited

/-- What one node offers to a search. -/
inductive Offer where
  /-- A name. -/
  | name (name : String) (kind : Symbol.Kind)
  /-- Nothing. -/
  | nothing
  /-- Nothing, and what is behind it names nothing else either. -/
  | barrier
  /-- More than one name. -/
  | several
  deriving DecidableEq, Repr, Inhabited

/-- The outcome of a search that found `found` so far, by the offers to come.  A
barrier ends it without a name. -/
def SoleName.ofOffers (found : SoleName) : List Offer → SoleName
  | [] => found
  | .nothing :: rest => ofOffers found rest
  | .barrier :: _ => .anonymous
  | .several :: _ => .ambiguous
  | .name name kind :: rest =>
    match found with
    | .anonymous => ofOffers (.named name kind) rest
    | _ => .ambiguous

/-- What the outcome of a search below a node lets the node offer. -/
def SoleName.toOffer : SoleName → Offer
  | .named name kind => .name name kind
  | .anonymous => .nothing
  | .ambiguous => .several

namespace Node

/-- What `n` offers to a search: its own name, or else what a search below it
finds.  An anonymous function or a call ends the search. -/
def offer (visit : Visit) (n : Node) : Offer :=
  match n.ownName? with
  | some place => .name place.name n.kind
  | none =>
    if n.isFunction || n.isCall then .barrier
    else
      (SoleName.ofOffers .anonymous
        ((n.children visit).attach.map fun ⟨c, _⟩ => c.offer visit)).toOffer
termination_by n
decreasing_by exact sizeOf_lt_of_mem_children ‹_›

end Node

/-- The only name that `nodes` offer. -/
def soleName (visit : Visit) (nodes : List Node) : SoleName :=
  SoleName.ofOffers .anonymous (nodes.map (Node.offer visit))

/-! ## Nameable nodes -/

/-- What a pass over a node and all below it learns. -/
structure Outlook where
  /-- What the node offers to a search. -/
  offer : Offer
  /-- Whether it or anything below it could have a name. -/
  nameable : Bool
  deriving DecidableEq, Repr, Inhabited

namespace Node

/-- What is learnt about `n`, which has outlooks `below` on its children, when
the name that starts at `except` does not count. -/
def outlookFrom (except : Option Nat) (n : Node) (below : List Outlook) : Outlook :=
  let borrowed := SoleName.ofOffers .anonymous (below.map Outlook.offer)
  { offer :=
      match n.ownName? with
      | some place => .name place.name n.kind
      | none => if n.isFunction || n.isCall then .barrier else borrowed.toOffer
    nameable :=
      n.ownName?.any (fun place => some place.start != except) || borrowed != .anonymous ||
        below.any Outlook.nameable }

/-- What a single pass over `n` and all below it learns. -/
def outlook (visit : Visit) (except : Option Nat) (n : Node) : Outlook :=
  n.outlookFrom except ((n.children visit).attach.map fun ⟨c, _⟩ => c.outlook visit except)
termination_by n
decreasing_by exact sizeOf_lt_of_mem_children ‹_›

/-- Whether `n` has a name that does not start at `except`, lets a search for a
name below it end otherwise than without one, or has such a node below it. -/
def isNameable (visit : Visit) (except : Option Nat) (n : Node) : Bool :=
  (n.outlook visit except).nameable

/-- The offer that the pass learns is that of the search made by itself. -/
theorem offer_outlook (visit : Visit) (except : Option Nat) (n : Node) :
    (n.outlook visit except).offer = n.offer visit := by
  induction n using WellFounded.induction (measure (sizeOf : Node → Nat)).wf with
  | _ n ih =>
    have below : ((n.children visit).attach.map fun c => c.1.outlook visit except).map
        Outlook.offer = (n.children visit).attach.map fun c => c.1.offer visit := by
      rw [List.map_map]
      exact List.map_congr_left fun c _ => ih c.1 (sizeOf_lt_of_mem_children c.2)
    rw [outlook, offer, outlookFrom]
    simp only [below]

end Node

/-- Whether anything at or below `nodes` could have a name of its own.  The name
that starts at `except` does not count. -/
def anyNameable (visit : Visit) (except : Option Nat) (nodes : List Node) : Bool :=
  nodes.any (Node.isNameable visit except)

namespace Node

/-- A node is nameable by its own name, by what a search below it finds, or by a
node below it. -/
theorem isNameable_eq (visit : Visit) (except : Option Nat) (n : Node) :
    n.isNameable visit except =
      (n.ownName?.any (fun place => some place.start != except) ||
        soleName visit (n.children visit) != .anonymous ||
        anyNameable visit except (n.children visit)) := by
  have below : (n.children visit).attach.map (fun c => c.1.outlook visit except) =
      (n.children visit).map (outlook visit except) := by
    simp
  rw [isNameable, outlook, outlookFrom]
  simp only [below, List.map_map, List.any_map, soleName, anyNameable]
  congr 4
  exact List.map_congr_left fun c _ => offer_outlook visit except c

end Node

/-! ## Scopes -/

namespace Node

/-- Whether a node is only ever a container, which never becomes a symbol under
a name of its own. -/
def isContainer (n : Node) : Bool :=
  match n.form with
  | .objectExpression _ | .functionExpression _ _ | .callExpression _ _ | .blockStatement _
  | .memberExpression _ _ | .expressionStatement _ => true
  | _ => false

/-- What follows the name of a node in the scope of what is inside it: a point
for an object literal or what only holds one, a slash for all else. -/
def delimiter (n : Node) (children : List Node) : String :=
  let holdsObject := match children with
    | [only] => only.isObject
    | _ => false
  if n.isObject || holdsObject then "." else "/"

/-- The scope of what is inside a node that stands in `scope`.  A node without a
name does not qualify anything. -/
def childScope (scope : String) (name : Option String) (n : Node) (children : List Node) :
    String :=
  match name with
  | some name => scope ++ name ++ n.delimiter children
  | none => scope

end Node

end SizeAtlas.Script
