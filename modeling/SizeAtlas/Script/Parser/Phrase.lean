import SizeAtlas.Script.Parser.Basic

/-!
# Expressions that may turn out to be patterns

Whether an expression is the target of an assignment or the parameter of a
function is only known once the equals sign or the arrow behind it is reached.
A phrase is a parsed expression with all that has to be known about it by then.

## Main definitions

* `Target` — what an expression can be as the target of an assignment.
* `Phrase` — an expression and what else it could be.
* `Grammar` — the parts of the grammar that contain each other.
-/

namespace SizeAtlas.Script

/-- What an expression can be as the target of an assignment. -/
inductive Target where
  /-- No target. -/
  | none
  /-- A variable or a member. -/
  | simple
  /-- A list or an object that is taken apart. -/
  | pattern
  deriving DecidableEq, Repr, Inhabited

/-- The two families of operators that may not be mixed. -/
inductive Logic where
  /-- The operators of two truth values. -/
  | truth
  /-- The operator of a value that may be missing. -/
  | missing
  deriving DecidableEq, Repr, Inhabited

/-- A parsed expression and what else it could be. -/
structure Phrase where
  /-- The expression. -/
  node : Node
  /-- What it can be as the target of an assignment. -/
  target : Target := .none
  /-- Whether it can be a part of a list or an object that is taken apart. -/
  isElement : Bool := false
  /-- Whether it can be bound as a parameter without a default. -/
  isBinding : Bool := false
  /-- Whether it can be a parameter. -/
  isParameter : Bool := false
  /-- Whether it is only allowed as a pattern, because of a default inside. -/
  pending : Bool := false
  /-- Whether it can stand before an arrow. -/
  isArrowHead : Bool := false
  /-- Whether a prefixed operator was applied last. -/
  isUnary : Bool := false
  /-- Which family of operators was applied last. -/
  logic : Option Logic := none
  deriving Inhabited

namespace Phrase

/-- An expression that is nothing else. -/
def ofNode (node : Node) : Phrase := { node }

/-- A variable or a member that can be assigned to. -/
def simple (node : Node) : Phrase := { node, target := .simple, isElement := true }

/-- A variable. -/
def named (node : Node) : Phrase :=
  { simple node with isBinding := true, isParameter := true, isArrowHead := true }

/-- What a phrase is when it stands between parentheses: a pattern no more, but
still a variable or a member. -/
def parenthesized (p : Phrase) : Phrase :=
  if p.target = .simple then simple p.node else ofNode p.node

/-- The expression of a phrase that is used as one. -/
def plain (p : Phrase) : Parser Node :=
  if p.pending then Parser.fail "default outside a pattern" else return p.node

/-- The node for the target of an assignment, where a pattern and a private
member cannot be attributed. -/
def targetNode (p : Phrase) (kind : String) : Node :=
  match p.target, p.node.form with
  | .pattern, _ => .mk p.node.start p.node.stop (.unsupported kind)
  | _, .unsupported _ => .mk p.node.start p.node.stop (.unsupported kind)
  | _, _ => p.node

end Phrase

/-- Where a statement stands. -/
inductive Slot where
  /-- In a list of statements. -/
  | list
  /-- As the only statement inside another. -/
  | single
  deriving DecidableEq, Repr, Inhabited

/-- What a variable, a parameter or a caught value is bound to. -/
structure Bound where
  /-- The name, unless it is a pattern. -/
  id : Option Identifier := none
  /-- The name, or all names of the pattern. -/
  names : List String := []
  deriving Repr, Inhabited

/-- The parts of the grammar that contain each other. -/
structure Grammar where
  /-- A statement. -/
  statement : Context → Slot → Parser Node
  /-- An expression without commas. -/
  assignment : Context → Parser Phrase
  /-- An expression of operators that bind tighter than a given strength. -/
  binary : Context → Nat → Parser Phrase
  /-- The operand of such an operator. -/
  unary : Context → Parser Phrase
  /-- What stands before the arguments of `new`. -/
  newOperand : Context → Parser Phrase
  /-- An expression without operators. -/
  leftHandSide : Context → Parser Phrase
  /-- What a variable or parameter is bound to: a name or a pattern. -/
  binding : Context → Parser Bound

namespace Grammar

open SizeAtlas.Script.Parser

/-- An expression with commas.  Without any it is the phrase itself. -/
def expression (g : Grammar) (ctx : Context) : Parser Phrase := do
  let start ← here
  let first ← g.assignment ctx
  unless ← atPunctuator "," do return first
  let firstNode ← first.plain
  let nodes ← repeatWhile
    (fun seen => do
      unless ← eat "," do return (seen, false)
      let node ← (← g.assignment ctx).plain
      return (node :: seen, true)) [firstNode]
  return .ofNode (← nodeFrom start (.sequenceExpression nodes.reverse))

/-- An expression with commas that is used as one. -/
def plainExpression (g : Grammar) (ctx : Context) : Parser Node := do
  (← g.expression ctx).plain

/-- An expression without commas that is used as one. -/
def plainAssignment (g : Grammar) (ctx : Context) : Parser Node := do
  (← g.assignment ctx).plain

/-- An expression between parentheses, as statements have it. -/
def condition (g : Grammar) (ctx : Context) : Parser Node := do
  expect "("
  let node ← g.plainExpression ctx.inside
  expect ")"
  return node

end Grammar

end SizeAtlas.Script
