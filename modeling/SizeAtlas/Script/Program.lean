import SizeAtlas.Script.Shares
import SizeAtlas.Script.Parser.Statement

/-!
# Whole scripts

The grammar of a script, tied together from its parts, and the syntax tree of a
text.

## Main definitions

* `grammar` — the grammar for parts nested at most so deep.
* `parseStatements` — the statements of a text.
* `parse` — the same, if all of them can be attributed.
-/

namespace SizeAtlas.Script

/-- The grammar for parts that contain each other at most `depth` deep. -/
def grammar : (depth : Nat) → Grammar
  | 0 =>
    { statement := fun _ _ => Parser.fail "nested too deep"
      assignment := fun _ => Parser.fail "nested too deep"
      binary := fun _ _ => Parser.fail "nested too deep"
      unary := fun _ => Parser.fail "nested too deep"
      newOperand := fun _ => Parser.fail "nested too deep"
      leftHandSide := fun _ => Parser.fail "nested too deep"
      binding := fun _ => Parser.fail "nested too deep" }
  | depth + 1 =>
    { statement := fun ctx slot s => (grammar depth).statementPart ctx slot s
      assignment := fun ctx s => (grammar depth).assignmentPart ctx s
      binary := fun ctx least s => (grammar depth).binaryPart ctx least s
      unary := fun ctx s => (grammar depth).unaryPart ctx s
      newOperand := fun ctx s => (grammar depth).newOperandPart ctx s
      leftHandSide := fun ctx s => (grammar depth).leftHandSidePart ctx s
      binding := fun ctx s => (grammar depth).bindingPart ctx s }

/-- How often one part of the grammar can lead to another without passing a
character. -/
def partsPerCharacter : Nat := 8

/-- The statements up to the end of the text. -/
def statements : Parser (List Node) := do
  let s ← get
  let g := grammar (partsPerCharacter * (s.limit + 1))
  let nodes ← Parser.repeatWhile
    (fun seen => do
      if (← Parser.token).lexeme == .finish then return (seen, false)
      let node ← g.statement {} .list
      return (node :: seen, true)) []
  return nodes.reverse

/-- The statements of `source`. -/
def parseStatements (source : String) : Except Fault (List Node) := do
  let s ← Parser.start source
  let (nodes, _) ← statements.run s
  return nodes

/-- The first node of a script that cannot be attributed. -/
def firstUnattributable? (body : List Node) : Option (String × Nat) :=
  body.findSome? Node.firstUnattributable?

/-- The statements of `source`, all of whose nodes can be attributed. -/
def parse (source : String) : Except Fault (List Node) := do
  let body ← parseStatements source
  match firstUnattributable? body with
  | some (kind, offset) => .error (.unsupportedSyntax kind offset)
  | none => .ok body

end SizeAtlas.Script
