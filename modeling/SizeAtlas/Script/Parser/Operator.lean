import SizeAtlas.Script.Parser.Primary

/-!
# Expressions with operators

Operators before, behind and between expressions, conditions, assignments and
functions with arrows.

## Main definitions

* `strength?` — how tightly an operator between two expressions binds.
* `Grammar.unaryPart` — operators before and behind an expression.
* `Grammar.binaryPart` — operators between expressions.
* `Grammar.assignmentPart` — an expression without commas.
-/

namespace SizeAtlas.Script

/-- How tightly the operator `text` between two expressions binds. -/
def punctuatorStrength? (text : String) : Option Nat :=
  match text with
  | "??" => some 1
  | "||" => some 2
  | "&&" => some 3
  | "|" => some 4
  | "^" => some 5
  | "&" => some 6
  | "==" | "!=" | "===" | "!==" => some 7
  | "<" | ">" | "<=" | ">=" => some 8
  | "<<" | ">>" | ">>>" => some 9
  | "+" | "-" => some 10
  | "*" | "/" | "%" => some 11
  | "**" => some 12
  | _ => none

/-- How tightly a comparison by a word binds. -/
def comparisonStrength : Nat := 8

/-- How tightly the power operator binds, the only one that starts from the
right. -/
def powerStrength : Nat := 12

/-- How tightly a token binds as an operator between two expressions. -/
def strength? (ctx : Context) (t : Token) : Option Nat :=
  match t.lexeme with
  | .punctuator text => punctuatorStrength? text
  | .word "instanceof" false => some comparisonStrength
  | .word "in" false => if ctx.allowsIn then some comparisonStrength else none
  | _ => none

/-- Which family of operators a token belongs to. -/
def logic? (t : Token) : Option Logic :=
  match t.lexeme with
  | .punctuator "??" => some .missing
  | .punctuator "||" | .punctuator "&&" => some .truth
  | _ => none

/-- The operators that assign. -/
def assignmentOperators : List String :=
  ["=", "+=", "-=", "*=", "/=", "%=", "**=", "<<=", ">>=", ">>>=", "&=", "|=", "^=", "&&=", "||=",
    "??="]

/-- The operators before an expression. -/
def isPrefixedOperator (t : Token) : Bool :=
  match t.lexeme with
  | .punctuator text => ["+", "-", "~", "!"].contains text
  | .word name false => ["typeof", "void", "delete"].contains name
  | _ => false

namespace Grammar

open SizeAtlas.Script.Parser

/-! ## Operators on one expression -/

/-- Whether an operator stands here that adds or takes away one. -/
def atUpdate : Parser Bool := do
  return (← atPunctuator "++") || (← atPunctuator "--")

/-- The variable or member that an operator changes. -/
def updated (p : Phrase) : Parser Node := do
  unless p.target == .simple do fail "invalid target"
  return p.targetNode "SimpleAssignmentTarget"

/-- An expression with operators before or behind it. -/
def unaryPart (g : Grammar) (ctx : Context) : Parser Phrase := do
  let t ← token
  if isPrefixedOperator t then
    advance
    let operand ← (← g.unary ctx).plain
    let node ← nodeFrom t.start (.unaryExpression operand)
    return { node, isUnary := true }
  if ← atUpdate then
    advance
    let operand ← updated (← g.unary ctx)
    return .ofNode (← nodeFrom t.start (.updateExpression operand))
  if ctx.async && isWord t "await" then
    advance
    discard (← g.unary ctx).plain
    return { node := ← unsupportedFrom t.start "AwaitExpression", isUnary := true }
  let p ← g.leftHandSide ctx
  if (← atUpdate) && !(← token).startsLine then
    let operand ← updated p
    advance
    return .ofNode (← nodeFrom t.start (.updateExpression operand))
  return p

/-! ## Operators between two expressions -/

/-- Whether an expression may stand at one side of `??`, given whether parentheses
open where that side starts: its last operator may not be one of two truth
values. -/
def fitsMissing (opens : Bool) (p : Phrase) : Bool := opens || p.logic != some .truth

/-- Whether two expressions may be the sides of `??`.  The left one is only looked
at if the right one is no such expression itself. -/
def joinsMissing (leftOpens rightOpens : Bool) (left right : Phrase) : Bool :=
  if right.logic.isSome then fitsMissing rightOpens right else fitsMissing leftOpens left

/-- The operator that stands here, if it binds tighter than `least`, and the
expression behind it.  The expression before it starts at `start`, with an opening
parenthesis if `opens` holds. -/
def extendBinary (g : Grammar) (ctx : Context) (start least : Nat) (opens : Bool)
    (left : Phrase) : Parser (Phrase × Bool) := do
  let t ← token
  match strength? ctx t with
  | none => return (left, false)
  | some strength =>
    if strength ≤ least then return (left, false)
    let isPower := strength == powerStrength
    if isPower && left.isUnary then fail "operand without parentheses"
    let leftNode ← left.plain
    advance
    let rightOpens ← atPunctuator "("
    let right ← g.binary ctx (if isPower then strength - 1 else strength)
    let rightNode ← right.plain
    let family := logic? t
    if family == some .missing && !joinsMissing opens rightOpens left right then
      fail "operators without parentheses"
    let form : Form Node :=
      if family.isSome then .logicalExpression leftNode rightNode
      else .binaryExpression leftNode rightNode
    return ({ node := ← nodeFrom start form, logic := family }, true)

/-- The first expression of a series with operators: one with operators before
or behind it, or a private name that is looked for in an object. -/
def operand (g : Grammar) (ctx : Context) : Parser Phrase := do
  let t ← token
  if t.lexeme.isPrivateName && ctx.allowsIn then
    advance
    expectWord "in"
    if (← token).lexeme.isPrivateName then unexpected
    discard (← g.binary ctx comparisonStrength).plain
    return .ofNode (← unsupportedFrom t.start "Expression")
  g.unary ctx

/-- Expressions with operators between them that bind tighter than `least`. -/
def binaryPart (g : Grammar) (ctx : Context) (least : Nat) : Parser Phrase := do
  let start ← here
  let opens ← atPunctuator "("
  let first ← g.operand ctx
  repeatWhile (g.extendBinary ctx start least opens) first

/-! ## Assignments -/

/-- What a generator hands out, after the word at `start` has been passed. -/
def yieldTail (g : Grammar) (ctx : Context) (start : Nat) : Parser Phrase := do
  let t ← token
  unless t.startsLine do
    let ends := [")", "]", "\x7d", ":", ",", ";"].any (isPunctuator t)
    if ← eat "*" then discard (g.plainAssignment ctx)
    else unless t.lexeme == .finish || ends || isWord t "in" do
      discard (g.plainAssignment ctx)
  return .ofNode (← unsupportedFrom start "YieldExpression")

/-- The function whose parameters from `start` on have been passed, and whose
arrow stands here. -/
def arrowTail (g : Grammar) (ctx : Context) (start : Nat) (async : Bool) : Parser Phrase := do
  advance
  if ← atPunctuator "\x7b" then discard (g.block (functionContext false async))
  else
    discard (g.plainAssignment { ctx with generator := false, async })
  return .ofNode (← unsupportedFrom start "ArrowFunctionExpression")

/-- The values between which a condition chooses, after its question mark. -/
def conditionalTail (g : Grammar) (ctx : Context) (start : Nat) (test : Node) :
    Parser Phrase := do
  let consequent ← g.plainAssignment ctx.inside
  expect ":"
  let alternate ← g.plainAssignment ctx
  return .ofNode (← nodeFrom start (.conditionalExpression test consequent alternate))

/-- The assignment of what follows the operator `text`, which stands here, to
`left`. -/
def assign (g : Grammar) (ctx : Context) (start : Nat) (text : String) (left : Phrase) :
    Parser Phrase := do
  let plainly := text == "="
  let fits := left.target == .simple || (plainly && left.target == .pattern)
  unless fits do fail "invalid target"
  advance
  let right ← g.plainAssignment ctx
  let node ← nodeFrom start
    (.assignmentExpression (left.targetNode "AssignmentPattern") right)
  return { node, isElement := plainly, isParameter := plainly && left.isBinding }

/-- An expression without commas that is no function with the word `async`. -/
def usualAssignment (g : Grammar) (ctx : Context) : Parser Phrase := do
  let t ← token
  let left ← g.binary ctx 0
  if left.isArrowHead && (← atArrow) then return ← g.arrowTail ctx t.start false
  match (← token).lexeme with
  | .punctuator "?" =>
    let test ← left.plain
    advance
    g.conditionalTail ctx t.start test
  | .punctuator text =>
    if assignmentOperators.contains text then g.assign ctx t.start text left else return left
  | _ => return left

/-! ## Asynchronous functions with arrows -/

/-- The function with an arrow whose word `async`, which stands here, is followed by
its parameters. -/
def asyncArrow (g : Grammar) (ctx : Context) : Parser Phrase := do
  let start ← here
  advance
  let inner := { ctx with async := true }
  if ← atPunctuator "(" then discard (g.parameters inner.inside)
  else discard (identifier inner)
  unless ← atArrow do unexpected
  g.arrowTail ctx start true

/-- Whether the word `async`, which stands here, is followed by a single parameter
and an arrow. -/
def startsAsyncArrow (ctx : Context) : Parser Bool := do
  let found ← glimpse (do
    advance
    let t ← token
    advance
    return isName ctx t && !t.startsLine && (← atArrow))
  return found == some true

/-- Whether the word `async`, which stands here, is followed by empty parentheses and
a brace: the body of a function whose arrow is missing. -/
def lacksArrow : Parser Bool := do
  let found ← glimpse (do
    advance
    expect "("
    expect ")"
    atPunctuator "\x7b")
  return found == some true

/-- An expression without commas that starts with the word `async`, which stands
here.  What follows it in parentheses are arguments, unless an arrow comes next:
then they are parameters. -/
def asyncAssignment (g : Grammar) (ctx : Context) : Parser Phrase := do
  if ← startsAsyncArrow ctx then return ← g.asyncArrow ctx
  let next ← peek
  if next.startsLine || !isPunctuator next "(" then return ← g.usualAssignment ctx
  if ← lacksArrow then unexpected
  firstOf
    (do
      let p ← g.usualAssignment ctx
      if ← atPunctuator "=>" then unexpected
      return p)
    (g.asyncArrow ctx)

/-! ## Any expression without commas -/

/-- Whether the word `yield` stands here as an operator.  Where it is a name, none
can follow it on the same line. -/
def atYield (ctx : Context) : Parser Bool := do
  unless ← atWord "yield" do return false
  if ctx.generator then return true
  let next ← peek
  return isName ctx next && !next.startsLine

/-- An expression without commas. -/
def assignmentPart (g : Grammar) (ctx : Context) : Parser Phrase := do
  let t ← token
  if ← atYield ctx then
    unless ctx.generator do unexpected
    advance
    return ← g.yieldTail ctx t.start
  if isWord t "async" then g.asyncAssignment ctx else g.usualAssignment ctx

end Grammar

end SizeAtlas.Script
