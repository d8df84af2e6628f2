import SizeAtlas.Script.Parser.Pattern

/-!
# Functions

Functions, the functions of methods, and the bodies that they share.

## Main definitions

* `Grammar.block` — statements between braces.
* `Grammar.function` — a function after its keyword.
* `Grammar.method` — a function that starts with its parameters.
-/

namespace SizeAtlas.Script

/-- Where a function with the keyword for it stands. -/
inductive FunctionRole where
  /-- As a statement, which must give it a name. -/
  | declaration
  /-- As a value, whose name only it knows. -/
  | value
  /-- As the only value of an export, which may give it a name. -/
  | exported
  deriving DecidableEq, Repr, Inhabited

/-- What a method is. -/
inductive MethodKind where
  /-- A method like any other. -/
  | plain
  /-- One that reads a property, without parameters. -/
  | getter
  /-- One that writes a property, with one parameter. -/
  | setter
  deriving DecidableEq, Repr, Inhabited

/-- Whether a method of a kind may have `count` parameters, of which the last
takes all that is left if `rest` holds. -/
def MethodKind.fits (kind : MethodKind) (count : Nat) (rest : Bool) : Bool :=
  match kind with
  | .plain => true
  | .getter => count == 0
  | .setter => count == 1 && !rest

namespace Grammar

open SizeAtlas.Script.Parser

/-- The statements up to the closing brace, which is passed. -/
def statementsToBrace (g : Grammar) (ctx : Context) : Parser (List Node) := do
  let statements ← repeatWhile
    (fun seen => do
      if ← eat "\x7d" then return (seen, false)
      let statement ← g.statement ctx .list
      return (statement :: seen, true)) []
  return statements.reverse

/-- Statements between braces. -/
def block (g : Grammar) (ctx : Context) : Parser Node := do
  let start ← here
  expect "\x7b"
  let statements ← g.statementsToBrace ctx.inside
  nodeFrom start (.blockStatement statements)

/-- The surroundings inside a function. -/
def functionContext (generator async : Bool) : Context :=
  { generator, async, function := true, nested := true }

/-- The name of a function, which depends on its surroundings unless only the
function knows it. -/
def functionName (ctx inner : Context) (role : FunctionRole) : Parser (Option Identifier) := do
  if role != .declaration && (← atPunctuator "(") then return none
  return some (← identifier (if role == .value then inner else ctx))

/-- The function whose keyword, and all before it from `start` on, has been
passed. -/
def function (g : Grammar) (ctx : Context) (start : Nat) (async : Bool) (role : FunctionRole) :
    Parser Node := do
  let generator ← eat "*"
  let inner := functionContext generator async
  let id ← functionName ctx inner role
  discard (g.parameters inner)
  let body ← g.block inner
  nodeFrom start
    (if role == .declaration then .functionDeclaration id body else .functionExpression id body)

/-- The function of a method, which starts with its parameters. -/
def method (g : Grammar) (kind : MethodKind) (generator async : Bool) : Parser Node := do
  let start ← here
  let inner := functionContext generator async
  let (count, rest) ← g.parameters inner
  unless kind.fits count rest do fail "wrong number of parameters"
  let body ← g.block inner
  nodeFrom start (.functionExpression none body)

end Grammar

end SizeAtlas.Script
