import SizeAtlas.Script.Parser.Exchange
import SizeAtlas.Script.Parser.Operator

/-!
# Statements

The statements of a script.

## Main definitions

* `Grammar.letStatement` — what starts with the word `let`.
* `Grammar.forStatement` — the three kinds of loops with that keyword.
* `Grammar.statementPart` — any statement.
-/

namespace SizeAtlas.Script.Grammar

open SizeAtlas.Script.Parser

/-! ## Expressions and labels -/

/-- An expression as a statement, or a label and the statement it belongs to. -/
def expressionOrLabel (g : Grammar) (ctx : Context) : Parser Node := do
  let start ← here
  let p ← g.expression ctx
  if p.isBinding && p.node.variableName?.isSome && (← atPunctuator ":") then
    advance
    let body ← g.statement ctx .single
    return ← nodeFrom start (.labeledStatement body)
  let node ← p.plain
  semicolon
  nodeFrom start (.expressionStatement node)

/-- What the word `let` starts. -/
inductive LetUse where
  /-- An expression without commas, in which it is the first operand. -/
  | operand
  /-- A member or call.  With the expression the statement ends: a semicolon behind it
  is a statement of its own. -/
  | head
  /-- A variable of that name and nothing else. -/
  | alone
  /-- A declaration. -/
  | declares
  deriving DecidableEq, Repr, Inhabited

/-- What the word `let` starts where a statement stands, as the token after it
tells. -/
def letUse (slot : Slot) (next : Token) : LetUse :=
  let otherwise := if slot == .single then .alone else .declares
  match next.lexeme with
  | .punctuator "." | .punctuator "(" => .head
  | .punctuator "[" => .declares
  | .punctuator ";" => .alone
  | .punctuator text =>
    let operates := (punctuatorStrength? text).isSome && (logic? next).isNone
    if operates || assignmentOperators.contains text then .operand else otherwise
  | .word "in" false | .word "instanceof" false => .operand
  | _ => otherwise

/-- A statement with the word `let`, which stands here. -/
def letStatement (g : Grammar) (ctx : Context) (slot : Slot) : Parser Node := do
  let start ← here
  match letUse slot (← peek) with
  | .operand =>
    let node ← g.plainAssignment ctx
    semicolon
    nodeFrom start (.expressionStatement node)
  | .head =>
    let node ← g.plainExpression ctx
    nodeFrom start (.expressionStatement node)
  | .alone =>
    let id ← identifier ctx
    let node ← nodeFrom start (.identifier id.name)
    semicolon
    nodeFrom start (.expressionStatement node)
  | .declares =>
    advance
    return (← g.declaration ctx slot start .block).1

/-! ## Resources -/

/-- Whether a declaration of resources starts here whose word `using` is followed by
`next`. -/
def declaresResource (ctx : Context) (next : Token) : Bool := isName ctx next && !next.startsLine

/-- Whether a declaration of resources stands here, perhaps one whose disposal is
awaited. -/
def atResource (ctx : Context) : Parser Bool := do
  if ← atWord "using" then return declaresResource ctx (← peek)
  unless ctx.async && (← atWord "await") do return false
  let found ← glimpse (do
    advance
    return (← atWord "using") && declaresResource ctx (← peek))
  return found == some true

/-- Passes the words before the names of resources. -/
def resourceWords : Parser Unit := do
  discard (eatWord "await")
  expectWord "using"

/-- A declaration of resources, which stands here and may not be outside all
blocks. -/
def resourceStatement (g : Grammar) (ctx : Context) (slot : Slot) : Parser Node := do
  let start ← here
  unless ctx.nested do fail "resource outside a block"
  resourceWords
  return (← g.declaration ctx slot start .resource).1

/-! ## Functions and classes -/

/-- A declaration of a function, whose words before the name stand here.  Inside
another statement it can only be a usual one. -/
def functionStatement (g : Grammar) (ctx : Context) (slot : Slot) (async : Bool) :
    Parser Node := do
  let start ← here
  advance
  if async then advance
  if slot == .single && (async || (← atPunctuator "*")) then fail "declaration without a block"
  g.function ctx start async .declaration

/-- A declaration of a class, whose keyword stands here.  It starts at `start`, where
its decorators do. -/
def classStatement (g : Grammar) (ctx : Context) (slot : Slot) (start : Nat) : Parser Node := do
  if slot == .single then fail "declaration without a block"
  expectWord "class"
  discard (g.classTail ctx true)
  unsupportedFrom start "ClassDeclaration"

/-- An export, whose keyword stands here. -/
def exportStatement (g : Grammar) (ctx : Context) : Parser Node := do
  let start ← here
  expectWord "export"
  g.exportTail ctx
  unsupportedFrom start "ExportDeclaration"

/-- A class or the export of one after its decorators, the first of which stands
here. -/
def decoratedStatement (g : Grammar) (ctx : Context) (slot : Slot) : Parser Node := do
  let start ← here
  discard (g.decorators ctx)
  unless ← atWord "export" do return ← g.classStatement ctx slot start
  let next ← peek
  unless isWord next "class" || isWord next "default" do unexpected
  g.exportStatement ctx

/-! ## Conditions and loops -/

/-- A statement that depends on a condition, after its keyword at `start`. -/
def ifStatement (g : Grammar) (ctx : Context) (start : Nat) : Parser Node := do
  let test ← g.condition ctx
  let consequent ← g.statement ctx .single
  let alternate ← if ← eatWord "else" then some <$> g.statement ctx .single else pure none
  nodeFrom start (.ifStatement test consequent alternate)

/-- A loop whose condition stands before it, after its keyword at `start`. -/
def whileStatement (g : Grammar) (ctx : Context) (start : Nat) : Parser Node := do
  let test ← g.condition ctx
  let body ← g.statement ctx .single
  nodeFrom start (.whileStatement test body)

/-- A loop whose condition stands behind it, after its keyword at `start`.  It
needs no semicolon, even on one line with the next statement. -/
def doWhileStatement (g : Grammar) (ctx : Context) (start : Nat) : Parser Node := do
  let body ← g.statement ctx .single
  expectWord "while"
  let test ← g.condition ctx
  discard (eat ";")
  nodeFrom start (.doWhileStatement test body)

/-- The rest of a loop that counts, from the first semicolon on. -/
def countingLoop (g : Grammar) (ctx : Context) (start : Nat) (init : Option Node) :
    Parser Node := do
  expect ";"
  let test ← if ← atPunctuator ";" then pure none else some <$> g.plainExpression ctx
  expect ";"
  let update ← if ← atPunctuator ")" then pure none else some <$> g.plainExpression ctx
  expect ")"
  let body ← g.statement ctx .single
  nodeFrom start (.forStatement init test update body)

/-- The rest of a loop over the names or the items of an object, from the word
that tells which on. -/
def enumeratingLoop (g : Grammar) (ctx : Context) (start : Nat) (left : Node) (await : Bool) :
    Parser Node := do
  let items ← atWord "of"
  if await && !items then unexpected
  advance
  let right ← if items then g.plainAssignment ctx else g.plainExpression ctx
  expect ")"
  let body ← g.statement ctx .single
  if items then unsupportedFrom start "ForOfStatement"
  else nodeFrom start (.forInStatement left right body)

/-- Whether the word stands here that tells what a loop goes over. -/
def atEnumeration : Parser Bool := do
  return (← atWord "in") || (← atWord "of")

/-- Whether the token after the word `let` in the head of a loop makes it a
declaration. -/
def declaresAfterLet (t : Token) : Bool :=
  match t.lexeme with
  | .word name _ => name != "in"
  | .punctuator text => text == "[" || text == "\x7b"
  | _ => false

/-- The kind of the declaration in the head of a loop, if there is one.  Its words
are passed. -/
def loopDeclaration? (ctx : Context) : Parser (Option VariableKind) := do
  if ← eatWord "var" then return some .whole
  if ← eatWord "const" then return some .constant
  let next ← peek
  if (← atWord "let") && declaresAfterLet next then
    advance
    return some .block
  if (← atResource ctx) && !isWord next "of" then
    resourceWords
    return some .resource
  return none

/-- A loop whose head starts with a declaration of variables of a kind at `first`,
whose words have been passed. -/
def declaringLoop (g : Grammar) (ctx : Context) (start first : Nat) (kind : VariableKind)
    (await : Bool) : Parser Node := do
  let (node, lacking) ← g.declarationHead { ctx with allowsIn := false } first kind
  if kind == .resource && (← atWord "in") then unexpected
  if ← atEnumeration then return ← g.enumeratingLoop ctx start node await
  if lacking || await then fail "missing value"
  g.countingLoop ctx start (some node)

/-- Whether the expression before the word `of` in the head of a loop, which starts
with the token `first`, may stand there: not one that starts like a declaration or,
unless the items are awaited, like a function with an arrow. -/
def fitsItems (first : Token) (p : Phrase) (await : Bool) : Bool :=
  let isVariable := p.isBinding && p.node.variableName?.isSome
  !isWord first "let" && !(isWord first "async" && isVariable && !await)

/-- A loop whose head starts with an expression. -/
def expressionLoop (g : Grammar) (ctx : Context) (start : Nat) (await : Bool) : Parser Node := do
  let first ← token
  let p ← g.expression { ctx with allowsIn := false }
  if ← atEnumeration then
    if p.target == .none then fail "invalid target"
    if (← atWord "of") && !fitsItems first p await then fail "invalid target"
    return ← g.enumeratingLoop ctx start (p.targetNode "AssignmentPattern") await
  if await then unexpected
  g.countingLoop ctx start (some (← p.plain))

/-- A loop of any of the three kinds after its keyword at `start`. -/
def forStatement (g : Grammar) (ctx : Context) (start : Nat) : Parser Node := do
  let await ← if ctx.async then eatWord "await" else pure false
  expect "("
  let ctx := ctx.inside
  if ← atPunctuator ";" then
    if await then unexpected
    return ← g.countingLoop ctx start none
  let first ← here
  match ← loopDeclaration? ctx with
  | some kind => g.declaringLoop ctx start first kind await
  | none => g.expressionLoop ctx start await

/-! ## Leaving -/

/-- A statement that leaves a loop or block, after its keyword at `start`, with
perhaps a label. -/
def jumpStatement (ctx : Context) (start : Nat) (form : Form Node) : Parser Node := do
  let t ← token
  if isName ctx t && !t.startsLine then advance
  semicolon
  nodeFrom start form

/-- A statement that leaves a function, after its keyword at `start`. -/
def returnStatement (g : Grammar) (ctx : Context) (start : Nat) : Parser Node := do
  unless ctx.function do fail "return outside a function"
  let bare := endsStatement (← token) || (← atPunctuator ";")
  let argument ← if bare then pure none else some <$> g.plainExpression ctx
  semicolon
  nodeFrom start (.returnStatement argument)

/-- A statement that raises an exception, after its keyword at `start`. -/
def throwStatement (g : Grammar) (ctx : Context) (start : Nat) : Parser Node := do
  if (← token).startsLine then unexpected
  let argument ← g.plainExpression ctx
  semicolon
  nodeFrom start (.throwStatement argument)

/-! ## Choices and exceptions -/

/-- The statements of a case, up to the next case or the closing brace. -/
def caseStatements (g : Grammar) (ctx : Context) : Parser (List Node) := do
  let statements ← repeatWhile
    (fun seen => do
      let t ← token
      if isWord t "case" || isWord t "default" || isPunctuator t "\x7d" then
        return (seen, false)
      let statement ← g.statement ctx .list
      return (statement :: seen, true)) []
  return statements.reverse

/-- A case of a choice. -/
def switchCase (g : Grammar) (ctx : Context) : Parser Node := do
  let start ← here
  let test ←
    if ← eatWord "default" then pure none
    else
      expectWord "case"
      some <$> g.plainExpression ctx
  expect ":"
  let consequent ← g.caseStatements ctx
  nodeFrom start (.switchCase test consequent)

/-- A choice among cases, after its keyword at `start`. -/
def switchStatement (g : Grammar) (ctx : Context) (start : Nat) : Parser Node := do
  let discriminant ← g.condition ctx
  let ctx := ctx.inside
  expect "\x7b"
  let cases ← repeatWhile
    (fun seen => do
      if ← eat "\x7d" then return (seen, false)
      let c ← g.switchCase ctx
      return (c :: seen, true)) []
  nodeFrom start (.switchStatement discriminant cases.reverse)

/-- What handles an exception, after its keyword at `start`. -/
def catchClause (g : Grammar) (ctx : Context) (start : Nat) : Parser Node := do
  if ← eat "(" then
    discard (g.binding ctx)
    expect ")"
  let body ← g.block ctx
  nodeFrom start (.catchClause body)

/-- A statement whose exceptions are handled, after its keyword at `start`. -/
def tryStatement (g : Grammar) (ctx : Context) (start : Nat) : Parser Node := do
  let block ← g.block ctx
  let handlerStart ← here
  let handler ← if ← eatWord "catch" then some <$> g.catchClause ctx handlerStart else pure none
  let finalizer ← if ← eatWord "finally" then some <$> g.block ctx else pure none
  if handler.isNone && finalizer.isNone then unexpected
  nodeFrom start (.tryStatement block handler finalizer)

/-- A statement in the scope of an object, after its keyword at `start`. -/
def withStatement (g : Grammar) (ctx : Context) (start : Nat) : Parser Node := do
  discard (g.condition ctx)
  discard (g.statement ctx .single)
  unsupportedFrom start "WithStatement"

/-! ## Any statement -/

/-- A statement that starts with the keyword or name `name`. -/
def wordStatement (g : Grammar) (ctx : Context) (slot : Slot) (start : Nat) (name : String) :
    Parser Node := do
  match name with
  | "var" => advance; return (← g.declaration ctx slot start .whole).1
  | "const" => advance; return (← g.declaration ctx slot start .constant).1
  | "let" => g.letStatement ctx slot
  | "function" => g.functionStatement ctx slot false
  | "class" => g.classStatement ctx slot start
  | "async" =>
    if ← atAsyncFunction then g.functionStatement ctx slot true else g.expressionOrLabel ctx
  | "using" | "await" =>
    if ← atResource ctx then g.resourceStatement ctx slot else g.expressionOrLabel ctx
  | "import" =>
    let next ← peek
    if isPunctuator next "(" || isPunctuator next "." then g.expressionOrLabel ctx
    else
      advance
      importTail ctx
      unsupportedFrom start "ImportDeclaration"
  | "export" => g.exportStatement ctx
  | "if" => advance; g.ifStatement ctx start
  | "for" => advance; g.forStatement ctx start
  | "while" => advance; g.whileStatement ctx start
  | "do" => advance; g.doWhileStatement ctx start
  | "continue" => advance; jumpStatement ctx start .continueStatement
  | "break" => advance; jumpStatement ctx start .breakStatement
  | "return" => advance; g.returnStatement ctx start
  | "throw" => advance; g.throwStatement ctx start
  | "switch" => advance; g.switchStatement ctx start
  | "try" => advance; g.tryStatement ctx start
  | "with" => advance; g.withStatement ctx start
  | "debugger" =>
    advance
    semicolon
    nodeFrom start .debuggerStatement
  | _ => g.expressionOrLabel ctx

/-- Any statement. -/
def statementPart (g : Grammar) (ctx : Context) (slot : Slot) : Parser Node := do
  let t ← token
  match t.lexeme with
  | .punctuator "\x7b" => g.block ctx
  | .punctuator ";" =>
    advance
    nodeFrom t.start .emptyStatement
  | .punctuator "@" => g.decoratedStatement ctx slot
  | .word name false => g.wordStatement ctx slot t.start name
  | _ => g.expressionOrLabel ctx

end SizeAtlas.Script.Grammar
