import SizeAtlas.Script.Parser.Property

/-!
# Expressions without operators

Literals, names, parentheses, functions, and what is called, indexed or made
from them.

## Main definitions

* `Grammar.primary` — an expression that starts with none.
* `Grammar.parentheses` — an expression between parentheses, or the parameters
  before an arrow.
* `Grammar.arguments` — the arguments of a call.
* `Grammar.template` — a template.
* `Grammar.leftHandSideFrom` — members, calls and templates after an expression.
* `Grammar.newExpression` — what `new` makes.
-/

namespace SizeAtlas.Script.Grammar

open SizeAtlas.Script.Parser

/-! ## Arrows -/

/-- Whether an arrow stands here, on the same line as what is before it. -/
def atArrow : Parser Bool := do
  let t ← token
  return isPunctuator t "=>" && !t.startsLine

/-- A phrase that can only stand before an arrow. -/
def arrowHead (start : Nat) : Parser Phrase := do
  unless ← atArrow do unexpected
  return { node := ← unsupportedFrom start "ArrowFunctionExpression", isArrowHead := true }

/-! ## Parentheses -/

/-- What stands between parentheses. -/
structure Enclosed where
  /-- The expressions, newest first. -/
  phrases : List Phrase := []
  /-- Whether there is something that only parameters may have. -/
  onlyParameters : Bool := false
  deriving Inhabited

/-- The inside of parentheses up to the closing one, which is passed, and the
offset after the last expression. -/
def enclosed (g : Grammar) (ctx : Context) : Parser (Enclosed × Nat) := do
  repeatWhile
    (fun (inside, stop) => do
      if ← eat ")" then return (({ inside with onlyParameters := true }, stop), false)
      if ← eat "..." then
        discard (g.binding ctx)
        expect ")"
        return (({ inside with onlyParameters := true }, stop), false)
      let p ← g.assignment ctx
      let stop ← lastStop
      let inside := { inside with phrases := p :: inside.phrases }
      if ← eat "," then return ((inside, stop), true)
      expect ")"
      return ((inside, stop), false)) ({}, 0)

/-- What stands between parentheses that open at `start` and have been passed:
parameters if an arrow follows, or else an expression. -/
def parentheses (g : Grammar) (ctx : Context) (start : Nat) : Parser Phrase := do
  let first ← here
  let (inside, stop) ← g.enclosed ctx.inside
  if inside.onlyParameters || (← atArrow) then
    unless inside.phrases.all Phrase.isParameter do unexpected
    return ← arrowHead start
  let nodes ← inside.phrases.reverse.mapM Phrase.plain
  match inside.phrases with
  | [p] => return p.parenthesized
  | _ => return .ofNode (.mk first stop (.sequenceExpression nodes))

/-! ## Lists -/

/-- A part of a list literal: nothing, an expression, or all that another list
holds. -/
structure Part where
  /-- The expression, if there is one. -/
  node : Option Node := none
  /-- Whether a list with it can be taken apart. -/
  isElement : Bool := true
  /-- Whether a list with it can be bound. -/
  isParameter : Bool := true
  /-- Whether it is only allowed in a pattern. -/
  pending : Bool := false
  /-- Whether it takes all that is left. -/
  rest : Bool := false
  deriving Inhabited

/-- A part of a list literal that is not left out. -/
def listPart (g : Grammar) (ctx : Context) : Parser Part := do
  let start ← here
  if ← eat "..." then
    let p ← g.assignment ctx
    let node ← unsupportedFrom start "SpreadElement"
    return {
      node := some node
      isElement := p.target != .none
      isParameter := p.isBinding
      pending := p.pending
      rest := true }
  let p ← g.assignment ctx
  return {
    node := some p.node
    isElement := p.isElement
    isParameter := p.isParameter
    pending := p.pending }

/-- A list literal after its opening bracket at `start`. -/
def listLiteral (g : Grammar) (ctx : Context) (start : Nat) : Parser Phrase := do
  let (parts, comma) ← repeatWhile
    (fun (seen, _) => do
      if ← eat "]" then return ((seen, true), false)
      if ← eat "," then return (({} :: seen, true), true)
      let part ← g.listPart ctx.inside
      if ← eat "," then return ((part :: seen, true), true)
      expect "]"
      return ((part :: seen, false), false)) (([] : List Part), false)
  let parts := parts.reverse
  let node ← nodeFrom start (.arrayExpression (parts.filterMap Part.node))
  let isElement := fitPattern Part.isElement Part.rest comma parts
  let isParameter := fitPattern Part.isParameter Part.rest comma parts
  return {
    node
    target := if isElement then .pattern else .none
    isElement
    isBinding := isParameter
    isParameter
    pending := parts.any Part.pending }

/-! ## Templates -/

/-- The expressions of a template up to the closing brace behind the last of them,
which is read anew as a piece of the template. -/
def substitution (g : Grammar) (ctx : Context) : Parser Unit := do
  repeatWhile
    (fun _ => do
      discard (g.plainExpression ctx.inside)
      return ((), !(← atPunctuator "\x7d"))) ()
  rereadTemplate

/-- A template whose first piece stands here.  Its escapes must be valid unless
it is handed to a function. -/
def template (g : Grammar) (ctx : Context) (tagged : Bool) : Parser Unit :=
  repeatWhile
    (fun _ => do
      match (← token).lexeme with
      | .template last valid =>
        unless valid || tagged do fail "invalid escape"
        advance
        unless last do g.substitution ctx
        return ((), !last)
      | _ => unexpected) ()

/-- Whether a template starts here. -/
def atTemplate : Parser Bool := do
  match (← token).lexeme with
  | .template _ _ => return true
  | _ => return false

/-! ## Arguments -/

/-- An argument of a call, which may stand for several. -/
def argument (g : Grammar) (ctx : Context) : Parser Node := do
  let start ← here
  if ← eat "..." then
    discard (g.plainAssignment ctx)
    return ← unsupportedFrom start "SpreadElement"
  g.plainAssignment ctx

/-- The arguments of a call after the opening parenthesis. -/
def arguments (g : Grammar) (ctx : Context) : Parser (List Node) :=
  commaSeparated ")" (g.argument ctx.inside)

/-! ## Names and keywords -/

/-- Whether a function that starts with the word `async` stands here. -/
def atAsyncFunction : Parser Bool := do
  let next ← peek
  return (← atWord "async") && isWord next "function" && !next.startsLine

/-- A class as an expression, whose keyword stands here.  It starts at `start`, where
its decorators do. -/
def classExpression (g : Grammar) (ctx : Context) (start : Nat) : Parser Phrase := do
  expectWord "class"
  discard (g.classTail ctx false)
  return .ofNode (← unsupportedFrom start "ClassExpression")

/-- What starts with the word `import` at `start`, which has been passed: a call,
perhaps with the phase of loading to stop at, or what is known about the script
itself. -/
def afterImport (g : Grammar) (ctx : Context) (start : Nat) : Parser Phrase := do
  if ← eat "." then
    if ← eatWord "meta" then return .ofNode (← unsupportedFrom start "MetaProperty")
    unless (← eatWord "source") || (← eatWord "defer") do unexpected
  expect "("
  discard (g.plainAssignment ctx.inside)
  if ← eat "," then
    unless ← atPunctuator ")" do
      discard (g.plainAssignment ctx.inside)
      discard (eat ",")
  expect ")"
  return .ofNode (← unsupportedFrom start "ImportExpression")

/-- What starts with the keyword or name `name` at `start`. -/
def wordExpression (g : Grammar) (ctx : Context) (t : Token) (name : String) (escaped : Bool) :
    Parser Phrase := do
  if escaped then
    let id ← identifier ctx
    return .named (.mk id.start id.stop (.identifier id.name))
  match name with
  | "this" =>
    advance
    return .ofNode (← nodeFrom t.start .thisExpression)
  | "null" | "true" | "false" =>
    advance
    return .ofNode (← nodeFrom t.start .literal)
  | "function" =>
    advance
    return .ofNode (← g.function ctx t.start false .value)
  | "class" => g.classExpression ctx t.start
  | "super" =>
    advance
    unless (← atPunctuator ".") || (← atPunctuator "[") || (← atPunctuator "(") do unexpected
    return .ofNode (.mk t.start t.stop (.unsupported "Super"))
  | "import" =>
    advance
    g.afterImport ctx t.start
  | _ =>
    if ← atAsyncFunction then
      advance
      advance
      return .ofNode (← g.function ctx t.start true .value)
    let id ← identifier ctx
    return .named (.mk id.start id.stop (.identifier id.name))

/-- An expression that starts with no other expression. -/
def primary (g : Grammar) (ctx : Context) : Parser Phrase := do
  let t ← token
  match t.lexeme with
  | .word name escaped => g.wordExpression ctx t name escaped
  | .number | .text | .pattern =>
    advance
    return .ofNode (← nodeFrom t.start .literal)
  | .punctuator "@" =>
    discard (g.decorators ctx)
    g.classExpression ctx t.start
  | .template _ _ =>
    g.template ctx false
    return .ofNode (← unsupportedFrom t.start "TemplateLiteral")
  | .punctuator "(" =>
    advance
    g.parentheses ctx t.start
  | .punctuator "[" =>
    advance
    g.listLiteral ctx t.start
  | .punctuator "\x7b" =>
    advance
    g.objectLiteral ctx t.start
  | .punctuator "/" | .punctuator "/=" =>
    rereadPattern
    advance
    return .ofNode (← nodeFrom t.start .literal)
  | _ => unexpected

/-! ## Members and calls -/

/-- An expression with members and calls after it. -/
structure Chain where
  /-- The expression so far. -/
  phrase : Phrase
  /-- Whether a member or call is only tried if there is a value. -/
  isOptional : Bool := false
  deriving Inhabited

/-- The member whose name stands here, of the object at `start`. -/
def namedMember (start : Nat) (object : Node) : Parser Phrase := do
  if (← token).lexeme.isPrivateName then
    advance
    return .simple (← unsupportedFrom start "PrivateFieldExpression")
  let id ← anyWord
  let key : Node := .mk id.start id.stop (.identifier id.name)
  return .simple (← nodeFrom start (.memberExpression object key))

/-- The member between brackets, the first of which has been passed. -/
def computedMember (g : Grammar) (ctx : Context) (start : Nat) (object : Node) :
    Parser Phrase := do
  let key ← g.plainExpression ctx.inside
  expect "]"
  return .simple (← nodeFrom start (.memberExpression object key))

/-- A call, whose opening parenthesis has been passed. -/
def call (g : Grammar) (ctx : Context) (start : Nat) (callee : Node) : Parser Phrase := do
  let arguments ← g.arguments ctx
  return .ofNode (← nodeFrom start (.callExpression callee arguments))

/-- What follows the mark that makes a member or call optional. -/
def optionalPart (g : Grammar) (ctx : Context) (start : Nat) (object : Node) : Parser Phrase := do
  if ← eat "(" then g.call ctx start object
  else if ← eat "[" then g.computedMember ctx start object
  else namedMember start object

/-- One more member, call or template after an expression that starts at
`start`; calls and optional parts only where `calls` allows them. -/
def extendChain (g : Grammar) (ctx : Context) (start : Nat) (calls : Bool) (c : Chain) :
    Parser (Chain × Bool) := do
  if ← eat "." then
    let object ← c.phrase.plain
    return ({ c with phrase := ← namedMember start object }, true)
  if ctx.indexable && (← atPunctuator "[") then
    advance
    let object ← c.phrase.plain
    return ({ c with phrase := ← g.computedMember ctx start object }, true)
  if ← atTemplate then
    if c.isOptional then unexpected
    discard c.phrase.plain
    g.template ctx true
    return ({ c with phrase := .ofNode (← unsupportedFrom start "TaggedTemplateExpression") }, true)
  if ← atPunctuator "?." then
    unless calls do unexpected
    advance
    let object ← c.phrase.plain
    return ({ phrase := ← g.optionalPart ctx start object, isOptional := true }, true)
  if calls && (← atPunctuator "(") then
    advance
    let callee ← c.phrase.plain
    return ({ c with phrase := ← g.call ctx start callee }, true)
  return (c, false)

/-- The members, calls and templates after an expression that starts at
`start`. -/
def leftHandSideFrom (g : Grammar) (ctx : Context) (start : Nat) (calls : Bool) (p : Phrase) :
    Parser Phrase := do
  let c ← repeatWhile (g.extendChain ctx start calls) { phrase := p }
  if c.isOptional then return .ofNode (← unsupportedFrom start "ChainExpression")
  return c.phrase

/-! ## New objects -/

/-- What `new` at `start` makes, after the word has been passed.  It cannot be made
from a loaded script itself, unless there are parentheses around it. -/
def newExpression (g : Grammar) (ctx : Context) (start : Nat) : Parser Phrase := do
  if ← eat "." then
    expectWord "target"
    return .ofNode (← unsupportedFrom start "MetaProperty")
  let loads ← atWord "import"
  let callee ← (← g.newOperand ctx).plain
  if let .unsupported "ImportExpression" := callee.form then
    if loads then unexpected
  let arguments ← if ← eat "(" then g.arguments ctx else pure []
  return .ofNode (← nodeFrom start (.newExpression callee arguments))

/-- What `new` makes, or an expression that starts with none. -/
def head (g : Grammar) (ctx : Context) : Parser Phrase := do
  let start ← here
  if ← eatWord "new" then g.newExpression ctx start else g.primary ctx

/-- What stands before the arguments of `new`, which are not part of it. -/
def newOperandPart (g : Grammar) (ctx : Context) : Parser Phrase := do
  let start ← here
  let p ← g.head ctx
  g.leftHandSideFrom ctx start false p

/-- An expression without operators. -/
def leftHandSidePart (g : Grammar) (ctx : Context) : Parser Phrase := do
  let start ← here
  let p ← g.head ctx
  g.leftHandSideFrom ctx start true p

end SizeAtlas.Script.Grammar
