import SizeAtlas.Script.Parser.Function

/-!
# Properties and classes

The members of object literals and of classes.  A class is read to its end, but
nothing of it is kept.

## Main definitions

* `Grammar.propertyKey` — the key of a member.
* `Grammar.objectMember`, `Grammar.objectLiteral` — object literals.
* `Grammar.decorators` — what stands before a class or a member of one.
* `Grammar.classTail` — a class after its keyword.
-/

namespace SizeAtlas.Script.Grammar

open SizeAtlas.Script.Parser

/-! ## Keys -/

/-- The key of a member: a word, a number, a text, or an expression between
brackets. -/
def propertyKey (g : Grammar) (ctx : Context) : Parser Node := do
  let t ← token
  match t.lexeme with
  | .word name _ =>
    advance
    nodeFrom t.start (.identifier name)
  | .text | .number =>
    advance
    nodeFrom t.start .literal
  | _ =>
    expect "["
    let node ← g.plainAssignment ctx.inside
    expect "]"
    return node

/-- What stands before the key of a member. -/
structure Modifiers where
  /-- Whether the member is an asynchronous method. -/
  async : Bool := false
  /-- Whether the member is a generator. -/
  generator : Bool := false
  /-- What kind of method the member is. -/
  kind : MethodKind := .plain
  deriving DecidableEq, Repr, Inhabited

/-- Whether there are any modifiers, so that a method must follow. -/
def Modifiers.any (m : Modifiers) : Bool := m != {}

/-- Whether the key of a member can start with a token. -/
def startsKey (t : Token) : Bool :=
  match t.lexeme with
  | .word _ _ | .privateName _ | .text | .number | .punctuator "[" => true
  | _ => false

/-- The modifiers before the key of a member.  A word is none if no key follows
it. -/
def modifiers : Parser Modifiers := do
  if ← eat "*" then return { generator := true }
  let next ← peek
  if ← atWord "async" then
    if next.startsLine || !(startsKey next || isPunctuator next "*") then return {}
    advance
    return { async := true, generator := ← eat "*" }
  if startsKey next then
    if ← eatWord "get" then return { kind := .getter }
    if ← eatWord "set" then return { kind := .setter }
  return {}

/-! ## Object literals -/

/-- A member of an object literal, with what it adds to a pattern. -/
structure Member where
  /-- The member. -/
  node : Node
  /-- Whether an object with it can be taken apart. -/
  isElement : Bool := false
  /-- Whether an object with it can be bound. -/
  isParameter : Bool := false
  /-- Whether it is only allowed in a pattern. -/
  pending : Bool := false
  /-- Whether it takes all that is left. -/
  rest : Bool := false
  deriving Inhabited

/-- A member that takes over the members of another object. -/
def spreadMember (g : Grammar) (ctx : Context) (start : Nat) : Parser Member := do
  let p ← g.assignment ctx.inside
  discard p.plain
  let node ← unsupportedFrom start "SpreadElement"
  return {
    node
    isElement := p.target == .simple
    isParameter := p.isBinding && p.target == .simple
    rest := true }

/-- A member that is named like the variable it holds, perhaps with a default in
case the object turns out to be a pattern. -/
def shorthandMember (g : Grammar) (ctx : Context) (start : Nat) (key : Node) :
    Parser Member := do
  let value : Node := .mk key.start key.stop key.form
  let pending ← eat "="
  if pending then discard (g.plainAssignment ctx.inside)
  let node ← nodeFrom start (.property none value)
  return { node, isElement := true, isParameter := true, pending }

/-- A member of an object literal. -/
def objectMember (g : Grammar) (ctx : Context) : Parser Member := do
  let start ← here
  if ← eat "..." then return ← g.spreadMember ctx start
  let m ← modifiers
  let named := isName ctx (← token)
  let key ← g.propertyKey ctx
  if m.any || (← atPunctuator "(") then
    let value ← g.method m.kind m.generator m.async
    return { node := ← nodeFrom start (.property (some key) value) }
  if ← eat ":" then
    let p ← g.assignment ctx.inside
    let node ← nodeFrom start (.property (some key) p.node)
    return {
      node
      isElement := p.isElement
      isParameter := p.isParameter
      pending := p.pending }
  unless named do unexpected
  g.shorthandMember ctx start key

/-- Whether the parts of a list or object literal make up a pattern: each fits,
and only the last may take all that is left, with no comma after it. -/
def fitPattern {α : Type} (fits rest : α → Bool) (comma : Bool) : List α → Bool
  | [] => true
  | [a] => fits a && !(rest a && comma)
  | a :: as => fits a && !rest a && fitPattern fits rest comma as

/-- The members of an object literal after its opening brace, and whether there
is a comma after the last. -/
def objectMembers (g : Grammar) (ctx : Context) : Parser (List Member × Bool) := do
  let (members, comma) ← repeatWhile
    (fun (seen, comma) => do
      if ← eat "\x7d" then return ((seen, comma), false)
      let member ← g.objectMember ctx
      if ← eat "," then return ((member :: seen, true), true)
      expect "\x7d"
      return ((member :: seen, false), false)) ([], false)
  return (members.reverse, comma)

/-- An object literal after its opening brace at `start`. -/
def objectLiteral (g : Grammar) (ctx : Context) (start : Nat) : Parser Phrase := do
  let (members, comma) ← g.objectMembers ctx
  let node ← nodeFrom start (.objectExpression (members.map Member.node))
  let isElement := fitPattern Member.isElement Member.rest comma members
  let isParameter := fitPattern Member.isParameter Member.rest comma members
  return {
    node
    target := if isElement then .pattern else .none
    isElement
    isBinding := isParameter
    isParameter
    pending := members.any Member.pending }

/-! ## Classes -/

/-- Passes the decorators that stand here, and tells whether there are any. -/
def decorators (g : Grammar) (ctx : Context) : Parser Bool :=
  repeatWhile
    (fun found => do
      unless ← eat "@" do return (found, false)
      discard (← g.leftHandSide { ctx with indexable := false }).plain
      return (true, true)) false

/-- What stands before the modifiers of a member of a class. -/
structure MemberMarks where
  /-- Whether there are decorators. -/
  decorated : Bool := false
  /-- Whether the member belongs to the class itself. -/
  isStatic : Bool := false
  /-- Whether the member is a field behind a getter and a setter. -/
  accessor : Bool := false
  deriving DecidableEq, Repr, Inhabited

/-- Whether a member of a class may be called `name`.  What makes its objects is a
method without modifiers or decorators, and a class has its own prototype. -/
def allowsName (marks : MemberMarks) (m : Modifiers) (isField : Bool) (name : List Nat) : Bool :=
  if name == unitsOf "constructor" then
    !isField && (marks.isStatic || !(m.any || marks.decorated))
  else !(marks.isStatic && name == unitsOf "prototype")

/-- The key of a member of a class, which may also be private.  Gives what the
member is called, unless that is only computed. -/
def classKey (g : Grammar) (ctx : Context) : Parser (Option (List Nat)) := do
  match (← token).lexeme with
  | .privateName name =>
    if name == "constructor" then unexpected
    advance
    return none
  | _ =>
    let name ← nameUnits?
    discard (g.propertyKey ctx)
    return name

/-- A member of a class after its modifiers: a method, or a field with perhaps a
value. -/
def classElement (g : Grammar) (ctx : Context) (marks : MemberMarks) (m : Modifiers) :
    Parser Unit := do
  let name ← g.classKey ctx
  let isField := !(m.any || (← atPunctuator "("))
  unless name.all (allowsName marks m isField) do fail "invalid name of a member"
  if isField then
    if ← eat "=" then discard (g.plainAssignment {})
    semicolon
  else
    if marks.accessor then unexpected
    discard (g.method m.kind m.generator m.async)

/-- Statements that run when a class is made, after their opening brace. -/
def staticBlock (g : Grammar) : Parser Unit :=
  discard (g.statementsToBrace { async := true, nested := true })

/-- A member of a class. -/
def classMember (g : Grammar) (ctx : Context) : Parser Unit := do
  let decorated ← g.decorators ctx
  let next ← peek
  let isStatic :=
    isWord (← token) "static" && (startsKey next || ["*", "\x7b"].any (isPunctuator next))
  if isStatic then advance
  if isStatic && !decorated then
    if ← eat "\x7b" then return ← g.staticBlock
  let next ← peek
  let accessor := isWord (← token) "accessor" && startsKey next && !next.startsLine
  if accessor then advance
  g.classElement ctx { decorated, isStatic, accessor } (← modifiers)

/-- A class after its keyword, and its name if it has one; a declared one has. -/
def classTail (g : Grammar) (ctx : Context) (declared : Bool) : Parser (Option String) := do
  let t ← token
  let named := isName ctx t && t.lexeme != .word "implements" false
  if declared && !named then unexpected
  let name ← if named then some <$> identifier ctx else pure none
  if ← eatWord "extends" then
    discard (← g.leftHandSide ctx).plain
  expect "\x7b"
  repeatWhile
    (fun _ => do
      if ← eat "\x7d" then return ((), false)
      unless ← eat ";" do g.classMember ctx
      return ((), true)) ()
  return name.map (·.name)

end SizeAtlas.Script.Grammar
