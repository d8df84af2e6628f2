import SizeAtlas.Script.Parser.Declaration
import SizeAtlas.Script.Parser.Primary

/-!
# Imports and exports

The statements by which scripts exchange what they declare.  They are read to
their ends, but of them only the names are kept under which something is offered,
since none may be offered twice.

## Main definitions

* `offer` — notes a name under which something is offered.
* `Grammar.importTail` — an import after its keyword.
* `Grammar.exportTail` — an export after its keyword.
-/

namespace SizeAtlas.Script.Grammar

open SizeAtlas.Script.Parser

/-! ## Names -/

/-- Notes that the script offers something under a name, which must be new. -/
def offer (name : List Nat) : Parser Unit := do
  let s ← get
  if s.exported.contains name then fail "name exported twice"
  set { s with exported := name :: s.exported }

/-- The name of something that another script knows. -/
structure ExchangedName where
  /-- The units of the name. -/
  units : List Nat
  /-- The name as a word, if it is one. -/
  word : Option String
  deriving DecidableEq, Repr, Inhabited

/-- Passes the name of something that another script knows: any word, or a text of
whole characters. -/
def exchangedName : Parser ExchangedName := do
  let some units ← nameUnits? | unexpected
  let t ← token
  unless areWhole units do fail "half of a character"
  advance
  match t.lexeme with
  | .word name _ => return { units, word := some name }
  | _ => return { units, word := none }

/-- Whether something imported under a name can have the same name here. -/
def ExchangedName.isImportable (n : ExchangedName) : Bool :=
  n.word.any fun name => !isReserved name && !isOperatorWord name

/-- Whether something exported under a name can have the same name here. -/
def ExchangedName.isExportable (n : ExchangedName) : Bool :=
  n.isImportable && !n.word.any isStrictWord

/-! ## The other script -/

/-- Passes a text, which must stand here. -/
def passText : Parser Unit := do
  if (← token).lexeme == .text then advance else unexpected

/-- Passes a property that an import demands, whose key is none of `seen`, and adds
its key to them. -/
def importAttribute (seen : List (List Nat)) : Parser (List (List Nat)) := do
  let some key ← nameUnits? | unexpected
  if seen.contains key then fail "repeated key"
  advance
  expect ":"
  passText
  return key :: seen

/-- Passes the properties that an import demands, if there are any. -/
def importAttributes : Parser Unit := do
  if (← atWord "with") || ((← atWord "assert") && !(← token).startsLine) then
    advance
    expect "\x7b"
    discard (repeatWhile
      (fun seen => do
        if ← eat "\x7d" then return (seen, false)
        let seen ← importAttribute seen
        if ← eat "," then return (seen, true)
        expect "\x7d"
        return (seen, false)) [])

/-- Passes the name of another script and what is demanded of it. -/
def origin : Parser Unit := do
  passText
  importAttributes

/-! ## Imports -/

/-- Passes one name of an import, perhaps with the name it has here. -/
def importedName (ctx : Context) : Parser Unit := do
  let name ← exchangedName
  if ← eatWord "as" then discard (identifier ctx)
  else unless name.isImportable do unexpected

/-- Passes all names of an import but the first. -/
def importedNames (ctx : Context) : Parser Unit := do
  if ← eat "*" then
    expectWord "as"
    discard (identifier ctx)
  else
    expect "\x7b"
    discard (commaSeparated "\x7d" (importedName ctx))

/-- Whether the name that stands here is that of a script whose source is imported,
after the word `source`. -/
def atSource (ctx : Context) : Parser Bool := do
  let next ← peek
  return isName ctx (← token) && (!(← atWord "from") || isWord next "from")

/-- Passes the names of an import that starts with a name. -/
def namedImport (ctx : Context) : Parser Unit := do
  let first ← identifier ctx
  if first.name == "defer" && (← atPunctuator "*") then importedNames ctx
  else if first.name == "source" && (← atSource ctx) then discard (identifier ctx)
  else if ← eat "," then importedNames ctx

/-- The rest of an import after its keyword. -/
def importTail (ctx : Context) : Parser Unit := do
  let t ← token
  unless t.lexeme == .text do
    if isName ctx t then namedImport ctx else importedNames ctx
    expectWord "from"
  origin
  semicolon

/-! ## Exports -/

/-- Passes one name of an export, perhaps with the name it gets, and gives the
first. -/
def exportedName : Parser ExchangedName := do
  let name ← exchangedName
  let offered ← if ← eatWord "as" then exchangedName else pure name
  offer offered.units
  return name

/-- Whether a literal other than a template stands here. -/
def atLiteral : Parser Bool := do
  match (← token).lexeme with
  | .text | .number | .word "null" _ | .word "true" _ | .word "false" _ => return true
  | _ => return false

/-- The rest of an export of names after its opening brace.  What names nothing
here must come from another script. -/
def exportedNames : Parser Unit := do
  let names ← commaSeparated "\x7d" exportedName
  if (← eatWord "from") && (← atLiteral) then origin
  else unless names.all ExchangedName.isExportable do unexpected
  semicolon

/-- The rest of the export of a single value. -/
def exportedValue (g : Grammar) (ctx : Context) : Parser Unit := do
  let start ← here
  let decorated ← g.decorators ctx
  if ← eatWord "class" then discard (g.classTail ctx false)
  else if decorated then unexpected
  else if ← eatWord "function" then discard (g.function ctx start false .exported)
  else if ← atAsyncFunction then
    advance
    advance
    discard (g.function ctx start true .exported)
  else
    discard (g.plainAssignment ctx)
    semicolon

/-- The names that an exported declaration, which stands here, declares. -/
def exportedDeclaration (g : Grammar) (ctx : Context) : Parser (List String) := do
  let start ← here
  let decorated ← g.decorators ctx
  if ← eatWord "class" then return (← g.classTail ctx true).toList
  if decorated then unexpected
  let async ← atAsyncFunction
  if async then advance
  if ← eatWord "function" then
    match (← g.function ctx start async .declaration).form with
    | .functionDeclaration (some id) _ => return [id.name]
    | _ => return []
  match (← token).lexeme with
  | .word name false =>
    match VariableKind.ofWord? name with
    | none | some .resource => unexpected
    | some kind =>
      advance
      return (← g.declaration ctx .list start kind).2
  | _ => unexpected

/-- The rest of an export after its keyword. -/
def exportTail (g : Grammar) (ctx : Context) : Parser Unit := do
  if ← eat "*" then
    if ← eatWord "as" then offer (← exchangedName).units
    expectWord "from"
    origin
    semicolon
  else if ← eat "\x7b" then exportedNames
  else if ← eatWord "default" then
    offer (unitsOf "default")
    g.exportedValue ctx
  else (← g.exportedDeclaration ctx).forM fun name => offer (unitsOf name)

end SizeAtlas.Script.Grammar
