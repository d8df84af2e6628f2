import SizeAtlas.Script.Parser.Phrase

/-!
# Names and patterns that are bound

What a variable, a parameter or a caught value is bound to: a name, or a
pattern of names, each perhaps with a default.  Of a pattern only the names are
kept, since its bytes belong to what declares it.

## Main definitions

* `Grammar.bindingPart` — a name or pattern.
* `Grammar.bindingElement` — one with perhaps a default.
* `Grammar.parameters` — the parameters of a function.
-/

namespace SizeAtlas.Script.Grammar

open SizeAtlas.Script.Parser

/-- The default after an equals sign, if there is one. -/
def skipDefault (g : Grammar) (ctx : Context) : Parser Unit := do
  if ← eat "=" then discard (g.plainAssignment ctx.inside)

/-- The names in a name or pattern with perhaps a default. -/
def bindingElement (g : Grammar) (ctx : Context) : Parser (List String) := do
  let bound ← g.binding ctx
  g.skipDefault ctx
  return bound.names

/-- The names in a list pattern after its opening bracket. -/
def listPattern (g : Grammar) (ctx : Context) : Parser (List String) :=
  repeatWhile
    (fun names => do
      if ← eat "]" then return (names, false)
      if ← eat "," then return (names, true)
      if ← eat "..." then
        let bound ← g.binding ctx
        expect "]"
        return (names ++ bound.names, false)
      let names := names ++ (← g.bindingElement ctx)
      if ← eat "," then return (names, true)
      expect "]"
      return (names, false)) []

/-- The names bound under one key of an object pattern.  A name that is a key only
needs a colon after it. -/
def propertyPattern (g : Grammar) (ctx : Context) : Parser (List String) := do
  let t ← token
  match t.lexeme with
  | .word name _ =>
    advance
    if ← eat ":" then g.bindingElement ctx
    else if mayName ctx name then
      g.skipDefault ctx
      return [name]
    else unexpected
  | .text | .number =>
    advance
    expect ":"
    g.bindingElement ctx
  | _ =>
    expect "["
    discard (g.plainAssignment ctx.inside)
    expect "]"
    expect ":"
    g.bindingElement ctx

/-- The names in an object pattern after its opening brace. -/
def objectPattern (g : Grammar) (ctx : Context) : Parser (List String) :=
  repeatWhile
    (fun names => do
      if ← eat "\x7d" then return (names, false)
      if ← eat "..." then
        let id ← identifier ctx
        expect "\x7d"
        return (names ++ [id.name], false)
      let names := names ++ (← g.propertyPattern ctx)
      if ← eat "," then return (names, true)
      expect "\x7d"
      return (names, false)) []

/-- A name or pattern. -/
def bindingPart (g : Grammar) (ctx : Context) : Parser Bound := do
  if ← eat "[" then return { names := ← g.listPattern ctx }
  if ← eat "\x7b" then return { names := ← g.objectPattern ctx }
  let id ← identifier ctx
  return { id := some id, names := [id.name] }

/-- The parameters of a function with their parentheses: how many there are, and
whether the last takes all that is left. -/
def parameters (g : Grammar) (ctx : Context) : Parser (Nat × Bool) := do
  expect "("
  repeatWhile
    (fun (count, _) => do
      if ← eat ")" then return ((count, false), false)
      if ← eat "..." then
        discard (g.binding ctx)
        expect ")"
        return ((count + 1, true), false)
      discard (g.bindingElement ctx)
      if ← eat "," then return ((count + 1, false), true)
      expect ")"
      return ((count + 1, false), false)) (0, false)

end SizeAtlas.Script.Grammar
