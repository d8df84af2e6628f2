import SizeAtlas.Script.Node
import SizeAtlas.Script.Units

/-!
# The state of a parser

A parser stands at a token and knows what follows it and where the token before
it ended.  It goes on token by token; where the grammar asks for it, the token
it stands at is read anew as a regular expression or as a piece of a template.

## Main definitions

* `Parser` — a step of the grammar: a result and the state after it, or a fault.
* `advance`, `peek` — going on, and looking further.
* `firstOf`, `glimpse` — trying what may be at fault.
* `atPunctuator`, `atWord`, `expect`, `semicolon` — what stands here.
* `repeatWhile` — a step repeated as long as it asks for it.
* `Context` — what the surroundings allow.
-/

namespace SizeAtlas.Script

/-- Where a parser stands. -/
structure State where
  /-- The token it stands at. -/
  token : Token
  /-- The place of the token. -/
  here : Spot
  /-- The place after the token. -/
  next : Spot
  /-- The offset after the token before. -/
  lastStop : Nat
  /-- More than the number of characters of the script. -/
  limit : Nat
  /-- The names under which the script has offered something so far. -/
  exported : List (List Nat) := []

/-- A step of the grammar. -/
abbrev Parser (α : Type) := StateT State (Except Fault) α

/-- What the surroundings allow. -/
structure Context where
  /-- Whether the word `in` is an operator. -/
  allowsIn : Bool := true
  /-- Whether the surrounding function is a generator. -/
  generator : Bool := false
  /-- Whether the word `await` is an operator, as in asynchronous functions. -/
  async : Bool := false
  /-- Whether there is a surrounding function. -/
  function : Bool := false
  /-- Whether there is a surrounding block, loop or function. -/
  nested : Bool := false
  /-- Whether a bracket behind an expression belongs to it. -/
  indexable : Bool := true
  deriving DecidableEq, Repr, Inhabited

/-- The surroundings between brackets of any kind. -/
def Context.inside (ctx : Context) : Context :=
  { ctx with allowsIn := true, nested := true, indexable := true }

namespace Parser

/-! ## Standing and going -/

/-- The token that the parser stands at. -/
def token : Parser Token := do return (← get).token

/-- The offset of the token that the parser stands at. -/
def here : Parser Nat := do return (← token).start

/-- The offset after the last token that was passed. -/
def lastStop : Parser Nat := do return (← get).lastStop

/-- The fault of a script that cannot go on from here, for the given reason. -/
def fail {α : Type} (reason : String) : Parser α := do
  let s ← get
  throw (s.here.fault reason)

/-- The fault of a script that cannot go on with the token that stands here. -/
def unexpected {α : Type} : Parser α := fail "unexpected token"

/-- The token after the one that stands here, which need not turn out to be one. -/
def peek : Parser Token := do
  let s ← get
  return glanceToken s.limit s.next

/-- Goes on to the next token. -/
def advance : Parser Unit := do
  let s ← get
  let (space, startsLine) ← skipTrivia s.limit s.next false
  let (token, next) ← nextToken s.limit space startsLine
  set { s with token, here := space, next, lastStop := s.token.stop }

/-- A node from `start` to the end of the last token that was passed. -/
def nodeFrom (start : Nat) (form : Form Node) : Parser Node := do
  return .mk start (← lastStop) form

/-- A node for syntax that cannot be attributed. -/
def unsupportedFrom (start : Nat) (kind : String) : Parser Node :=
  nodeFrom start (.unsupported kind)

/-! ## Trying -/

/-- The result of `p`, or of `q` from the same place if `p` is at fault. -/
def firstOf {α : Type} (p q : Parser α) : Parser α := fun s =>
  match p s with
  | .ok result => .ok result
  | .error _ => q s

/-- What `p` finds from here on, if it is not at fault, without going on. -/
def glimpse {α : Type} (p : Parser α) : Parser (Option α) := fun s =>
  match p s with
  | .ok (a, _) => .ok (some a, s)
  | .error _ => .ok (none, s)

/-! ## What stands here -/

/-- Whether a token is the punctuator `text`. -/
def isPunctuator (t : Token) (text : String) : Bool := t.lexeme == .punctuator text

/-- Whether a token is the word `name`, written without escapes. -/
def isWord (t : Token) (name : String) : Bool := t.lexeme == .word name false

/-- Whether the punctuator `text` stands here. -/
def atPunctuator (text : String) : Parser Bool := do return isPunctuator (← token) text

/-- Whether the word `name` stands here, written without escapes. -/
def atWord (name : String) : Parser Bool := do return isWord (← token) name

/-- Passes the punctuator `text` if it stands here. -/
def eat (text : String) : Parser Bool := do
  let found ← atPunctuator text
  if found then advance
  return found

/-- Passes the punctuator `text`, which must stand here. -/
def expect (text : String) : Parser Unit := do
  unless ← eat text do unexpected

/-- Passes the word `name` if it stands here. -/
def eatWord (name : String) : Parser Bool := do
  let found ← atWord name
  if found then advance
  return found

/-- Passes the word `name`, which must stand here. -/
def expectWord (name : String) : Parser Unit := do
  unless ← eatWord name do unexpected

/-- Whether a statement may end before a token without a semicolon. -/
def endsStatement (t : Token) : Bool :=
  t.startsLine || t.lexeme == .finish || isPunctuator t "\x7d"

/-- Passes the semicolon of a statement, or does without one where that is
allowed. -/
def semicolon : Parser Unit := do
  unless ← eat ";" do
    unless endsStatement (← token) do fail "missing semicolon"

/-! ## Names -/

/-- Whether the word `name` may name something. -/
def mayName (ctx : Context) (name : String) : Bool :=
  !isReserved name && !(ctx.generator && name == "yield") && !(ctx.async && name == "await")

/-- Whether a token is a word that may name something. -/
def isName (ctx : Context) (t : Token) : Bool :=
  match t.lexeme with
  | .word name _ => mayName ctx name
  | _ => false

/-- The identifier that stands here, which may not be a keyword. -/
def identifier (ctx : Context) : Parser Identifier := do
  let t ← token
  match t.lexeme with
  | .word name _ =>
    if mayName ctx name then
      advance
      return ⟨name, t.start, t.stop⟩
    else unexpected
  | _ => unexpected

/-- The units of the name that stands here as a word or in quotation marks. -/
def nameUnits? : Parser (Option (List Nat)) := do
  let s ← get
  match s.token.lexeme, s.here.rest with
  | .word name _, _ => return some (unitsOf name)
  | .text, quote :: _ => return some (literalUnits quote s.limit (s.here.skip 1))
  | _, _ => return none

/-- The word that stands here, which may be a keyword. -/
def anyWord : Parser Identifier := do
  let t ← token
  match t.lexeme with
  | .word name _ =>
    advance
    return ⟨name, t.start, t.stop⟩
  | _ => unexpected

/-! ## Repetition -/

/-- Repeats `step` on its own results as long as it asks for it, at most `fuel`
times. -/
def repeatUpTo {α : Type} (step : α → Parser (α × Bool)) : (fuel : Nat) → α → Parser α
  | 0, _ => fail "unexpected end"
  | fuel + 1, a => do
    let (a', again) ← step a
    if again then repeatUpTo step fuel a' else return a'

/-- Repeats `step` on its own results as long as it asks for it.  Each round but
the last passes a token, so that there are no more rounds than characters. -/
def repeatWhile {α : Type} (step : α → Parser (α × Bool)) (a : α) : Parser α := do
  repeatUpTo step (← get).limit a

/-- The results of `item` up to the punctuator `closing`, which is passed, with a
comma between any two and perhaps one after the last. -/
def commaSeparated {α : Type} (closing : String) (item : Parser α) : Parser (List α) := do
  let items ← repeatWhile
    (fun seen => do
      if ← eat closing then return (seen, false)
      let a ← item
      if ← eat "," then return (a :: seen, true)
      expect closing
      return (a :: seen, false)) []
  return items.reverse

/-! ## Reading anew -/

/-- Reads the token that stands here, a slash or one with an equals sign, as a
regular expression. -/
def rereadPattern : Parser Unit := do
  let s ← get
  let next ← readPattern s.limit (s.here.skip 1) false
  let token := { s.token with lexeme := .pattern, stop := next.offset }
  set { s with token, next }

/-- Reads what follows the closing brace that stands here as a piece of a
template. -/
def rereadTemplate : Parser Unit := do
  let s ← get
  let (lexeme, next) ← readTemplate s.limit s.next true
  let token := { s.token with lexeme, stop := next.offset }
  set { s with token, next }

/-! ## Starting -/

/-- The state at the first token of a script. -/
def start (source : String) : Except Fault State := do
  let chars := source.toList
  let limit := chars.length + 1
  let (space, startsLine) ← skipTrivia limit (skipFirstLine ⟨chars, 0⟩) true
  let (token, next) ← nextToken limit space startsLine
  return { token, here := space, next, lastStop := 0, limit }

end Parser

end SizeAtlas.Script
