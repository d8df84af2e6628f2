import SizeAtlas.Script.Parser.Pattern

/-!
# Declarations of variables

The declarators behind one of the words that declare variables, and whether each
has the value that it needs.

## Main definitions

* `VariableKind` — what the word says of the variables.
* `Grammar.declarationHead` — a declaration as loops have it.
* `Grammar.declaration` — a declaration as a statement.
-/

namespace SizeAtlas.Script

/-- What a declaration says of its variables. -/
inductive VariableKind where
  /-- They belong to the whole function. -/
  | whole
  /-- They belong to a block. -/
  | block
  /-- They belong to a block and keep their values. -/
  | constant
  /-- They belong to a block, at whose end their values are disposed of. -/
  | resource
  deriving DecidableEq, Repr, Inhabited

/-- The kind of the variables that `word` declares. -/
def VariableKind.ofWord? (word : String) : Option VariableKind :=
  match word with
  | "var" => some .whole
  | "let" => some .block
  | "const" => some .constant
  | "using" => some .resource
  | _ => none

/-- Whether a variable needs a value: those of some kinds do, and all patterns. -/
def VariableKind.needsValue (kind : VariableKind) (id : Option Identifier) : Bool :=
  kind == .constant || kind == .resource || id.isNone

namespace Grammar

open SizeAtlas.Script.Parser

/-- A declaration with what else has to be known about it. -/
structure Declaration where
  /-- The declarators, newest first. -/
  nodes : List Node := []
  /-- The names that are declared. -/
  names : List String := []
  /-- Whether one lacks a value that it needs unless a loop gives it one. -/
  lacking : Bool := false
  deriving Inhabited

/-- Adds the declarator that stands here to a declaration. -/
def declarator (g : Grammar) (ctx : Context) (kind : VariableKind) (d : Declaration) :
    Parser Declaration := do
  let start ← here
  let bound ← g.binding ctx
  if kind == .resource && bound.id.isNone then fail "pattern for a resource"
  let init ← if ← eat "=" then some <$> g.plainAssignment ctx else pure none
  let node ← nodeFrom start (.variableDeclarator bound.id init)
  return {
    nodes := node :: d.nodes
    names := d.names ++ bound.names
    lacking := d.lacking || (init.isNone && kind.needsValue bound.id) }

/-- The declarators of a declaration. -/
def declarators (g : Grammar) (ctx : Context) (kind : VariableKind) : Parser Declaration :=
  repeatWhile
    (fun d => do
      let d ← g.declarator ctx kind d
      return (d, ← eat ",")) {}

/-- A declaration of variables after its word at `start`, up to but without the
semicolon, and whether a value is lacking. -/
def declarationHead (g : Grammar) (ctx : Context) (start : Nat) (kind : VariableKind) :
    Parser (Node × Bool) := do
  let d ← g.declarators ctx kind
  return (← nodeFrom start (.variableDeclaration d.nodes.reverse), d.lacking)

/-- A declaration of variables as a statement after its word at `start`, and the
names that it declares.  Only those for whole functions may stand alone inside
another statement. -/
def declaration (g : Grammar) (ctx : Context) (slot : Slot) (start : Nat) (kind : VariableKind) :
    Parser (Node × List String) := do
  let d ← g.declarators ctx kind
  if d.lacking then fail "missing value"
  if slot == .single && kind != .whole then fail "declaration without a block"
  semicolon
  return (← nodeFrom start (.variableDeclaration d.nodes.reverse), d.names)

end Grammar

end SizeAtlas.Script
