import SizeAtlas.Text.Identifier

/-!
# Tokens of a script

The smallest parts of a script that the grammar speaks of, and the classes of
characters and words that they are made of.

## Main definitions

* `Lexeme`, `Token` — what a token is, and where it stands.
* `isLineEnd`, `isSpace` — what may stand between tokens.
* `isReserved` — the words that name nothing.
-/

namespace SizeAtlas.Script

/-- What a token is. -/
inductive Lexeme where
  /-- The end of the script. -/
  | finish
  /-- An identifier or keyword.  One that is written with an escape is never a
  keyword. -/
  | word (name : String) (escaped : Bool)
  /-- A name with a number sign before it. -/
  | privateName (name : String)
  /-- An operator, bracket or separator. -/
  | punctuator (text : String)
  /-- A number. -/
  | number
  /-- A text between quotation marks. -/
  | text
  /-- A regular expression. -/
  | pattern
  /-- A piece of a template, the last one or one before an expression.  A piece
  is valid if all its escapes are. -/
  | template (last valid : Bool)
  /-- Characters that make up no token. -/
  | invalid
  deriving DecidableEq, Repr, Inhabited

/-- Whether a token is a private name. -/
def Lexeme.isPrivateName : Lexeme → Bool
  | .privateName _ => true
  | _ => false

/-- A token of a script. -/
structure Token where
  /-- What it is. -/
  lexeme : Lexeme
  /-- The offset of its first byte. -/
  start : Nat
  /-- The offset after its last byte. -/
  stop : Nat
  /-- Whether a line end, or nothing, stands before it. -/
  startsLine : Bool
  deriving DecidableEq, Repr, Inhabited

/-! ## Characters -/

/-- Whether `c` ends a line. -/
def isLineEnd (c : Char) : Bool :=
  let n := c.toNat
  n == 10 || n == 13 || n == 0x2028 || n == 0x2029

/-- Whether `c` is a blank within a line. -/
def isSpace (c : Char) : Bool :=
  let n := c.toNat
  n == 0x20 || n == 9 || n == 11 || n == 12 || n == 0x85 || n == 0xa0 || n == 0x1680 ||
    (0x2000 ≤ n && n ≤ 0x200b) || n == 0x202f || n == 0x205f || n == 0x3000 || n == 0xfeff

/-! ## Words -/

/-- The words that cannot name anything. -/
def reservedWords : List String :=
  ["break", "case", "catch", "class", "const", "continue", "debugger", "default", "delete", "do",
    "else", "enum", "export", "extends", "false", "finally", "for", "function", "if", "import",
    "in", "instanceof", "new", "null", "return", "super", "switch", "this", "throw", "true", "try",
    "typeof", "var", "void", "while", "with"]

/-- Whether `word` cannot name anything. -/
def isReserved (word : String) : Bool := reservedWords.contains word

/-- The words that are operators in some functions and names elsewhere. -/
def isOperatorWord (word : String) : Bool := word == "await" || word == "yield"

/-- The words that could be reserved where a script asks to be read strictly. -/
def isStrictWord (word : String) : Bool :=
  ["implements", "interface", "let", "package", "private", "protected", "public", "static"].contains
    word

/-! ## Punctuators -/

/-- The punctuators, each longer one before those it starts with. -/
def punctuators : List (List Char) :=
  [">>>=", "...", "===", "!==", "**=", "<<=", ">>=", ">>>", "&&=", "||=", "??=", "=>", "==", "!=",
    "<=", ">=", "&&", "||", "??", "?.", "++", "--", "+=", "-=", "*=", "/=", "%=", "&=", "|=", "^=",
    "<<", ">>", "**", "\x7b", "\x7d", "(", ")", "[", "]", ";", ",", "<", ">", "+", "-", "*", "/",
    "%", "&", "|", "^", "!", "~", "?", ":", "=", ".", "@"].map String.toList

end SizeAtlas.Script
