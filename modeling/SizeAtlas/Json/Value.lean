import SizeAtlas.Text.Hex

/-!
# JSON values and their text

The values of JSON, with the members of an object in their order, and two ways
to write them: on one line without blanks, and indented by two per level.

## Main definitions

* `Json.Number` — a number as its digits give it.
* `Json.Value` — a value.
* `Json.quote` — a text between quotation marks.
* `Json.Value.compact`, `Json.Value.pretty` — the text of a value.
-/

namespace SizeAtlas.Json

/-- A decimal number: an integer, or digits scaled by a power of ten. -/
structure Number where
  /-- Whether there is a minus sign. -/
  negative : Bool
  /-- The digits, without the point. -/
  digits : Nat
  /-- The power of ten that the digits are scaled by. -/
  exponent : Int
  /-- Whether neither a point nor an exponent is written. -/
  integral : Bool
  deriving DecidableEq, Repr, Inhabited

/-- A JSON value. -/
inductive Value where
  | null
  | bool (b : Bool)
  | number (n : Number)
  | text (s : String)
  | list (items : List Value)
  | object (members : List (String × Value))
  deriving Repr, Inhabited

namespace Value

/-- The integer `n` as a value. -/
def ofNat (n : Nat) : Value := .number ⟨false, n, 0, true⟩

end Value

/-! ## Writing -/

/-- How a character is written between quotation marks. -/
def quoteChar (c : Char) : List Char :=
  match c.toNat with
  | 34 => ['\\', '\"']
  | 92 => ['\\', '\\']
  | 8 => ['\\', 'b']
  | 9 => ['\\', 't']
  | 10 => ['\\', 'n']
  | 12 => ['\\', 'f']
  | 13 => ['\\', 'r']
  | n => if n < 0x20 then '\\' :: 'u' :: (Text.hex 4 n).toList else [c]

/-- The text `s` between quotation marks. -/
def quote (s : String) : String :=
  String.ofList ('\"' :: s.toList.flatMap quoteChar ++ ['\"'])

/-- The text of a number. -/
def Number.render (n : Number) : String :=
  (if n.negative then "-" else "") ++ toString n.digits ++
    (if n.integral then "" else "e" ++ toString n.exponent)

mutual

/-- The text of a value on one line, without blanks. -/
def Value.compact : Value → String
  | .null => "null"
  | .bool b => if b then "true" else "false"
  | .number n => n.render
  | .text s => quote s
  | .list items => "[" ++ String.intercalate "," (compactItems items) ++ "]"
  | .object members => "\x7b" ++ String.intercalate "," (compactMembers members) ++ "\x7d"

/-- The texts of the items of a list. -/
def compactItems : List Value → List String
  | [] => []
  | v :: vs => v.compact :: compactItems vs

/-- The texts of the members of an object. -/
def compactMembers : List (String × Value) → List String
  | [] => []
  | (k, v) :: ms => (quote k ++ ":" ++ v.compact) :: compactMembers ms

end

/-- A line end and the blanks of `level` levels. -/
def lineStart (level : Nat) : String := "\n" ++ String.ofList (List.replicate (2 * level) ' ')

/-- Texts between brackets, each on a line of its own one level below `level`;
only the brackets if there is none. -/
def bracketed (opening closing : String) (level : Nat) (texts : List String) : String :=
  if texts.isEmpty then opening ++ closing
  else
    opening ++ String.intercalate "," (texts.map (lineStart (level + 1) ++ ·)) ++
      lineStart level ++ closing

mutual

/-- The text of a value that stands at `level`, over several lines. -/
def Value.prettyAt (level : Nat) : Value → String
  | .null => "null"
  | .bool b => if b then "true" else "false"
  | .number n => n.render
  | .text s => quote s
  | .list items => bracketed "[" "]" level (prettyItems (level + 1) items)
  | .object members => bracketed "\x7b" "\x7d" level (prettyMembers (level + 1) members)

/-- The texts of the items of a list at `level`. -/
def prettyItems (level : Nat) : List Value → List String
  | [] => []
  | v :: vs => v.prettyAt level :: prettyItems level vs

/-- The texts of the members of an object at `level`. -/
def prettyMembers (level : Nat) : List (String × Value) → List String
  | [] => []
  | (k, v) :: ms => (quote k ++ ": " ++ v.prettyAt level) :: prettyMembers level ms

end

/-- The text of a value over several lines, indented by two per level. -/
def Value.pretty (v : Value) : String := v.prettyAt 0

end SizeAtlas.Json
