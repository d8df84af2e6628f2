import SizeAtlas.Renames.Escape
import SizeAtlas.Roster

/-!
# Minified names and what they stood for

A renaming table gives the name that each minified one stands for in the
sources.  Its text has a line per name: the minified name, a colon and the source
name in its written form.

## Main definitions

* `Renames` — pairs of a minified name and a source name.
* `Renames.parse` — the table that a text holds.
* `Renames.toText` — the text of a table.
-/

namespace SizeAtlas

/-- Source names under the minified ones. -/
abbrev Renames := Roster (Prod.fst : String × String → String)

namespace Renames

/-- The name that `minified` stands for. -/
def sourceName? (r : Renames) (minified : String) : Option String :=
  (Roster.find? r minified).map Prod.snd

/-! ## Reading a text -/

/-- Takes one carriage return off the end of a line. -/
def trimReturn (line : List Char) : List Char :=
  if line.getLast? = some '\r' then line.dropLast else line

/-- The lines of a text.  A carriage return before a line feed belongs to the
line end; one at the very end of the text does not. -/
def lines (text : List Char) : List (List Char) :=
  let pieces := text.splitOn '\n'
  pieces.dropLast.map trimReturn ++ pieces.getLast?.toList

/-- The pair on one line, which is split at its first colon. -/
def pairOfLine? (line : List Char) : Option (String × String) :=
  match line.span (· != ':') with
  | (_, []) => none
  | (minified, _ :: written) =>
    some (String.ofList minified, unescape (String.ofList written))

/-- The table that `text` holds.  Lines without a colon are passed over, and of
two lines for one name the later counts. -/
def parse (text : String) : Renames :=
  Roster.ofList ((lines text.toList).filterMap pairOfLine?)

/-! ## Writing a text -/

/-- The line for one pair. -/
def lineOfPair (pair : String × String) : String := pair.1 ++ ":" ++ escape pair.2 ++ "\n"

/-- The text of a table. -/
def toText (r : Renames) : String := String.join (r.entries.map lineOfPair)

end Renames

end SizeAtlas
