import SizeAtlas.Text.Hex
import SizeAtlas.Text.Visible

/-!
# Quoted characters

How a message shows a single character: between apostrophes, with a backslash
before what would otherwise be misread.

## Main definitions

* `escapeChar` — what stands between the apostrophes.
* `quoteChar` — the character with its apostrophes.
-/

namespace SizeAtlas.Text

/-- The text that stands for `c` between apostrophes.  The five characters with
an escape of their own use it; what cannot be seen is given by its code point. -/
def escapeChar (c : Char) : String :=
  match c.toNat with
  | 0 => "\\0"
  | 9 => "\\t"
  | 10 => "\\n"
  | 13 => "\\r"
  | 39 => "\\'"
  | 92 => "\\\\"
  | n => if isVisible c then c.toString else "\\u\x7b" ++ hex 1 n ++ "\x7d"

/-- The character `c` as a message shows it. -/
def quoteChar (c : Char) : String := "'" ++ escapeChar c ++ "'"

end SizeAtlas.Text
