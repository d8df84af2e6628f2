/-!
# Segments of a path

Qualified names and paths are segments with separators between them.  Empty
segments, as doubled or outer separators leave them, do not count.

## Main definitions

* `segments` — the segments of a text, first to last.
* `lastSegment` — what follows the last separator.
-/

namespace SizeAtlas.Text

/-- The nonempty stretches of `text` between characters that separate. -/
def segments (separates : Char → Bool) (text : String) : List String :=
  ((text.toList.splitOnP separates).filter (!·.isEmpty)).map String.ofList

/-- What follows the last separator of `text`, which is all of it if there is
none. -/
def lastSegment (separates : Char → Bool) (text : String) : String :=
  String.ofList ((text.toList.reverse.takeWhile (!separates ·)).reverse)

/-- The rest of `text` after `start`, if it starts so. -/
def dropStart? (start text : String) : Option String :=
  (start.toList.isPrefixOf? text.toList).map String.ofList

/-- Whether `c` joins the parts of a qualified name: a point before a member of
an object, a slash before what is nested in a function. -/
def isDelimiter (c : Char) : Bool := c == '.' || c == '/'

end SizeAtlas.Text
