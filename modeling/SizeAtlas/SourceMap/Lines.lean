/-!
# Where the lines of a file start

A position of a source map is a line and a column; the rest of the program
counts bytes from the start of the file.

## Main definitions

* `LineStarts` — the offsets at which the lines of a file start.
* `LineStarts.ofBytes` — the lines of a text.
* `LineStarts.offset` — the offset of a line and column, moved inside the file.
-/

namespace SizeAtlas

/-- The offsets at which the lines of a file start. -/
structure LineStarts where
  /-- The start of each line. -/
  starts : Array Nat
  /-- The length of the file. -/
  size : Nat
  /-- Every file has a first line. -/
  starts_pos : 0 < starts.size

namespace LineStarts

/-- The offsets just after a line feed, in bytes that start at `offset`. -/
def startsAfter (offset : Nat) : List UInt8 → List Nat
  | [] => []
  | b :: bs =>
    if b = 10 then (offset + 1) :: startsAfter (offset + 1) bs
    else startsAfter (offset + 1) bs

/-- The lines of `text`: the first starts at its start, each other one after a
line feed. -/
def ofBytes (text : ByteArray) : LineStarts where
  starts := ((0 : Nat) :: startsAfter 0 text.data.toList).toArray
  size := text.size
  starts_pos := by simp

/-- The number of the last line. -/
def last (index : LineStarts) : Nat := index.starts.size - 1

theorem last_lt (index : LineStarts) : index.last < index.starts.size := by
  have := index.starts_pos
  simp only [last]
  omega

/-- Where `line` starts; past the last line, where that one starts. -/
def start (index : LineStarts) (line : Nat) : Nat :=
  have : min line index.last < index.starts.size :=
    Nat.lt_of_le_of_lt (Nat.min_le_right ..) index.last_lt
  index.starts[min line index.last]

/-- The offset of a line and column.  A line past the end is taken as the last
one; a column past the end of the last line as the end of the file, and one past
the end of another line as the line feed that ends it. -/
def offset (index : LineStarts) (line column : Nat) : Nat :=
  let line := min line index.last
  let first := index.start line
  if line < index.last then
    first + min column (index.start (line + 1) - first - 1)
  else
    first + min column (index.size - first)

end LineStarts

end SizeAtlas
