import SizeAtlas.Text.Segments

/-!
# File names

The parts of a path that an analysis looks at: the name at its end and the
extension of that name.

## Main definitions

* `Path.components` — the names along a path.
* `Path.fileName?` — the last of them.
* `Path.extension?` — what follows the last point of the file name.
* `Path.baseName` — the name that a report gives a file.
-/

namespace SizeAtlas.Path

/-- The names along a path, without those that stay where they are. -/
def components (path : String) : List String :=
  (Text.segments (· == '/') path).filter (· != ".")

/-- The name at the end of a path.  A path that ends by going up has none. -/
def fileName? (path : String) : Option String :=
  match (components path).getLast? with
  | some ".." => none
  | last => last

/-- What follows the last point of the file name.  A point at its start does not
count. -/
def extension? (path : String) : Option String :=
  match fileName? path with
  | none => none
  | some name =>
    match name.toList.reverse.span (· != '.') with
    | (after, '.' :: _ :: _) => some (String.ofList after.reverse)
    | _ => none

/-- The name that a report gives the file at `path`. -/
def baseName (path : String) : String := (fileName? path).getD path

end SizeAtlas.Path
