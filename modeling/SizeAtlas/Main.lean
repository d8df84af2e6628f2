import SizeAtlas.CommandLine.Run

/-!
# The program

The command line of the program: it reads the files that its arguments name,
and prints what the run on them prints.

## Main definitions

* `readAll` — the contents of files.
* `main` — the program.
-/

namespace SizeAtlas.CommandLine

/-- The contents of the files at `paths` that can be read. -/
def readAll (paths : List String) : IO (List (String × ByteArray)) :=
  paths.filterMapM fun (path : String) => do
    try
      let bytes ← IO.FS.readBinFile path
      return some (path, bytes)
    catch _ => return none

end SizeAtlas.CommandLine

open SizeAtlas.CommandLine in
/-- Runs the program on its arguments. -/
def main (arguments : List String) : IO UInt32 := do
  let contents ← readAll (pathsToRead arguments)
  let outcome := run (fun path => contents.lookup path) arguments
  IO.print outcome.output
  IO.eprint outcome.errors
  return outcome.exit.toUInt32
