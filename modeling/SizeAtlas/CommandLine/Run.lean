import SizeAtlas.Measurement
import SizeAtlas.CommandLine.Options

/-!
# Runs of the command line

What a run prints and how it ends, given its arguments and the files that it
can read.  A run is a sequence of steps that print or fail; a failure ends it
and takes back nothing that was printed.

## Main definitions

* `Streams` — what has been printed.
* `Step` — a part of a run.
* `Outcome` — what a run prints, and its exit code.
* `runOptions` — a run with given options.
* `run` — a run with given arguments.
-/

namespace SizeAtlas.CommandLine

/-! ## Printing -/

/-- What has been printed. -/
structure Streams where
  /-- What went to the output. -/
  output : String := ""
  /-- What went to the error stream. -/
  errors : String := ""
  deriving DecidableEq, Repr, Inhabited

/-- A part of a run.  It may print and it may fail; what was printed before a
failure stays printed. -/
abbrev Step (α : Type) := EStateM Fault Streams α

namespace Step

/-- Goes on with a result, or fails as it did. -/
def ofExcept {α : Type} : Except Fault α → Step α
  | .ok a => pure a
  | .error fault => throw fault

/-- Prints `text` to the output. -/
def print (text : String) : Step Unit := modify fun s => { s with output := s.output ++ text }

/-- Prints `text` to the error stream. -/
def printError (text : String) : Step Unit :=
  modify fun s => { s with errors := s.errors ++ text }

end Step

/-- What a run prints, and its exit code. -/
structure Outcome extends Streams where
  /-- The exit code. -/
  exit : Nat
  deriving DecidableEq, Repr, Inhabited

/-- The outcome of a run that takes the given steps. -/
def Outcome.ofStep (steps : Step Unit) : Outcome :=
  match steps.run {} with
  | .ok _ printed => { printed with exit := 0 }
  | .error fault printed =>
    { printed with exit := 1, errors := printed.errors ++ "Error: " ++ fault.message ++ "\n" }

/-! ## Runs -/

/-- The name and version of the program. -/
def versionLine : String := "bundle2treemap 0.1.0\n"

/-- A short form of what is printed for help: what the program does in one sentence, and how
it is called.  The full text goes on about the files and lists all options, in lines that are
broken to fit the terminal; it is left out here. -/
def helpText : String :=
  "Attribute each byte of minified JavaScript or a WebAssembly module to a named symbol.\n\n" ++
  "Usage: bundle2treemap [OPTIONS] <FILES>...\n"

/-- The text of a symbol that was asked for, under its name. -/
def dumpText (d : Script.Dump) : String :=
  "Contents of symbol " ++ d.name ++ ":\n" ++ d.text ++ "\n"

/-- Prints the text of a symbol, to the error stream if the output is JSON. -/
def printDump (o : Options) (d : Script.Dump) : Step Unit :=
  if o.json then .printError (dumpText d) else .print (dumpText d)

/-- Prints the texts of symbols and the report. -/
def printFindings (o : Options) (renames : Renames) (found : Findings) : Step Unit := do
  found.dumps.forM (printDump o)
  if o.json then .print ((found.report.toJson renames).pretty ++ "\n")
  else .print (found.report.toText renames)

/-- Prints a renaming table. -/
def printRenames (o : Options) (renames : Renames) : Step Unit :=
  if o.json then .print (renames.toJson.compact ++ "\n") else .print renames.toText

/-- The renamings that a run shows. -/
def shownRenames (files : Files) (o : Options) : Except Fault Renames :=
  match o.symbols with
  | some path => do
    let text ← files.text path
    .ok (Renames.parse text)
  | none => .ok ∅

/-- The steps of a run that reports sizes. -/
def runReport (files : Files) (o : Options) : Step Unit := do
  let renames ← .ofExcept (shownRenames files o)
  let found ← .ofExcept (measureAll files o.settings o.files)
  printFindings o renames found

/-- The steps of a run that recovers renamings. -/
def runRecovery (files : Files) (o : Options) (mapPath : String) : Step Unit :=
  match o.files with
  | [scriptPath] => do
    let renames ← .ofExcept (recoverRenames files mapPath scriptPath)
    printRenames o renames
  | paths => throw (.wrongInputCount paths.length)

/-- The steps of a run with the given options. -/
def steps (files : Files) (o : Options) : Step Unit :=
  match o.sourceMap with
  | some mapPath => runRecovery files o mapPath
  | none => runReport files o

/-- The outcome of a run with the given options. -/
def runOptions (files : Files) (o : Options) : Outcome := .ofStep (steps files o)

/-- The outcome of a run with the given arguments. -/
def run (files : Files) (arguments : List String) : Outcome :=
  match Request.ofArguments arguments with
  | .ok (.run o) => runOptions files o
  | .ok .version => { exit := 0, output := versionLine }
  | .ok .help => { exit := 0, output := helpText }
  | .error e => { exit := 2, output := "", errors := "error: " ++ e.message ++ "\n" }

/-- The paths that a run with the given arguments may read. -/
def pathsToRead (arguments : List String) : List String :=
  match Request.ofArguments arguments with
  | .ok (.run o) => o.symbols.toList ++ o.sourceMap.toList ++ o.files
  | _ => []

end SizeAtlas.CommandLine
