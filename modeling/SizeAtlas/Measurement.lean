import SizeAtlas.Path
import SizeAtlas.Report
import SizeAtlas.Script.Program
import SizeAtlas.Script.Sizes
import SizeAtlas.Settings
import SizeAtlas.SourceMap.Renaming
import SizeAtlas.Wasm.Attribution

/-!
# The measurement of files

What kind of file each input is, what is found in it, and the report on all of
them.  Files are given by what lies under their paths, so that nothing here
depends on where they are kept.

## Main definitions

* `Files` — the contents under each path.
* `Format.ofPath?` — the kind of a file by its name.
* `measureScript` — the symbols of a script.
* `measureFile`, `measureAll` — the symbols of a file, and the report on several.
* `recoverRenames` — the renamings of a script by its source map.
-/

namespace SizeAtlas

/-- The contents of the file under each path, if there is one. -/
abbrev Files := String → Option ByteArray

namespace Files

/-- The bytes of a file. -/
def bytes (files : Files) (path : String) : Except Fault ByteArray :=
  match files path with
  | some bytes => .ok bytes
  | none => .error (.unreadable path "no such file")

/-- The text of a file. -/
def text (files : Files) (path : String) : Except Fault String := do
  let bytes ← files.bytes path
  match String.fromUTF8? bytes with
  | some text => .ok text
  | none => .error (.unreadable path "not valid UTF-8")

end Files

/-! ## Kinds of files -/

/-- The kinds of files whose bytes can be attributed. -/
inductive Format where
  | script
  | module
  deriving DecidableEq, Repr, Inhabited

/-- The kind of the file at `path`, by its extension in whatever case. -/
def Format.ofPath? (path : String) : Option Format :=
  match (Path.extension? path).map (·.map Char.toLower) with
  | some "js" => some .script
  | some "wasm" => some .module
  | _ => none

/-! ## Single files -/

/-- What is found in one file. -/
structure Measurement where
  /-- The symbols. -/
  table : SymbolTable
  /-- The texts that were asked for. -/
  dumps : List Script.Dump

/-- What is found in a script. -/
def measureScript (settings : Settings) (source : String) : Except Fault Measurement := do
  let body ← Script.parse source
  let bytes := source.toUTF8
  let z : Script.Sizing :=
    { source := bytes
      splits := settings.splits bytes.size
      wanted := settings.dump }
  let (table, dumps) := z.run body
  .ok ⟨table, dumps⟩

/-- What is found in the file at `path`, nothing if it is of no known kind. -/
def measureFile (files : Files) (settings : Settings) (path : String) :
    Except Fault (Option Measurement) :=
  match Format.ofPath? path with
  | none => .ok none
  | some .script => do
    let source ← files.text path
    let found ← measureScript settings source
    .ok (some { found with table := found.table.inFile (Path.baseName path) })
  | some .module => do
    let bytes ← files.bytes path
    let table ← Wasm.symbolsOf settings.wasmNames bytes
    .ok (some ⟨table.inFile (Path.baseName path), []⟩)

/-! ## Several files -/

/-- What is found in all files of a run. -/
structure Findings where
  /-- The report. -/
  report : Report
  /-- The texts that were asked for. -/
  dumps : List Script.Dump

/-- What is found in the files at `paths`, unless one of them fails. -/
def measureAll (files : Files) (settings : Settings) (paths : List String) :
    Except Fault Findings := do
  let found ← paths.mapM (measureFile files settings)
  let found := found.filterMap id
  .ok ⟨Report.ofTables (found.map Measurement.table), found.flatMap Measurement.dumps⟩

/-! ## Renamings -/

/-- The renamings of the script at `scriptPath` by the source map at `mapPath`. -/
def recoverRenames (files : Files) (mapPath scriptPath : String) : Except Fault Renames := do
  let json ← files.text mapPath
  let source ← files.text scriptPath
  let map ← SourceMap.decode json source.toUTF8
  let body ← Script.parse source
  .ok (SourceMap.renamesOf map body)

end SizeAtlas
