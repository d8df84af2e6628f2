import SizeAtlas.Settings
import SizeAtlas.Text.Decimal

/-!
# The arguments of the command line

What the words of a command line ask for.  Options may stand before, between
and after the files; what follows two dashes is a file whatever it looks like.

## Main definitions

* `Options` — what a run is asked to do.
* `Flag`, `Setting` — the options without and with a value.
* `Request.ofArguments` — what a list of arguments asks for.
-/

namespace SizeAtlas.CommandLine

/-- What a run is asked to do. -/
structure Options where
  /-- The files to measure. -/
  files : List String := []
  /-- Whether the output is JSON. -/
  json : Bool := false
  /-- The file with the renamings to show. -/
  symbols : Option String := none
  /-- The source map to recover renamings from instead of reporting sizes. -/
  sourceMap : Option String := none
  /-- The symbols whose text is wanted. -/
  dump : List String := []
  /-- The fraction or percentage from which on nodes are split. -/
  percent : Option Float := none
  /-- The bytes from which on nodes are split. -/
  bytes : Option Nat := none
  /-- Whether every byte of a name in a module is a character. -/
  latinNames : Bool := false
  /-- Whether the treemap is wanted on a page. -/
  serve : Bool := false
  /-- How many levels the treemap has. -/
  maxDepth : Option Nat := none
  /-- Whether progress is told. -/
  verbose : Bool := false
  deriving Inhabited

namespace Options

/-- The settings of the run. -/
def settings (o : Options) : Settings :=
  let s : Settings := { dump := o.dump, wasmNames := if o.latinNames then .latin1 else .utf8 }
  let s := (o.percent.map s.withPercent).getD s
  (o.bytes.map fun n => { s with expandBytes := n }).getD s

end Options

/-- The options without a value. -/
inductive Flag where
  | json
  | latinNames
  | serve
  | verbose
  | version
  | help
  deriving DecidableEq, Repr

/-- The options with a value. -/
inductive Setting where
  | symbols
  | sourceMap
  | dump
  | percent
  | bytes
  | maxDepth
  deriving DecidableEq, Repr

/-- The option called `name` after two dashes. -/
def longOption? (name : String) : Option (Flag ⊕ Setting) :=
  match name with
  | "json" => some (.inl .json)
  | "legacy-wasm-names" => some (.inl .latinNames)
  | "serve" => some (.inl .serve)
  | "verbose" => some (.inl .verbose)
  | "version" => some (.inl .version)
  | "help" => some (.inl .help)
  | "symbols" => some (.inr .symbols)
  | "create-symbol-map-from-source-map" => some (.inr .sourceMap)
  | "dump" => some (.inr .dump)
  | "expand-larger-than-percents" => some (.inr .percent)
  | "expand-larger-than-bytes" => some (.inr .bytes)
  | "max-depth" => some (.inr .maxDepth)
  | _ => none

/-- The option called `letter` after one dash. -/
def shortOption? (letter : Char) : Option Flag :=
  match letter with
  | 'v' => some .verbose
  | 'V' => some .version
  | 'h' => some .help
  | _ => none

/-- What a command line asks for. -/
inductive Request where
  /-- A run. -/
  | run (options : Options)
  /-- The version. -/
  | version
  /-- An explanation of the options. -/
  | help
  deriving Inhabited

/-- What makes a list of arguments useless. -/
inductive UsageError where
  | unknownOption (argument : String)
  | repeatedOption (argument : String)
  | unexpectedValue (argument : String)
  | missingValue (argument : String)
  | invalidValue (argument value : String)
  | missingFiles
  deriving DecidableEq, Repr, Inhabited

/-- The wording of a usage error. -/
def UsageError.message : UsageError → String
  | unknownOption argument => s!"unexpected argument '{argument}' found"
  | repeatedOption argument => s!"the argument '{argument}' cannot be used multiple times"
  | unexpectedValue argument => s!"unexpected value for '{argument}' found; no more were expected"
  | missingValue argument => s!"a value is required for '{argument}' but none was supplied"
  | invalidValue argument value => s!"invalid value '{value}' for '{argument}'"
  | missingFiles => "the following required arguments were not provided: <FILES>..."

namespace Options

/-- The options with a flag set that was not set before. -/
def setFlag (o : Options) (argument : String) (flag : Flag) : Except UsageError Options :=
  let once (before : Bool) (after : Options) : Except UsageError Options :=
    if before then .error (.repeatedOption argument) else .ok after
  match flag with
  | .json => once o.json { o with json := true }
  | .latinNames => once o.latinNames { o with latinNames := true }
  | .serve => once o.serve { o with serve := true }
  | .verbose => once o.verbose { o with verbose := true }
  | .version | .help => .ok o

/-- The options with a value set that was not set before.  Only the option for
texts may be repeated. -/
def setValue (o : Options) (argument : String) (setting : Setting) (value : String) :
    Except UsageError Options :=
  let once {α : Type} (before : Option α) (read : Option α) (after : Option α → Options) :
      Except UsageError Options :=
    if before.isSome then .error (.repeatedOption argument)
    else if read.isNone then .error (.invalidValue argument value)
    else .ok (after read)
  let path := if value.isEmpty then none else some value
  match setting with
  | .symbols => once o.symbols path fun v => { o with symbols := v }
  | .sourceMap => once o.sourceMap path fun v => { o with sourceMap := v }
  | .dump => .ok { o with dump := o.dump ++ [value] }
  | .percent => once o.percent (Text.double? value) fun v => { o with percent := v }
  | .bytes => once o.bytes (Text.word64? value) fun v => { o with bytes := v }
  | .maxDepth => once o.maxDepth (Text.word64? value) fun v => { o with maxDepth := v }

/-- The options with one more file. -/
def addFile (o : Options) (path : String) : Except UsageError Options :=
  if path.isEmpty then .error (.invalidValue "<FILES>..." path)
  else .ok { o with files := o.files ++ [path] }

/-- The options with more files. -/
def addFiles (o : Options) (paths : List String) : Except UsageError Options :=
  paths.foldlM addFile o

end Options

namespace Request

/-- The run with the given options, which must name a file. -/
def ofOptions (o : Options) : Except UsageError Request :=
  if o.files.isEmpty then .error .missingFiles else .ok (.run o)

/-- What a flag asks for: an answer at once, or options to go on with. -/
def answerOrOptions (o : Options) (argument : String) (flag : Flag) :
    Except UsageError (Request ⊕ Options) :=
  match flag with
  | .version => .ok (.inl .version)
  | .help => .ok (.inl .help)
  | flag => (o.setFlag argument flag).map .inr

/-- What the letters after one dash ask for, one flag each. -/
def ofLetters (o : Options) (argument : String) :
    List Char → Except UsageError (Request ⊕ Options)
  | [] => .ok (.inr o)
  | letter :: rest =>
    match shortOption? letter with
    | none => .error (.unknownOption argument)
    | some flag =>
      match answerOrOptions o argument flag with
      | .ok (.inr o') => ofLetters o' argument rest
      | answer => answer

/-- Whether an argument looks like an option.  A single dash does not. -/
def looksLikeOption (argument : String) : Bool :=
  match argument.toList with
  | '-' :: _ :: _ => true
  | _ => false

/-- What the arguments after those that led to the options `o` ask for. -/
def ofArgumentsFrom (o : Options) : List String → Except UsageError Request
  | [] => ofOptions o
  | argument :: rest =>
    match argument.toList with
    | ['-', '-'] => do ofOptions (← o.addFiles rest)
    | '-' :: '-' :: long =>
      let (name, value) := long.span (· != '=')
      match longOption? (String.ofList name), value with
      | none, _ => .error (.unknownOption argument)
      | some (.inl _), _ :: _ => .error (.unexpectedValue argument)
      | some (.inl flag), [] => do
        match ← answerOrOptions o argument flag with
        | .inl answer => .ok answer
        | .inr o' => ofArgumentsFrom o' rest
      | some (.inr setting), _ :: value => do
        let o' ← o.setValue argument setting (String.ofList value)
        ofArgumentsFrom o' rest
      | some (.inr setting), [] =>
        match rest with
        | [] => .error (.missingValue argument)
        | value :: rest' =>
          if looksLikeOption value then .error (.missingValue argument)
          else do
            let o' ← o.setValue argument setting value
            ofArgumentsFrom o' rest'
    | '-' :: letter :: letters => do
      match ← ofLetters o argument (letter :: letters) with
      | .inl answer => .ok answer
      | .inr o' => ofArgumentsFrom o' rest
    | _ => do
      let o' ← o.addFile argument
      ofArgumentsFrom o' rest

/-- What `arguments` ask for. -/
def ofArguments (arguments : List String) : Except UsageError Request :=
  ofArgumentsFrom {} arguments

end Request

end SizeAtlas.CommandLine
