import SizeAtlas.Proofs.Fallible
import SizeAtlas.Proofs.Report
import SizeAtlas.Proofs.Script.Refinement
import SizeAtlas.Proofs.Text.Segments

/-!
# Where symbols are found

Symbols are found in scripts and modules.  What is found there notes no file; the measurement
of a file notes for each of its symbols the name of the file.  This is the last component of
the path, so it is not empty and holds no slash.

## Main definitions

* `SymbolTable.Unfiled` — symbols that note no file.
* `Symbol.Measured` — a symbol that was found in a script, a module or a file.
* `Report.Measured` — a report on such symbols.

## Main statements

* `Script.Sizing.unfiled_run`, `Wasm.unfiled_symbolsOf` — scripts and modules note no file.
* `Symbol.Measured.sourceFile_cases` — what a symbol notes as its file.
* `Report.measured_of_measureAll` — the report of a run is on measured symbols.
-/

namespace SizeAtlas

/-! ## Symbols that note no file -/

namespace SymbolTable

/-- No symbol of the table notes a file. -/
def Unfiled (t : SymbolTable) : Prop := ∀ s ∈ t.entries, s.sourceFile = ""

variable {t : SymbolTable}

theorem unfiled_empty : Unfiled ∅ := by
  intro s mem
  exact absurd mem List.not_mem_nil

theorem Unfiled.insert (h : t.Unfiled) {s : Symbol} (none : s.sourceFile = "") :
    Unfiled (Roster.insert t s) := by
  intro x mem
  rcases Roster.mem_of_mem_insert mem with rfl | old
  · exact none
  · exact h x old

theorem Unfiled.addSize (h : t.Unfiled) (name : String) (n : Nat) :
    Unfiled (t.addSize name n) := by
  intro x mem
  rw [entries_addSize] at mem
  obtain ⟨s, old, rfl⟩ := List.mem_map.1 mem
  split
  · exact h s old
  · exact h s old

end SymbolTable

namespace Wasm

variable {t : SymbolTable} {l : Labels}

theorem unfiled_addBodies (h : t.Unfiled) (bodies : List Nat) : (addBodies l t bodies).Unfiled :=
  List.foldlRecOn _ _ h fun _ before _ _ => before.insert rfl

theorem unfiled_addImports (h : t.Unfiled) (imports : List String) :
    (addImports l t imports).Unfiled :=
  List.foldlRecOn _ _ h fun _ before _ _ => before.insert rfl

theorem unfiled_addSection (h : t.Unfiled) (name : String) (bytes : Nat) :
    (addSection t name bytes).Unfiled := by
  unfold addSection
  split
  · exact h.addSize name bytes
  · exact h.insert rfl

theorem unfiled_addHeader (h : t.Unfiled) (fileSize : Nat) : (addHeader t fileSize).Unfiled := by
  unfold addHeader
  dsimp only
  split
  · exact h.insert rfl
  · exact h

/-- What is found in a module notes no file. -/
theorem unfiled_symbolsOf {decoding : Bytes.NameDecoding} {bytes : ByteArray}
    (h : symbolsOf decoding bytes = .ok t) : t.Unfiled := by
  obtain ⟨m, _, rfl⟩ := eq_of_bind_ok h
  have sections := List.foldlRecOn m.sections
    (fun t s => addSection (addBodies m.labels t s.bodies) s.name s.size)
    SymbolTable.unfiled_empty
    fun _ before s _ => unfiled_addSection (unfiled_addBodies before s.bodies) s.name s.size
  exact unfiled_addHeader (unfiled_addImports sections m.functionImports) m.fileSize

end Wasm

namespace Script.Sizing

theorem sourceFile_of_kept? {z : Sizing} {scope : String} {n : Node} {share : Nat} {inner : Found}
    {s : Symbol} (kept : z.kept? scope n share inner = some s) : s.sourceFile = "" := by
  unfold kept? symbol? at kept
  split at kept
  · cases kept
  · split at kept <;> split at kept <;> cases kept <;> rfl

/-- What is found in a script notes no file. -/
theorem unfiled_run (z : Sizing) (body : List Node) : (z.run body).1.Unfiled := by
  intro s mem
  rcases mem_entries_run mem with visited | rfl
  · exact forall_mem_visitAll (fun _ _ _ _ _ _ kept => sourceFile_of_kept? kept) s visited
  · rfl

end Script.Sizing

/-! ## Measured files -/

theorem unfiled_measureScript {settings : Settings} {source : String} {m : Measurement}
    (h : measureScript settings source = .ok m) : m.table.Unfiled := by
  obtain ⟨body, _, h⟩ := bind_eq_ok.1 h
  cases h
  exact Script.Sizing.unfiled_run _ body

/-- The name of a file that can be measured is a single component. -/
theorem isSegment_baseName {path : String} {format : Format}
    (known : Format.ofPath? path = some format) :
    Text.IsSegment (· == '/') (Path.baseName path) := by
  have named : ∃ name, Path.fileName? path = some name := by
    cases last : Path.fileName? path with
    | some name => exact ⟨name, rfl⟩
    | none => simp [Format.ofPath?, Path.extension?, last] at known
  obtain ⟨name, named⟩ := named
  rw [Path.baseName, named, Option.getD_some]
  unfold Path.fileName? at named
  split at named
  · cases named
  · have component := List.mem_of_getLast? named
    exact Text.isSegment_of_mem_segments (List.mem_filter.1 component).1

/-- What is found in a file notes the name of the file. -/
theorem sourceFile_of_measureFile {files : Files} {settings : Settings} {path : String}
    {m : Measurement} (h : measureFile files settings path = .ok (some m)) :
    (∃ format, Format.ofPath? path = some format) ∧
      ∀ s ∈ m.table.entries, s.sourceFile = Path.baseName path := by
  unfold measureFile at h
  split at h
  · cases h
  · rename_i known
    obtain ⟨source, _, h⟩ := bind_eq_ok.1 h
    obtain ⟨inner, _, h⟩ := bind_eq_ok.1 h
    cases h
    exact ⟨⟨_, known⟩, List.forall_mem_map.2 fun _ _ => rfl⟩
  · rename_i known
    obtain ⟨bytes, _, h⟩ := bind_eq_ok.1 h
    obtain ⟨table, _, h⟩ := bind_eq_ok.1 h
    cases h
    exact ⟨⟨_, known⟩, List.forall_mem_map.2 fun _ _ => rfl⟩

/-- A symbol that was found in a script, a module or a file. -/
inductive Symbol.Measured (s : Symbol) : Prop
  | inScript {settings : Settings} {source : String} {m : Measurement}
    (measured : measureScript settings source = .ok m) (mem : s ∈ m.table.entries) : Measured s
  | inModule {decoding : Bytes.NameDecoding} {bytes : ByteArray} {t : SymbolTable}
    (measured : Wasm.symbolsOf decoding bytes = .ok t) (mem : s ∈ t.entries) : Measured s
  | inFile {files : Files} {settings : Settings} {path : String} {m : Measurement}
    (measured : measureFile files settings path = .ok (some m)) (mem : s ∈ m.table.entries) :
    Measured s

/-- A symbol notes no file, or one with a name that is a single component. -/
theorem Symbol.Measured.sourceFile_cases {s : Symbol} (h : s.Measured) :
    s.sourceFile = "" ∨ Text.IsSegment (· == '/') s.sourceFile := by
  cases h with
  | inScript measured mem => exact Or.inl (unfiled_measureScript measured s mem)
  | inModule measured mem => exact Or.inl (Wasm.unfiled_symbolsOf measured s mem)
  | inFile measured mem =>
    obtain ⟨⟨_, known⟩, noted⟩ := sourceFile_of_measureFile measured
    exact Or.inr (noted s mem ▸ isSegment_baseName known)

namespace Report

/-- Each symbol of the report was found in a script, a module or a file. -/
def Measured (r : Report) : Prop := ∀ s ∈ r.symbols, s.Measured

/-- The report of a run is on symbols that were found in files. -/
theorem measured_of_measureAll {files : Files} {settings : Settings} {paths : List String}
    {findings : Findings} (h : measureAll files settings paths = .ok findings) :
    findings.report.Measured := by
  intro s mem
  obtain ⟨found, each, report⟩ := report_of_measureAll h
  rw [report] at mem
  obtain ⟨before, t, later, tables, entry, _⟩ := (merged_ofTables _).latest s mem
  have table : t ∈ (found.filterMap id).map Measurement.table := by
    rw [tables]
    exact List.mem_append_right _ List.mem_cons_self
  obtain ⟨m, kept, rfl⟩ := List.mem_map.1 table
  obtain ⟨_, of_file, rfl⟩ := List.mem_filterMap.1 kept
  obtain ⟨path, _, here⟩ := exists_of_mem_mapM each of_file
  exact .inFile here entry

end Report

end SizeAtlas
