import SizeAtlas.Proofs.Wasm.Attribution
import SizeAtlas.Proofs.Wasm.Layout

/-!
# The symbols of a module in their order

The table of a module in three parts: what the walk over the sections enters, the
imports, and the header, which in a file that can be read has eight bytes.

## Main definitions

* `Module.sectionSymbols`, `Module.importSymbols`, `Module.headerSymbol` — the parts.
* `Module.attributed` — the table without the header.

## Main statements

* `read_of_symbolsOf` — the symbols of a file come from its sections.
* `entries_attributed` — the imports come after the sections.
* `total_add_of_tiles` — the sections and imports leave eight bytes of the file.
* `entries_symbols` — the header comes last.
-/

namespace SizeAtlas.Wasm

/-! ## Imports and header -/

namespace Module

/-- The symbols of the sections of a module and of what they hold. -/
def sectionSymbols (m : Module) : SymbolTable :=
  m.sections.foldl (fun t s => addSection (addBodies m.labels t s.bodies) s.name s.size) ∅

/-- The symbols of the imports of a module. -/
def importSymbols (m : Module) : List Symbol :=
  series m.labels.importAt m.sectionSymbols.keys m.functionImports.zipIdx

/-- The symbols of a module without its header. -/
def attributed (m : Module) : SymbolTable :=
  addImports m.labels m.sectionSymbols m.functionImports

/-- The symbol of the header of a module. -/
def headerSymbol : Symbol :=
  { scope := "", selfName := headerName, kind := .wasmHeader, size := 8 }

variable (m : Module)

theorem symbols_eq : m.symbols = addHeader m.attributed m.fileSize := rfl

theorem attributed_sectionSymbols :
    m.labels.Attributed m.functionImports m.sections [] m.sectionSymbols := by
  have empty : m.labels.Attributed m.functionImports [] [] ∅ := attributed_empty
  have := attributed_sections empty fun s (hs : s ∈ m.sections) => Section.name_mem_reserved hs
  simpa [sectionSymbols] using this

theorem entries_attributed :
    m.attributed.entries = m.sectionSymbols.entries ++ m.importSymbols :=
  entries_addImports m.labels m.sectionSymbols m.functionImports

/-- What is said of the imports apart from their names. -/
theorem map_importSymbols :
    (m.importSymbols.map fun s => (s.kind, s.size, s.ordinal)) =
      (List.range m.functionImports.length).map fun i => (.imported, 0, some i) := by
  rw [importSymbols, map_series (g := fun b => (.imported, 0, some b.2)) fun _ _ => rfl]
  have := List.zipIdx_map_snd 0 m.functionImports
  rw [← List.range_eq_range'] at this
  rw [← this, List.map_map]
  rfl

theorem mem_importSymbols {s : Symbol} (h : s ∈ m.importSymbols) :
    s.kind = .imported ∧ s.size = 0 ∧ s.name ∉ m.labels.reserved := by
  obtain ⟨taken, b, _, rfl⟩ := exists_of_mem_series h
  exact ⟨rfl, rfl, fun mem =>
    m.labels.name_importSymbol_notMem taken b.2 b.1 (List.mem_append_right _ mem)⟩

theorem total_attributed :
    m.attributed.total = (m.sections.map fun s => s.size + s.bodies.sum).sum := by
  have imports : (m.importSymbols.map Symbol.size).sum = 0 := by
    rw [List.sum_eq_zero_iff_forall_eq_nat]
    simp only [List.mem_map]
    rintro n ⟨s, hs, rfl⟩
    exact (m.mem_importSymbols hs).2.1
  have sections := m.attributed_sectionSymbols.total
  rw [SymbolTable.total_eq] at sections ⊢
  rw [entries_attributed, List.map_append, List.sum_append, imports, sections]
  simp

theorem headerName_mem_reserved : headerName ∈ m.labels.reserved :=
  List.mem_append_right _ (List.mem_singleton.2 rfl)

theorem headerName_notMem : headerName ∉ m.attributed.keys := by
  intro h
  obtain ⟨s, hs, name⟩ := Roster.mem_keys.1 h
  rw [entries_attributed, List.mem_append] at hs
  rcases hs with hs | hs
  · rcases m.attributed_sectionSymbols.owner s hs with ⟨_, sec⟩ | ⟨_, free⟩
    · obtain ⟨x, _, e⟩ := List.mem_map.1 sec
      exact x.name_ne_headerName (e.trans name)
    · exact free (name ▸ m.headerName_mem_reserved)
  · exact (m.mem_importSymbols hs).2.2 (name ▸ m.headerName_mem_reserved)

end Module

/-- What is listed for a file are the symbols of its sections, which cover the
file behind the header. -/
theorem read_of_symbolsOf {decoding : Bytes.NameDecoding} {bytes : ByteArray} {t : SymbolTable}
    (h : symbolsOf decoding bytes = .ok t) :
    ∃ m, Module.read decoding bytes = .ok m ∧ t = m.symbols ∧ m.fileSize = bytes.size ∧
      Tiles bytes 8 m.sections bytes.size := by
  obtain ⟨m, read, h⟩ := bind_eq_ok.1 h
  obtain ⟨size, tiles⟩ := tiles_of_read read
  exact ⟨m, read, by simpa using h.symm, size, tiles⟩

/-- What a file that can be read has in its sections is all but eight bytes. -/
theorem total_add_of_tiles {bytes : ByteArray} {m : Module}
    (h : Tiles bytes 8 m.sections bytes.size) : m.attributed.total + 8 = bytes.size := by
  have all := h.add_sum
  have each : (m.sections.map fun s => s.size + s.bodies.sum) =
      m.sections.map fun s => s.stop - s.start :=
    List.map_congr_left fun s hs => (h.at_of_mem hs).size_add
  rw [m.total_attributed, each]
  omega

theorem total_add_of_read {decoding : Bytes.NameDecoding} {bytes : ByteArray} {m : Module}
    (read : Module.read decoding bytes = .ok m) : m.attributed.total + 8 = m.fileSize := by
  obtain ⟨size, tiles⟩ := tiles_of_read read
  rw [size, total_add_of_tiles tiles]

/-- The header comes last and has eight bytes. -/
theorem entries_symbols {m : Module} (h : m.attributed.total + 8 = m.fileSize) :
    m.symbols.entries = m.attributed.entries ++ [Module.headerSymbol] := by
  have rest : m.fileSize - m.attributed.total = 8 := by omega
  rw [m.symbols_eq, addHeader, rest]
  exact Roster.entries_insert_of_notMem m.headerName_notMem

end SizeAtlas.Wasm
