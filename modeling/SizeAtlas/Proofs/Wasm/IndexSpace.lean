import SizeAtlas.Proofs.Wasm.Symbols

/-!
# The functions of a module keep their indices

Imported functions take the first indices and the bodies of each code section the
next ones.  Every one of them has a symbol of its own, none of which takes the name
of a section or of the header, whatever names the module gives.

## Main statements

* `functions_symbols` — the functions with a body, in the order of the file.
* `imports_symbols` — the imports, in their order.
* `size_symbols` — how many symbols there are.
* `indices_symbolsOf` — all of this for a file that can be read.
-/

namespace SizeAtlas.Wasm

variable {m : Module} {l : Labels} {imports : List String} {sections : List Section}
  {t : SymbolTable}

/-! ## Kinds -/

theorem isFunction_importSymbols {s : Symbol} (h : s ∈ m.importSymbols) :
    isFunction s = false ∧ isImport s = true := by
  simp [isFunction, isImport, (m.mem_importSymbols h).1]

theorem isImport_sectionSymbols {s : Symbol} (h : s ∈ m.sectionSymbols.entries) :
    isImport s = false := by
  rcases m.attributed_sectionSymbols.owner s h with ⟨kind, _⟩ | ⟨fn, _⟩
  · simp [isImport, kind]
  · unfold isFunction at fn
    unfold isImport
    cases kind : s.kind <;> simp [kind] at fn ⊢

/-- The functions of a module, in the order of the file. -/
theorem functions_symbols (h : m.attributed.total + 8 = m.fileSize) :
    (m.symbols.entries.filter isFunction).map functionRow =
      m.sections.flatMap fun s => m.labels.functionRows s.bodies := by
  have imports : m.importSymbols.filter isFunction = [] :=
    List.filter_eq_nil_iff.2 fun s hs => by simp [isFunction_importSymbols hs]
  have header : [Module.headerSymbol].filter isFunction = [] := rfl
  have sections := m.attributed_sectionSymbols.functions
  rw [entries_symbols h, m.entries_attributed, List.filter_append, List.filter_append, imports,
    header, List.append_nil, List.append_nil, sections]
  simp [Labels.functionRows]

theorem filter_isImport_symbols (h : m.attributed.total + 8 = m.fileSize) :
    m.symbols.entries.filter isImport = m.importSymbols := by
  have sections : m.sectionSymbols.entries.filter isImport = [] :=
    List.filter_eq_nil_iff.2 fun s hs => by simp [isImport_sectionSymbols hs]
  have header : [Module.headerSymbol].filter isImport = [] := rfl
  have imports : m.importSymbols.filter isImport = m.importSymbols :=
    List.filter_eq_self.2 fun s hs => (isFunction_importSymbols hs).2
  rw [entries_symbols h, m.entries_attributed, List.filter_append, List.filter_append, sections,
    header, imports, List.nil_append, List.append_nil]

/-- The imports of a module have no bytes and the first indices, in their order. -/
theorem imports_symbols (h : m.attributed.total + 8 = m.fileSize) :
    ((m.symbols.entries.filter isImport).map fun s => (s.kind, s.size, s.ordinal)) =
      (List.range m.functionImports.length).map fun i => (.imported, 0, some i) := by
  rw [filter_isImport_symbols h, m.map_importSymbols]

/-! ## Names -/

theorem named_importAt {taken : List String} {b : String × Nat} (h : b ∈ imports.zipIdx) :
    l.Named imports taken (l.importAt taken b) := by
  rintro index hindex
  obtain rfl : b.2 = index := by simpa [Labels.importAt, Labels.importSymbol] using hindex
  refine ⟨b.1, ?_, l.name_importSymbol taken b.2 b.1⟩
  have kind : (l.importAt taken b).kind = Symbol.Kind.imported := rfl
  rw [if_pos kind]
  exact List.mem_zipIdx_iff_getElem?.1 h

/-- Every function and import has the first name of its series that is free. -/
theorem inTurn_symbols (h : m.attributed.total + 8 = m.fileSize) :
    InTurn (m.labels.Named m.functionImports) [] m.symbols.entries := by
  rw [entries_symbols h, m.entries_attributed, inTurn_append, inTurn_append]
  refine ⟨⟨m.attributed_sectionSymbols.named, inTurn_series fun _ _ => named_importAt⟩, ?_,
    trivial⟩
  rintro index hindex
  simp [Module.headerSymbol] at hindex

/-- No function or import has the name of a section or of the header. -/
theorem name_notMem_reserved (h : m.attributed.total + 8 = m.fileSize) {s : Symbol}
    (hs : s ∈ m.symbols.entries) (fn : isFunction s = true ∨ isImport s = true) :
    s.name ∉ m.labels.reserved := by
  rw [entries_symbols h, m.entries_attributed, List.mem_append, List.mem_append,
    List.mem_singleton] at hs
  rcases hs with (hs | hs) | rfl
  · rcases m.attributed_sectionSymbols.owner s hs with ⟨kind, _⟩ | ⟨_, free⟩
    · simp [isFunction, isImport, kind] at fn
    · exact free
  · exact (m.mem_importSymbols hs).2.2
  · simp [isFunction, isImport, Module.headerSymbol] at fn

/-! ## Number -/

/-- There is one symbol of a section for each section name. -/
theorem length_filter_sections (h : l.Attributed imports sections [] t) :
    (t.entries.filter fun s => !isFunction s).length =
      (sections.map Section.name).dedup.length := by
  have nodup : ((t.entries.filter fun s => !isFunction s).map Symbol.name).Nodup :=
    t.nodup.sublist (List.filter_sublist.map Symbol.name)
  have same : ((t.entries.filter fun s => !isFunction s).map Symbol.name).toFinset =
      (sections.map Section.name).toFinset := by
    ext name
    rw [List.mem_toFinset, List.mem_toFinset]
    constructor
    · intro mem
      obtain ⟨s, hs, rfl⟩ := List.mem_map.1 mem
      obtain ⟨hs, fn⟩ := List.mem_filter.1 hs
      exact (h.owner s hs).elim And.right fun free => by simp [free.1] at fn
    · intro mem
      obtain ⟨s, found, kind, _⟩ := h.bytes name mem
      obtain ⟨hs, rfl⟩ := Roster.find?_eq_some_iff.1 found
      exact List.mem_map_of_mem (List.mem_filter.2 ⟨hs, by simp [isFunction, kind]⟩)
  have card := congrArg Finset.card same
  rw [List.toFinset_card_of_nodup nodup, List.card_toFinset, List.length_map] at card
  exact card

/-- There is a symbol for each section name, each body and each import, and one for
the header. -/
theorem size_symbols (h : m.attributed.total + 8 = m.fileSize) :
    m.symbols.size = (m.sections.map Section.name).dedup.length +
      (m.sections.flatMap Section.bodies).length + m.functionImports.length + 1 := by
  have functions : (m.sectionSymbols.entries.filter isFunction).length =
      (m.sections.flatMap Section.bodies).length := by
    have := congrArg List.length m.attributed_sectionSymbols.functions
    simpa [Labels.functionRows, List.length_flatMap] using this
  have imports : m.importSymbols.length = m.functionImports.length := by
    rw [Module.importSymbols, length_series, List.length_zipIdx]
  have sections := length_filter_sections m.attributed_sectionSymbols
  have both := List.length_eq_length_filter_add (l := m.sectionSymbols.entries) isFunction
  rw [Roster.size, entries_symbols h, m.entries_attributed, List.length_append,
    List.length_append, imports, List.length_singleton]
  omega

/-! ## Files -/

/-- **The functions of a module keep their indices.**  With `n` imported functions
the imports have the indices below `n`, and the `i`-th body of a code section has
the index `n + i`.  Each goes by the first name of its series that neither a symbol
before it has nor a section or the header, so that no symbol replaces another. -/
theorem indices_symbolsOf {decoding : Bytes.NameDecoding} {bytes : ByteArray}
    (h : symbolsOf decoding bytes = .ok t) :
    ∃ m, Module.read decoding bytes = .ok m ∧ Tiles bytes 8 m.sections bytes.size ∧
      ((t.entries.filter isImport).map fun s => (s.kind, s.size, s.ordinal)) =
        ((List.range m.functionImports.length).map fun i => (.imported, 0, some i)) ∧
      ((t.entries.filter isFunction).map fun s => (s.ordinal, s.minifiedName, s.size, s.kind)) =
        (m.sections.flatMap fun s => s.bodies.zipIdx.map fun (size, i) =>
          (some (m.functionImports.length + i), toString (m.functionImports.length + i), size,
            if m.functionImports.length + i ∈ m.functionExports then .exported
            else .function)) ∧
      (∀ before s after index, t.entries = before ++ s :: after → s.ordinal = some index →
        ∃ wish j,
          (isFunction s = true →
            wish = (m.functionNames.lookup index).getD (toString index)) ∧
          (isImport s = true → m.functionImports[index]? = some wish) ∧
          s.name = nameCandidate wish (toString index) j ∧
          ∀ i ≤ j, nameCandidate wish (toString index) i ∈
              before.map Symbol.name ++ (m.sections.map Section.name ++ [headerName]) ↔ i < j) ∧
      t.keys.Nodup ∧
      (∀ s ∈ t.entries, isFunction s = true ∨ isImport s = true →
        s.name ∉ m.sections.map Section.name ∧ s.name ≠ headerName) ∧
      t.size = (m.sections.map Section.name).dedup.length +
        (m.sections.flatMap Section.bodies).length + m.functionImports.length + 1 := by
  obtain ⟨m, read, rfl, size, tiles⟩ := read_of_symbolsOf h
  have rest : m.attributed.total + 8 = m.fileSize := by rw [size, total_add_of_tiles tiles]
  refine ⟨m, read, tiles, imports_symbols rest, functions_symbols rest, ?_, m.symbols.nodup,
    fun s hs fn => ?_, size_symbols rest⟩
  · intro before s after index split hindex
    have named := inTurn_symbols rest
    rw [split] at named
    obtain ⟨wish, hwish, name⟩ := named.of_split index hindex
    obtain ⟨j, _, hj, free, taken⟩ := freeName_spec wish (toString index)
      (before.map Symbol.name ++ m.labels.reserved)
    refine ⟨wish, j, fun fn => ?_, fun imp => ?_, by rw [← hj]; simpa using name, fun i le => ?_⟩
    · have : s.kind ≠ .imported := fun e => by simp [isFunction, e] at fn
      simpa [this, Labels.functionName, Module.labels] using hwish.symm
    · have : s.kind = .imported := by simpa [isImport] using imp
      simpa [this] using hwish
    · constructor
      · intro mem
        rcases Nat.lt_or_eq_of_le le with lt | rfl
        · exact lt
        · exact absurd mem free
      · exact taken i
  · have := name_notMem_reserved rest hs fn
    simpa [Module.labels, not_or] using this

/-- A module with an import and two functions, which its name section calls like
the code section and like the second function. -/
theorem indices_symbolsOf_clashing_names :
    ∃ t, symbolsOf .utf8 ⟨#[0, 0x61, 0x73, 0x6d, 1, 0, 0, 0,
        2, 7, 1, 1, 0x65, 1, 0x66, 0, 0, 10, 6, 2, 2, 0, 0x0b, 1, 0,
        0, 17, 4, 0x6e, 0x61, 0x6d, 0x65, 1, 10, 2, 1, 4, 0x43, 0x4f, 0x44, 0x45, 2, 1, 0x32]⟩ =
          .ok t ∧
      t.keys.Nodup ∧
      ∀ s ∈ t.entries, isFunction s = true ∨ isImport s = true → s.name ≠ headerName := by
  have ok : (symbolsOf .utf8 ⟨#[0, 0x61, 0x73, 0x6d, 1, 0, 0, 0,
      2, 7, 1, 1, 0x65, 1, 0x66, 0, 0, 10, 6, 2, 2, 0, 0x0b, 1, 0,
      0, 17, 4, 0x6e, 0x61, 0x6d, 0x65, 1, 10, 2, 1, 4, 0x43, 0x4f, 0x44, 0x45, 2, 1, 0x32]⟩).isOk =
        true := by decide +kernel
  obtain ⟨t, h⟩ := exists_eq_ok ok
  obtain ⟨_, _, _, _, _, _, nodup, free, _⟩ := indices_symbolsOf h
  exact ⟨t, h, nodup, fun s hs fn => (free s hs fn).2⟩

end SizeAtlas.Wasm
