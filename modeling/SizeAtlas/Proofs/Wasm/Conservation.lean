import SizeAtlas.Proofs.Wasm.Symbols

/-!
# Every byte of a module is counted once

The symbols of a module that can be read have as many bytes together as the file:
eight in the header, and in each section those of its function bodies and the rest.

## Main statements

* `find?_section` — the bytes of the symbol of a section name.
* `total_symbolsOf` — the bytes of all symbols, of the header and of each section.
-/

namespace SizeAtlas.Wasm

variable {decoding : Bytes.NameDecoding} {bytes : ByteArray} {t : SymbolTable}

theorem total_symbols {m : Module} (h : m.attributed.total + 8 = m.fileSize) :
    m.symbols.total = m.fileSize := by
  have attributed : m.attributed.total = (m.attributed.entries.map Symbol.size).sum := rfl
  rw [SymbolTable.total_eq, entries_symbols h, List.map_append, List.sum_append, ← attributed, ← h]
  rfl

theorem find?_headerName {m : Module} (h : m.attributed.total + 8 = m.fileSize) :
    m.symbols.find? headerName = some Module.headerSymbol := by
  rw [Roster.find?_eq_some_iff, entries_symbols h]
  exact ⟨by simp, rfl⟩

/-- The symbol of a section name has the bytes of all sections of that name. -/
theorem find?_section {m : Module} (h : m.attributed.total + 8 = m.fileSize) {name : String}
    (hname : name ∈ m.sections.map Section.name) :
    ∃ s, m.symbols.find? name = some s ∧ s.kind = .moduleSection ∧
      s.size = ((m.sections.filter (·.name = name)).map Section.size).sum := by
  obtain ⟨s, found, rest⟩ := m.attributed_sectionSymbols.bytes name hname
  obtain ⟨hs, name⟩ := Roster.find?_eq_some_iff.1 found
  refine ⟨s, Roster.find?_eq_some_iff.2 ⟨?_, name⟩, rest⟩
  rw [entries_symbols h, m.entries_attributed]
  exact List.mem_append_left _ (List.mem_append_left _ hs)

/-- **Every byte of a module is counted once.**  The sections cover the file behind
the eight bytes of its header; no section has fewer bytes than the bodies taken
away from it, and what is attributed before the header is no more than the file. -/
theorem total_symbolsOf (h : symbolsOf decoding bytes = .ok t) :
    t.total = bytes.size ∧
    (∃ s, t.find? headerName = some s ∧ s.kind = .wasmHeader ∧ s.size = 8) ∧
    ∃ m, Module.read decoding bytes = .ok m ∧ t = m.symbols ∧
      Tiles bytes 8 m.sections bytes.size ∧
      (∀ s ∈ m.sections, s.bodies.sum ≤ s.stop - s.start) ∧
      m.attributed.total ≤ m.fileSize ∧
      ∀ name ∈ m.sections.map Section.name, ∃ s, t.find? name = some s ∧
        s.kind = .moduleSection ∧
        s.size = ((m.sections.filter (·.name = name)).map fun x =>
          x.stop - x.start - x.bodies.sum).sum := by
  obtain ⟨m, read, rfl, size, tiles⟩ := read_of_symbolsOf h
  have rest : m.attributed.total + 8 = m.fileSize := by rw [size, total_add_of_tiles tiles]
  refine ⟨by rw [total_symbols rest, size], ⟨_, find?_headerName rest, rfl, rfl⟩, m, read, rfl,
    tiles, fun s hs => (tiles.at_of_mem hs).sum_bodies_le, by omega, ?_⟩
  intro name hname
  exact find?_section rest hname

/-- A module with two function bodies and two custom sections of one name. -/
theorem total_symbolsOf_repeated_sections :
    ∃ t, symbolsOf .utf8 ⟨#[0, 0x61, 0x73, 0x6d, 1, 0, 0, 0, 0, 2, 1, 0x78,
        10, 6, 2, 2, 0, 0x0b, 1, 0, 0, 3, 1, 0x78, 7]⟩ = .ok t ∧
      t.total = 25 ∧ ∃ s, t.find? headerName = some s ∧ s.kind = .wasmHeader ∧ s.size = 8 := by
  have ok : (symbolsOf .utf8 ⟨#[0, 0x61, 0x73, 0x6d, 1, 0, 0, 0, 0, 2, 1, 0x78,
      10, 6, 2, 2, 0, 0x0b, 1, 0, 0, 3, 1, 0x78, 7]⟩).isOk = true := by decide +kernel
  obtain ⟨t, h⟩ := exists_eq_ok ok
  exact ⟨t, h, (total_symbolsOf h).1, (total_symbolsOf h).2.1⟩

end SizeAtlas.Wasm
