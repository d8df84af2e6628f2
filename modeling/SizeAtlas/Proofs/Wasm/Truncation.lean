import SizeAtlas.Proofs.Wasm.Copy
import SizeAtlas.Proofs.Wasm.Symbols

/-!
# Files that are cut off

What is read from the first bytes of a file is read alike from the whole file.  So the
sections of a file that is cut off, if it can still be read, are the first sections of the
whole one, and the cut lies where the last of them ends.

## Main statements

* `readSections_of_cut` — the reader of the whole file comes to the cut with the same sections.
* `sections_prefix_of_cut` — what is read of a file that is cut off are its first sections.
* `symbolsOf_cut` — a file that is cut off elsewhere than behind a section is refused.
-/

namespace SizeAtlas.Wasm

open Bytes

variable {decoding : NameDecoding} {bytes part whole : ByteArray} {cursor stop n : Nat}
  {seen sections : List Section}

/-- Sections without a gap end where they start or where one of them ends. -/
theorem Tiles.eq_or_exists_stop (h : Tiles bytes cursor sections stop) :
    stop = cursor ∨ ∃ s ∈ sections, s.stop = stop := by
  induction h with
  | nil cursor => exact Or.inl rfl
  | @cons s stop sections here rest ih =>
    right
    rcases ih with rfl | ⟨x, mem, end_eq⟩
    · exact ⟨s, List.mem_cons_self, rfl⟩
    · exact ⟨x, List.mem_cons_of_mem _ mem, end_eq⟩

/-- **The reader of the whole file comes to the cut with the same sections.**  The induction
is over the sections of the file that is cut off, each of which is read alike in the whole
file, even if it reads past its end. -/
theorem readSections_of_cut (h : Copied part whole 0 part.size) (le : cursor ≤ part.size)
    (read : readSections decoding part cursor seen = .ok sections) :
    readSections decoding whole cursor seen =
      readSections decoding whole part.size sections.reverse := by
  fun_induction readSections decoding part cursor seen with
  | case1 cursor seen lt e failed => simp at read
  | case2 cursor seen lt s here ih =>
    have again := readSection_of_copied h here
    rw [Nat.zero_add, moved_zero] at again
    obtain ⟨_, _, at_cursor⟩ := at_of_readSection here
    rw [readSections_of_readSection seen again]
    exact ih at_cursor.stop_le read
  | case3 cursor seen ge =>
    obtain rfl : cursor = part.size := by omega
    obtain rfl : seen.reverse = sections := Except.ok.inj read
    rw [List.reverse_reverse]

/-- **What is read of a file that is cut off are its first sections**, the last of which ends
at the cut. -/
theorem sections_prefix_of_cut {m m' : Module} (h : Copied part whole 0 part.size)
    (le : part.size ≤ whole.size) (read : Module.read decoding whole = .ok m)
    (cut : Module.read decoding part = .ok m') :
    m'.sections <+: m.sections ∧ (part.size = 8 ∨ ∃ s ∈ m'.sections, s.stop = part.size) := by
  obtain ⟨all, _, _⟩ := readSections_of_read read
  obtain ⟨first, _, header⟩ := readSections_of_read cut
  rw [readSections_of_cut h header first] at all
  obtain ⟨rest, split, _⟩ := tiles_of_readSections le all
  exact ⟨⟨rest, by rw [split, List.reverse_reverse]⟩, (tiles_of_read cut).2.eq_or_exists_stop⟩

/-- **A file that is cut off is not mistaken for a whole one.**  Of a file that is accepted
the first `n` bytes are refused, unless they are the header alone or end where a section of
the file ends. -/
theorem symbolsOf_cut {t : SymbolTable} (h : symbolsOf decoding bytes = .ok t) :
    ∃ m, Module.read decoding bytes = .ok m ∧ t = m.symbols ∧
      Tiles bytes 8 m.sections bytes.size ∧
      ∀ n < bytes.size, n ≠ 8 → (∀ s ∈ m.sections, s.stop ≠ n) →
        ∃ fault, symbolsOf decoding (bytes.extract 0 n) = .error fault := by
  obtain ⟨m, read, symbols, _, tiles⟩ := read_of_symbolsOf h
  refine ⟨m, read, symbols, tiles, fun n lt header inside => ?_⟩
  cases cut : symbolsOf decoding (bytes.extract 0 n) with
  | error fault => exact ⟨fault, rfl⟩
  | ok t' =>
    obtain ⟨m', read', _⟩ := read_of_symbolsOf cut
    have le := Nat.le_of_lt lt
    have size := size_extract_of_le le
    obtain ⟨first, ends⟩ :=
      sections_prefix_of_cut (copied_extract le) (size.trans_le le) read read'
    rw [size] at ends
    rcases ends with ends | ⟨s, mem, ends⟩
    · exact absurd ends header
    · exact absurd ends (inside s (first.subset mem))

/-- A file with a custom section and a function body.  It is refused if it is cut off in the
name of the section or in the body, and also between the section's number and its length. -/
theorem symbolsOf_cut_customAndCode :
    ∃ t, symbolsOf .utf8 ⟨#[0, 0x61, 0x73, 0x6d, 1, 0, 0, 0, 0, 3, 1, 0x78, 7,
        10, 4, 1, 2, 0, 0x0b]⟩ = .ok t ∧
      ∀ n ∈ [9, 11, 14, 17], ∃ fault, symbolsOf .utf8 (ByteArray.extract ⟨#[0, 0x61, 0x73, 0x6d,
        1, 0, 0, 0, 0, 3, 1, 0x78, 7, 10, 4, 1, 2, 0, 0x0b]⟩ 0 n) = .error fault := by
  have sections : Module.read .utf8 ⟨#[0, 0x61, 0x73, 0x6d, 1, 0, 0, 0, 0, 3, 1, 0x78, 7,
      10, 4, 1, 2, 0, 0x0b]⟩ =
        .ok ⟨[⟨0, 8, 13, .custom "x" none⟩, ⟨10, 13, 19, .code [3]⟩], 19⟩ := by decide +kernel
  have accepted : symbolsOf .utf8 _ = .ok _ := bind_eq_ok.2 ⟨_, sections, rfl⟩
  obtain ⟨m, read, _, _, refused⟩ := symbolsOf_cut accepted
  obtain rfl := Except.ok.inj (sections.symm.trans read)
  refine ⟨_, accepted, fun n mem => ?_⟩
  have outside : n < 19 ∧ n ≠ 8 ∧ n ≠ 13 ∧ n ≠ 19 := by
    simp only [List.mem_cons, List.not_mem_nil, or_false] at mem
    omega
  refine refused n outside.1 outside.2.1 fun s hs => ?_
  rcases List.mem_pair.1 hs with rfl | rfl
  · exact outside.2.2.1.symm
  · exact outside.2.2.2.symm

end SizeAtlas.Wasm
