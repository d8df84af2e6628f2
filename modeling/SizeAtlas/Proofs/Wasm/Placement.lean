import SizeAtlas.Proofs.Wasm.Copy

/-!
# Files put together from sections

A section that is read from its own bytes alone is read alike wherever these bytes stand.
So a file that is put together from such sections is always accepted, and what is read
from it is each of them, moved to its place.

## Main definitions

* `SelfContained` — a section with the bytes that it is read from.
* `fileOf` — the file with the given sections.
* `placed` — the sections at their places.

## Main statements

* `read_fileOf` — what is read from a file that is put together from sections.
-/

namespace SizeAtlas.Wasm

open Bytes

variable {decoding : NameDecoding}

/-- A section that is read from its own bytes alone. -/
structure SelfContained (decoding : NameDecoding) where
  /-- The bytes of the section, from its number to the end of its payload. -/
  bytes : List UInt8
  /-- What is read from them. -/
  parsed : Section
  reads : readSection decoding bytes.toByteArray 0 = .ok parsed
  /-- The section ends where the bytes end. -/
  whole : parsed.stop = bytes.length

/-! ## A section at its place -/

theorem copied_of_lies {bytes : ByteArray} {bs : List UInt8} {cursor : Nat}
    (h : Lies bytes cursor bs) : Copied bs.toByteArray bytes cursor bs.toByteArray.size := by
  intro i lt
  rw [List.size_toByteArray] at lt
  obtain ⟨rest, split⟩ := h
  change bytes.data[cursor + i]? = bs.toByteArray.data[i]?
  rw [List.data_toByteArray, List.getElem?_toArray, ← Array.getElem?_toList, ← List.getElem?_drop,
    ← split, List.getElem?_append_left lt]

namespace SelfContained

variable (s : SelfContained decoding)

theorem readSection_of_lies {bytes : ByteArray} {cursor : Nat} (h : Lies bytes cursor s.bytes) :
    readSection decoding bytes cursor = .ok (s.parsed.moved cursor) :=
  readSection_of_copied (copied_of_lies h) s.reads

@[simp] theorem stop_moved (cursor : Nat) :
    (s.parsed.moved cursor).stop = cursor + s.bytes.length := by
  rw [Section.moved, s.whole]

/-- A section without imports in its number has none in its contents. -/
theorem functionImports_eq_nil (h : s.parsed.id ≠ 2) : s.parsed.functionImports = [] := by
  obtain ⟨_, _, _, _, _, _, _, _, found⟩ := readSection_eq_ok_iff.1 s.reads
  cases contents : s.parsed.contents with
  | imports functions =>
    rw [contents] at found
    exact absurd (UInt8.toNat_inj.1 (number_of_readContents found rfl)) h
  | _ => simp [Section.functionImports, contents]

/-- A section that is no code section by its number has no function bodies. -/
theorem bodies_eq_nil (h : s.parsed.id ≠ 10) : s.parsed.bodies = [] := by
  obtain ⟨_, first, here⟩ := at_of_readSection s.reads
  exact here.other h

end SelfContained

/-! ## What is said of a section wherever it lies -/

section Moved

variable (shift : Nat) (s : Section)

@[simp] theorem name_moved : (s.moved shift).name = s.name := rfl

@[simp] theorem bodies_moved : (s.moved shift).bodies = s.bodies := rfl

@[simp] theorem functionImports_moved : (s.moved shift).functionImports = s.functionImports := rfl

@[simp] theorem functionExports_moved : (s.moved shift).functionExports = s.functionExports := rfl

@[simp] theorem functionNames?_moved : (s.moved shift).functionNames? = s.functionNames? := rfl

@[simp] theorem size_moved : (s.moved shift).size = s.size := by
  rw [Section.size_eq, Section.size_eq, bodies_moved, Section.moved, Nat.add_sub_add_left]

end Moved

/-! ## Files -/

/-- The sections as they are read from `cursor` on. -/
def placed (cursor : Nat) : List (SelfContained decoding) → List Section
  | [] => []
  | s :: rest => s.parsed.moved cursor :: placed (cursor + s.bytes.length) rest

/-- The file with the given sections behind its header. -/
def fileOf (sections : List (SelfContained decoding)) : ByteArray :=
  ([0x00, 0x61, 0x73, 0x6d, 0x01, 0x00, 0x00, 0x00] ++
    sections.flatMap SelfContained.bytes).toByteArray

/-- What is said of sections wherever they lie. -/
theorem map_placed {α : Type} {f : Section → α} (h : ∀ shift s, f (s.moved shift) = f s)
    (cursor : Nat) (sections : List (SelfContained decoding)) :
    (placed cursor sections).map f = sections.map fun s => f s.parsed := by
  induction sections generalizing cursor with
  | nil => rfl
  | cons s sections ih => simp [placed, h, ih]

theorem readSections_placed {bytes : ByteArray} {cursor : Nat}
    {sections : List (SelfContained decoding)} (seen : List Section)
    (h : Lies bytes cursor (sections.flatMap SelfContained.bytes))
    (eq : cursor + (sections.flatMap SelfContained.bytes).length = bytes.size) :
    readSections decoding bytes cursor seen = .ok (seen.reverse ++ placed cursor sections) := by
  induction sections generalizing cursor seen with
  | nil =>
    obtain rfl : cursor = bytes.size := by simpa using eq
    rw [readSections_size, placed, List.append_nil]
  | cons s sections ih =>
    rw [List.flatMap_cons] at h eq
    rw [add_length_append] at eq
    rw [readSections_of_readSection seen (s.readSection_of_lies h.left), s.stop_moved,
      ih _ h.right eq, placed, List.reverse_cons, List.append_assoc, List.singleton_append]

theorem size_fileOf (sections : List (SelfContained decoding)) :
    (fileOf sections).size = 8 + (sections.flatMap SelfContained.bytes).length := by
  rw [fileOf, List.size_toByteArray, List.length_append]
  rfl

/-- **A file that is put together from sections is read as these sections.** -/
theorem read_fileOf (sections : List (SelfContained decoding)) :
    Module.read decoding (fileOf sections) =
      .ok ⟨placed 8 sections, (fileOf sections).size⟩ := by
  have lies : Lies (fileOf sections) 0 ([0x00, 0x61, 0x73, 0x6d, 0x01, 0x00, 0x00, 0x00] ++
      sections.flatMap SelfContained.bytes) := by
    rw [Lies, fileOf, List.data_toByteArray]
    exact List.prefix_refl _
  exact read_of_header lies.left (readSections_placed [] lies.right (size_fileOf sections).symm)

end SizeAtlas.Wasm
