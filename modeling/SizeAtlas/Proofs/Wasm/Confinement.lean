import SizeAtlas.Proofs.Wasm.Copy
import SizeAtlas.Wasm.Attribution

/-!
# Which sections are read from their own bytes

A section is confined if the same is read whatever follows it in its file.  A name
section is, since its parts must end where it ends, and so is a code section with a
body, since no body may pass its end, and a section that is only measured.  The other
readers do not look at where their section ends, so an import, an export or a name that
a section does not hold may be read from the bytes behind it.

## Main definitions

* `Section.Confined` — whatever follows the section, the same is read.
* `Section.Unbounded` — the reader of the section does not look at where it ends.

## Main statements

* `confined_iff_upTo` — a section is confined if it is read from the file up to its end.
* `confined_iff_of_read` — which sections of a file are confined.
-/

namespace SizeAtlas.Wasm

open Bytes

variable {decoding : NameDecoding} {bytes : ByteArray} {s : Section} {m : Module}

/-- Whatever stands behind the section, the same section is read. -/
def Section.Confined (decoding : NameDecoding) (bytes : ByteArray) (s : Section) : Prop :=
  ∀ bytes' : ByteArray, (∀ i < s.stop, bytes'[i]? = bytes[i]?) →
    readSection decoding bytes' s.start = .ok s

/-- Nothing that was read of the section was checked against its end. -/
def Section.Unbounded (s : Section) : Prop :=
  match s.contents with
  | .imports _ | .exports _ | .custom _ none | .code [] => True
  | .custom _ (some _) | .code (_ :: _) | .uninterpreted => False

/-! ## The file up to the end of a section -/

/-- The file up to the end of the section `s`. -/
def upTo (s : Section) (bytes : ByteArray) : ByteArray := bytes.extract 0 s.stop

theorem size_upTo (le : s.stop ≤ bytes.size) : (upTo s bytes).size = s.stop :=
  size_extract_of_le le

theorem getElem?_upTo {i : Nat} (lt : i < s.stop) : (upTo s bytes)[i]? = bytes[i]? :=
  getElem?_extract_of_lt lt

/-- The file and what is left of it up to the end of a section are copies as far as that. -/
theorem copied_upTo (s : Section) (bytes : ByteArray) : Copied bytes (upTo s bytes) 0 s.stop := by
  intro i lt
  rw [Nat.zero_add, getElem?_upTo lt]

/-- A section is confined if it is read from the file up to its end, that is, if all bytes
that were read stand before its end. -/
theorem confined_iff_upTo (read : readSection decoding bytes s.start = .ok s) :
    s.Confined decoding bytes ↔ readSection decoding (upTo s bytes) s.start = .ok s := by
  obtain ⟨_, _, _, _, _, _, _, le, _⟩ := readSection_eq_ok_iff.1 read
  constructor
  · intro confined
    exact confined _ fun i lt => getElem?_upTo lt
  · intro short bytes' same
    have copied : Copied (upTo s bytes) bytes' 0 (upTo s bytes).size := by
      rw [size_upTo le]
      intro i lt
      rw [Nat.zero_add, getElem?_upTo lt, same i lt]
    have again := readSection_of_copied copied short
    rwa [Nat.zero_add, moved_zero] at again

/-- Whatever is read as a section from the file up to the end of a section is that section. -/
theorem eq_of_readSection_upTo {s' : Section} (read : readSection decoding bytes s.start = .ok s)
    (short : readSection decoding (upTo s bytes) s.start = .ok s') : s' = s := by
  obtain ⟨_, _, _, _, _, _, _, le, _⟩ := readSection_eq_ok_iff.1 read
  have again := readSection_of_copied (copied_extract le) short
  rw [Nat.zero_add, moved_zero, read] at again
  exact (Except.ok.inj again).symm

/-! ## Readers that look at the end -/

/-- The number of bodies stands before the first body, which does not pass the end. -/
theorem le_of_readCode {cursor stop count first : Nat} {sizes : List Nat}
    (read : readCode bytes cursor stop = .ok sizes) (some : sizes ≠ [])
    (field : varint bytes cursor = .ok (count, first)) : first ≤ stop := by
  obtain ⟨first', end', field', bodies, le⟩ := bodies_of_readCode read
  rw [field] at field'
  obtain ⟨-, rfl⟩ := Prod.mk.inj (Except.ok.inj field')
  have sum := bodies.add_sum
  have within := le some
  omega

/-- What a section holds is read from the file up to its end, if the reader looks at it. -/
theorem readContents_upTo {id : UInt8} {first : Nat} {contents : Contents}
    (bounded : ¬ Section.Unbounded ⟨id, s.start, s.stop, contents⟩)
    (read : readContents decoding bytes id first s.stop = .ok contents) :
    readContents decoding (upTo s bytes) id first s.stop = .ok contents := by
  have copied := copied_upTo s bytes
  unfold readContents at read ⊢
  split at read
  · obtain ⟨⟨text, next⟩, title, read⟩ := bind_eq_ok.1 read
    by_cases named : text = "name"
    · simp only [if_pos named] at read
      obtain ⟨names, found, read⟩ := bind_eq_ok.1 read
      cases read
      have within := le_of_readNames found
      have title' := name_of_copied copied title within
      have found' := readNames_of_copied copied (Nat.le_refl _) found
      simp only [Nat.zero_add] at title' found'
      refine bind_eq_ok.2 ⟨(text, next), title', ?_⟩
      simp only [if_pos named]
      exact bind_eq_ok.2 ⟨names, found', rfl⟩
    · simp only [if_neg named] at read
      cases read
      exact absurd trivial bounded
  · obtain ⟨functions, _, read⟩ := bind_eq_ok.1 read
    cases read
    exact absurd trivial bounded
  · obtain ⟨functions, _, read⟩ := bind_eq_ok.1 read
    cases read
    exact absurd trivial bounded
  · obtain ⟨sizes, found, read⟩ := bind_eq_ok.1 read
    cases read
    have some : sizes ≠ [] := by
      rintro rfl
      exact bounded trivial
    have found' := readCode_of_copied copied (Nat.le_refl _)
      (fun _ _ field => le_of_readCode found some field) found
    simp only [Nat.zero_add] at found'
    exact bind_eq_ok.2 ⟨sizes, found', rfl⟩
  · exact read

theorem confined_of_bounded (read : readSection decoding bytes s.start = .ok s)
    (bounded : ¬ s.Unbounded) : s.Confined decoding bytes := by
  rw [confined_iff_upTo read]
  obtain ⟨next, length, first, number, field, start, stop, le, found⟩ :=
    readSection_eq_ok_iff.1 read
  have copied := copied_upTo s bytes
  have pos := lt_of_varint field
  have number' := byteAt_of_copied copied number (by omega)
  have field' := varint_of_copied copied field (by omega)
  simp only [Nat.zero_add] at number' field'
  exact readSection_eq_ok_iff.2 ⟨next, length, first, number', field', rfl, stop,
    Nat.le_of_eq (size_upTo le).symm, readContents_upTo bounded found⟩

/-! ## Files -/

theorem readSection_of_mem {cursor : Nat} {seen sections : List Section}
    (read : readSections decoding bytes cursor seen = .ok sections) (mem : s ∈ sections) :
    s ∈ seen ∨ readSection decoding bytes s.start = .ok s := by
  fun_induction readSections decoding bytes cursor seen with
  | case1 cursor seen lt e failed => simp at read
  | case2 cursor seen lt x here ih =>
    rcases ih read with earlier | later
    · rcases List.mem_cons.1 earlier with rfl | earlier
      · obtain ⟨start, _⟩ := at_of_readSection here
        exact Or.inr (start ▸ here)
      · exact Or.inl earlier
    · exact Or.inr later
  | case3 cursor seen ge =>
    cases read
    exact Or.inl (List.mem_reverse.1 mem)

/-- Every section of a file that can be read is read at its start. -/
theorem readSection_of_read (h : Module.read decoding bytes = .ok m) (mem : s ∈ m.sections) :
    readSection decoding bytes s.start = .ok s :=
  (readSection_of_mem (readSections_of_read h).1 mem).resolve_left (by simp)

/-- **When a section is read from its own bytes.**  A name section, a code section with a
body and a section that is only measured are confined in every file that can be read.
Of the other sections, whose readers do not look at their end, exactly those are that can
be read from the file up to there. -/
theorem confined_iff_of_read (h : Module.read decoding bytes = .ok m) (mem : s ∈ m.sections) :
    s.Confined decoding bytes ↔
      (s.Unbounded → ∃ s', readSection decoding (upTo s bytes) s.start = .ok s') := by
  have read := readSection_of_read h mem
  constructor
  · intro confined _
    exact ⟨s, (confined_iff_upTo read).1 confined⟩
  · intro short
    by_cases unbounded : s.Unbounded
    · obtain ⟨s', again⟩ := short unbounded
      rw [confined_iff_upTo read]
      rwa [eq_of_readSection_upTo read again] at again
    · exact confined_of_bounded read unbounded

/-- An import section that holds its one import is confined. -/
theorem confined_iff_of_read_oneImport :
    ∃ m : Module, ∃ s ∈ m.sections,
      Module.read .utf8 ⟨#[0, 0x61, 0x73, 0x6d, 1, 0, 0, 0, 2, 6, 1, 0, 1, 0x66, 0, 0, 1, 0]⟩ =
        .ok m ∧ s.functionImports = ["f"] ∧
      s.Confined .utf8 ⟨#[0, 0x61, 0x73, 0x6d, 1, 0, 0, 0, 2, 6, 1, 0, 1, 0x66, 0, 0, 1, 0]⟩ := by
  have read : Module.read .utf8
      ⟨#[0, 0x61, 0x73, 0x6d, 1, 0, 0, 0, 2, 6, 1, 0, 1, 0x66, 0, 0, 1, 0]⟩ =
        .ok ⟨[⟨2, 8, 16, .imports ["f"]⟩, ⟨1, 16, 18, .uninterpreted⟩], 18⟩ := by decide +kernel
  have short : readSection .utf8 (upTo ⟨2, 8, 16, .imports ["f"]⟩
      ⟨#[0, 0x61, 0x73, 0x6d, 1, 0, 0, 0, 2, 6, 1, 0, 1, 0x66, 0, 0, 1, 0]⟩) 8 =
        .ok ⟨2, 8, 16, .imports ["f"]⟩ := by decide +kernel
  have mem : (⟨2, 8, 16, .imports ["f"]⟩ : Section) ∈
      [⟨2, 8, 16, .imports ["f"]⟩, ⟨1, 16, 18, .uninterpreted⟩] := List.mem_cons_self
  exact ⟨_, _, mem, read, rfl, (confined_iff_of_read read mem).2 fun _ => ⟨_, short⟩⟩

/-- A file whose import section has one byte, which says that there is one import.  What
comes next is a type section. -/
def importBehindSection : ByteArray :=
  ⟨#[0, 0x61, 0x73, 0x6d, 1, 0, 0, 0, 2, 1, 1, 1, 4, 1, 0x66, 0, 0]⟩

/-- The same file but for a byte of its type section. -/
def otherImportBehindSection : ByteArray :=
  ⟨#[0, 0x61, 0x73, 0x6d, 1, 0, 0, 0, 2, 1, 1, 1, 4, 1, 0x67, 0, 0]⟩

/-- Both files are accepted, with an import that is read from the type section, and so
with different imports although they do not differ before the end of the import
section. -/
theorem not_confined_importBehindSection :
    ∃ m m' : Module, ∃ s ∈ m.sections, s.functionImports = ["f"] ∧ s.stop = 11 ∧
      Module.read .utf8 importBehindSection = .ok m ∧
      Module.read .utf8 otherImportBehindSection = .ok m' ∧ m'.functionImports = ["g"] ∧
      (∀ i < 11, otherImportBehindSection[i]? = importBehindSection[i]?) ∧
      (∃ t, symbolsOf .utf8 importBehindSection = .ok t) ∧
      ¬ s.Confined .utf8 importBehindSection := by
  have read : Module.read .utf8 importBehindSection =
      .ok ⟨[⟨2, 8, 11, .imports ["f"]⟩, ⟨1, 11, 17, .uninterpreted⟩], 17⟩ := by decide +kernel
  have other : Module.read .utf8 otherImportBehindSection =
      .ok ⟨[⟨2, 8, 11, .imports ["g"]⟩, ⟨1, 11, 17, .uninterpreted⟩], 17⟩ := by decide +kernel
  have same : ∀ i < 11, otherImportBehindSection[i]? = importBehindSection[i]? := by
    decide +kernel
  have ok : (symbolsOf .utf8 importBehindSection).isOk = true := by decide +kernel
  refine ⟨_, _, ⟨2, 8, 11, .imports ["f"]⟩, List.mem_cons_self, rfl, rfl, read, other, rfl, same,
    exists_eq_ok ok, fun confined => ?_⟩
  have here := readSection_of_read other (s := ⟨2, 8, 11, .imports ["g"]⟩) List.mem_cons_self
  have again := (confined _ same).symm.trans here
  simp at again

end SizeAtlas.Wasm
