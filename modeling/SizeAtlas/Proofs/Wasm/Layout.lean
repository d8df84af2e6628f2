import SizeAtlas.Proofs.Fallible
import SizeAtlas.Wasm.Reading

/-!
# How the sections of a module lie in its file

A file that can be read is a header of eight bytes and then one section after the
other, without a gap, to its end.  A section is its number, the length of its
payload and the payload; the function bodies of a code section lie one after the
other inside its payload.

## Main definitions

* `Bodies` — function bodies that lie one after the other.
* `Section.At` — a section as it lies in the file.
* `Tiles` — sections that lie one after the other.

## Main statements

* `Section.At.sum_bodies_le` — the bodies of a section fit into it.
* `number_of_readContents` — what is read from a section fits its number.
* `tiles_of_read` — the sections of a file that can be read lie so.
-/

namespace SizeAtlas.Wasm

open Bytes

/-! ## Function bodies -/

/-- From `cursor` to `stop` there are function bodies, each behind its length
field, which take `sizes` bytes with these fields. -/
inductive Bodies (bytes : ByteArray) : (cursor : Nat) → (sizes : List Nat) → (stop : Nat) → Prop
  | nil (cursor : Nat) : Bodies bytes cursor [] cursor
  | cons {cursor length first stop : Nat} {sizes : List Nat}
      (field : varint bytes cursor = .ok (length, first))
      (rest : Bodies bytes (first + length) sizes stop) :
      Bodies bytes cursor ((first + length - cursor) :: sizes) stop

theorem Bodies.add_sum {bytes : ByteArray} {cursor stop : Nat} {sizes : List Nat}
    (h : Bodies bytes cursor sizes stop) : cursor + sizes.sum = stop := by
  induction h with
  | nil cursor => rfl
  | cons field rest ih =>
    have := lt_of_varint field
    rw [List.sum_cons]
    omega

theorem bodies_of_readBodies {bytes : ByteArray} {limit count cursor : Nat}
    {seen found : List Nat} (h : readBodies bytes limit count cursor seen = .ok found) :
    ∃ sizes stop, found = seen.reverse ++ sizes ∧ sizes.length = count ∧
      Bodies bytes cursor sizes stop ∧ (sizes ≠ [] → stop ≤ limit) := by
  induction count generalizing cursor seen with
  | zero =>
    simp only [readBodies, Except.ok.injEq] at h
    exact ⟨[], cursor, by simp [h], rfl, .nil cursor, fun ne => absurd rfl ne⟩
  | succ count ih =>
    rw [readBodies, bind_eq_ok] at h
    obtain ⟨⟨length, first⟩, field, h⟩ := h
    by_cases beyond : limit < first + length
    · simp [beyond] at h
    · simp only [beyond, if_false] at h
      obtain ⟨sizes, stop, rfl, len, rest, le⟩ := ih h
      refine ⟨(first + length - cursor) :: sizes, stop, by simp, by simp [len],
        .cons field rest, fun _ => ?_⟩
      cases rest with
      | nil => omega
      | cons _ _ => exact le (List.cons_ne_nil _ _)

theorem bodies_of_readCode {bytes : ByteArray} {cursor limit : Nat} {sizes : List Nat}
    (h : readCode bytes cursor limit = .ok sizes) :
    ∃ first stop, varint bytes cursor = .ok (sizes.length, first) ∧
      Bodies bytes first sizes stop ∧ (sizes ≠ [] → stop ≤ limit) := by
  rw [readCode, bind_eq_ok] at h
  obtain ⟨⟨count, first⟩, field, h⟩ := h
  obtain ⟨found, stop, rfl, rfl, bodies, le⟩ := bodies_of_readBodies h
  exact ⟨first, stop, field, bodies, le⟩

/-! ## Sections -/

/-- `s` is a section of the file with its payload from `first` on. -/
structure Section.ReadAt (bytes : ByteArray) (s : Section) (first : Nat) : Prop where
  /-- It starts with its number. -/
  id_eq : byteAt bytes s.start = .ok (s.id, s.start + 1)
  /-- The length of its payload follows. -/
  length_eq : varint bytes (s.start + 1) = .ok (s.stop - first, first)
  first_le : first ≤ s.stop
  stop_le : s.stop ≤ bytes.size
  /-- A code section holds as many function bodies as it counts. -/
  code : s.id = 10 → ∃ next stop, varint bytes first = .ok (s.bodies.length, next) ∧
    Bodies bytes next s.bodies stop ∧ (s.bodies ≠ [] → stop ≤ s.stop)
  /-- Other sections hold none. -/
  other : s.id ≠ 10 → s.bodies = []

/-- `s` is a section of the file. -/
def Section.At (bytes : ByteArray) (s : Section) : Prop := ∃ first, s.ReadAt bytes first

theorem Section.At.start_lt {bytes : ByteArray} {s : Section} (h : s.At bytes) :
    s.start < s.stop := by
  obtain ⟨first, h⟩ := h
  have := lt_of_varint h.length_eq
  have := h.first_le
  omega

/-- The function bodies of a section are no longer than the section, so that
taking them away from it leaves what remains. -/
theorem Section.At.sum_bodies_le {bytes : ByteArray} {s : Section} (h : s.At bytes) :
    s.bodies.sum ≤ s.stop - s.start := by
  obtain ⟨first, h⟩ := h
  by_cases id : s.id = 10
  · obtain ⟨next, stop, count, bodies, le⟩ := h.code id
    by_cases none : s.bodies = []
    · simp [none]
    · have := lt_of_varint h.length_eq
      have := lt_of_varint count
      have := bodies.add_sum
      have := le none
      omega
  · simp [h.other id]

theorem Section.size_eq (s : Section) : s.size = s.stop - s.start - s.bodies.sum := rfl

theorem Section.At.size_add {bytes : ByteArray} {s : Section} (h : s.At bytes) :
    s.size + s.bodies.sum = s.stop - s.start := by
  have := h.sum_bodies_le
  rw [Section.size_eq]
  omega

theorem code_of_readContents {decoding : NameDecoding} {bytes : ByteArray} {id : UInt8}
    {cursor stop : Nat} {contents : Contents} (hid : id = 10)
    (h : readContents decoding bytes id cursor stop = .ok contents) :
    ∃ sizes, contents = .code sizes ∧ readCode bytes cursor stop = .ok sizes := by
  subst hid
  obtain ⟨sizes, read, rfl⟩ := eq_of_bind_ok (f := Contents.code) h
  exact ⟨sizes, rfl, read⟩

/-- The number that the section with these contents must have. -/
def Contents.number? : Contents → Option Nat
  | .custom _ _ => some 0
  | .imports _ => some 2
  | .exports _ => some 7
  | .code _ => some 10
  | .uninterpreted => none

/-- Only the number of a section says what is read from it. -/
theorem number_of_readContents {decoding : NameDecoding} {bytes : ByteArray} {id : UInt8}
    {cursor stop n : Nat} {contents : Contents}
    (h : readContents decoding bytes id cursor stop = .ok contents)
    (number : contents.number? = some n) : id.toNat = n := by
  unfold readContents at h
  split at h
  · rename_i hid
    obtain ⟨⟨text, next⟩, _, h⟩ := bind_eq_ok.1 h
    by_cases name : text = "name"
    · simp only [name, if_true] at h
      obtain ⟨names, _, rfl⟩ := eq_of_bind_ok h
      exact hid.trans (Option.some.inj number)
    · simp only [name, if_false] at h
      cases h
      exact hid.trans (Option.some.inj number)
  · obtain ⟨imports, _, rfl⟩ := eq_of_bind_ok h
    exact ‹id.toNat = 2›.trans (Option.some.inj number)
  · obtain ⟨exports, _, rfl⟩ := eq_of_bind_ok h
    exact ‹id.toNat = 7›.trans (Option.some.inj number)
  · obtain ⟨sizes, _, rfl⟩ := eq_of_bind_ok h
    exact ‹id.toNat = 10›.trans (Option.some.inj number)
  · cases h
    cases number

theorem ne_code_of_readContents {decoding : NameDecoding} {bytes : ByteArray} {id : UInt8}
    {cursor stop : Nat} {contents : Contents} (hid : id ≠ 10)
    (h : readContents decoding bytes id cursor stop = .ok contents) (sizes : List Nat) :
    contents ≠ .code sizes := by
  rintro rfl
  exact hid (UInt8.toNat_inj.1 (number_of_readContents h rfl))

theorem at_of_readSection {decoding : NameDecoding} {bytes : ByteArray} {cursor : Nat}
    {s : Section} (h : readSection decoding bytes cursor = .ok s) :
    s.start = cursor ∧ s.At bytes := by
  unfold readSection at h
  cases hid : byteAt bytes cursor with
  | error e => simp [hid] at h
  | ok r =>
    obtain ⟨id, next⟩ := r
    obtain rfl := byteAt_next hid
    cases hlength : varint bytes (cursor + 1) with
    | error e => simp [hid, hlength] at h
    | ok r =>
      obtain ⟨length, first⟩ := r
      by_cases beyond : bytes.size < first + length
      · simp [hid, hlength, beyond] at h
      · cases hcontents : readContents decoding bytes id first (first + length) with
        | error e => simp [hid, hlength, beyond, hcontents] at h
        | ok contents =>
          simp only [hid, hlength, beyond, hcontents, if_false, Except.ok.injEq] at h
          subst h
          refine ⟨rfl, first, hid, by simpa using hlength, Nat.le_add_right first length,
            Nat.le_of_not_lt beyond, fun code => ?_, fun other => ?_⟩
          · obtain ⟨sizes, rfl, read⟩ := code_of_readContents code hcontents
            exact bodies_of_readCode read
          · have := ne_code_of_readContents other hcontents
            cases contents <;> simp_all [Section.bodies]

/-! ## Files -/

/-- From `cursor` to `stop` there are the sections `sections`, without a gap. -/
inductive Tiles (bytes : ByteArray) : (cursor : Nat) → List Section → (stop : Nat) → Prop
  | nil (cursor : Nat) : Tiles bytes cursor [] cursor
  | cons {s : Section} {stop : Nat} {sections : List Section} (here : s.At bytes)
      (rest : Tiles bytes s.stop sections stop) : Tiles bytes s.start (s :: sections) stop

theorem Tiles.at_of_mem {bytes : ByteArray} {cursor stop : Nat} {sections : List Section}
    (h : Tiles bytes cursor sections stop) {s : Section} (hs : s ∈ sections) : s.At bytes := by
  induction h with
  | nil cursor => simp at hs
  | cons here rest ih =>
    rcases List.mem_cons.1 hs with rfl | hs
    · exact here
    · exact ih hs

/-- Sections without a gap take together all bytes from the first to the last. -/
theorem Tiles.add_sum {bytes : ByteArray} {cursor stop : Nat} {sections : List Section}
    (h : Tiles bytes cursor sections stop) :
    cursor + (sections.map fun s => s.stop - s.start).sum = stop := by
  induction h with
  | nil cursor => rfl
  | cons here rest ih =>
    have := here.start_lt
    rw [List.map_cons, List.sum_cons]
    omega

theorem readSections_size {decoding : NameDecoding} {bytes : ByteArray} (seen : List Section) :
    readSections decoding bytes bytes.size seen = .ok seen.reverse := by
  rw [readSections, if_neg (Nat.lt_irrefl _)]

/-- The sections from `cursor` on are the one at `cursor` and those behind it. -/
theorem readSections_of_readSection {decoding : NameDecoding} {bytes : ByteArray} {cursor : Nat}
    {s : Section} (seen : List Section) (here : readSection decoding bytes cursor = .ok s) :
    readSections decoding bytes cursor seen = readSections decoding bytes s.stop (s :: seen) := by
  obtain ⟨rfl, first, at_cursor⟩ := at_of_readSection here
  have before := Section.At.start_lt ⟨first, at_cursor⟩
  have within := at_cursor.stop_le
  rw [readSections, if_pos (Nat.lt_of_lt_of_le before within)]
  split
  · rename_i failed
    exact absurd (here.symm.trans failed) (by simp)
  · rename_i read
    rw [Except.ok.inj (here.symm.trans read)]

theorem tiles_of_readSections {decoding : NameDecoding} {bytes : ByteArray} {cursor : Nat}
    {seen sections : List Section} (le : cursor ≤ bytes.size)
    (h : readSections decoding bytes cursor seen = .ok sections) :
    ∃ rest, sections = seen.reverse ++ rest ∧ Tiles bytes cursor rest bytes.size := by
  fun_induction readSections decoding bytes cursor seen with
  | case1 cursor seen lt e read => simp at h
  | case2 cursor seen lt s read ih =>
    obtain ⟨rfl, here⟩ := at_of_readSection read
    have stop_le : s.stop ≤ bytes.size := here.choose_spec.stop_le
    obtain ⟨rest, rfl, tiles⟩ := ih stop_le h
    exact ⟨s :: rest, by simp, .cons here tiles⟩
  | case3 cursor seen ge =>
    obtain rfl : cursor = bytes.size := by omega
    exact ⟨[], by simpa using h.symm, .nil _⟩

theorem word32_next {bytes : ByteArray} {cursor next n : Nat}
    (h : word32 bytes cursor = .ok (n, next)) : next = cursor + 4 ∧ next ≤ bytes.size := by
  unfold word32 at h
  split at h
  · rename_i hd
    have := (getElem?_eq_some_iff.1 hd).1
    simp_all
    omega
  · simp at h

/-- A file that can be read has eight bytes of header and then its sections. -/
theorem readSections_of_read {decoding : NameDecoding} {bytes : ByteArray} {m : Module}
    (h : Module.read decoding bytes = .ok m) :
    readSections decoding bytes 8 [] = .ok m.sections ∧ m.fileSize = bytes.size ∧
      8 ≤ bytes.size := by
  obtain ⟨⟨found, next⟩, hm, h⟩ := bind_eq_ok.1 h
  obtain ⟨rfl, _⟩ := word32_next hm
  by_cases hmagic : found ≠ magic
  · simp [hmagic] at h
  · simp only [hmagic, if_false] at h
    obtain ⟨⟨found, next⟩, hv, h⟩ := bind_eq_ok.1 h
    obtain ⟨rfl, le⟩ := word32_next hv
    by_cases hversion : found ≠ version
    · simp [hversion] at h
    · simp only [hversion, if_false] at h
      obtain ⟨sections, read, h⟩ := bind_eq_ok.1 h
      obtain rfl : m = ⟨sections, bytes.size⟩ := by simpa using h.symm
      exact ⟨read, rfl, le⟩

/-- The sections of a file that can be read follow its eight bytes of header and
cover the rest of it. -/
theorem tiles_of_read {decoding : NameDecoding} {bytes : ByteArray} {m : Module}
    (h : Module.read decoding bytes = .ok m) :
    m.fileSize = bytes.size ∧ Tiles bytes 8 m.sections bytes.size := by
  obtain ⟨read, size, le⟩ := readSections_of_read h
  obtain ⟨rest, sections, tiles⟩ := tiles_of_readSections le read
  rw [List.reverse_nil, List.nil_append] at sections
  exact ⟨size, sections ▸ tiles⟩

end SizeAtlas.Wasm
