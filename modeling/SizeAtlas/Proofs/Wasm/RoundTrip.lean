import SizeAtlas.Proofs.Wasm.Format
import SizeAtlas.Proofs.Wasm.Layout

/-!
# A written module is read back

Where the written form of a part of a module lies, the reader of that part gives what
was written and goes on behind it.  The readers of imports, exports, bodies and names
go through their items one by one, and that of a file through its sections.

## Main statements

* `readContents_of_lies` — what a section holds is read back.
* `readSection_of_lies` — a section is read back.
* `read_fileBytes` — a file is read back.
-/

namespace SizeAtlas.Wasm

open Bytes Format

variable {bytes : ByteArray} {cursor : Nat}

/-! ## Imports -/

theorem skipBounds_of_lies {l : Limits} (h : Lies bytes cursor l.bytes) :
    skipBounds bytes cursor = .ok (cursor + l.bytes.length) := by
  cases l with
  | atLeast least =>
    have flag := byteAt_of_lies h
    have first := varint_of_lies h.tail
    rw [Limits.bytes, add_length_cons]
    simp [skipBounds, flag, first, bind, Except.bind]
  | between shared least most =>
    cases shared with
    | false =>
      have flag := byteAt_of_lies h
      have first := varint_of_lies h.tail.left
      have second := varint_of_lies h.tail.right
      rw [Limits.bytes, add_length_cons, add_length_append]
      simp [skipBounds, flag, first, second, bind, Except.bind]
    | true =>
      have flag := byteAt_of_lies h
      have first := varint_of_lies h.tail.left
      have second := varint_of_lies h.tail.right
      rw [Limits.bytes, add_length_cons, add_length_append]
      simp [skipBounds, flag, first, second, bind, Except.bind]

theorem skipDescription_of_lies {d : Description} (h : Lies bytes cursor d.bytes) :
    skipDescription bytes d.kind cursor = .ok (some (cursor + d.bytes.length)) := by
  cases d with
  | function type =>
    have index := varint_of_lies h
    simp [skipDescription, Description.kind, Description.bytes, index, bind, Except.bind]
  | table limits =>
    have element := byteAt_of_lies h
    have bounds := skipBounds_of_lies h.tail
    rw [Description.bytes, add_length_cons]
    simp [skipDescription, Description.kind, element, functionReference, bounds, bind, Except.bind]
  | memory limits =>
    have bounds := skipBounds_of_lies h
    simp [skipDescription, Description.kind, Description.bytes, bounds, bind, Except.bind]
  | global type mutability => rfl
  | tag flavour type =>
    have index := varint_of_lies h.tail
    rw [Description.bytes, add_length_cons]
    simp [skipDescription, Description.kind, index, bind, Except.bind]

/-- An import is a function exactly if its kind is zero. -/
theorem function?_eq (i : Import) :
    i.function? = if i.description.kind = 0 then some i.name.text else none := by
  unfold Import.function? Description.kind
  cases i.description <;> simp

theorem readImportsFrom_of_lies {imports : List Import} (seen : List String)
    (h : Lies bytes cursor (imports.flatMap Import.bytes)) :
    readImportsFrom .utf8 bytes imports.length cursor seen =
      .ok (seen.reverse ++ imports.filterMap Import.function?) := by
  induction imports generalizing cursor seen with
  | nil => simp [readImportsFrom]
  | cons i imports ih =>
    rw [List.flatMap_cons] at h
    have here := h.left
    have origin := name_of_lies here.left
    have title := name_of_lies here.right.left
    have kind := byteAt_of_lies here.right.right
    have rest := skipDescription_of_lies here.right.right.tail
    have stop : cursor + i.bytes.length = cursor + i.origin.bytes.length +
        i.name.bytes.length + 1 + i.description.bytes.length := by
      rw [Import.bytes, add_length_append, add_length_append, add_length_cons]
    have later := h.right
    rw [stop] at later
    simp only [List.length_cons, readImportsFrom, origin, title, kind, rest, bind, Except.bind,
      ih _ later, List.filterMap_cons, function?_eq]
    split <;> simp

theorem readImports_of_lies {imports : Series Import}
    (h : Lies bytes cursor (imports.bytes Import.bytes)) :
    readImports .utf8 bytes cursor = .ok (imports.items.filterMap Import.function?) := by
  have count := varint_of_lies h.left
  rw [imports.count_eq] at count
  have items := readImportsFrom_of_lies [] h.right
  simpa [readImports, count, bind, Except.bind] using items

/-! ## Exports -/

theorem readExportsFrom_of_lies {exports : List Export} (seen : List Nat)
    (h : Lies bytes cursor (exports.flatMap Export.bytes)) :
    readExportsFrom .utf8 bytes exports.length cursor seen =
      .ok (seen.reverse ++ exports.filterMap Export.function?) := by
  induction exports generalizing cursor seen with
  | nil => simp [readExportsFrom]
  | cons e exports ih =>
    rw [List.flatMap_cons] at h
    have here := h.left
    have title := name_of_lies here.left
    have kind := byteAt_of_lies here.right
    have index := varint_of_lies here.right.tail
    have stop : cursor + e.bytes.length =
        cursor + e.name.bytes.length + 1 + e.index.bytes.length := by
      rw [Export.bytes, add_length_append, add_length_cons]
    have later := h.right
    rw [stop] at later
    simp only [List.length_cons, readExportsFrom, title, kind, index, bind, Except.bind,
      ih _ later, List.filterMap_cons, Export.function?]
    split <;> simp

theorem readExports_of_lies {exports : Series Export}
    (h : Lies bytes cursor (exports.bytes Export.bytes)) :
    readExports .utf8 bytes cursor = .ok (exports.items.filterMap Export.function?) := by
  have count := varint_of_lies h.left
  rw [exports.count_eq] at count
  have items := readExportsFrom_of_lies [] h.right
  simpa [readExports, count, bind, Except.bind] using items

/-! ## Code -/

theorem readBodies_of_lies {bodies : List Chunk} {limit : Nat} (seen : List Nat)
    (h : Lies bytes cursor (bodies.flatMap Chunk.bytes))
    (le : cursor + (bodies.flatMap Chunk.bytes).length ≤ limit) :
    readBodies bytes limit bodies.length cursor seen =
      .ok (seen.reverse ++ bodies.map fun b => b.bytes.length) := by
  induction bodies generalizing cursor seen with
  | nil => simp [readBodies]
  | cons b bodies ih =>
    rw [List.flatMap_cons] at h le
    have length := varint_of_lies h.left.left
    have stop : cursor + b.length.bytes.length + b.length.value = cursor + b.bytes.length := by
      rw [Chunk.bytes, add_length_append, b.length_eq]
    rw [add_length_append] at le
    have inside : ¬ limit < cursor + b.bytes.length := by omega
    simp [readBodies, length, bind, Except.bind, stop, inside, ih _ h.right le]

theorem readCode_of_lies {bodies : Series Chunk} {limit : Nat}
    (h : Lies bytes cursor (bodies.bytes Chunk.bytes))
    (le : cursor + (bodies.bytes Chunk.bytes).length ≤ limit) :
    readCode bytes cursor limit = .ok (bodies.items.map fun b => b.bytes.length) := by
  have count := varint_of_lies h.left
  rw [bodies.count_eq] at count
  rw [Series.bytes, add_length_append] at le
  have items := readBodies_of_lies [] h.right le
  simpa [readCode, count, bind, Except.bind] using items

/-! ## Names -/

theorem readNameMap_of_lies {names : List Naming} (seen : FunctionNames)
    (h : Lies bytes cursor (names.flatMap Naming.bytes)) :
    readNameMap .utf8 bytes names.length cursor seen =
      .ok ((names.map Naming.pair).reverse ++ seen,
        cursor + (names.flatMap Naming.bytes).length) := by
  induction names generalizing cursor seen with
  | nil => simp [readNameMap]
  | cons n names ih =>
    rw [List.flatMap_cons] at h ⊢
    have index := varint_of_lies h.left.left
    have title := name_of_lies h.left.right
    have stop : cursor + n.bytes.length =
        cursor + n.index.bytes.length + n.name.bytes.length := by
      rw [Naming.bytes, add_length_append]
    have later := h.right
    rw [stop] at later
    rw [add_length_append, stop]
    simp [readNameMap, index, title, ih _ later, Naming.pair]

/-- One part of a name section is read, then the others. -/
theorem readNames_eq {decoding : NameDecoding} {stop : Nat} {seen : FunctionNames}
    (lt : cursor < stop) :
    readNames decoding bytes stop cursor seen = (do
      let (id, next) ← byteAt bytes cursor
      let (length, first) ← varint bytes next
      if id ≠ functionNamesId then readNames decoding bytes stop (first + length) seen
      else do
        let (count, start) ← varint bytes first
        let (seen', next') ← readNameMap decoding bytes count start seen
        readNames decoding bytes stop next' seen') := by
  rw [readNames, if_pos lt]
  split
  · simp [*, bind, Except.bind]
  · rename_i hId
    split
    · simp [*, bind, Except.bind]
    · rename_i hLength
      simp only [hId, hLength, bind, Except.bind]
      split
      · rfl
      · split
        · simp [*]
        · split <;> simp [*]

/-- One part of a name section is read back. -/
theorem readNames_cons {p : SubSection} {limit : Nat} (seen : FunctionNames)
    (h : Lies bytes cursor p.bytes) (le : cursor + p.bytes.length ≤ limit) :
    readNames .utf8 bytes limit cursor seen =
      readNames .utf8 bytes limit (cursor + p.bytes.length) (p.names.reverse ++ seen) := by
  cases p with
  | functionNames length pairs length_eq =>
    have id := byteAt_of_lies h
    have size := varint_of_lies h.tail.left
    have count := varint_of_lies h.tail.right.left
    have names := readNameMap_of_lies seen h.tail.right.right
    rw [← pairs.count_eq] at names
    have stop : cursor + (SubSection.functionNames length pairs length_eq).bytes.length =
        cursor + 1 + length.bytes.length + pairs.count.bytes.length +
          (pairs.items.flatMap Naming.bytes).length := by
      rw [SubSection.bytes, Series.bytes, add_length_cons, add_length_append, add_length_append]
    rw [readNames_eq (by omega), stop]
    simp [id, size, count, names, functionNamesId, SubSection.names, bind, Except.bind]
  | other id ne content =>
    have first := byteAt_of_lies h
    have size := varint_of_lies h.tail.left
    have stop : cursor + (SubSection.other id ne content).bytes.length =
        cursor + 1 + content.length.bytes.length + content.length.value := by
      rw [SubSection.bytes, Chunk.bytes, add_length_cons, add_length_append, content.length_eq]
    rw [readNames_eq (by omega), stop]
    simp [first, size, functionNamesId, ne, SubSection.names, bind, Except.bind]

theorem readNames_of_lies {parts : List SubSection} {limit : Nat} (seen : FunctionNames)
    (h : Lies bytes cursor (parts.flatMap SubSection.bytes))
    (eq : cursor + (parts.flatMap SubSection.bytes).length = limit) :
    readNames .utf8 bytes limit cursor seen =
      .ok ((parts.flatMap SubSection.names).reverse ++ seen) := by
  induction parts generalizing cursor seen with
  | nil =>
    have stop : cursor = limit := by simpa using eq
    rw [readNames]
    simp [stop]
  | cons p parts ih =>
    rw [List.flatMap_cons] at h eq
    rw [add_length_append] at eq
    rw [readNames_cons seen h.left (by omega), ih _ h.right eq]
    simp

/-! ## Sections -/

/-- What the reader of a section keeps of it. -/
def Format.Content.contents : Content → Contents
  | .custom name _ _ => .custom name.text none
  | .names name parts _ => .custom name.text (some (parts.flatMap SubSection.names).reverse)
  | .imports entries => .imports (entries.items.filterMap Import.function?)
  | .exports entries => .exports (entries.items.filterMap Export.function?)
  | .code bodies => .code (bodies.items.map fun b => b.bytes.length)
  | .uninterpreted _ _ _ => .uninterpreted

/-- What a section holds is read back. -/
theorem readContents_of_lies {c : Content} {limit : Nat} (h : Lies bytes cursor c.bytes)
    (eq : cursor + c.bytes.length = limit) :
    readContents .utf8 bytes c.id cursor limit = .ok c.contents := by
  cases c with
  | custom name payload other =>
    have title := name_of_lies h.left
    simp [readContents, Content.id, Content.contents, title, other, bind, Except.bind]
  | names name parts named =>
    have title := name_of_lies h.left
    rw [Content.bytes, add_length_append] at eq
    have names := readNames_of_lies [] h.right eq
    simp [readContents, Content.id, Content.contents, title, named, names, bind, Except.bind]
  | imports entries =>
    have functions := readImports_of_lies h
    simp [readContents, Content.id, Content.contents, functions, bind, Except.bind]
  | exports entries =>
    have functions := readExports_of_lies h
    simp [readContents, Content.id, Content.contents, functions, bind, Except.bind]
  | code bodies =>
    have sizes := readCode_of_lies h (Nat.le_of_eq eq)
    simp [readContents, Content.id, Content.contents, sizes, bind, Except.bind]
  | uninterpreted id payload other =>
    simp only [List.mem_cons, List.not_mem_nil, or_false, not_or] at other
    unfold readContents Content.id
    split <;> simp_all [Content.contents]

/-- The section at `cursor` as it is read. -/
def Format.WrittenSection.readAt (s : WrittenSection) (cursor : Nat) : Section :=
  ⟨s.content.id, cursor, cursor + s.bytes.length, s.content.contents⟩

/-- A section is read back. -/
theorem readSection_of_lies {s : WrittenSection} (h : Lies bytes cursor s.bytes) :
    readSection .utf8 bytes cursor = .ok (s.readAt cursor) := by
  have le : cursor + s.bytes.length ≤ bytes.size := h.le (List.cons_ne_nil _ _)
  have id := byteAt_of_lies h
  have length := varint_of_lies h.tail.left
  have stop : cursor + s.bytes.length =
      cursor + 1 + s.length.bytes.length + s.content.bytes.length := by
    rw [WrittenSection.bytes, add_length_cons, add_length_append]
  have contents := readContents_of_lies h.tail.right rfl
  rw [stop] at le
  simp [readSection, id, length, s.length_eq, Nat.not_lt.2 le, contents, WrittenSection.readAt, stop]

@[simp] theorem stop_readAt (s : WrittenSection) (cursor : Nat) :
    (s.readAt cursor).stop = cursor + s.bytes.length := rfl

/-- The sections from `cursor` on as they are read. -/
def readFrom (cursor : Nat) : List WrittenSection → List Section
  | [] => []
  | s :: rest => s.readAt cursor :: readFrom (cursor + s.bytes.length) rest

theorem readSections_of_lies {sections : List WrittenSection} (seen : List Section)
    (h : Lies bytes cursor (sections.flatMap WrittenSection.bytes))
    (eq : cursor + (sections.flatMap WrittenSection.bytes).length = bytes.size) :
    readSections .utf8 bytes cursor seen = .ok (seen.reverse ++ readFrom cursor sections) := by
  induction sections generalizing cursor seen with
  | nil =>
    obtain rfl : cursor = bytes.size := by simpa using eq
    rw [readSections_size, readFrom, List.append_nil]
  | cons s sections ih =>
    rw [List.flatMap_cons] at h eq
    rw [add_length_append] at eq
    rw [readSections_of_readSection seen (readSection_of_lies h.left), stop_readAt,
      ih _ h.right eq, readFrom, List.reverse_cons, List.append_assoc, List.singleton_append]

/-! ## What is said of a section -/

variable (s : WrittenSection)

theorem name_readAt : (s.readAt cursor).name = s.content.name := by
  unfold WrittenSection.readAt Section.name Content.contents
  cases s.content with
  | names name parts named => simp [named, Content.name]
  | custom name payload other => rfl
  | imports entries => rfl
  | exports entries => rfl
  | code bodies => rfl
  | uninterpreted id payload other => rfl

theorem bodies_readAt : (s.readAt cursor).bodies = s.content.bodies := by
  unfold WrittenSection.readAt Section.bodies Content.contents
  cases s.content <;> rfl

theorem functionImports_readAt :
    (s.readAt cursor).functionImports = s.content.functionImports := by
  unfold WrittenSection.readAt Section.functionImports Content.contents
  cases s.content <;> rfl

theorem functionExports_readAt :
    (s.readAt cursor).functionExports = s.content.functionExports := by
  unfold WrittenSection.readAt Section.functionExports Content.contents
  cases s.content <;> rfl

theorem functionNames?_readAt :
    (s.readAt cursor).functionNames? = s.content.functionNames?.map List.reverse := by
  unfold WrittenSection.readAt Section.functionNames? Content.contents
  cases s.content <;> rfl

/-- The bodies of a code section take all its bytes but the number, the length and the
count. -/
theorem size_readAt : (s.readAt cursor).size = s.ownSize := by
  have whole : (s.readAt cursor).stop - (s.readAt cursor).start = s.bytes.length :=
    Nat.add_sub_cancel_left ..
  rw [Section.size_eq, whole, bodies_readAt, WrittenSection.ownSize]
  cases h : s.content with
  | code bodies =>
    simp only [WrittenSection.bytes, h, Content.bytes, Content.bodies, Series.bytes,
      List.length_cons, List.length_append, List.length_flatMap]
    omega
  | _ => simp [Content.bodies]

/-- What is said of sections wherever they lie. -/
theorem map_readFrom {α : Type} {f : Section → α} {g : WrittenSection → α}
    (h : ∀ s cursor, f (s.readAt cursor) = g s) (sections : List WrittenSection) :
    (readFrom cursor sections).map f = sections.map g := by
  induction sections generalizing cursor with
  | nil => rfl
  | cons s sections ih => simp [readFrom, h, ih]

/-! ## Files -/

theorem word32_of_lies {a b c d : UInt8} {rest : List UInt8}
    (h : Lies bytes cursor (a :: b :: c :: d :: rest)) :
    word32 bytes cursor = .ok
      (a.toNat + 256 * (b.toNat + 256 * (c.toNat + 256 * d.toNat)), cursor + 4) := by
  have second := h.tail.getElem?
  have third := h.tail.tail.getElem?
  have fourth := h.tail.tail.tail.getElem?
  simp [word32, h.getElem?, second, third, fourth]

/-- What is read from a file that starts with its magic number and its version. -/
theorem read_of_header {decoding : NameDecoding} {sections : List Section}
    (h : Lies bytes 0 [0x00, 0x61, 0x73, 0x6d, 0x01, 0x00, 0x00, 0x00])
    (rest : readSections decoding bytes 8 [] = .ok sections) :
    Module.read decoding bytes = .ok ⟨sections, bytes.size⟩ := by
  have first := word32_of_lies h
  have second := word32_of_lies h.tail.tail.tail.tail
  have found : UInt8.toNat 0x00 + 256 * (UInt8.toNat 0x61 + 256 * (UInt8.toNat 0x73 +
    256 * UInt8.toNat 0x6d)) = magic := rfl
  have number : UInt8.toNat 0x01 + 256 * (UInt8.toNat 0x00 + 256 * (UInt8.toNat 0x00 +
    256 * UInt8.toNat 0x00)) = version := rfl
  rw [found] at first
  rw [number] at second
  simp only [Module.read, first, second, rest, bind, Except.bind, ne_eq, not_true_eq_false,
    if_false]

theorem read_of_lies {sections : List WrittenSection} (h : Lies bytes 0 (fileBytes sections))
    (eq : (fileBytes sections).length = bytes.size) :
    Module.read .utf8 bytes = .ok ⟨readFrom 8 sections, bytes.size⟩ := by
  have rest : readSections .utf8 bytes 8 [] = .ok (readFrom 8 sections) :=
    readSections_of_lies [] h.right (by rw [← eq, fileBytes, List.length_append]; rfl)
  exact read_of_header h.left rest

/-- The last entry for an index in a list of names. -/
theorem lookup_reverse (names : List (Nat × String)) (index : Nat) :
    names.reverse.lookup index =
      ((names.filter (·.1 = index)).getLast?).map Prod.snd := by
  induction names using List.reverseRecOn with
  | nil => rfl
  | append_singleton names x ih =>
    rw [List.reverse_append, List.reverse_singleton, List.singleton_append, List.lookup_cons,
      List.filter_append]
    by_cases same : x.1 = index
    · simp [same]
    · have : (index == x.1) = false := by simpa using fun e : index = x.1 => same e.symm
      simp [same, this, ih]

theorem functionNames_readFrom (sections : List WrittenSection) (size : Nat) :
    Module.functionNames ⟨readFrom cursor sections, size⟩ =
      (Format.functionNames sections).reverse := by
  have names : (readFrom cursor sections).map Section.functionNames? =
      sections.map fun s => s.content.functionNames?.map List.reverse :=
    map_readFrom (fun s _ => functionNames?_readAt s) sections
  have given : (readFrom cursor sections).filterMap Section.functionNames? =
      (sections.filterMap fun s => s.content.functionNames?).map List.reverse := by
    calc (readFrom cursor sections).filterMap Section.functionNames?
        = ((readFrom cursor sections).map Section.functionNames?).filterMap id := by
          rw [List.filterMap_map, Function.id_comp]
      _ = (sections.map fun s => s.content.functionNames?.map List.reverse).filterMap id := by
          rw [names]
      _ = _ := by rw [List.filterMap_map, List.map_filterMap, Function.id_comp]
  rw [Module.functionNames, given, List.getLast?_map, Format.functionNames]
  cases (sections.filterMap fun s => s.content.functionNames?).getLast? <;> rfl

/-- **A written module is read back.**  Every list of sections is accepted in each of its
written forms.  Each section comes with its name, the bytes of the function bodies in it
and the bytes of its own; the functions that are imported and exported are those of all
sections in their order; and of several names for one function the last one counts. -/
theorem read_fileBytes (sections : List WrittenSection) :
    ∃ m, Module.read .utf8 (fileBytes sections).toByteArray = .ok m ∧
      m.fileSize = (fileBytes sections).length ∧
      (m.sections.map fun s => (s.name, s.size, s.bodies)) =
        (sections.map fun s => (s.content.name, s.ownSize, s.content.bodies)) ∧
      m.functionImports = (sections.flatMap fun s => s.content.functionImports) ∧
      m.functionExports = (sections.flatMap fun s => s.content.functionExports) ∧
      ∀ index, m.functionNames.lookup index =
        (((Format.functionNames sections).filter (·.1 = index)).getLast?).map Prod.snd := by
  have data : (fileBytes sections).toByteArray.data.toList = fileBytes sections := by
    rw [List.data_toByteArray]
  have size : (fileBytes sections).toByteArray.size = (fileBytes sections).length := by
    rw [← ByteArray.size_data, ← Array.length_toList, data]
  have lies : Lies (fileBytes sections).toByteArray 0 (fileBytes sections) := by
    rw [Lies, data]
    exact List.prefix_refl _
  refine ⟨_, read_of_lies lies size.symm, size, ?_, ?_, ?_, fun index => ?_⟩
  · exact map_readFrom (fun s cursor => by rw [name_readAt, size_readAt, bodies_readAt]) sections
  · rw [Module.functionImports, List.flatMap_def, List.flatMap_def,
      map_readFrom (fun s _ => functionImports_readAt s)]
  · rw [Module.functionExports, List.flatMap_def, List.flatMap_def,
      map_readFrom (fun s _ => functionExports_readAt s)]
  · rw [functionNames_readFrom, lookup_reverse]

end SizeAtlas.Wasm
