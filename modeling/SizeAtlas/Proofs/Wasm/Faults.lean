import SizeAtlas.Proofs.Bytes.Varint
import SizeAtlas.Proofs.Wasm.Layout
import SizeAtlas.Wasm.Attribution

/-!
# What a refused file holds

A file is refused with a fault that points into its bytes.  For each fault there is
something in the bytes that gives grounds for it, and every reader stops only where it
finds such grounds.

Two faults do not point where their wording says.  A fault about limits gives the
offset behind their minimum instead of that of the flag.  A section that passes the end of
the file and a function body that passes the end of its code section give the same fault,
whose wording speaks of the end of the file in both cases.

## Main definitions

* `Grounds` — what the bytes hold for a fault.
* `Grounded` — a computation that fails only on such grounds.

## Main statements

* `grounded_symbolsOf` — a file is refused only on grounds that its bytes give.
* `offending_bytes_of_refused` — where the bytes are that a fault is about.
-/

namespace SizeAtlas.Wasm

open Bytes

variable {α β : Type} {bytes : ByteArray} {decoding : NameDecoding} {cursor offset stop : Nat}

/-! ## Grounds for a fault -/

/-- The length field at `cursor` says that what it measures ends at `stop`. -/
def EndsAt (bytes : ByteArray) (cursor stop : Nat) : Prop :=
  ∃ length first, varint bytes cursor = .ok (length, first) ∧ stop = first + length

/-- At `start` there is a section numbered `id` that ends at `stop`, by its length field. -/
structure SectionAt (bytes : ByteArray) (id : UInt8) (start stop : Nat) : Prop where
  number : bytes[start]? = some id
  ends : EndsAt bytes (start + 1) stop

/-- A function body at `offset` ends at `stop` and so passes the end of its code section,
which lies inside the file. -/
def BodyOverruns (bytes : ByteArray) (offset stop : Nat) : Prop :=
  ∃ start last, SectionAt bytes 10 start last ∧ last ≤ bytes.size ∧
    EndsAt bytes offset stop ∧ last < stop

/-- How many bytes are needed at `offset`: one, the four of a word of the header, or as many
as a length field says that ends there. -/
inductive Needed (bytes : ByteArray) (offset : Nat) : Nat → Prop
  | byte : Needed bytes offset 1
  | word (header : offset = 0 ∨ offset = 4) : Needed bytes offset 4
  | contents {field length : Nat} (ends : varint bytes field = .ok (length, offset)) :
    Needed bytes offset length

/-- What the bytes hold for a fault of the reader. -/
def Grounds (bytes : ByteArray) : Fault → Prop
  | .badMagic found => word32 bytes 0 = .ok (found, 4) ∧ found ≠ magic
  | .badVersion found => word32 bytes 4 = .ok (found, 8) ∧ found ≠ version
  | .truncated offset => ∃ n, Needed bytes offset n ∧ bytes.size < offset + n
  | .varintOverflow offset => ¬ ∃ n : Numeral, Lies bytes offset n.bytes
  | .sectionOverrun offset stop fileSize => fileSize = bytes.size ∧
      ((∃ id, SectionAt bytes id offset stop) ∧ bytes.size < stop ∨ BodyOverruns bytes offset stop)
  | .malformedNameSection expected actual =>
      (∃ start, SectionAt bytes 0 start expected) ∧ expected < actual
  | .badTableElementType offset found =>
      (∃ kind, bytes[kind]? = some 1 ∧ offset = kind + 1) ∧
        bytes[offset]? = some found ∧ found ≠ functionReference
  | .badLimitsFlag offset found =>
      ∃ flag minimum, bytes[flag]? = some found ∧ found.toNat ∉ [0, 1, 3] ∧
        varint bytes (flag + 1) = .ok (minimum, offset)
  | .unreadable .. | .malformedJson _ | .unsupportedSyntax .. | .malformedScript _
  | .invalidVlq _ | .wrongInputCount _ => False

/-- If the computation fails, the bytes give grounds for its fault. -/
def Grounded (bytes : ByteArray) (x : Except Fault α) : Prop :=
  ∀ fault, x = .error fault → Grounds bytes fault

theorem grounded_ok (a : α) : Grounded bytes (.ok a) := by
  rintro fault ⟨⟩

theorem grounded_error {fault : Fault} (grounds : Grounds bytes fault) :
    Grounded bytes (.error fault : Except Fault α) := by
  rintro _ ⟨⟩
  exact grounds

/-- Two steps fail only on grounds if both do, the second one after what the first gave. -/
theorem Grounded.bind {x : Except Fault α} {f : α → Except Fault β} (first : Grounded bytes x)
    (later : ∀ a, x = .ok a → Grounded bytes (f a)) : Grounded bytes (x >>= f) := by
  cases x with
  | error e => exact grounded_error (first e rfl)
  | ok a => exact later a rfl

/-! ## Numbers and names -/

theorem grounded_byteAt (bytes : ByteArray) (cursor : Nat) :
    Grounded bytes (byteAt bytes cursor) := by
  intro fault failed
  obtain ⟨past, rfl⟩ := byteAt_eq_error_iff.1 failed
  exact ⟨1, .byte, Nat.lt_succ_of_le past⟩

theorem grounded_word32 (header : cursor = 0 ∨ cursor = 4) :
    Grounded bytes (word32 bytes cursor) := by
  unfold word32
  split
  · exact grounded_ok _
  · rename_i missing
    refine grounded_error ⟨4, .word header, ?_⟩
    by_contra enough
    have at_offset : ∀ i < 4, ∃ b, bytes[cursor + i]? = some b := fun i lt =>
      ⟨_, getElem?_pos bytes (cursor + i) (by omega)⟩
    obtain ⟨a, ha⟩ := at_offset 0 (by omega)
    obtain ⟨b, hb⟩ := at_offset 1 (by omega)
    obtain ⟨c, hc⟩ := at_offset 2 (by omega)
    obtain ⟨d, hd⟩ := at_offset 3 (by omega)
    exact missing a b c d ha hb hc hd

theorem grounded_varint (bytes : ByteArray) (cursor : Nat) :
    Grounded bytes (varint bytes cursor) := by
  intro fault failed
  obtain ⟨none, rfl⟩ := varint_eq_error_iff.1 failed
  split
  · exact ⟨1, .byte, by omega⟩
  · rintro ⟨n, lies⟩
    exact none ⟨n.bytes, n.value, lies, n.writes⟩

theorem grounded_name (bytes : ByteArray) (cursor : Nat) :
    Grounded bytes (name decoding bytes cursor) := by
  unfold name
  refine (grounded_varint bytes cursor).bind fun ⟨length, first⟩ field => ?_
  dsimp only
  split
  · exact grounded_ok _
  · exact grounded_error ⟨length, .contents field, by omega⟩

/-! ## Code -/

theorem grounded_readBodies {start count : Nat} {seen : List Nat}
    (code : SectionAt bytes 10 start stop) (inside : stop ≤ bytes.size) :
    Grounded bytes (readBodies bytes stop count cursor seen) := by
  induction count generalizing cursor seen with
  | zero => exact grounded_ok _
  | succ count ih =>
    unfold readBodies
    refine (grounded_varint bytes cursor).bind ?_
    rintro ⟨length, first⟩ field
    dsimp only
    split
    · rename_i past
      exact grounded_error ⟨rfl, Or.inr ⟨start, stop, code, inside, ⟨_, _, field, rfl⟩, past⟩⟩
    · exact ih

theorem grounded_readCode {start : Nat} (code : SectionAt bytes 10 start stop)
    (inside : stop ≤ bytes.size) : Grounded bytes (readCode bytes cursor stop) :=
  (grounded_varint bytes cursor).bind fun _ _ => grounded_readBodies code inside

/-! ## Names of functions -/

theorem grounded_readNameMap {count : Nat} {seen : FunctionNames} :
    Grounded bytes (readNameMap decoding bytes count cursor seen) := by
  induction count generalizing cursor seen with
  | zero => exact grounded_ok _
  | succ count ih =>
    unfold readNameMap
    split
    · rename_i failed
      exact grounded_error (grounded_varint bytes cursor _ failed)
    · split
      · rename_i failed
        exact grounded_error (grounded_name bytes _ _ failed)
      · exact ih

theorem grounded_readNames {start : Nat} {seen : FunctionNames}
    (custom : SectionAt bytes 0 start stop) :
    Grounded bytes (readNames decoding bytes stop cursor seen) := by
  -- one case per exit of the loop over sub-sections; only the last one is a fault of its own
  fun_induction readNames decoding bytes stop cursor seen with
  | case1 cursor seen lt e failed => exact grounded_error (grounded_byteAt bytes cursor e failed)
  | case2 cursor seen lt id next _ e failed =>
    exact grounded_error (grounded_varint bytes next e failed)
  | case3 cursor seen lt id next _ length first _ other ih => exact ih
  | case4 cursor seen lt id next _ length first _ named e failed =>
    exact grounded_error (grounded_varint bytes first e failed)
  | case5 cursor seen lt id next _ length first _ named count start _ e failed =>
    exact grounded_error (grounded_readNameMap e failed)
  | case6 cursor seen lt id next _ length first _ named count start _ seen' next' _ ih => exact ih
  | case7 seen => exact grounded_ok _
  | case8 cursor seen ge other =>
    exact grounded_error ⟨⟨start, custom⟩, by omega⟩

/-! ## Imports and exports -/

/-- The flag of limits is blamed under the offset behind their minimum. -/
theorem grounded_skipBounds (bytes : ByteArray) (cursor : Nat) :
    Grounded bytes (skipBounds bytes cursor) := by
  unfold skipBounds
  refine (grounded_byteAt bytes cursor).bind fun ⟨flag, first⟩ flagAt => ?_
  refine (grounded_varint bytes first).bind fun ⟨minimum, next⟩ field => ?_
  obtain rfl := byteAt_next flagAt
  dsimp only
  split
  · exact grounded_ok _
  · exact (grounded_varint bytes next).bind fun _ _ => grounded_ok _
  · exact (grounded_varint bytes next).bind fun _ _ => grounded_ok _
  · rename_i zero one three
    refine grounded_error ⟨cursor, minimum, (byteAt_eq_ok_iff.1 flagAt).1, ?_, field⟩
    simp only [List.mem_cons, List.not_mem_nil, or_false, not_or]
    exact ⟨zero, one, three⟩

theorem grounded_skipDescription {kind : UInt8} {before : Nat}
    (kindAt : byteAt bytes before = .ok (kind, cursor)) :
    Grounded bytes (skipDescription bytes kind cursor) := by
  unfold skipDescription
  split
  · exact (grounded_varint bytes cursor).bind fun _ _ => grounded_ok _
  · rename_i table
    refine (grounded_byteAt bytes cursor).bind fun ⟨element, next⟩ elementAt => ?_
    dsimp only
    split
    · rename_i other
      have one : kind = 1 := UInt8.toNat_inj.1 table
      exact grounded_error ⟨⟨before, one ▸ (byteAt_eq_ok_iff.1 kindAt).1, byteAt_next kindAt⟩,
        (byteAt_eq_ok_iff.1 elementAt).1, other⟩
    · exact (grounded_skipBounds bytes next).bind fun _ _ => grounded_ok _
  · exact (grounded_skipBounds bytes cursor).bind fun _ _ => grounded_ok _
  · exact grounded_ok _
  · exact (grounded_varint bytes (cursor + 1)).bind fun _ _ => grounded_ok _
  · exact grounded_ok _

theorem grounded_readImportsFrom {count : Nat} {seen : List String} :
    Grounded bytes (readImportsFrom decoding bytes count cursor seen) := by
  induction count generalizing cursor seen with
  | zero => exact grounded_ok _
  | succ count ih =>
    unfold readImportsFrom
    refine (grounded_name bytes cursor).bind fun ⟨_, next⟩ _ => ?_
    refine (grounded_name bytes next).bind fun ⟨text, next⟩ _ => ?_
    refine (grounded_byteAt bytes next).bind fun ⟨kind, next⟩ kindAt => ?_
    refine (grounded_skipDescription kindAt).bind fun rest _ => ?_
    cases rest with
    | none => exact grounded_ok _
    | some stop => exact ih

theorem grounded_readImports (bytes : ByteArray) (cursor : Nat) :
    Grounded bytes (readImports decoding bytes cursor) :=
  (grounded_varint bytes cursor).bind fun _ _ => grounded_readImportsFrom

theorem grounded_readExportsFrom {count : Nat} {seen : List Nat} :
    Grounded bytes (readExportsFrom decoding bytes count cursor seen) := by
  induction count generalizing cursor seen with
  | zero => exact grounded_ok _
  | succ count ih =>
    unfold readExportsFrom
    refine (grounded_name bytes cursor).bind fun ⟨_, next⟩ _ => ?_
    refine (grounded_byteAt bytes next).bind fun ⟨kind, next⟩ _ => ?_
    exact (grounded_varint bytes next).bind fun _ _ => ih

theorem grounded_readExports (bytes : ByteArray) (cursor : Nat) :
    Grounded bytes (readExports decoding bytes cursor) :=
  (grounded_varint bytes cursor).bind fun _ _ => grounded_readExportsFrom

/-! ## Sections and files -/

theorem grounded_readContents {id : UInt8} {start : Nat} (here : SectionAt bytes id start stop)
    (inside : stop ≤ bytes.size) :
    Grounded bytes (readContents decoding bytes id cursor stop) := by
  unfold readContents
  split
  · rename_i custom
    obtain rfl : id = 0 := UInt8.toNat_inj.1 custom
    refine (grounded_name bytes cursor).bind fun ⟨text, next⟩ _ => ?_
    dsimp only
    split
    · exact (grounded_readNames here).bind fun _ _ => grounded_ok _
    · exact grounded_ok _
  · exact (grounded_readImports bytes cursor).bind fun _ _ => grounded_ok _
  · exact (grounded_readExports bytes cursor).bind fun _ _ => grounded_ok _
  · rename_i code
    obtain rfl : id = 10 := UInt8.toNat_inj.1 code
    exact (grounded_readCode here inside).bind fun _ _ => grounded_ok _
  · exact grounded_ok _

theorem grounded_readSection (bytes : ByteArray) (cursor : Nat) :
    Grounded bytes (readSection decoding bytes cursor) := by
  unfold readSection
  split
  · rename_i failed
    exact grounded_error (grounded_byteAt bytes cursor _ failed)
  · rename_i id next number
    split
    · rename_i failed
      exact grounded_error (grounded_varint bytes next _ failed)
    · rename_i length first field
      obtain rfl := byteAt_next number
      have here : SectionAt bytes id cursor (first + length) :=
        ⟨(byteAt_eq_ok_iff.1 number).1, length, first, field, rfl⟩
      split
      · rename_i past
        exact grounded_error ⟨rfl, Or.inl ⟨⟨id, here⟩, past⟩⟩
      · rename_i inside
        split
        · rename_i failed
          exact grounded_error (grounded_readContents here (Nat.not_lt.1 inside) _ failed)
        · exact grounded_ok _

theorem grounded_readSections {seen : List Section} :
    Grounded bytes (readSections decoding bytes cursor seen) := by
  fun_induction readSections decoding bytes cursor seen with
  | case1 cursor seen lt e failed =>
    exact grounded_error (grounded_readSection bytes cursor e failed)
  | case2 cursor seen lt s here ih => exact ih
  | case3 cursor seen ge => exact grounded_ok _

theorem grounded_read (decoding : NameDecoding) (bytes : ByteArray) :
    Grounded bytes (Module.read decoding bytes) := by
  unfold Module.read
  refine (grounded_word32 (Or.inl rfl)).bind fun ⟨found, next⟩ first => ?_
  obtain rfl := (word32_next first).1
  dsimp only
  split
  · rename_i other
    exact grounded_error ⟨first, other⟩
  · refine (grounded_word32 (Or.inr rfl)).bind fun ⟨found, next⟩ second => ?_
    obtain rfl := (word32_next second).1
    dsimp only
    split
    · rename_i other
      exact grounded_error ⟨second, other⟩
    · exact grounded_readSections.bind fun _ _ => grounded_ok _

/-- **A file is refused only on grounds that its bytes give.** -/
theorem grounded_symbolsOf (decoding : NameDecoding) (bytes : ByteArray) :
    Grounded bytes (symbolsOf decoding bytes) :=
  (grounded_read decoding bytes).bind fun _ _ => grounded_ok _

/-- **Where the bytes are that a fault is about.**  A fault about the element type of a table
gives the offset of that byte.  One about limits gives the offset behind their minimum, which
follows the flag.  One about an overrun gives the size of the file; it gives an end past it,
or that of a function body which passes the end of its code section.  One about a number
gives an offset from which no number below `2 ^ 32` can be read. -/
theorem offending_bytes_of_refused (decoding : NameDecoding) (bytes : ByteArray) :
    (∀ offset found, symbolsOf decoding bytes = .error (.badTableElementType offset found) →
      bytes[offset]? = some found ∧ found ≠ functionReference) ∧
    (∀ offset found, symbolsOf decoding bytes = .error (.badLimitsFlag offset found) →
      ∃ flag minimum, bytes[flag]? = some found ∧ found.toNat ∉ [0, 1, 3] ∧
        varint bytes (flag + 1) = .ok (minimum, offset)) ∧
    (∀ offset stop fileSize,
      symbolsOf decoding bytes = .error (.sectionOverrun offset stop fileSize) →
      fileSize = bytes.size ∧ (bytes.size < stop ∨ BodyOverruns bytes offset stop)) ∧
    (∀ offset, symbolsOf decoding bytes = .error (.varintOverflow offset) →
      ¬ ∃ n : Numeral, Lies bytes offset n.bytes) := by
  have grounded := grounded_symbolsOf decoding bytes
  refine ⟨fun offset found refused => ?_, fun offset found refused => ?_,
    fun offset stop fileSize refused => ?_, fun offset refused => ?_⟩
  · obtain ⟨_, element⟩ := grounded _ refused
    exact element
  · exact grounded _ refused
  · obtain ⟨size, overrun⟩ := grounded _ refused
    exact ⟨size, overrun.imp_left And.right⟩
  · exact grounded _ refused

/-- The header of a file and what follows it. -/
def fileWith (rest : Array UInt8) : ByteArray := ⟨#[0, 0x61, 0x73, 0x6d, 1, 0, 0, 0] ++ rest⟩

/-- A file that imports a table of external references. -/
def foreignTable : ByteArray := fileWith #[2, 9, 1, 1, 0x6d, 1, 0x6d, 1, 0x6f, 0, 1]

/-- A file that imports a memory whose limits have the flag 2. -/
def unknownFlag : ByteArray := fileWith #[2, 8, 1, 1, 0x6d, 1, 0x6d, 2, 2, 1]

/-- A file whose code section ends before its function body does, and a type section. -/
def longBody : ByteArray := fileWith #[10, 4, 1, 3, 0, 0x0b, 1, 1, 0]

/-- A file that ends before its type section does. -/
def shortFile : ByteArray := fileWith #[1, 5]

/-- A file with a section whose length has 35 bits. -/
def largeLength : ByteArray := fileWith #[1, 0xff, 0xff, 0xff, 0xff, 0x7f]

/-- Each of the four faults at one file. -/
theorem offending_bytes_of_refused_fourFiles :
    (foreignTable[16]? = some 0x6f ∧ 0x6f ≠ functionReference) ∧
    (∃ flag minimum, unknownFlag[flag]? = some 2 ∧ (2 : UInt8).toNat ∉ [0, 1, 3] ∧
      varint unknownFlag (flag + 1) = .ok (minimum, 18)) ∧
    (10 = shortFile.size ∧ (shortFile.size < 15 ∨ BodyOverruns shortFile 8 15)) ∧
    ¬ ∃ n : Numeral, Lies largeLength 9 n.bytes := by
  have table : Module.read .utf8 foreignTable = .error (.badTableElementType 16 0x6f) := by
    decide +kernel
  have limits : Module.read .utf8 unknownFlag = .error (.badLimitsFlag 18 2) := by decide +kernel
  have overrun : Module.read .utf8 shortFile = .error (.sectionOverrun 8 15 10) := by
    decide +kernel
  have number : Module.read .utf8 largeLength = .error (.varintOverflow 9) := by decide +kernel
  exact ⟨(offending_bytes_of_refused .utf8 foreignTable).1 _ _ (bind_eq_error.2 (Or.inl table)),
    (offending_bytes_of_refused .utf8 unknownFlag).2.1 _ _ (bind_eq_error.2 (Or.inl limits)),
    (offending_bytes_of_refused .utf8 shortFile).2.2.1 _ _ _ (bind_eq_error.2 (Or.inl overrun)),
    (offending_bytes_of_refused .utf8 largeLength).2.2.2 _ (bind_eq_error.2 (Or.inl number))⟩

/-- The flag 2 stands at the offset 16 but is blamed under 18, where the file ends.  A body
that ends at 15 is said to pass the end of a file of 17 bytes, and only passes its section. -/
theorem misplaced_unknownFlag_longBody :
    symbolsOf .utf8 unknownFlag = .error (.badLimitsFlag 18 2) ∧
      unknownFlag[18]? = none ∧ unknownFlag[16]? = some 2 ∧
    symbolsOf .utf8 longBody = .error (.sectionOverrun 11 15 17) ∧ longBody.size = 17 := by
  have limits : Module.read .utf8 unknownFlag = .error (.badLimitsFlag 18 2) := by decide +kernel
  have overrun : Module.read .utf8 longBody = .error (.sectionOverrun 11 15 17) := by
    decide +kernel
  exact ⟨bind_eq_error.2 (Or.inl limits), by decide +kernel, by decide +kernel,
    bind_eq_error.2 (Or.inl overrun), by decide +kernel⟩

end SizeAtlas.Wasm
