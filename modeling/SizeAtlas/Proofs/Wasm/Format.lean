import SizeAtlas.Proofs.Bytes.Reading
import SizeAtlas.Wasm.Section

/-!
# The binary format of a module

What a module is made of, as it is written.  A written section carries the numerals
that were chosen for its lengths, counts and indices, so that one module has as many
written forms as its numbers have numerals.

## Main definitions

* `Limits`, `Import`, `Export`, `Naming`, `SubSection` — what sections are made of.
* `Content`, `WrittenSection` — sections.
* `fileBytes` — the bytes of a file.
* `functionNames` — the names that a file gives to functions.
-/

namespace SizeAtlas.Wasm.Format

open Bytes

/-! ## Imports -/

/-- The limits of a table or a memory. -/
inductive Limits where
  /-- A minimum only. -/
  | atLeast (least : Numeral)
  /-- A minimum and a maximum, of something that is shared or not. -/
  | between (shared : Bool) (least most : Numeral)

/-- The bytes of limits. -/
def Limits.bytes : Limits → List UInt8
  | .atLeast least => 0 :: least.bytes
  | .between false least most => 1 :: (least.bytes ++ most.bytes)
  | .between true least most => 3 :: (least.bytes ++ most.bytes)

/-- What is imported. -/
inductive Description where
  /-- A function of a given type. -/
  | function (type : Numeral)
  /-- A table of functions. -/
  | table (limits : Limits)
  /-- A memory. -/
  | memory (limits : Limits)
  /-- A global variable. -/
  | global (type mutability : UInt8)
  /-- A tag of a given type. -/
  | tag (flavour : UInt8) (type : Numeral)

namespace Description

/-- The number of the kind of what is imported. -/
def kind : Description → UInt8
  | function _ => 0
  | table _ => 1
  | memory _ => 2
  | global _ _ => 3
  | tag _ _ => 4

/-- The bytes behind the kind. -/
def bytes : Description → List UInt8
  | function type => type.bytes
  | table limits => 0x70 :: limits.bytes
  | memory limits => limits.bytes
  | global type mutability => [type, mutability]
  | tag flavour type => flavour :: type.bytes

end Description

/-- An import under the name that another module has for it. -/
structure Import where
  origin : Title
  name : Title
  description : Description

/-- The bytes of an import. -/
def Import.bytes (i : Import) : List UInt8 :=
  i.origin.bytes ++ (i.name.bytes ++ i.description.kind :: i.description.bytes)

/-- The name of an imported function. -/
def Import.function? (i : Import) : Option String :=
  match i.description with
  | .function _ => some i.name.text
  | _ => none

/-! ## Exports -/

/-- An export of anything, which has the kind zero if it is a function. -/
structure Export where
  name : Title
  kind : UInt8
  index : Numeral

/-- The bytes of an export. -/
def Export.bytes (e : Export) : List UInt8 := e.name.bytes ++ e.kind :: e.index.bytes

/-- The index of an exported function. -/
def Export.function? (e : Export) : Option Nat := if e.kind = 0 then some e.index.value else none

/-! ## Names -/

/-- A name for the function of a given index. -/
structure Naming where
  index : Numeral
  name : Title

/-- The bytes of a naming. -/
def Naming.bytes (n : Naming) : List UInt8 := n.index.bytes ++ n.name.bytes

/-- What a naming says. -/
def Naming.pair (n : Naming) : Nat × String := (n.index.value, n.name.text)

/-- A part of a name section. -/
inductive SubSection where
  /-- Names for functions. -/
  | functionNames (length : Numeral) (pairs : Series Naming)
    (length_eq : length.value = (pairs.bytes Naming.bytes).length)
  /-- Anything else. -/
  | other (id : UInt8) (ne : id ≠ 1) (content : Chunk)

namespace SubSection

/-- The bytes of a part of a name section. -/
def bytes : SubSection → List UInt8
  | functionNames length pairs _ => 1 :: (length.bytes ++ pairs.bytes Naming.bytes)
  | other id _ content => id :: content.bytes

/-- The names for functions, in their order. -/
def names : SubSection → List (Nat × String)
  | functionNames _ pairs _ => pairs.items.map Naming.pair
  | other _ _ _ => []

end SubSection

/-! ## Sections -/

/-- What a section holds. -/
inductive Content where
  /-- A custom section other than the name section. -/
  | custom (name : Title) (payload : List UInt8) (other : name.text ≠ "name")
  /-- The name section. -/
  | names (name : Title) (parts : List SubSection) (eq : name.text = "name")
  | imports (entries : Series Import)
  | exports (entries : Series Export)
  /-- The bodies of functions. -/
  | code (bodies : Series Chunk)
  /-- A section that is only measured. -/
  | uninterpreted (id : UInt8) (payload : List UInt8) (other : id.toNat ∉ [0, 2, 7, 10])

namespace Content

/-- The number of a section. -/
def id : Content → UInt8
  | custom _ _ _ | names _ _ _ => 0
  | imports _ => 2
  | exports _ => 7
  | code _ => 10
  | uninterpreted id _ _ => id

/-- The payload of a section. -/
def bytes : Content → List UInt8
  | custom name payload _ => name.bytes ++ payload
  | names name parts _ => name.bytes ++ parts.flatMap SubSection.bytes
  | imports entries => entries.bytes Import.bytes
  | exports entries => entries.bytes Export.bytes
  | code bodies => bodies.bytes Chunk.bytes
  | uninterpreted _ payload _ => payload

/-- The name of a section. -/
def name : Content → String
  | custom name _ _ => "CUSTOM/\"" ++ name.text ++ "\""
  | names _ _ _ => "CUSTOM/\"name\""
  | imports _ => "IMPORT"
  | exports _ => "EXPORT"
  | code _ => "CODE"
  | uninterpreted id _ _ => nameOfId id.toNat

/-- The bytes of each function body with its length. -/
def bodies : Content → List Nat
  | code bodies => bodies.items.map fun b => b.bytes.length
  | _ => []

/-- The names of the imported functions. -/
def functionImports : Content → List String
  | imports entries => entries.items.filterMap Import.function?
  | _ => []

/-- The indices of the exported functions. -/
def functionExports : Content → List Nat
  | exports entries => entries.items.filterMap Export.function?
  | _ => []

/-- The names of functions in their order, in a name section. -/
def functionNames? : Content → Option (List (Nat × String))
  | names _ parts _ => some (parts.flatMap SubSection.names)
  | _ => none

end Content

/-- A section: its number, the length of its payload, and the payload. -/
structure WrittenSection where
  content : Content
  length : Numeral
  length_eq : length.value = content.bytes.length

namespace WrittenSection

/-- The bytes of a section. -/
def bytes (s : WrittenSection) : List UInt8 := s.content.id :: (s.length.bytes ++ s.content.bytes)

/-- Whatever a section holds can be written, if it is short enough to have its length
written. -/
theorem exists_of_content (c : Content) (h : c.bytes.length < 2 ^ 32) :
    ∃ s : WrittenSection, s.content = c := by
  obtain ⟨length, length_eq⟩ := exists_numeral h
  exact ⟨⟨c, length, length_eq⟩, rfl⟩

/-- The bytes of a section that belong to no function body. -/
def ownSize (s : WrittenSection) : Nat :=
  match s.content with
  | .code bodies => 1 + s.length.bytes.length + bodies.count.bytes.length
  | _ => s.bytes.length

end WrittenSection

/-! ## Files -/

/-- The bytes of the file with the given sections: the magic number, the version, and
the sections one after the other. -/
def fileBytes (sections : List WrittenSection) : List UInt8 :=
  [0x00, 0x61, 0x73, 0x6d, 0x01, 0x00, 0x00, 0x00] ++ sections.flatMap WrittenSection.bytes

/-- The names that a file gives to functions, in their order.  Should there be several
name sections, the last one counts. -/
def functionNames (sections : List WrittenSection) : List (Nat × String) :=
  ((sections.filterMap fun s => s.content.functionNames?).getLast?).getD []

end SizeAtlas.Wasm.Format
