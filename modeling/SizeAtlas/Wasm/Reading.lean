import SizeAtlas.Bytes.Reading
import SizeAtlas.Wasm.Section

/-!
# Reading a module

The reader of the binary format.  It measures every section and goes into those
that name or measure functions: custom sections, imports, exports and code.

## Main definitions

* `readContents` — what a section of a given number holds.
* `readSection` — the section at an offset.
* `Module.read` — all sections of a file.
-/

namespace SizeAtlas.Wasm

open Bytes

/-! ## Code -/

/-- The sizes of `count` function bodies from `cursor` on, which may not pass
`stop`, after those in `seen`, newest first. -/
def readBodies (bytes : ByteArray) (stop : Nat) :
    (count cursor : Nat) → (seen : List Nat) → Except Fault (List Nat)
  | 0, _, seen => .ok seen.reverse
  | count + 1, cursor, seen => do
    let (length, first) ← varint bytes cursor
    let next := first + length
    if stop < next then .error (.sectionOverrun cursor next bytes.size)
    else readBodies bytes stop count next ((next - cursor) :: seen)

/-- The sizes of the function bodies of a code section. -/
def readCode (bytes : ByteArray) (cursor stop : Nat) : Except Fault (List Nat) := do
  let (count, first) ← varint bytes cursor
  readBodies bytes stop count first []

/-! ## Names -/

/-- The sub-section of a name section that names functions. -/
def functionNamesId : UInt8 := 1

/-- The `count` pairs of an index and a name from `cursor` on, in front of those
in `seen`, and the offset after them. -/
def readNameMap (decoding : NameDecoding) (bytes : ByteArray) :
    (count cursor : Nat) → (seen : FunctionNames) → Except Fault (FunctionNames × Nat)
  | 0, cursor, seen => .ok (seen, cursor)
  | count + 1, cursor, seen =>
    match varint bytes cursor with
    | .error e => .error e
    | .ok (index, first) =>
      match name decoding bytes first with
      | .error e => .error e
      | .ok (text, next) => readNameMap decoding bytes count next ((index, text) :: seen)

theorem le_of_readNameMap {decoding : NameDecoding} {bytes : ByteArray} :
    ∀ {count cursor next : Nat} {seen names : FunctionNames},
      readNameMap decoding bytes count cursor seen = .ok (names, next) → cursor ≤ next
  | 0, cursor, next, seen, names, h => by
    simp only [readNameMap, Except.ok.injEq, Prod.mk.injEq] at h
    omega
  | count + 1, cursor, next, seen, names, h => by
    simp only [readNameMap] at h
    split at h
    · simp at h
    · rename_i hv
      have := lt_of_varint hv
      split at h
      · simp at h
      · rename_i hn
        have := lt_of_name hn
        have := le_of_readNameMap h
        omega

/-- The function names among the sub-sections from `cursor` on, in front of
those in `seen`.  The sub-sections must end at `stop`. -/
def readNames (decoding : NameDecoding) (bytes : ByteArray) (stop cursor : Nat)
    (seen : FunctionNames) : Except Fault FunctionNames :=
  if cursor < stop then
    match _hId : byteAt bytes cursor with
    | .error e => .error e
    | .ok (id, next) =>
      match _hLength : varint bytes next with
      | .error e => .error e
      | .ok (length, first) =>
        if id ≠ functionNamesId then readNames decoding bytes stop (first + length) seen
        else
          match _hCount : varint bytes first with
          | .error e => .error e
          | .ok (count, start) =>
            match _hMap : readNameMap decoding bytes count start seen with
            | .error e => .error e
            | .ok (seen', next') => readNames decoding bytes stop next' seen'
  else if cursor = stop then .ok seen
  else .error (.malformedNameSection stop cursor)
termination_by stop - cursor
decreasing_by
  · have := byteAt_next _hId
    have := lt_of_varint _hLength
    omega
  · have := byteAt_next _hId
    have := lt_of_varint _hLength
    have := lt_of_varint _hCount
    have := le_of_readNameMap _hMap
    omega

/-! ## Imports -/

/-- The element type of a table of functions. -/
def functionReference : UInt8 := 0x70

/-- The offset after the limits at `cursor`: a flag, a minimum and, if the flag
says so, a maximum. -/
def skipBounds (bytes : ByteArray) (cursor : Nat) : Except Fault Nat := do
  let (flag, first) ← byteAt bytes cursor
  let (_, next) ← varint bytes first
  match flag.toNat with
  | 0 => .ok next
  | 1 | 3 => do
    let (_, stop) ← varint bytes next
    .ok stop
  | _ => .error (.badLimitsFlag next flag)

/-- The offset after the description at `cursor` of an import of the given kind,
if the kind is known. -/
def skipDescription (bytes : ByteArray) (kind : UInt8) (cursor : Nat) :
    Except Fault (Option Nat) :=
  match kind.toNat with
  | 0 => do
    let (_, next) ← varint bytes cursor
    .ok (some next)
  | 1 => do
    let (element, next) ← byteAt bytes cursor
    if element ≠ functionReference then .error (.badTableElementType cursor element)
    else
      let stop ← skipBounds bytes next
      .ok (some stop)
  | 2 => do
    let stop ← skipBounds bytes cursor
    .ok (some stop)
  | 3 => .ok (some (cursor + 2))
  | 4 => do
    let (_, next) ← varint bytes (cursor + 1)
    .ok (some next)
  | _ => .ok none

/-- The functions among `count` imports from `cursor` on, after those in `seen`,
newest first.  An import of unknown kind ends the reading. -/
def readImportsFrom (decoding : NameDecoding) (bytes : ByteArray) :
    (count cursor : Nat) → (seen : List String) → Except Fault (List String)
  | 0, _, seen => .ok seen.reverse
  | count + 1, cursor, seen => do
    let (_, next) ← name decoding bytes cursor
    let (text, next) ← name decoding bytes next
    let (kind, next) ← byteAt bytes next
    match ← skipDescription bytes kind next with
    | none => .ok seen.reverse
    | some stop =>
      readImportsFrom decoding bytes count stop (if kind = 0 then text :: seen else seen)

/-- The names of the functions that an import section lists. -/
def readImports (decoding : NameDecoding) (bytes : ByteArray) (cursor : Nat) :
    Except Fault (List String) := do
  let (count, first) ← varint bytes cursor
  readImportsFrom decoding bytes count first []

/-! ## Exports -/

/-- The functions among `count` exports from `cursor` on, after those in `seen`,
newest first. -/
def readExportsFrom (decoding : NameDecoding) (bytes : ByteArray) :
    (count cursor : Nat) → (seen : List Nat) → Except Fault (List Nat)
  | 0, _, seen => .ok seen.reverse
  | count + 1, cursor, seen => do
    let (_, next) ← name decoding bytes cursor
    let (kind, next) ← byteAt bytes next
    let (index, next) ← varint bytes next
    readExportsFrom decoding bytes count next (if kind = 0 then index :: seen else seen)

/-- The indices of the functions that an export section lists. -/
def readExports (decoding : NameDecoding) (bytes : ByteArray) (cursor : Nat) :
    Except Fault (List Nat) := do
  let (count, first) ← varint bytes cursor
  readExportsFrom decoding bytes count first []

/-! ## Sections -/

/-- What the section numbered `id` holds between `cursor` and `stop`. -/
def readContents (decoding : NameDecoding) (bytes : ByteArray) (id : UInt8)
    (cursor stop : Nat) : Except Fault Contents :=
  match id.toNat with
  | 0 => do
    let (text, next) ← name decoding bytes cursor
    if text = "name" then
      let names ← readNames decoding bytes stop next []
      .ok (.custom text (some names))
    else .ok (.custom text none)
  | 2 => do
    let functions ← readImports decoding bytes cursor
    .ok (.imports functions)
  | 7 => do
    let functions ← readExports decoding bytes cursor
    .ok (.exports functions)
  | 10 => do
    let bodies ← readCode bytes cursor stop
    .ok (.code bodies)
  | _ => .ok .uninterpreted

/-- The section at `cursor`. -/
def readSection (decoding : NameDecoding) (bytes : ByteArray) (cursor : Nat) :
    Except Fault Section :=
  match byteAt bytes cursor with
  | .error e => .error e
  | .ok (id, next) =>
    match varint bytes next with
    | .error e => .error e
    | .ok (length, first) =>
      if bytes.size < first + length then
        .error (.sectionOverrun cursor (first + length) bytes.size)
      else
        match readContents decoding bytes id first (first + length) with
        | .error e => .error e
        | .ok contents => .ok ⟨id, cursor, first + length, contents⟩

theorem lt_of_readSection {decoding : NameDecoding} {bytes : ByteArray} {cursor : Nat}
    {s : Section} (h : readSection decoding bytes cursor = .ok s) : cursor < s.stop := by
  unfold readSection at h
  split at h
  · simp at h
  · rename_i hId
    have := byteAt_next hId
    split at h
    · simp at h
    · rename_i hLength
      have := lt_of_varint hLength
      split at h
      · simp at h
      · split at h
        · simp at h
        · simp only [Except.ok.injEq] at h
          subst h
          simp only
          omega

/-- The sections from `cursor` on, after those in `seen`, newest first. -/
def readSections (decoding : NameDecoding) (bytes : ByteArray) (cursor : Nat)
    (seen : List Section) : Except Fault (List Section) :=
  if cursor < bytes.size then
    match _h : readSection decoding bytes cursor with
    | .error e => .error e
    | .ok s => readSections decoding bytes s.stop (s :: seen)
  else .ok seen.reverse
termination_by bytes.size - cursor
decreasing_by
  have := lt_of_readSection _h
  omega

/-! ## Files -/

/-- The number that a file starts with. -/
def magic : Nat := 0x6d736100

/-- The version of the format. -/
def version : Nat := 1

/-- The sections of the file with the given bytes. -/
def Module.read (decoding : NameDecoding) (bytes : ByteArray) : Except Fault Module := do
  let (found, next) ← word32 bytes 0
  if found ≠ magic then .error (.badMagic found)
  else
    let (found, next) ← word32 bytes next
    if found ≠ version then .error (.badVersion found)
    else
      let sections ← readSections decoding bytes next []
      .ok ⟨sections, bytes.size⟩

end SizeAtlas.Wasm
