import SizeAtlas.Text.Hex
import SizeAtlas.Text.Quoted

/-!
# Why an analysis stops

Every cause that aborts the analysis of an input, each with what a reader needs
to find the offending place.

## Main definitions

* `Fault` — the causes.
* `Fault.message` — the wording of each.
-/

namespace SizeAtlas

/-- A cause that stops an analysis.  Offsets are byte offsets into the input. -/
inductive Fault where
  /-- A file is missing or cannot be read as what it should be. -/
  | unreadable (path reason : String)
  /-- A text is not the JSON value that was asked for. -/
  | malformedJson (reason : String)
  /-- A module starts with other bytes than the magic number. -/
  | badMagic (found : Nat)
  /-- A module has a version that is not known. -/
  | badVersion (found : Nat)
  /-- The input ends where a byte was needed. -/
  | truncated (offset : Nat)
  /-- A variable-length number exceeds 32 bits. -/
  | varintOverflow (offset : Nat)
  /-- A length field points past the place where its contents may end. -/
  | sectionOverrun (offset stop fileSize : Nat)
  /-- The parts of a name section end elsewhere than the section. -/
  | malformedNameSection (expected actual : Nat)
  /-- An imported table holds something else than function references. -/
  | badTableElementType (offset : Nat) (found : UInt8)
  /-- The limits of a table or memory start with an unknown flag. -/
  | badLimitsFlag (offset : Nat) (found : UInt8)
  /-- A script uses syntax whose bytes cannot be attributed. -/
  | unsupportedSyntax (kind : String) (offset : Nat)
  /-- A script breaks the grammar. -/
  | malformedScript (reason : String)
  /-- A mapping holds a character that is no digit, or a digit too many. -/
  | invalidVlq (character : Char)
  /-- Names can be recovered for one script at a time. -/
  | wrongInputCount (count : Nat)
  deriving DecidableEq, Repr

namespace Fault

/-- The wording of a cause. -/
def message : Fault → String
  | unreadable path reason => s!"failed to read \"{path}\": {reason}"
  | malformedJson reason => s!"invalid JSON: {reason}"
  | badMagic found => "not a wasm module: bad magic 0x" ++ Text.hex 8 found
  | badVersion found => s!"unsupported wasm version {found}"
  | truncated offset => s!"unexpected end of input at byte offset {offset}"
  | varintOverflow offset => s!"varint at byte offset {offset} does not fit in 32 bits"
  | sectionOverrun offset stop fileSize =>
    s!"wasm section at byte offset {offset} ends at {stop}, past the end of the file " ++
      s!"({fileSize} bytes)"
  | malformedNameSection expected actual =>
    s!"malformed name section: sub-sections end at {actual}, section ends at {expected}"
  | badTableElementType offset found =>
    s!"table import at byte offset {offset} has element type 0x" ++ Text.hex 2 found.toNat ++
      ", expected 0x70"
  | badLimitsFlag offset found =>
    s!"memory limits at byte offset {offset} use unknown flag 0x" ++ Text.hex 2 found.toNat
  | unsupportedSyntax kind offset =>
    "unsupported syntax \x60" ++ kind ++ s!"\x60 at byte offset {offset}"
  | malformedScript reason => s!"failed to parse JavaScript: {reason}"
  | invalidVlq character =>
    "invalid base64 VLQ character " ++ Text.quoteChar character ++ " in source map mappings"
  | wrongInputCount count =>
    "creating a symbol map from a source map needs exactly one input JavaScript file, " ++
      s!"got {count}"

end Fault

end SizeAtlas
