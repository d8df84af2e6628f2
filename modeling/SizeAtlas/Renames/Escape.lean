import SizeAtlas.Text.Hex
import SizeAtlas.Text.Utf8

/-!
# Names in printable ASCII

The written form of a name has only printable ASCII characters.  A backslash is
written twice, and every other byte of the name outside that range as a
backslash and two hexadecimal digits.

## Main definitions

* `escape` — the written form of a name.
* `unescape` — the name of a written form.
-/

namespace SizeAtlas.Renames

/-- The backslash as a byte. -/
def backslash : UInt8 := 92

/-- The written form of one byte. -/
def escapeByte (b : UInt8) : List Char :=
  if b = backslash then ['\\', '\\']
  else if 0x20 ≤ b.toNat ∧ b.toNat ≤ 0x7e then [Char.ofNat b.toNat]
  else '\\' :: (Text.hex 2 b.toNat).toList

/-- The written form of `name`. -/
def escape (name : String) : String :=
  String.ofList ((Text.bytesOf name).flatMap escapeByte)

/-- The byte given by two characters: two digits, or a plus sign and one. -/
def hexByte? (a b : UInt8) : Option UInt8 :=
  match Text.hexValue? a.toNat, Text.hexValue? b.toNat with
  | some high, some low => some (UInt8.ofNat (16 * high + low))
  | none, some low => if a.toNat = 43 then some (UInt8.ofNat low) else none
  | _, none => none

/-- The bytes that a written form stands for.  A backslash that starts no escape
stands for itself. -/
def unescapeBytes : List UInt8 → List UInt8
  | [] => []
  | x :: tail =>
    if x = backslash then
      match tail with
      | [] => [backslash]
      | a :: rest =>
        if a = backslash then backslash :: unescapeBytes rest
        else
          match rest with
          | [] => backslash :: unescapeBytes [a]
          | b :: rest' =>
            match hexByte? a b with
            | some byte => byte :: unescapeBytes rest'
            | none => backslash :: unescapeBytes (a :: b :: rest')
    else x :: unescapeBytes tail
termination_by bytes => bytes.length

/-- The name that `text` is the written form of. -/
def unescape (text : String) : String := Text.Utf8.decode (unescapeBytes (Text.bytesOf text))

end SizeAtlas.Renames
