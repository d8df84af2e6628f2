/-!
# Reading bytes as text

Bytes that should be UTF-8 are read without ever failing: each longest run of
bytes that starts a character and goes no further is replaced by one
replacement character.

## Main definitions

* `Utf8.lead` — what the first byte of a character says about those after it.
* `Utf8.step` — one character, or one replacement, off the front of a text.
* `Utf8.decode` — a whole text.
* `Latin1.decode` — the reading in which every byte is a character.
-/

namespace SizeAtlas.Text

namespace Utf8

/-- What stands for bytes that form no character. -/
def replacement : Char := Char.ofNat 0xfffd

/-- What the first byte of a character says: how many bytes follow, the value
bits it carries, and the range of the byte after it. -/
structure Lead where
  /-- How many bytes follow. -/
  more : Nat
  /-- The value bits of the first byte. -/
  bits : Nat
  /-- The smallest byte that may come second. -/
  low : Nat
  /-- The largest byte that may come second. -/
  high : Nat
  deriving DecidableEq, Repr

/-- The first byte of a character of two to four bytes.  The narrower ranges of
the second byte keep out overlong forms, surrogates and code points past the
last one. -/
def lead? (b : Nat) : Option Lead :=
  if b < 0xc2 then none
  else if b < 0xe0 then some ⟨1, b - 0xc0, 0x80, 0xbf⟩
  else if b = 0xe0 then some ⟨2, 0, 0xa0, 0xbf⟩
  else if b = 0xed then some ⟨2, 0xd, 0x80, 0x9f⟩
  else if b < 0xf0 then some ⟨2, b - 0xe0, 0x80, 0xbf⟩
  else if b = 0xf0 then some ⟨3, 0, 0x90, 0xbf⟩
  else if b < 0xf4 then some ⟨3, b - 0xf0, 0x80, 0xbf⟩
  else if b = 0xf4 then some ⟨3, 4, 0x80, 0x8f⟩
  else none

/-- Reads `more` bytes after the bits `acc`, the first of them between `low` and
`high`.  Gives the character, or the replacement if a byte does not fit, and how
many bytes belong to it. -/
def tail (more acc low high : Nat) : List UInt8 → Char × Nat
  | bytes =>
    match more with
    | 0 => (Char.ofNat acc, 0)
    | more + 1 =>
      match bytes with
      | [] => (replacement, 0)
      | b :: rest =>
        if low ≤ b.toNat ∧ b.toNat ≤ high then
          let (c, n) := tail more (acc * 64 + (b.toNat - 0x80)) 0x80 0xbf rest
          (c, n + 1)
        else (replacement, 0)

/-- The character that starts with `b` when `rest` follows, and how many bytes
of `rest` belong to it. -/
def step (b : UInt8) (rest : List UInt8) : Char × Nat :=
  if b.toNat < 0x80 then (Char.ofNat b.toNat, 0)
  else
    match lead? b.toNat with
    | none => (replacement, 0)
    | some l => tail l.more l.bits l.low l.high rest

/-- The characters of `bytes`. -/
def decodeChars : List UInt8 → List Char
  | [] => []
  | b :: rest =>
    let (c, n) := step b rest
    c :: decodeChars (rest.drop n)
termination_by bytes => bytes.length
decreasing_by
  simp only [List.length_drop, List.length_cons]
  omega

/-- The text that `bytes` hold. -/
def decode (bytes : List UInt8) : String := String.ofList (decodeChars bytes)

end Utf8

namespace Latin1

/-- The text whose characters have the bytes as code points. -/
def decode (bytes : List UInt8) : String :=
  String.ofList (bytes.map fun b => Char.ofNat b.toNat)

end Latin1

/-- The bytes of a text. -/
def bytesOf (text : String) : List UInt8 := text.toUTF8.data.toList

end SizeAtlas.Text
