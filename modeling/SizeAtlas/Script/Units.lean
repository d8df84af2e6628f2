import SizeAtlas.Script.Lexer

/-!
# What a quoted text stands for

The text that a literal stands for, as a list of 16-bit units: a script can spell
half of a character, which no list of characters could hold.  Two texts are the
same name if their units are the same, however they are spelled.

## Main definitions

* `unitsOf` — the units of a text.
* `literalUnits` — the units that a literal stands for.
* `areWhole` — whether units spell whole characters.
-/

namespace SizeAtlas.Script

/-- The units of the character with the code point `n`. -/
def unitsOfCodePoint (n : Nat) : List Nat :=
  if n < 0x10000 then [n] else [0xd800 + (n - 0x10000) / 0x400, 0xdc00 + (n - 0x10000) % 0x400]

/-- The units of a text. -/
def unitsOf (text : String) : List Nat := text.toList.flatMap (unitsOfCodePoint ·.toNat)

/-! ## Halves of characters -/

/-- Whether a unit is the first half of a character. -/
def isFirstHalf (u : Nat) : Bool := 0xd800 ≤ u && u < 0xdc00

/-- Whether a unit is the second half of a character. -/
def isSecondHalf (u : Nat) : Bool := 0xdc00 ≤ u && u < 0xe000

/-- Whether units spell whole characters: after each first half there is a second
one, and no second half elsewhere. -/
def areWhole : List Nat → Bool
  | [] => true
  | [u] => !isFirstHalf u && !isSecondHalf u
  | u :: v :: us =>
    if isFirstHalf u then isSecondHalf v && areWhole us
    else !isSecondHalf u && areWhole (v :: us)

/-! ## Escapes -/

/-- The code point that a letter after a backslash stands for, if it is not the
letter itself. -/
def escapedLetter? (c : Char) : Option Nat :=
  match c with
  | 'b' => some 8
  | 't' => some 9
  | 'n' => some 10
  | 'v' => some 11
  | 'f' => some 12
  | 'r' => some 13
  | _ => none

/-- The octal digits of the escape whose first one is `c` and is followed by `cs`:
as many as spell a number below 256. -/
def octalDigits (c : Char) (cs : List Char) : List Char :=
  c :: (cs.take (if c < '4' then 2 else 1)).takeWhile (isDigitOf 8)

/-- The number that octal digits spell. -/
def octalValue (digits : List Char) : Nat :=
  digits.foldl (fun n d => n * 8 + (d.toNat - '0'.toNat)) 0

/-- The units of the escape whose backslash stands at `s` before `c` and `cs`, and
the place after it. -/
def escapeUnits (s : Spot) (c : Char) (cs : List Char) : List Nat × Spot :=
  let stop := (skipEscape? s).getD (s.skip 1)
  if isDigitOf 8 c then
    let digits := octalDigits c cs
    ([octalValue digits], s.skip (1 + digits.length))
  else if isLineEnd c then ([], stop)
  else if c = 'x' then ([(hexDigits 0 0 (cs.take 2)).1], stop)
  else if c = 'u' then (((readCodePoint? (s.skip 2)).map (unitsOfCodePoint ·.1)).getD [], stop)
  else (unitsOfCodePoint ((escapedLetter? c).getD c.toNat), stop)

/-! ## Literals -/

/-- The units that a literal stands for whose inside starts at `s` and which
`quote` closes. -/
def literalUnits (quote : Char) : (fuel : Nat) → Spot → List Nat
  | 0, _ => []
  | fuel + 1, s =>
    match s.rest with
    | [] => []
    | c :: cs =>
      if c = quote then []
      else
        match c, cs with
        | '\\', d :: rest =>
          let (units, s') := escapeUnits s d rest
          units ++ literalUnits quote fuel s'
        | _, _ => unitsOfCodePoint c.toNat ++ literalUnits quote fuel ⟨cs, s.offset + c.utf8Size⟩

end SizeAtlas.Script
