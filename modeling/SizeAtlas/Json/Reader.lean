import SizeAtlas.Json.Double

/-!
# Reading JSON

The reader of JSON texts.  It keeps the members of an object as they stand,
repeated ones included, so that who looks at the value decides about them.

A value that is looked at is read with full care: its texts must be whole
characters, its numbers must be finite as doubles, and it may not be nested too
deep.  A value that only has to be passed over need not keep to these three
rules.

## Main definitions

* `Care` — whether a value is looked at or passed over.
* `readText`, `readNumber`, `readValue` — the parts of the grammar.
* `read?` — the value that a text holds.
* `readRecord?` — the same for an object of which only some members matter.
-/

namespace SizeAtlas.Json

/-- How carefully a value is read. -/
inductive Care where
  /-- The value is looked at. -/
  | full
  /-- The value is passed over. -/
  | skim
  deriving DecidableEq, Repr, Inhabited

/-- The blanks that may stand between the parts of a value. -/
def isBlank (c : Char) : Bool := c == ' ' || c == '\n' || c == '\t' || c == '\r'

/-- The rest of a text after its leading blanks. -/
def skipBlanks (cs : List Char) : List Char := cs.dropWhile isBlank

/-! ## Texts -/

/-- The number that four hexadecimal digits spell, and what follows them. -/
def hex4? : List Char → Option (Nat × List Char)
  | a :: b :: c :: d :: rest =>
    match Text.hexValue? a.toNat, Text.hexValue? b.toNat, Text.hexValue? c.toNat,
      Text.hexValue? d.toNat with
    | some a, some b, some c, some d => some (((a * 16 + b) * 16 + c) * 16 + d, rest)
    | _, _, _, _ => none
  | _ => none

/-- What becomes of half a character: refused, or replaced if nobody looks. -/
def halfCharacter (care : Care) (rest : List Char) : Option (Char × List Char) :=
  match care with
  | .full => none
  | .skim => some (Char.ofNat 0xfffd, rest)

/-- The character given by the code unit `unit`, which a second unit completes
if it is the first half of a pair. -/
def pairedUnit (care : Care) (unit : Nat) (rest : List Char) : Option (Char × List Char) :=
  if unit < 0xd800 ∨ 0xdfff < unit then some (Char.ofNat unit, rest)
  else
    match rest with
    | '\\' :: 'u' :: rest' =>
      match hex4? rest' with
      | some (low, rest'') =>
        if unit < 0xdc00 ∧ 0xdc00 ≤ low ∧ low ≤ 0xdfff then
          some (Char.ofNat (0x10000 + (unit - 0xd800) * 0x400 + (low - 0xdc00)), rest'')
        else halfCharacter care rest
      | none => none
    | _ => halfCharacter care rest

/-- The character that an escape stands for, given what follows the backslash. -/
def readEscape (care : Care) : List Char → Option (Char × List Char)
  | '\"' :: rest => some ('\"', rest)
  | '\\' :: rest => some ('\\', rest)
  | '/' :: rest => some ('/', rest)
  | 'b' :: rest => some (Char.ofNat 8, rest)
  | 'f' :: rest => some (Char.ofNat 12, rest)
  | 'n' :: rest => some ('\n', rest)
  | 'r' :: rest => some ('\r', rest)
  | 't' :: rest => some ('\t', rest)
  | 'u' :: rest =>
    match hex4? rest with
    | some (unit, rest') => pairedUnit care unit rest'
    | none => none
  | _ => none

/-- The rest of a text of which `seen` has been read, newest first, up to the
closing quotation mark. -/
def readText (care : Care) : (fuel : Nat) → (seen : List Char) → List Char →
    Option (String × List Char)
  | 0, _, _ => none
  | _ + 1, _, [] => none
  | fuel + 1, seen, c :: rest =>
    if c = '\"' then some (String.ofList seen.reverse, rest)
    else if c = '\\' then
      match readEscape care rest with
      | some (e, rest') => readText care fuel (e :: seen) rest'
      | none => none
    else if c.toNat < 0x20 then none
    else readText care fuel (c :: seen) rest

/-! ## Numbers -/

/-- The number that decimal digits spell. -/
def digitsValue (ds : List Char) : Nat := ds.foldl (fun n d => n * 10 + (d.toNat - 48)) 0

/-- The digits of an exponent with its sign, after the letter. -/
def readExponent (cs : List Char) : Option (Int × List Char) :=
  let (negative, cs) := match cs with
    | '+' :: rest => (false, rest)
    | '-' :: rest => (true, rest)
    | _ => (false, cs)
  let (ds, rest) := cs.span Char.isDigit
  if ds.isEmpty then none
  else some (if negative then -(digitsValue ds : Int) else digitsValue ds, rest)

/-- The exponent of a number with the integer digits `whole` and the fraction
digits `fraction`, and the number itself. -/
def withExponent (negative : Bool) (whole fraction : List Char) (integral : Bool) :
    List Char → Option (Number × List Char)
  | c :: rest =>
    if c = 'e' ∨ c = 'E' then
      match readExponent rest with
      | some (e, rest') =>
        some (⟨negative, digitsValue (whole ++ fraction), e - fraction.length, false⟩, rest')
      | none => none
    else
      some (⟨negative, digitsValue (whole ++ fraction), -(fraction.length : Int), integral⟩,
        c :: rest)
  | [] => some (⟨negative, digitsValue (whole ++ fraction), -(fraction.length : Int), integral⟩, [])

/-- A number.  Its integer part has no needless zero in front. -/
def readNumber (cs : List Char) : Option (Number × List Char) :=
  let (negative, cs) := match cs with
    | '-' :: rest => (true, rest)
    | _ => (false, cs)
  let (whole, rest) := cs.span Char.isDigit
  if whole.isEmpty ∨ (whole.head? = some '0' ∧ 1 < whole.length) then none
  else
    match rest with
    | '.' :: rest' =>
      let (fraction, rest'') := rest'.span Char.isDigit
      if fraction.isEmpty then none
      else withExponent negative whole fraction false rest''
    | _ => withExponent negative whole [] true rest

/-! ## Values -/

/-- How many lists and objects may enclose a part of a value that is looked at,
plus one. -/
def depthLimit : Nat := 128

/-- The depth that remains inside a list or object, if it may be entered. -/
def enter? (care : Care) (depth : Nat) : Option Nat :=
  match care with
  | .skim => some depth
  | .full => if depth ≤ 1 then none else some (depth - 1)

mutual

/-- A value with the blanks before it.  At most `depth` lists and objects may
still be entered. -/
def readValue (care : Care) : (fuel depth : Nat) → List Char → Option (Value × List Char)
  | 0, _, _ => none
  | fuel + 1, depth, cs =>
    match skipBlanks cs with
    | 'n' :: 'u' :: 'l' :: 'l' :: rest => some (.null, rest)
    | 't' :: 'r' :: 'u' :: 'e' :: rest => some (.bool true, rest)
    | 'f' :: 'a' :: 'l' :: 's' :: 'e' :: rest => some (.bool false, rest)
    | '\"' :: rest =>
      match readText care fuel [] rest with
      | some (s, rest') => some (.text s, rest')
      | none => none
    | '[' :: rest =>
      match enter? care depth, skipBlanks rest with
      | none, _ => none
      | some _, ']' :: rest' => some (.list [], rest')
      | some depth, rest => readItems care fuel depth [] rest
    | '\x7b' :: rest =>
      match enter? care depth, skipBlanks rest with
      | none, _ => none
      | some _, '\x7d' :: rest' => some (.object [], rest')
      | some depth, rest => readMembers care (fun _ => care) fuel depth [] rest
    | cs =>
      match readNumber cs with
      | some (n, rest) =>
        if care = .full ∧ !n.isFinite then none else some (.number n, rest)
      | none => none

/-- The items of a list from the next one on, after those in `seen`, newest
first. -/
def readItems (care : Care) : (fuel depth : Nat) → (seen : List Value) → List Char →
    Option (Value × List Char)
  | 0, _, _, _ => none
  | fuel + 1, depth, seen, cs =>
    match readValue care fuel depth cs with
    | none => none
    | some (v, rest) =>
      match skipBlanks rest with
      | ',' :: rest' => readItems care fuel depth (v :: seen) rest'
      | ']' :: rest' => some (.list (v :: seen).reverse, rest')
      | _ => none

/-- The members of an object from the next one on, after those in `seen`, newest
first.  The care for a member's value depends on its name. -/
def readMembers (care : Care) (careFor : String → Care) :
    (fuel depth : Nat) → (seen : List (String × Value)) → List Char →
    Option (Value × List Char)
  | 0, _, _, _ => none
  | fuel + 1, depth, seen, cs =>
    match skipBlanks cs with
    | '\"' :: rest =>
      match readText care fuel [] rest with
      | none => none
      | some (k, rest) =>
        match skipBlanks rest with
        | ':' :: rest =>
          match readValue (careFor k) fuel depth rest with
          | none => none
          | some (v, rest) =>
            match skipBlanks rest with
            | ',' :: rest' => readMembers care careFor fuel depth ((k, v) :: seen) rest'
            | '\x7d' :: rest' => some (.object ((k, v) :: seen).reverse, rest')
            | _ => none
        | _ => none
    | _ => none

end

/-! ## Whole texts -/

/-- What was read, if only blanks follow it. -/
def whole? : Option (Value × List Char) → Option Value
  | some (v, rest) => if (skipBlanks rest).isEmpty then some v else none
  | none => none

/-- Enough steps to read `cs`: every second one consumes a character. -/
def fuelFor (cs : List Char) : Nat := 2 * cs.length + 2

/-- The value that `text` holds. -/
def read? (text : String) : Option Value :=
  let cs := text.toList
  whole? (readValue .full (fuelFor cs) depthLimit cs)

/-- The value that `text` holds when, if it is an object, only its members named
in `known` are looked at. -/
def readRecord? (known : List String) (text : String) : Option Value :=
  let cs := text.toList
  match skipBlanks cs with
  | '\x7b' :: rest =>
    match skipBlanks rest with
    | '\x7d' :: rest' => whole? (some (.object [], rest'))
    | rest =>
      whole? (readMembers .full (fun k => if k ∈ known then .full else .skim) (fuelFor cs)
        depthLimit [] rest)
  | _ => read? text

end SizeAtlas.Json
