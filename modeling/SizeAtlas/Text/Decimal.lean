/-!
# Numbers given as text

The reading of integers and of numbers with a point or an exponent, as a command
line has them.

## Main definitions

* `word64?` — an unsigned integer of 64 bits.
* `double?` — the double nearest to a decimal number.
-/

namespace SizeAtlas.Text

/-- The number that decimal digits spell. -/
def digitsToNat (ds : List Char) : Nat := ds.foldl (fun n d => n * 10 + (d.toNat - 48)) 0

/-- The unsigned integer of 64 bits that `text` spells, perhaps with a plus
sign. -/
def word64? (text : String) : Option Nat :=
  let ds := match text.toList with
    | '+' :: rest => rest
    | cs => cs
  if ds.isEmpty ∨ ¬ds.all Char.isDigit then none
  else
    let n := digitsToNat ds
    if n < UInt64.size then some n else none

/-- The sign in front of a number, and what follows it. -/
def takeSign : List Char → Bool × List Char
  | '+' :: rest => (false, rest)
  | '-' :: rest => (true, rest)
  | cs => (false, cs)

/-- The exponent that makes up all of `cs`, zero if there is nothing. -/
def wholeExponent? : List Char → Option Int
  | [] => some 0
  | c :: rest =>
    if c = 'e' ∨ c = 'E' then
      let (negative, ds) := takeSign rest
      if ds.isEmpty ∨ ¬ds.all Char.isDigit then none
      else some (if negative then -(digitsToNat ds : Int) else digitsToNat ds)
    else none

/-- The double nearest to `digits` times ten to the `exponent`.  Beyond the
exponents of a double it is infinite or zero. -/
def nearestDouble (digits : Nat) (exponent : Int) : Float :=
  let length := (toString digits).length
  if digits = 0 ∨ exponent + length < -400 then 0.0
  else if 400 < exponent + length then 1.0 / 0.0
  else if exponent < 0 then Float.ofScientific digits true (-exponent).toNat
  else Float.ofScientific digits false exponent.toNat

/-- The double for a decimal number without sign. -/
def unsignedDouble? (cs : List Char) : Option Float :=
  let (whole, rest) := cs.span Char.isDigit
  let (fraction, rest) := match rest with
    | '.' :: rest' => rest'.span Char.isDigit
    | _ => ([], rest)
  if whole.isEmpty ∧ fraction.isEmpty then none
  else (wholeExponent? rest).map fun e =>
    nearestDouble (digitsToNat (whole ++ fraction)) (e - fraction.length)

/-- The double that `text` spells: a decimal number, or a word for an infinite
value or for none. -/
def double? (text : String) : Option Float :=
  let (negative, cs) := takeSign text.toList
  let value :=
    match String.ofList (cs.map Char.toLower) with
    | "inf" | "infinity" => some (1.0 / 0.0)
    | "nan" => some (0.0 / 0.0)
    | _ => unsignedDouble? cs
  value.map fun v => if negative then -v else v

end SizeAtlas.Text
