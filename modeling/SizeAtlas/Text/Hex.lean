/-!
# Hexadecimal numerals

Numbers in base sixteen with lower-case digits, and the reading of a single
digit of either case.

## Main definitions

* `hex` — the numeral of a number, padded with zeros on the left.
* `hexValue?` — the value of one digit.
-/

namespace SizeAtlas.Text

/-- The numeral of `n` in base sixteen, at least `width` digits long. -/
def hex (width n : Nat) : String :=
  let digits := Nat.toDigits 16 n
  String.ofList (List.replicate (width - digits.length) '0' ++ digits)

/-- The value of a hexadecimal digit, given by its code point. -/
def hexValue? (c : Nat) : Option Nat :=
  if 48 ≤ c ∧ c ≤ 57 then some (c - 48)
  else if 97 ≤ c ∧ c ≤ 102 then some (c - 87)
  else if 65 ≤ c ∧ c ≤ 70 then some (c - 55)
  else none

end SizeAtlas.Text
