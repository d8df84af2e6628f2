import SizeAtlas.Fault

/-!
# Numbers in base 64

The mappings of a source map are signed numbers written in digits of base 64.
A digit carries five bits, lowest first, and a sixth that says whether another
digit follows; of the number that they spell the lowest bit is the sign.

## Main definitions

* `digit` — the value of a character.
* `signed` — the number that a run of bits stands for.
* `decode` — all numbers of a text.
-/

namespace SizeAtlas.SourceMap.Vlq

/-- The digits in the order of their values. -/
def alphabet : List Char :=
  "ABCDEFGHIJKLMNOPQRSTUVWXYZabcdefghijklmnopqrstuvwxyz0123456789+/=".toList

/-- The value of the digit `c`. -/
def digit (c : Char) : Except Fault Nat :=
  match alphabet.findIdx? (· == c) with
  | some value => .ok value
  | none => .error (.invalidVlq c)

/-- The number that the bits of `n` stand for: the lowest is the sign. -/
def signed (n : Nat) : Int :=
  if n % 2 = 1 then -(n / 2 : Nat) else (n / 2 : Nat)

/-- The most digits that one number may have. -/
def maxDigits : Nat := 12

/-- The numbers of `cs` when the first of them has `count` digits already, of
the value `bits`.  A number that ends with the text unfinished is dropped. -/
def decodeFrom (count bits : Nat) : List Char → Except Fault (List Int)
  | [] => .ok []
  | c :: cs => do
    let value ← digit c
    if maxDigits ≤ count then .error (.invalidVlq c)
    else
      let bits := bits + (value % 32) <<< (5 * count)
      if value / 32 % 2 = 1 then decodeFrom (count + 1) bits cs
      else
        let rest ← decodeFrom 0 0 cs
        .ok (signed bits :: rest)

/-- The numbers that `text` spells. -/
def decode (text : String) : Except Fault (List Int) := decodeFrom 0 0 text.toList

end SizeAtlas.SourceMap.Vlq
