import SizeAtlas.Json.Value

/-!
# JSON numbers as doubles

The double that stands for a number.  The leading digits that fit in 64 bits
become a double, which is then scaled by a power of ten.  Both steps round, so
the result can miss the nearest double by a little.

## Main definitions

* `Number.toDouble` — the double of a number, perhaps an infinite one.
* `Number.isFinite` — whether that double is finite.
-/

namespace SizeAtlas.Json

/-- The leading digits of a number that fit in 64 bits, and the power of ten
that they are scaled by. -/
def leadingDigits (digits : Nat) (exponent : Int) : Nat × Int :=
  if digits < UInt64.size then (digits, exponent) else leadingDigits (digits / 10) (exponent + 1)
termination_by digits
decreasing_by
  have : 0 < UInt64.size := by decide
  omega

/-- The double nearest to a power of ten. -/
def powerOfTen (k : Nat) : Float := Float.ofScientific 1 false k

/-- The double `x` divided by ten to the `k`, in steps that a double can hold. -/
def scaleDown (x : Float) (k : Nat) : Float :=
  if k ≤ 308 then x / powerOfTen k else scaleDown (x / powerOfTen 308) (k - 308)
termination_by k

namespace Number

/-- The double of a number.  Past three steps down every double is zero. -/
def toDouble (n : Number) : Float :=
  let (digits, exponent) := leadingDigits n.digits n.exponent
  let x := digits.toUInt64.toFloat
  let scaled :=
    if digits = 0 then x
    else if exponent < 0 then scaleDown x (min (-exponent).toNat 1000)
    else if 308 < exponent then 1.0 / 0.0
    else x * powerOfTen exponent.toNat
  if n.negative then -scaled else scaled

/-- Whether a number, as a double, is finite. -/
def isFinite (n : Number) : Bool := n.toDouble.isFinite

end Number

end SizeAtlas.Json
