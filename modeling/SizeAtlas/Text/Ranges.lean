/-!
# Sets of characters given by their boundaries

A set of characters is written as the rising list of the code points at which
membership changes, so that the first entry opens the first range, the second
closes it, and so on.  A character belongs to the set when an odd number of
boundaries lie at or below it.

## Main definitions

* `Boundaries` — the rising list of code points.
* `Boundaries.mem` — membership of a character.
-/

namespace SizeAtlas.Text

/-- The code points at which membership in a set of characters changes. -/
abbrev Boundaries := Array Nat

namespace Boundaries

/-- How many boundaries lie at or below the code point `c`. -/
def countUpTo (bounds : Boundaries) (c : Nat) : Nat :=
  bounds.foldl (fun n b => if b ≤ c then n + 1 else n) 0

/-- Whether `c` lies inside one of the ranges. -/
def mem (bounds : Boundaries) (c : Char) : Bool :=
  bounds.countUpTo c.toNat % 2 == 1

end Boundaries

end SizeAtlas.Text
