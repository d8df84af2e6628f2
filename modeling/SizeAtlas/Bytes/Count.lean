/-!
# Counting bytes in words

A treemap counts bytes in words of 64 bits.  Behind the largest number of a word a counter goes
on from zero, so it holds what was counted modulo `UInt64.size`, and it holds all of it as long
as that is less than `UInt64.size`.

## Main definitions

* `Count.add` — adding to a counter.
* `Count.sum` — adding up on a counter.
-/

namespace SizeAtlas.Count

/-- Adds as a word of 64 bits does. -/
def add (m n : Nat) : Nat := (m + n) % UInt64.size

/-- Adds up as a word of 64 bits does. -/
def sum (ns : List Nat) : Nat := ns.foldr add 0

theorem add_of_lt {m n : Nat} (small : m + n < UInt64.size) : add m n = m + n :=
  Nat.mod_eq_of_lt small

@[simp] theorem sum_cons (n : Nat) (ns : List Nat) : sum (n :: ns) = add n (sum ns) := rfl

end SizeAtlas.Count
