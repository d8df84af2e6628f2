import SizeAtlas.Roster
import SizeAtlas.Symbol

/-!
# The symbols of one input

The symbols found in one input, one per qualified name, in the order in which
they were found, and the choice of names that no symbol has yet.

## Main definitions

* `SymbolTable` — a roster of symbols under their qualified names.
* `SymbolTable.total` — the bytes of all symbols.
* `freeName` — the first of a series of names that is free.
-/

namespace SizeAtlas

/-! ## Tables -/

/-- Symbols under their qualified names. -/
abbrev SymbolTable := Roster Symbol.name

namespace SymbolTable

/-- The bytes of all symbols together.  A word of 64 bits holds them if they are less than
`UInt64.size`. -/
def total (t : SymbolTable) : Nat := (t.entries.map Symbol.size).foldr (· + ·) 0

/-- Adds `n` bytes to the symbol named `name`. -/
def addSize (t : SymbolTable) (name : String) (n : Nat) : SymbolTable :=
  Roster.modify t name (Symbol.grow n) (Symbol.name_grow n)

/-- Notes for every symbol the file that it was found in. -/
def inFile (t : SymbolTable) (file : String) : SymbolTable :=
  Roster.map t (Symbol.inFile file) (Symbol.name_inFile file)

end SymbolTable

/-! ## Free names -/

/-- The series of names tried for something called `name`: the name itself, the
name with a tag, and that followed by a number.  A signed counter of 32 bits has
these numbers up to `2 ^ 31 - 1`, and goes on from the smallest behind that. -/
def nameCandidate (name tag : String) : Nat → String
  | 0 => name
  | 1 => name ++ "#" ++ tag
  | n + 2 => name ++ "#" ++ tag ++ "#" ++ toString (n + 1)

/-- The first candidate from the `i`-th on that is not taken, looking at no more
than `tries` before the last. -/
def firstFree (taken : List String) (candidate : Nat → String) : Nat → Nat → String
  | 0, i => candidate i
  | tries + 1, i =>
    if candidate i ∈ taken then firstFree taken candidate tries (i + 1) else candidate i

/-- The first name of the series of `name` and `tag` that is not taken.  One try
more than there are names taken is enough, since the series never repeats.  So if no more than
`2 ^ 31` names are taken, a counter of 32 bits comes to the same name. -/
def freeName (name tag : String) (taken : List String) : String :=
  firstFree taken (nameCandidate name tag) taken.length 0

end SizeAtlas
