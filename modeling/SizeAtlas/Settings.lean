import SizeAtlas.Bytes.Reading

/-!
# The settings of a run

What a run may be told: when a part of a script is split up, whose text is
wanted, and how the names of a module are read.

## Main definitions

* `Settings` — the settings with their defaults.
* `Settings.threshold` — how many bytes the children of a node must exceed
  before the node is split.
-/

namespace SizeAtlas

/-- The settings of a run. -/
structure Settings where
  /-- The fraction of a file that the children of a split node exceed. -/
  expandFraction : Float := 0.35
  /-- The bytes that the children of a split node exceed. -/
  expandBytes : Nat := 0
  /-- The qualified names of the symbols whose text is wanted. -/
  dump : List String := []
  /-- How the bytes of a name in a module become text. -/
  wasmNames : Bytes.NameDecoding := .utf8
  deriving Repr, Inhabited

/-- The number `n`, below `2 ^ 64`, rounded to a double. -/
def doubleOfNat (n : Nat) : Float := n.toUInt64.toFloat

/-- The larger of two numbers; a first one that is not a number does not
count. -/
def larger (a b : Float) : Float := if a.isNaN || a < b then b else a

namespace Settings

/-- Sets the fraction, which may also be given as a percentage above one. -/
def withPercent (s : Settings) (percent : Float) : Settings :=
  { s with expandFraction := if 1.0 < percent then percent / 100.0 else percent }

/-- The bytes that the children of a node must exceed, in a file of `fileSize`
bytes, for the node to be split. -/
def threshold (s : Settings) (fileSize : Nat) : Float :=
  larger (s.expandFraction * doubleOfNat fileSize) (doubleOfNat s.expandBytes)

/-- Whether children of `bytesInside` bytes are many enough to split a node in a
file of `fileSize` bytes. -/
def splits (s : Settings) (fileSize bytesInside : Nat) : Bool :=
  s.threshold fileSize < doubleOfNat bytesInside

end Settings

end SizeAtlas
