import SizeAtlas.Treemap.Parcel

/-!
# Treemaps as they are drawn

The form of a treemap that is handed to a drawing: every box is either a value
or a list of boxes, ordered by size, and its size is that of what it lists, counted
in a word of 64 bits.

## Main definitions

* `Block` — a box of the drawn treemap.
* `Parcel.toBlock` — the drawn form, down to a depth.
* `Block.find?` — the box at the end of a path.
-/

namespace SizeAtlas

/-- A box of the drawn treemap. -/
inductive Block where
  /-- A box that is not divided. -/
  | leaf (name : String) (value : Nat)
  /-- A box that is divided among others. -/
  | group (name : String) (parts : List Block)
  deriving Repr, Inhabited

namespace Block

/-- The name of a box. -/
def name : Block → String
  | leaf name _ => name
  | group name _ => name

/-- The boxes that a box is divided among. -/
def parts : Block → List Block
  | leaf _ _ => []
  | group _ parts => parts

mutual

/-- The bytes of a box. -/
def size : Block → Nat
  | leaf _ value => value
  | group _ parts => sizeOfAll parts

/-- The bytes of several boxes. -/
def sizeOfAll : List Block → Nat
  | [] => 0
  | b :: bs => Count.add b.size (sizeOfAll bs)

end

/-- Whether `a` may stand before `b`: the larger first, and of equal ones that
with the smaller name. -/
def inOrder (a b : Block) : Bool :=
  b.size < a.size || (a.size == b.size && !decide (b.name < a.name))

/-- The box at the end of a path from `b`, whose names are separated by
slashes. -/
def find? (b : Block) (path : String) : Option Block :=
  (Text.segments (· == '/') path).foldlM (fun b name => b.parts.find? (·.name == name)) b

/-- The name of the box for the bytes that lie in no inner box. -/
def ownName : String := "(self)"

end Block

namespace Parcel

mutual

/-- The drawn form of a box, with at most `depth` levels inside it.  The bytes
that no inner box holds get a box of their own. -/
def toBlock (depth : Nat) : Parcel → Block
  | mk name size parts =>
    match depth with
    | 0 => .leaf name size
    | depth + 1 =>
      if parts.isEmpty then .leaf name size
      else
        let own := (mk name size parts).ownSize
        let ownBlock := if 0 < own then [Block.leaf Block.ownName own] else []
        .group name ((toBlocks depth parts ++ ownBlock).mergeSort Block.inOrder)

/-- The drawn forms of several boxes. -/
def toBlocks (depth : Nat) : List Parcel → List Block
  | [] => []
  | p :: ps => p.toBlock depth :: toBlocks depth ps

end

end Parcel

end SizeAtlas
