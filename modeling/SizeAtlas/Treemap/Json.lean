import SizeAtlas.Fault
import SizeAtlas.Json.Reader
import SizeAtlas.Treemap.Block

/-!
# Drawn treemaps as JSON

A box is an object with its name and either its value or the list of the boxes
inside it.

## Main definitions

* `Block.toJson` — the value for a box.
* `Block.ofJson?` — the box that a value stands for.
* `Block.read?` — the box that a text holds.
-/

namespace SizeAtlas.Block

/-! ## Writing -/

mutual

/-- The JSON value for a box. -/
def toJson : Block → Json.Value
  | leaf name value => .object [("name", .text name), ("value", .ofNat value)]
  | group name parts => .object [("name", .text name), ("children", .list (listToJson parts))]

/-- The JSON values for several boxes. -/
def listToJson : List Block → List Json.Value
  | [] => []
  | b :: bs => b.toJson :: listToJson bs

end

/-! ## Reading -/

/-- The size that a value stands for: an unsigned integer of 64 bits. -/
def sizeOfJson? : Json.Value → Option Nat
  | .number n => if n.integral ∧ ¬n.negative ∧ n.digits < UInt64.size then some n.digits else none
  | _ => none

/-- The text of the only member called `name`. -/
def nameOfMembers? (members : List (String × Json.Value)) : Option String :=
  match members.filter (·.1 == "name") with
  | [(_, .text name)] => some name
  | _ => none

mutual

/-- The box that a value stands for.  Members other than the name and the first
of value and children are ignored. -/
def ofJson? : Json.Value → Option Block
  | .object members =>
    match nameOfMembers? members with
    | some name => ofMembers? name members
    | none => none
  | _ => none

/-- The box called `name` whose bytes the first fitting member gives. -/
def ofMembers? (name : String) : List (String × Json.Value) → Option Block
  | [] => none
  | (k, v) :: rest =>
    if k = "value" then (sizeOfJson? v).map (leaf name)
    else if k = "children" then
      match v with
      | .list items => (listOfJson? items).map (group name)
      | _ => none
    else ofMembers? name rest

/-- The boxes that several values stand for. -/
def listOfJson? : List Json.Value → Option (List Block)
  | [] => some []
  | v :: vs =>
    match ofJson? v, listOfJson? vs with
    | some b, some bs => some (b :: bs)
    | _, _ => none

end

/-- The box that `text` holds. -/
def read? (text : String) : Except Fault Block :=
  match (Json.read? text).bind ofJson? with
  | some b => .ok b
  | none => .error (.malformedJson "not a treemap")

end SizeAtlas.Block
